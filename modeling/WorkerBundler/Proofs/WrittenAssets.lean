import WorkerBundler.Proofs.Builds
import WorkerBundler.Proofs.DiskChanges
import WorkerBundler.Proofs.PlainPaths
import WorkerBundler.Proofs.Redirect
import WorkerBundler.Proofs.UniqueNames

/-!
# What a written bundle leaves on the disk

After a bundle is written, the file of each asset holds the content of the last asset that leads to
the same place (`Bundler.written_of_write`). Whether that is the asset itself depends on the names.
The file names of chunks are unique (`Chunk.nodup_lowercase_named`), but two of them may be
spellings of one path, and the name of a map, which is made of the name of its chunk, may be that of
another chunk. If the names of the chunks are plain paths and none of them is the name of a map,
each asset has its file.
-/

namespace WorkerBundler

open OutputDirectory (pathIn LastLike)

variable {σ : Type}

namespace Bundle

/-! ## The assets of the chunks -/

variable {names : FileNames} {kind : Option SourceMapKind} {file code : String}
  {map : Option SourceMap}

/-- Whether maps are files of their own. -/
def WritesMaps (kind : Option SourceMapKind) : Prop :=
  kind = some .file ∨ kind = some .hidden

/-- The group consists of the assets of the chunk. -/
def IsGroupOf (names : FileNames) (kind : Option SourceMapKind) (c : Chunk) (group : List Asset) :
    Prop :=
  ∃ file code map, c.fileName names = .ok file ∧ group = assetsOf kind file code map

theorem fileName_of_mem_assetsOf {a : Asset} (mem : a ∈ assetsOf kind file code map) :
    a.fileName = file ∨ a.fileName = file ++ ".map" ∧ WritesMaps kind := by
  unfold assetsOf at mem
  split at mem
  · rcases List.mem_cons.1 mem with rfl | mem
    · exact Or.inl rfl
    · obtain rfl := List.mem_singleton.1 mem
      exact Or.inr ⟨rfl, Or.inl rfl⟩
  · rcases List.mem_cons.1 mem with rfl | mem
    · exact Or.inl rfl
    · obtain rfl := List.mem_singleton.1 mem
      exact Or.inr ⟨rfl, Or.inr rfl⟩
  · obtain rfl := List.mem_singleton.1 mem
    exact Or.inl rfl
  · obtain rfl := List.mem_singleton.1 mem
    exact Or.inl rfl

theorem ne_append_map (file : String) : file ≠ file ++ ".map" := by
  intro same
  have length := congrArg String.length same
  rw [String.length_append] at length
  exact absurd length (Nat.ne_of_lt (Nat.lt_add_of_pos_right (by decide)))

theorem nodup_assetsOf : ((assetsOf kind file code map).map Asset.fileName).Nodup := by
  have apart : [file, file ++ ".map"].Nodup :=
    List.nodup_cons.2 ⟨by simpa using ne_append_map file, List.nodup_singleton _⟩
  unfold assetsOf
  split
  · exact apart
  · exact apart
  · exact List.nodup_singleton _
  · exact List.nodup_singleton _

/-- An asset has the name of its chunk, or the name of the map of its chunk. -/
theorem fileName_of_mem_group {c : Chunk} {group : List Asset} (h : IsGroupOf names kind c group)
    {a : Asset} (mem : a ∈ group) : ∃ file, (c.module, file) ∈ names ∧
      (a.fileName = file ∨ a.fileName = file ++ ".map" ∧ WritesMaps kind) := by
  obtain ⟨file, code, map, named, rfl⟩ := h
  refine ⟨file, ?_, fileName_of_mem_assetsOf mem⟩
  obtain ⟨n, found, rfl⟩ := Option.map_eq_some_iff.1 (Chunk.of_fileName named)
  have here : n.1 = c.module := by simpa using List.find?_some found
  exact here ▸ List.mem_of_find?_eq_some found

/-- If the names of chunks are unique and none of them is that of a map, those of assets are unique.
-/
theorem nodup_fileNames {chunks : List Chunk} {groups : List (List Asset)}
    (unique : (names.map fun n => Text.lowercase n.2).Nodup)
    (apart : WritesMaps kind → ∀ n ∈ names, ∀ m ∈ names, n.2 ≠ m.2 ++ ".map")
    (modules : (chunks.map Chunk.module).Nodup)
    (each : List.Forall₂ (IsGroupOf names kind) chunks groups) :
    (groups.flatten.map Asset.fileName).Nodup := by
  induction each with
  | nil => exact .nil
  | @cons c group chunks groups here later ih =>
    rw [List.map_cons, List.nodup_cons] at modules
    rw [List.flatten_cons, List.map_append]
    refine List.Nodup.append ?_ (ih modules.2) ?_
    · obtain ⟨file, code, map, _, rfl⟩ := here
      exact nodup_assetsOf
    · intro name left right
      obtain ⟨a, mem, rfl⟩ := List.mem_map.1 left
      obtain ⟨b, mem', same⟩ := List.mem_map.1 right
      obtain ⟨group', listed, mem'⟩ := List.mem_flatten.1 mem'
      obtain ⟨c', later, there⟩ := exists_of_forall₂_right later listed
      obtain ⟨f, known, ofChunk⟩ := fileName_of_mem_group here mem
      obtain ⟨g, known', ofChunk'⟩ := fileName_of_mem_group there mem'
      have other : f ≠ g := by
        rintro rfl
        have one : c.module = c'.module := congrArg Prod.fst (eq_of_key unique known known' rfl)
        exact modules.1 (one ▸ List.mem_map_of_mem later)
      rcases ofChunk with isFile | ⟨isMap, maps⟩
      · rcases ofChunk' with isFile' | ⟨isMap', maps⟩
        · exact other (isFile.symm.trans (same.symm.trans isFile'))
        · exact apart maps _ known _ known' (isFile.symm.trans (same.symm.trans isMap'))
      · rcases ofChunk' with isFile' | ⟨isMap', _⟩
        · exact apart maps _ known' _ known (isFile'.symm.trans (same.trans isMap))
        · have whole := isMap.symm.trans (same.symm.trans isMap')
          exact other (String.append_left_inj _ |>.1 whole)

/-- The groups of assets of a bundle are those of its chunks. -/
theorem groups_of_ofGraph {plugins : List (Plugin σ)} {cwd : String} {o : OutputOptions}
    {g : Graph} {session : Session σ} {assets : List Asset}
    (h : (ofGraph plugins cwd o g session).1 = .ok assets) :
    ∃ names groups, Chunk.named g o (Chunk.ofGraph g) = .ok names ∧ assets = groups.flatten ∧
      List.Forall₂ (IsGroupOf names o.sourceMap) (Chunk.ofGraph g) groups := by
  obtain ⟨names, _, groups, named, _, whole, each⟩ :=
    forall₂_ofGraph (fun _ _ => True) (fun _ => trivial) (fun _ _ _ _ _ => trivial) h
  refine ⟨names, groups, named, whole, each.imp ?_⟩
  rintro c group ⟨x, ⟨rfl, _⟩, chunk, _, code, _, _, told, _, _, rfl⟩
  obtain ⟨file, named, same⟩ := exists_of_bind_ok told
  cases same
  exact ⟨file, code, _, named, rfl⟩

end Bundle

/-! ## The written bundle -/

/-- A bundle that is written was built, and its assets were written. -/
theorem Bundler.of_write {b after : Bundler σ} {disk disk' : Disk} {limit : Nat}
    {o : OutputOptions} {dir : Option String} {assets : List Asset} {warnings : List BuildError}
    (h : b.write disk limit o dir = some (⟨.ok assets, warnings⟩, disk', after)) :
    b.build disk limit o = some (⟨.ok assets, warnings⟩, after) ∧
      OutputDirectory.write (OutputDirectory.location b.options.cwd dir) assets disk =
        (.ok (), disk') := by
  unfold Bundler.write at h
  split at h
  · cases h
  · rename_i report b' built
    have options := Bundler.options_of_build built
    split at h
    · rename_i failed
      cases h
      cases failed
    · rename_i assets' made
      split at h
      · rename_i written
        cases h
        cases made
        exact ⟨built, options ▸ written⟩
      · cases h

theorem OutputDirectory.written_of_ok {disk disk' : Disk} {dir : String} {assets : List Asset}
    (h : OutputDirectory.write dir assets disk = (.ok (), disk')) :
    ∀ a ∈ assets, ∃ last, LastLike disk dir assets a last ∧
      disk'.lookup? (pathIn dir a) = some (.file last.content.toUTF8) := by
  have kept : disk.Keeps (fun _ => True) (disk.makeDirectories dir).2 :=
    Disk.keeps_makeDirectoriesWithin disk dir _
  unfold OutputDirectory.write at h
  split at h
  · cases h
  · rename_i made same
    rw [same] at kept
    intro a mem
    obtain ⟨last, like, _, found⟩ := (written_of_writeAssets h).2 a mem
    simp only [LastLike, kept.placeOf] at like
    exact ⟨last, like, found⟩

theorem OutputDirectory.LastLike.mem {disk : Disk} {dir : String} {assets : List Asset}
    {a last : Asset} (h : LastLike disk dir assets a last) : last ∈ assets := by
  obtain ⟨earlier, later, rfl, _⟩ := h
  exact List.mem_append_right _ List.mem_cons_self

/-- **A written bundle leaves in the file of each asset the content of the last asset that leads
there.** The names of the chunks are unique. If they are also plain paths, and none of them is the
name of a map, the file of each asset holds the content of this asset. -/
theorem Bundler.written_of_write {b after : Bundler σ} {disk disk' : Disk} {limit : Nat}
    {o : OutputOptions} {dir : Option String} {assets : List Asset} {warnings : List BuildError}
    (h : b.write disk limit o dir = some (⟨.ok assets, warnings⟩, disk', after)) :
    (∀ a ∈ assets, ∃ last,
      LastLike disk (OutputDirectory.location b.options.cwd dir) assets a last ∧
      disk'.lookup? (pathIn (OutputDirectory.location b.options.cwd dir) a) =
        some (.file last.content.toUTF8)) ∧
    ∃ l names, b.Generates disk o l assets ∧
      Chunk.named l.graph o (Chunk.ofGraph l.graph) = .ok names ∧
      (names.map fun n => Text.lowercase n.2).Nodup ∧
      ((∀ n ∈ names, Path.IsPlain n.2) →
        (Bundle.WritesMaps o.sourceMap → ∀ n ∈ names, ∀ m ∈ names, n.2 ≠ m.2 ++ ".map") →
        ∀ a ∈ assets, disk'.lookup? (pathIn (OutputDirectory.location b.options.cwd dir) a) =
          some (.file a.content.toUTF8)) := by
  obtain ⟨built, written⟩ := Bundler.of_write h
  have each := OutputDirectory.written_of_ok written
  obtain ⟨l, made⟩ := Bundler.generates_of_build built
  obtain ⟨names, groups, named, rfl, ofChunks⟩ := Bundle.groups_of_ofGraph made.bundles
  have unique := Chunk.nodup_lowercase_named named
  refine ⟨each, l, names, made, named, unique, ?_⟩
  intro plain apart a mem
  have fileNames := Bundle.nodup_fileNames unique apart (Chunk.nodup_modules_ofGraph l.graph)
    ofChunks
  have plainAssets : ∀ x ∈ groups.flatten, Path.IsPlain x.fileName := by
    intro x mem
    obtain ⟨group, listed, mem⟩ := List.mem_flatten.1 mem
    obtain ⟨c, _, own⟩ := exists_of_forall₂_right ofChunks listed
    obtain ⟨file, known, ofChunk⟩ := Bundle.fileName_of_mem_group own mem
    have plainFile : Path.IsPlain file := plain _ known
    rcases ofChunk with isFile | ⟨isMap, _⟩
    · rw [isFile]
      exact plainFile
    · rw [isMap]
      exact plainFile.append (by decide) (by decide)
  obtain ⟨last, like, found⟩ := each a mem
  obtain ⟨_, _, _, there, _⟩ := id like
  have down : ∀ x ∈ groups.flatten,
      disk.placeOf (pathIn (OutputDirectory.location b.options.cwd dir) x) =
        Path.follow (disk.placeOf (OutputDirectory.location b.options.cwd dir)) x.fileName :=
    fun x mem => DiskPath.placeFrom_join _ _ (DiskPath.isAbsolute_of_plain (plainAssets x mem))
  rw [down last like.mem, down a mem] at there
  have same : last.fileName = a.fileName :=
    (plainAssets last like.mem).inj (plainAssets a mem) there
  rw [found, eq_of_key fileNames like.mem mem same]

/-! ## The name of a map -/

/-- A plugin with a module of every name, whose text is its name. -/
def echoPlugin : Plugin Unit where
  name := "echo"
  resolveId request := return some ⟨request.specifier, false⟩
  load id := return some id

/-- A bundler with two entries, the second of which has the name of the map of the first one. -/
def mapNameBundler : Bundler Unit :=
  .new { input := [⟨"a", "a"⟩, ⟨"a.map", "b"⟩], cwd := "/", externalTest := fun _ _ _ => .ok false,
         plugins := [echoPlugin] } ()

/-- The settings with which chunks have the names of their entries. -/
def bareNames : OutputOptions where
  entryFileNames := "[name]"
  sourceMap := some .hidden

theorem write_mapNameBundler :
    ((mapNameBundler.write ⟨[], []⟩ 2 bareNames none).bind fun r =>
      r.1.result.toOption.map fun assets =>
        (assets.map fun a => (a.fileName, decide (a.content = "b")),
          r.2.1.lookup? "/dist/a.map")) =
      some ([("a", false), ("a.map", false), ("a.map", true), ("a.map.map", false)],
        some (.file "b".toUTF8)) := by
  decide +kernel

/-- The map of the first chunk is overwritten by the second chunk. -/
theorem overwritten_mapNameBundler : ∃ assets warnings disk' after,
    mapNameBundler.write ⟨[], []⟩ 2 bareNames none = some (⟨.ok assets, warnings⟩, disk', after) ∧
      ∃ a ∈ assets, ∃ last, LastLike ⟨[], []⟩ "/dist" assets a last ∧
        disk'.lookup? (pathIn "/dist" a) = some (.file last.content.toUTF8) ∧
        last.content ≠ a.content := by
  obtain ⟨⟨⟨result, warnings⟩, disk', after⟩, written, known⟩ :=
    Option.bind_eq_some_iff.1 write_mapNameBundler
  obtain ⟨assets, done, same⟩ := Option.map_eq_some_iff.1 known
  obtain ⟨listed, lies⟩ := Prod.mk.inj same
  obtain rfl : result = .ok assets := eq_ok_of_toOption done
  obtain ⟨each, _⟩ := Bundler.written_of_write written
  have second : ("a.map", false) ∈ assets.map fun a => (a.fileName, decide (a.content = "b")) := by
    rw [listed]
    decide
  obtain ⟨a, mem, fits⟩ := List.mem_map.1 second
  obtain ⟨named, other⟩ := Prod.mk.inj fits
  obtain ⟨last, like, found⟩ := each a mem
  refine ⟨assets, warnings, disk', after, written, a, mem, last, like, found, ?_⟩
  intro equal
  have path : pathIn (OutputDirectory.location mapNameBundler.options.cwd none) a =
      "/dist/a.map" := by
    rw [pathIn, named]
    decide
  rw [path, lies, equal] at found
  have text : "b".toUTF8 = a.content.toUTF8 := DiskEntry.file.inj (Option.some.inj found)
  exact of_decide_eq_false other (String.toByteArray_inj.1 text).symm

end WorkerBundler
