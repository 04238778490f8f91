import WorkerBundler.OutputDirectory

/-!
# What changes of the disk leave

Creating directories and writing files only add to the disk, but for the contents of the files that
are written (`Keeps`). So a path that leads somewhere goes on leading there (`Keeps.locate`), and it
leads to the place that its parts denote, whatever else is on the disk (`placeOf_of_locate`).

Writing a list of assets therefore leaves in each of their files the content of the last asset that
leads to it (`written_of_writeAssets`).
-/

namespace WorkerBundler

namespace Disk

variable {d d' d'' : Disk} {changed : List String → Prop} {place : List String} {path : String}

/-- What lies on the disk stays, but files may have other contents at the changed places. -/
structure Keeps (changed : List String → Prop) (d d' : Disk) : Prop where
  workingDirectory : d'.workingDirectory = d.workingDirectory
  directories : ∀ place, d.entryAt place = some .directory → d'.entryAt place = some .directory
  files : ∀ place content, d.entryAt place = some (.file content) →
    ∃ content', d'.entryAt place = some (.file content') ∧ (¬changed place → content' = content)

theorem Keeps.refl (changed : List String → Prop) (d : Disk) : d.Keeps changed d :=
  ⟨rfl, fun _ there => there, fun _ content there => ⟨content, there, fun _ => rfl⟩⟩

theorem Keeps.trans (first : d.Keeps changed d') (second : d'.Keeps changed d'') :
    d.Keeps changed d'' := by
  refine ⟨second.workingDirectory.trans first.workingDirectory,
    fun place there => second.directories place (first.directories place there), ?_⟩
  intro place content there
  obtain ⟨content', there', same'⟩ := first.files place content there
  obtain ⟨content'', there'', same''⟩ := second.files place content' there'
  exact ⟨content'', there'', fun other => (same'' other).trans (same' other)⟩

theorem Keeps.mono {more : List String → Prop} (h : d.Keeps changed d')
    (wider : ∀ place, changed place → more place) : d.Keeps more d' := by
  refine ⟨h.workingDirectory, h.directories, ?_⟩
  intro place content there
  obtain ⟨content', there', same⟩ := h.files place content there
  exact ⟨content', there', fun other => same fun known => other (wider place known)⟩

theorem Keeps.ne_none (h : d.Keeps changed d') (there : d.entryAt place ≠ none) :
    d'.entryAt place ≠ none := by
  obtain ⟨e, entry⟩ := Option.ne_none_iff_exists'.1 there
  cases e with
  | directory =>
    rw [h.directories place entry]
    exact Option.some_ne_none _
  | file content =>
    obtain ⟨content', there', _⟩ := h.files place content entry
    rw [there']
    exact Option.some_ne_none _

/-! ## Single changes -/

theorem keeps_put_directory (free : d.entryAt place = none) :
    d.Keeps changed (d.put place .directory) := by
  have other : ∀ p e, d.entryAt p = some e → (d.put place .directory).entryAt p = some e := by
    intro p e there
    have apart : p ≠ place := by
      rintro rfl
      cases free.symm.trans there
    rw [entryAt_put_of_ne d apart, there]
  exact ⟨rfl, fun p there => other p _ there, fun p content there =>
    ⟨content, other p _ there, fun _ => rfl⟩⟩

theorem keeps_put_file {content : ByteArray} (nonempty : place ≠ [])
    (free : d.entryAt place ≠ some .directory) :
    d.Keeps (· = place) (d.put place (.file content)) := by
  refine ⟨rfl, ?_, ?_⟩
  · intro p there
    have apart : p ≠ place := by
      rintro rfl
      exact free there
    rw [entryAt_put_of_ne d apart, there]
  · intro p old there
    by_cases here : p = place
    · rw [here]
      exact ⟨content, entryAt_put_self d nonempty _, fun other => absurd rfl other⟩
    · exact ⟨old, by rw [entryAt_put_of_ne d here, there], fun _ => rfl⟩

theorem keeps_of_makeDirectory (h : d.makeDirectory path = .ok d') : d.Keeps changed d' := by
  unfold makeDirectory at h
  obtain ⟨found, _, h⟩ := exists_of_bind_ok h
  split at h
  · cases h
  · split at h
    · cases h
    · split at h
      · cases h
      · split at h
        · cases h
        · rename_i free
          cases h
          exact keeps_put_directory (Option.not_isSome_iff_eq_none.1 free)

theorem keeps_of_ensureDirectory (h : d.ensureDirectory path = .ok d') : d.Keeps changed d' := by
  unfold ensureDirectory at h
  split at h
  · rename_i made
    cases h
    exact keeps_of_makeDirectory made
  · split at h
    · cases h
      exact .refl changed d
    · cases h

/-- Creating directories keeps what is on the disk, whether or not it comes to an end. -/
theorem keeps_makeDirectoriesWithin (d : Disk) (path : String) (fuel : Nat) :
    d.Keeps changed (d.makeDirectoriesWithin path fuel).2 := by
  induction fuel generalizing path with
  | zero => exact .refl changed d
  | succ fuel ih =>
    unfold makeDirectoriesWithin
    split
    · exact .refl changed d
    · split
      · rename_i made
        exact keeps_of_makeDirectory made
      · split
        · exact .refl changed d
        · rename_i parent _
          have above := ih parent
          split
          · rename_i same
            rw [same] at above
            exact above
          · rename_i same
            rw [same] at above
            split
            · rename_i made
              exact above.trans (keeps_of_ensureDirectory made)
            · exact above
      · split
        · exact .refl changed d
        · exact .refl changed d

/-! ## Following paths -/

/-- The place that a path denotes on the disk, whether or not something lies there. -/
def placeOf (d : Disk) (path : String) : List String :=
  DiskPath.placeFrom d.workingDirectory path

/-- A path leads on by one part from a directory, to a place where something lies. -/
theorem walk_cons_eq_ok_iff {part : String} {rest goal : List String} :
    d.walk place (part :: rest) = .ok goal ↔
      d.entryAt place = some .directory ∧
        (Path.enter place part = place ++ [part] →
          part.utf8ByteSize ≤ nameLimit ∧ d.entryAt (place ++ [part]) ≠ none) ∧
        d.walk (Path.enter place part) rest = .ok goal := by
  have longer : place ≠ place ++ [part] := by simp
  have shorter : ∀ name, place.dropLast ≠ place ++ [name] := by
    intro name same
    have length := congrArg List.length same
    rw [List.length_dropLast, List.length_append, List.length_singleton] at length
    omega
  rw [Disk.walk, Path.enter, isDirectoryAt, DiskPath.isIdle]
  by_cases directory : d.entryAt place = some .directory
  · by_cases idle : part = "" ∨ part = "."
    · simp [directory, idle, longer]
    · by_cases up : part = ".."
      · simp [directory, up, shorter]
      · by_cases long : nameLimit < part.utf8ByteSize
        · simp [directory, idle, up, long, Nat.not_le.2 long]
        · by_cases there : d.entryAt (place ++ [part]) = none
          · simp [directory, idle, up, long, there]
          · simp [directory, idle, up, long, there, Nat.not_lt.1 long]
  · simp [directory]

/-- A path that leads somewhere leads to what its parts denote. -/
theorem eq_of_walk {parts goal : List String} (led : d.walk place parts = .ok goal) :
    goal = parts.foldl Path.enter place := by
  induction parts generalizing place with
  | nil =>
    cases led
    rfl
  | cons part rest ih => exact ih (walk_cons_eq_ok_iff.1 led).2.2

/-- A path that leads somewhere leads there after a change, too. -/
theorem Keeps.walk (h : d.Keeps changed d') {parts goal : List String}
    (led : d.walk place parts = .ok goal) : d'.walk place parts = .ok goal := by
  induction parts generalizing place with
  | nil => exact led
  | cons part rest ih =>
    obtain ⟨directory, down, led⟩ := walk_cons_eq_ok_iff.1 led
    refine walk_cons_eq_ok_iff.2 ⟨h.directories place directory, ?_, ih led⟩
    intro enters
    exact ⟨(down enters).1, h.ne_none (down enters).2⟩

theorem walk_append {parts more middle goal : List String}
    (led : d.walk place parts = .ok middle) (on : d.walk middle more = .ok goal) :
    d.walk place (parts ++ more) = .ok goal := by
  induction parts generalizing place with
  | nil =>
    cases led
    exact on
  | cons first rest ih =>
    obtain ⟨directory, down, led⟩ := walk_cons_eq_ok_iff.1 led
    exact walk_cons_eq_ok_iff.2 ⟨directory, down, ih led⟩

theorem placeOf_of_locate (led : d.locate path = .ok place) : place = d.placeOf path := by
  obtain ⟨_, _, led⟩ := exists_of_bind_ok led
  rw [eq_of_walk led, placeOf, DiskPath.placeFrom, startOf, Path.segments, Path.follow, Path.follow]
  split <;> rfl

theorem Keeps.locate (h : d.Keeps changed d') (led : d.locate path = .ok place) :
    d'.locate path = .ok place := by
  unfold Disk.locate Disk.startOf at led ⊢
  obtain ⟨_, passes, led⟩ := exists_of_bind_ok led
  rw [passes, h.workingDirectory]
  exact h.walk led

theorem Keeps.placeOf (h : d.Keeps changed d') (path : String) :
    d'.placeOf path = d.placeOf path := by
  rw [Disk.placeOf, h.workingDirectory, Disk.placeOf]

theorem lookup?_of_locate (led : d.locate path = .ok place) : d.lookup? path = d.entryAt place := by
  rw [lookup?, led]

/-! ## Writing a file -/

/-- The last part of a path that does not end in a slash. -/
theorem target_eq_ok {last : String} (h : d.target path = .ok (some (place, last, false))) :
    checkPath path = .ok () ∧ last ≠ "" ∧ d.entryAt place = some .directory ∧
      ∃ before, Text.parts '/' path = before ++ [last] ∧
        d.walk (d.startOf path) before = .ok place := by
  unfold target at h
  obtain ⟨_, passes, h⟩ := exists_of_bind_ok h
  dsimp only at h
  split at h
  · cases h
  · rename_i last' before found
    obtain ⟨place', led, h⟩ := exists_of_bind_ok h
    split at h
    · rename_i directory
      obtain ⟨rfl, rfl, bare⟩ : place' = place ∧ last' = last ∧
          decide ((Text.parts '/' path).getLast? = some "") = false := by simpa using h
      rw [isDirectoryAt, beq_iff_eq] at directory
      rw [decide_eq_false_iff_not, ← List.head?_reverse] at bare
      cases split : (Text.parts '/' path).reverse with
      | nil =>
        rw [split] at found
        cases found
      | cons first rest =>
        rw [split, List.head?_cons, Option.some_inj] at bare
        rw [split, List.dropWhile_cons_of_neg (by simpa using bare)] at found
        obtain ⟨rfl, rfl⟩ := List.cons.inj found
        refine ⟨passes, bare, directory, rest.reverse, ?_, led⟩
        rw [← List.reverse_cons, ← split, List.reverse_reverse]
    · cases h

/-- A file that is written lies where its path leads afterwards. -/
theorem writeFile_eq_ok {content : ByteArray} (h : d.writeFile path content = .ok d') :
    d.Keeps (· = d.placeOf path) d' ∧ d'.locate path = .ok (d.placeOf path) ∧
      d'.entryAt (d.placeOf path) = some (.file content) := by
  unfold writeFile at h
  obtain ⟨found, aimed, h⟩ := exists_of_bind_ok h
  split at h
  · cases h
  · rename_i place last slashed
    split at h
    · cases h
    · rename_i named
      split at h
      · cases h
      · rename_i short
        split at h
        · cases h
        · rename_i free
          cases h
          rw [not_or, not_or] at named
          obtain ⟨here, up, bare⟩ := named
          obtain rfl : slashed = false := by simpa using bare
          obtain ⟨passes, nonempty, directory, before, split, led⟩ := target_eq_ok aimed
          have entered : Path.enter place last = place ++ [last] := by
            rw [Path.enter, if_neg (not_or.2 ⟨nonempty, here⟩), if_neg up]
          have below : place ++ [last] ≠ [] :=
            List.append_ne_nil_of_right_ne_nil _ (List.cons_ne_nil last [])
          have kept : d.Keeps (· = place ++ [last]) (d.put (place ++ [last]) (.file content)) :=
            keeps_put_file below fun lies => free lies
          have there := entryAt_put_self d below (.file content)
          have located : (d.put (place ++ [last]) (.file content)).locate path =
              .ok (place ++ [last]) := by
            unfold locate
            rw [passes, split]
            refine walk_append (kept.walk led) (walk_cons_eq_ok_iff.2
              ⟨kept.directories place directory, ?_, by rw [entered, walk]⟩)
            intro _
            rw [there]
            exact ⟨Nat.not_lt.1 short, Option.some_ne_none _⟩
          have same := (placeOf_of_locate located).trans (kept.placeOf path)
          rw [same] at kept there located ⊢
          exact ⟨kept, located, there⟩

end Disk

/-! ## Writing assets -/

namespace OutputDirectory

open Disk (Keeps)

variable {disk disk' : Disk} {dir : String} {assets : List Asset}

/-- The path of an asset in a directory. -/
def pathIn (dir : String) (a : Asset) : String :=
  DiskPath.join dir a.fileName

/-- The last of the assets that leads to the same place as `a`. -/
def LastLike (disk : Disk) (dir : String) (assets : List Asset) (a last : Asset) : Prop :=
  ∃ earlier later, assets = earlier ++ last :: later ∧
    disk.placeOf (pathIn dir last) = disk.placeOf (pathIn dir a) ∧
    ∀ b ∈ later, disk.placeOf (pathIn dir b) ≠ disk.placeOf (pathIn dir a)

theorem keeps_of_makeParent {changed : List String → Prop} {path : String}
    (h : makeParent disk path = (.ok (), disk')) : disk.Keeps changed disk' := by
  unfold makeParent at h
  split at h
  · cases h
    exact .refl changed disk
  · rename_i parent _
    split at h
    · cases h
      exact .refl changed disk
    · have made : disk.Keeps changed (disk.makeDirectories parent).2 :=
        Disk.keeps_makeDirectoriesWithin disk parent _
      split at h
      · rename_i same
        cases h
        rw [same] at made
        exact made
      · cases h

/-- Written assets leave in each of their files the content of the last asset that leads to it. -/
theorem written_of_writeAssets (h : writeAssets dir assets disk = (.ok (), disk')) :
    disk.Keeps (fun place => ∃ a ∈ assets, disk.placeOf (pathIn dir a) = place) disk' ∧
      ∀ a ∈ assets, ∃ last, LastLike disk dir assets a last ∧
        disk'.locate (pathIn dir a) = .ok (disk.placeOf (pathIn dir a)) ∧
        disk'.lookup? (pathIn dir a) = some (.file last.content.toUTF8) := by
  induction assets generalizing disk with
  | nil =>
    cases h
    exact ⟨.refl _ _, nofun⟩
  | cons asset rest ih =>
    unfold writeAssets at h
    dsimp only at h
    split at h
    · cases h
    · rename_i made parent
      split at h
      · cases h
      · rename_i written wrote
        have above : disk.Keeps
            (fun place => ∃ a ∈ asset :: rest, disk.placeOf (pathIn dir a) = place) made :=
          keeps_of_makeParent parent
        obtain ⟨kept, located, there⟩ := Disk.writeFile_eq_ok wrote
        obtain ⟨keptRest, each⟩ := ih h
        have same : ∀ path, written.placeOf path = disk.placeOf path :=
          fun path => (kept.placeOf path).trans (above.placeOf path)
        simp only [LastLike, same] at keptRest each
        have led : disk'.locate (pathIn dir asset) = .ok (disk.placeOf (pathIn dir asset)) := by
          rw [← above.placeOf]
          exact keptRest.locate located
        refine ⟨(above.trans (kept.mono ?_)).trans (keptRest.mono ?_), ?_⟩
        · rintro place rfl
          exact ⟨asset, List.mem_cons_self, (above.placeOf _).symm⟩
        · rintro place ⟨a, mem, here⟩
          exact ⟨a, List.mem_cons_of_mem _ mem, here⟩
        · intro a mem
          rcases List.mem_cons.1 mem with rfl | mem
          · by_cases again : ∃ b ∈ rest, disk.placeOf (pathIn dir b) = disk.placeOf (pathIn dir a)
            · obtain ⟨b, mem, here⟩ := again
              obtain ⟨last, ⟨earlier, later, split, like, others⟩, led', found⟩ := each b mem
              rw [here] at like others led'
              refine ⟨last, ⟨a :: earlier, later, by rw [split]; rfl, like, others⟩, led, ?_⟩
              rw [← found, Disk.lookup?_of_locate led, Disk.lookup?_of_locate led']
            · refine ⟨a, ⟨[], rest, rfl, rfl, ?_⟩, led, ?_⟩
              · intro b mem here
                exact again ⟨b, mem, here⟩
              · obtain ⟨content, found, unchanged⟩ := keptRest.files _ _ there
                rw [above.placeOf] at found unchanged
                rw [Disk.lookup?_of_locate led, ← unchanged again]
                exact found
          · obtain ⟨last, ⟨earlier, later, split, like, others⟩, found⟩ := each a mem
            exact ⟨last, ⟨asset :: earlier, later, by rw [split]; rfl, like, others⟩, found⟩

end OutputDirectory

end WorkerBundler
