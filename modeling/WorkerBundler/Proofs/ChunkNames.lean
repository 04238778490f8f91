import WorkerBundler.Proofs.Loading.Emissions
import WorkerBundler.Proofs.Redirect
import WorkerBundler.Proofs.UniqueNames

/-!
# The file names of the chunks

The chunks of a loaded graph are named one after the other (`names_of_loads`). The name of a chunk
is what its template asks for where that is free, and else the first numbered name that is
(`FileName.IsFirstFree`); a name is free if no chunk before has it in lower case. So the names
differ in more than case, and the reference of a recorded emission gives the name of the chunk of
its module.
-/

namespace WorkerBundler

variable {σ : Type}

/-! ## Stems and extensions -/

namespace FileName

/-- The base of a file name is what stands behind its last slash. -/
structure IsBase (dir base : List Char) : Prop where
  slashless : '/' ∉ base
  behind : dir = [] ∨ ∃ front, dir = front ++ ['/']

/-- The stem and the extension of a file name. The extension starts at the last dot of the base
unless that is its first character. -/
inductive IsCut : (name stem ext : List Char) → Prop
  | plain {dir base : List Char} :
    IsBase dir base → '.' ∉ base.tail → IsCut (dir ++ base) (dir ++ base) []
  | dotted {dir front ext : List Char} {c : Char} :
    IsBase dir (c :: front ++ '.' :: ext) → '.' ∉ ext →
    IsCut (dir ++ (c :: front ++ '.' :: ext)) (dir ++ c :: front) ('.' :: ext)

/-- The stem, a number and the extension. -/
def withNumber (stem ext : List Char) (k : Nat) : String :=
  String.ofList (stem ++ (toString k).toList ++ ext)

theorem isCut_splitBase {dir base : List Char} (isBase : IsBase dir base) :
    IsCut (dir ++ base)
      (match Text.cutLast '.' base with
        | some (c :: stem, ext) => (dir ++ c :: stem, '.' :: ext)
        | _ => (dir ++ base, [])).1
      (match Text.cutLast '.' base with
        | some (c :: stem, ext) => (dir ++ c :: stem, '.' :: ext)
        | _ => (dir ++ base, [])).2 := by
  rcases Text.cutLast_cases '.' base with ⟨uncut, none⟩ | ⟨_ | ⟨c, front⟩, ext, cut, rfl, one⟩
  · rw [uncut]
    exact .plain isBase fun mem => none (List.mem_of_mem_tail mem)
  · rw [cut]
    exact .plain isBase one
  · rw [cut]
    exact .dotted isBase one

theorem isCut_splitExtension (name : List Char) :
    IsCut name (splitExtension name).1 (splitExtension name).2 := by
  rcases Text.cutLast_cases '/' name with ⟨uncut, none⟩ | ⟨front, base, cut, rfl, one⟩
  · have whole : IsBase [] name := ⟨none, Or.inl rfl⟩
    rw [splitExtension, uncut]
    exact isCut_splitBase whole
  · have behind : IsBase (front ++ ['/']) base := ⟨one, Or.inr ⟨front, rfl⟩⟩
    have split := isCut_splitBase behind
    rw [List.append_assoc, List.singleton_append] at split
    rw [splitExtension, cut]
    exact split

/-! ## The first free name -/

/-- The name is the wanted one if that is free, and else it has the least number from 2 on with
which it is free. The used names are in lower case. -/
inductive IsFirstFree (used : List String) (wanted : String) : String → Prop
  | wanted : Text.lowercase wanted ∉ used → IsFirstFree used wanted wanted
  | numbered {stem ext : List Char} {k : Nat} :
    Text.lowercase wanted ∈ used → IsCut wanted.toList stem ext → 2 ≤ k →
    Text.lowercase (withNumber stem ext k) ∉ used →
    (∀ j, 2 ≤ j → j < k → Text.lowercase (withNumber stem ext j) ∈ used) →
    IsFirstFree used wanted (withNumber stem ext k)

theorem isFirstFree_congr {used used' : List String} {wanted name : String}
    (same : ∀ x, x ∈ used ↔ x ∈ used') (h : IsFirstFree used wanted name) :
    IsFirstFree used' wanted name := by
  cases h with
  | wanted free => exact .wanted fun known => free ((same _).2 known)
  | numbered taken cut from_two free passed =>
    exact .numbered ((same _).1 taken) cut from_two (fun known => free ((same _).2 known))
      fun j lower upper => (same _).1 (passed j lower upper)

theorem isFirstFree_unique (used : List String) (wanted : String) :
    IsFirstFree used wanted (unique used wanted) := by
  have free := lowercase_unique_not_mem used wanted
  by_cases taken : Text.lowercase wanted ∈ used
  · rw [unique, if_pos taken] at free ⊢
    refine .numbered taken (isCut_splitExtension _) (le_leastFree _ _ 2) free ?_
    intro j lower upper
    exact of_decide_eq_true (taken_of_lt_leastFree lower upper)
  · rw [unique, if_neg taken]
    exact .wanted taken

end FileName

/-! ## Names in turn -/

namespace Chunk

open FileName (IsFirstFree)

/-- Each name is the first that is free when the names before it are used. -/
theorem isFirstFree_of_makeUnique {used : List String} {wanted : List (ModuleId × String)}
    {before after : FileNames} {id : ModuleId} {name : String}
    (h : makeUnique used wanted = before ++ (id, name) :: after) :
    ∃ w, (id, w) ∈ wanted ∧
      IsFirstFree (used ++ before.map fun n => Text.lowercase n.2) w name := by
  induction wanted generalizing used before with
  | nil => simp [makeUnique] at h
  | cons first wanted ih =>
    obtain ⟨id', w⟩ := first
    rw [makeUnique] at h
    cases before with
    | nil =>
      obtain ⟨here, _⟩ := List.cons.inj h
      obtain ⟨rfl, rfl⟩ := Prod.mk.inj here
      refine ⟨w, List.mem_cons_self, ?_⟩
      rw [List.map_nil, List.append_nil]
      exact FileName.isFirstFree_unique used w
    | cons n before =>
      obtain ⟨rfl, rest⟩ := List.cons.inj h
      obtain ⟨w', mem, first⟩ := ih rest
      refine ⟨w', List.mem_cons_of_mem _ mem, FileName.isFirstFree_congr ?_ first⟩
      intro x
      simp only [List.mem_append, List.mem_cons, List.map_cons]
      rw [or_assoc, or_left_comm]

theorem exists_of_mem_wantedFileNames {g : Graph} {o : OutputOptions} {chunks : List Chunk}
    {wanted : List (ModuleId × String)} (h : wantedFileNames g o chunks = .ok wanted)
    {id : ModuleId} {w : String} (mem : (id, w) ∈ wanted) :
    ∃ c ∈ chunks, ∃ m ∈ g.modules, c.module = id ∧ m.id = id ∧
      w = wantedFileName o c (Digest.ofContent m.code) := by
  induction chunks generalizing wanted with
  | nil =>
    cases h
    cases mem
  | cons c chunks ih =>
    rw [wantedFileNames] at h
    obtain ⟨m, found, h⟩ := exists_of_bind_ok h
    obtain ⟨others, rest, h⟩ := exists_of_bind_ok h
    cases h
    rcases List.mem_cons.1 mem with here | later
    · obtain ⟨rfl, rfl⟩ := Prod.mk.inj here
      obtain ⟨listed, same⟩ := of_moduleIn found
      exact ⟨c, List.mem_cons_self, m, listed, rfl, same, rfl⟩
    · obtain ⟨c', listed, found⟩ := ih rest later
      exact ⟨c', List.mem_cons_of_mem _ listed, found⟩

/-! ## The names of a loaded graph -/

variable {env : Environment σ} {input : List InputItem} {notes : σ} {l : Loading σ}

/-- **The chunks of a loaded graph get their file names in turn**, no two of which agree in lower
case, and each recorded reference gives the file name of the chunk of its module. -/
theorem names_of_loads (loads : LoadsTo env input ⟨.empty, notes⟩ l) (o : OutputOptions) :
    ∃ names emitter, named l.graph o (ofGraph l.graph) = .ok names ∧
      assignNames names l.graph.emittedEntries l.emitter = .ok emitter ∧
      names.map Prod.fst = (ofGraph l.graph).map Chunk.module ∧
      (names.map fun n => Text.lowercase n.2).Nodup ∧
      (∀ before id name after, names = before ++ (id, name) :: after →
        ∃ c ∈ ofGraph l.graph, ∃ m ∈ l.graph.modules, c.module = id ∧ m.id = id ∧
          IsFirstFree (before.map fun n => Text.lowercase n.2)
            (wantedFileName o c (Digest.ofContent m.code)) name) ∧
      ∀ e ∈ l.graph.emittedEntries, ∃ c ∈ ofGraph l.graph, ∃ name, c.module = e.module ∧
        c.fileName names = .ok name ∧ emitter.fileName e.reference = .ok name := by
  have complete := complete_of_loads loads
  obtain ⟨names, emitter, recorded⟩ := Loading.exists_recorded loads o
  refine ⟨names, emitter, recorded.named, recorded.assigned, recorded.modules,
    nodup_lowercase_named recorded.named, ?_, ?_⟩
  · intro before id name after cut
    obtain ⟨wanted, filled, made⟩ := exists_of_named recorded.named
    obtain ⟨w, mem, first⟩ := isFirstFree_of_makeUnique (made.symm.trans cut)
    obtain ⟨c, listed, m, loaded, here, same, rfl⟩ := exists_of_mem_wantedFileNames filled mem
    exact ⟨c, listed, m, loaded, here, same, first⟩
  · intro e mem
    have distinct : (l.graph.emittedEntries.map EmittedEntry.reference).Nodup :=
      recorded.references ▸ Loading.nodup_handedOut (Loading.orderly_of_reach loads.reach)
    have loaded : e.module ∈ l.graph.modules.map Module.id :=
      (complete.mem_iff _).2 (.emittedEntry mem)
    obtain ⟨c, ⟨listed, here⟩, _⟩ := existsUnique_chunk complete loaded
    obtain ⟨name, found⟩ := exists_fileName complete recorded.modules loaded
    refine ⟨c, listed, name, here, ?_, ?_⟩
    · rw [fileName, here, found]
    · exact fileName_of_assignNames recorded.assigned distinct mem found

/-! ## Names that meet -/

/-- A plugin with empty modules; `first` emits `second` twice. -/
def echoing : Plugin Unit where
  name := "echoing"
  resolveId request := return some ⟨request.specifier, false⟩
  load id := do
    if id = "first" then
      let _ ← Hook.emitChunk ⟨"second", none, some "job"⟩
      let _ ← Hook.emitChunk ⟨"second", none, none⟩
    return some ""

def echoingEnvironment : Environment Unit where
  disk := ⟨[], []⟩
  cwd := "/"
  plugins := [echoing]
  externalTest _ _ _ := .ok false

/-- Entries whose names differ in case only, and one with a name that has its number already. -/
def echoingInput : List InputItem :=
  [⟨"task", "first"⟩, ⟨"Task", "second"⟩, ⟨"task2", "third"⟩]

theorem fetch_echoingEnvironment :
    ((Loader.fetch echoingEnvironment 3 echoingInput ⟨.empty, ()⟩).bind fun r =>
      r.1.toOption.map fun g =>
        (g.emittedEntries.map EmittedEntry.module, (named g {} (ofGraph g)).toOption)) =
      some ([⟨"second", false⟩, ⟨"second", false⟩],
        some [(⟨"first", false⟩, "task.js"), (⟨"second", false⟩, "Task2.js"),
          (⟨"third", false⟩, "task22.js")]) := by
  decide +kernel

/-- The second entry gets a number, which the third one makes way for, and both references to the
second module give the numbered name. -/
theorem names_echoing : ∃ (l : Loading Unit) (names : FileNames) (emitter : Emitter),
    LoadsTo echoingEnvironment echoingInput ⟨.empty, ()⟩ l ∧
      assignNames names l.graph.emittedEntries l.emitter = .ok emitter ∧
      names.map Prod.snd = ["task.js", "Task2.js", "task22.js"] ∧
      (names.map fun n => Text.lowercase n.2).Nodup ∧
      l.graph.emittedEntries.length = 2 ∧
      ∀ e ∈ l.graph.emittedEntries, emitter.fileName e.reference = .ok "Task2.js" := by
  obtain ⟨l, loads, known⟩ := exists_loadsTo
    (f := fun g _ => (g.emittedEntries.map EmittedEntry.module, (named g {} (ofGraph g)).toOption))
    fetch_echoingEnvironment
  obtain ⟨modules, found⟩ := Prod.mk.inj known
  obtain ⟨names, emitter, named, assigned, _, apart, _, each⟩ := names_of_loads loads {}
  rw [named] at found
  obtain rfl := Option.some.inj found
  refine ⟨l, _, emitter, loads, assigned, rfl, apart, ?_, ?_⟩
  · rw [← List.length_map EmittedEntry.module, modules]
    rfl
  · intro e mem
    obtain ⟨c, _, name, here, file, given⟩ := each e mem
    have second : e.module = ⟨"second", false⟩ := by
      have listed : e.module ∈ l.graph.emittedEntries.map EmittedEntry.module :=
        List.mem_map_of_mem mem
      rw [modules] at listed
      simpa using listed
    rw [fileName, here, second] at file
    have same : "Task2.js" = name := Except.ok.inj file
    rw [same]
    exact given

end Chunk

end WorkerBundler
