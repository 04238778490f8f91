import WorkerBundler.Text.Split

/-!
# Places given by segments

A place in a tree of directories is the list of names that lead to it from the root. A path is
followed from a place part by part: empty parts and `.` stay, `..` goes up, and the root is its own
parent. `way` is the shortest path between two places, and following it leads from one to the other
(`follow_way`).
-/

namespace WorkerBundler.Path

/-- Follows one part of a path. -/
def enter (place : List String) (part : String) : List String :=
  if part = "" ∨ part = "." then place
  else if part = ".." then place.dropLast
  else place ++ [part]

/-- The place that a path denotes when it is followed from `place`. -/
def follow (place : List String) (path : String) : List String :=
  (Text.parts '/' path).foldl enter place

/-- The place that a path denotes when it is followed from the root: its normalized segments. -/
def segments (path : String) : List String :=
  follow [] path

/-- How many segments two places share from the root. -/
def sharedLength : List String → List String → Nat
  | a :: as, b :: bs => if a = b then sharedLength as bs + 1 else 0
  | _, _ => 0

/-- The path that leads from the place `start` to the place `goal`; empty when they are the same. -/
def way (start goal : List String) : String :=
  let shared := sharedLength start goal
  Text.unparts '/' (List.replicate (start.length - shared) ".." ++ goal.drop shared)

theorem take_sharedLength (start goal : List String) :
    start.take (sharedLength start goal) = goal.take (sharedLength start goal) := by
  induction start generalizing goal with
  | nil => simp [sharedLength]
  | cons a as ih =>
    cases goal with
    | nil => simp [sharedLength]
    | cons b bs => by_cases h : a = b <;> simp [sharedLength, h, ih]

/-! ## Following a way -/

/-- A name can stand in a place: it names something, and is a single part. -/
def IsName (part : String) : Prop :=
  part ≠ "" ∧ part ≠ "." ∧ part ≠ ".." ∧ '/' ∉ part.toList

theorem enter_name {part : String} (h : IsName part) (place : List String) :
    enter place part = place ++ [part] := by
  rw [enter, if_neg (not_or.2 ⟨h.1, h.2.1⟩), if_neg h.2.2.1]

theorem enter_up (place : List String) : enter place ".." = place.dropLast := by
  rw [enter, if_neg (by decide), if_pos rfl]

theorem foldl_enter_names {names : List String} (h : ∀ name ∈ names, IsName name)
    (place : List String) : names.foldl enter place = place ++ names := by
  induction names generalizing place with
  | nil => simp
  | cons name names ih =>
    rw [List.foldl_cons, enter_name (h name List.mem_cons_self),
      ih fun n mem => h n (List.mem_cons_of_mem name mem)]
    simp

theorem foldl_enter_up (count : Nat) (place : List String) :
    (List.replicate count "..").foldl enter place = place.take (place.length - count) := by
  induction count generalizing place with
  | zero => simp
  | succ count ih =>
    rw [List.replicate_succ, List.foldl_cons, enter_up, ih, List.dropLast_eq_take, List.take_take,
      List.length_take]
    congr 1
    omega

/-- The segments of a path are names. -/
theorem isName_of_mem_foldl_enter {names place : List String}
    (clean : ∀ name ∈ names, '/' ∉ name.toList) (h : ∀ part ∈ place, IsName part) {part : String}
    (mem : part ∈ names.foldl enter place) : IsName part := by
  induction names generalizing place with
  | nil => exact h part mem
  | cons name names ih =>
    refine ih (fun n m => clean n (List.mem_cons_of_mem name m)) ?_ mem
    intro q hq
    rw [enter] at hq
    split at hq
    · exact h q hq
    · rename_i idle
      rw [not_or] at idle
      split at hq
      · exact h q (List.dropLast_subset place hq)
      · rename_i up
        rcases List.mem_append.1 hq with old | new
        · exact h q old
        · rw [List.mem_singleton.1 new]
          exact ⟨idle.1, idle.2, up, clean name List.mem_cons_self⟩

theorem isName_of_mem_segments {path part : String} (mem : part ∈ segments path) : IsName part :=
  isName_of_mem_foldl_enter (fun _ h => Text.not_mem_of_mem_parts h) (by simp) mem

/-- A way leads from its start to its goal. -/
theorem follow_way (start : List String) {goal : List String} (h : ∀ name ∈ goal, IsName name) :
    follow start (way start goal) = goal := by
  have lead : (List.replicate (start.length - sharedLength start goal) ".." ++
      goal.drop (sharedLength start goal)).foldl enter start = goal := by
    have bound : sharedLength start goal ≤ start.length := by
      induction start generalizing goal with
      | nil => simp [sharedLength]
      | cons a as ih =>
        cases goal with
        | nil => simp [sharedLength]
        | cons b bs =>
          by_cases same : a = b
          · have := ih fun n m => h n (List.mem_cons_of_mem b m)
            simpa [sharedLength, same] using this
          · simp [sharedLength, same]
    rw [List.foldl_append, foldl_enter_up,
      foldl_enter_names fun n m => h n (List.mem_of_mem_drop m),
      show start.length - (start.length - sharedLength start goal) = sharedLength start goal by
        omega, take_sharedLength, List.take_append_drop]
  rw [follow, way]
  by_cases empty : List.replicate (start.length - sharedLength start goal) ".." ++
      goal.drop (sharedLength start goal) = []
  · rw [empty] at lead ⊢
    exact lead
  · rw [Text.parts_unparts empty, lead]
    intro name mem
    rcases List.mem_append.1 mem with up | down
    · rw [(List.mem_replicate.1 up).2]
      decide
    · exact (h name (List.mem_of_mem_drop down)).2.2.2

end WorkerBundler.Path
