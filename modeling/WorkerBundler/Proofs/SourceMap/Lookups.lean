import Mathlib.Data.List.Induction
import WorkerBundler.Proofs.SourceMap.Carried

/-!
# Looking up positions in a chain of maps

A token governs a position if it stands there or in front of it, and no other token stands between
(`SourceMap.Governs`). In a map with at most one token at each position this is the token that is
looked up (`lookup?_eq_some_iff`).

To follow a position back through the maps of successive edits, it is looked up in the last map, the
origin of the token found there in the map before it, and so on (`SourceMap.Traces`). Collapsing the
maps takes the tokens of the last one back, and drops those that an earlier map does not govern on
their line. A token that is kept still governs what it governed (`Governs.compose`), so that one
look-up in the collapsed map does for the whole chain (`governs_of_traces`).
-/

namespace WorkerBundler

namespace SourceMap

/-- The token stands at the position or in front of it, and of all tokens that do so it is the last
one. -/
structure Governs (m : SourceMap) (p : Position) (t : Token) : Prop where
  mem : t ∈ m.tokens
  upTo : t.generated.UpTo p
  greatest : ∀ u ∈ m.tokens, u.generated.UpTo p → u.generated.UpTo t.generated

/-- No two tokens stand at one generated position. -/
def Distinct (m : SourceMap) : Prop := (m.tokens.map Token.generated).Nodup

instance (m : SourceMap) : Decidable m.Distinct :=
  inferInstanceAs (Decidable (List.Nodup _))

variable {m first second : SourceMap} {p : Position} {t u back : Token}

/-! ## What is looked up -/

/-- This is the last token in front of the position, if there is one. -/
def IsLastBefore (p : Position) (tokens : List Token) : Option Token → Prop
  | none => ∀ u ∈ tokens, ¬u.generated.before p = true
  | some t => t ∈ tokens ∧ t.generated.before p = true ∧
      ∀ u ∈ tokens, u.generated.before p = true → u.generated.UpTo t.generated

theorem isLastBefore_lastBefore (p : Position) (tokens : List Token) :
    IsLastBefore p tokens (lastBefore p tokens) := by
  induction tokens using List.reverseRecOn with
  | nil => exact nofun
  | append_singleton tokens t ih =>
    unfold lastBefore at ih ⊢
    rw [List.foldl_append, List.foldl_cons, List.foldl_nil]
    generalize List.foldl _ none tokens = best at ih ⊢
    have each {P : Token → Prop} (old : ∀ u ∈ tokens, P u) (new : P t) :
        ∀ u ∈ tokens ++ [t], P u := by
      intro u mem
      rcases List.mem_append.1 mem with mem | mem
      · exact old u mem
      · exact List.mem_singleton.1 mem ▸ new
    have here : t ∈ tokens ++ [t] := List.mem_append_right _ List.mem_cons_self
    by_cases inFront : t.generated.before p = true
    · rw [if_pos inFront]
      cases best with
      | none =>
        refine ⟨here, inFront, each ?_ fun _ => .refl _⟩
        exact fun u mem before => absurd before (ih u mem)
      | some b =>
        obtain ⟨mem, before, last⟩ := ih
        dsimp only
        split
        · rename_i earlier
          exact ⟨List.mem_append_left _ mem, before, each last fun _ => Or.inr earlier⟩
        · rename_i later
          refine ⟨here, inFront, each (fun u mem before => ?_) fun _ => .refl _⟩
          exact (last u mem before).trans (Position.not_before_iff.1 later)
    · rw [if_neg inFront]
      cases best with
      | none => exact each ih inFront
      | some b =>
        obtain ⟨mem, before, last⟩ := ih
        exact ⟨List.mem_append_left _ mem, before, each last fun before => absurd before inFront⟩

/-- The token that is looked up governs the position. -/
theorem governs_of_lookup? (h : m.lookup? p = some t) : m.Governs p t := by
  unfold lookup? at h
  split at h
  · rename_i found
    cases h
    have here : t.generated = p := by simpa using List.find?_some found
    exact ⟨List.mem_of_find?_eq_some found, Or.inl here, fun u _ upTo => here ▸ upTo⟩
  · rename_i missing
    have last := isLastBefore_lastBefore p m.tokens
    rw [h] at last
    obtain ⟨mem, before, last⟩ := last
    refine ⟨mem, Or.inr before, ?_⟩
    rintro u known (here | before)
    · exact absurd here (by simpa using List.find?_eq_none.1 missing u known)
    · exact last u known before

theorem Governs.unique (distinct : m.Distinct) (left : m.Governs p t) (right : m.Governs p u) :
    t = u := by
  apply eq_of_key distinct left.mem right.mem
  exact (right.greatest t left.mem left.upTo).antisymm (left.greatest u right.mem right.upTo)

/-- Where a token governs, some token is looked up. -/
theorem Governs.lookup?_ne_none (h : m.Governs p t) : m.lookup? p ≠ none := by
  intro none
  unfold lookup? at none
  split at none
  · cases none
  · rename_i missing
    have last := isLastBefore_lastBefore p m.tokens
    rw [none] at last
    rcases h.upTo with here | before
    · exact absurd here (by simpa using List.find?_eq_none.1 missing t h.mem)
    · exact last t h.mem before

/-- Looking up finds the token that governs the position. -/
theorem lookup?_eq_some_iff (distinct : m.Distinct) : m.lookup? p = some t ↔ m.Governs p t := by
  constructor
  · exact governs_of_lookup?
  · intro governs
    obtain ⟨u, found⟩ := Option.ne_none_iff_exists'.1 governs.lookup?_ne_none
    rw [found, governs.unique distinct (governs_of_lookup? found)]

/-! ## Carrying back what governs -/

theorem Distinct.compose (distinct : second.Distinct) : (compose first second).Distinct := by
  refine List.pairwise_map.2 (List.Pairwise.filterMap (carryBack first) ?_
    (List.pairwise_map.1 distinct))
  intro t u differ t' left u' right
  rw [generated_of_carryBack left, generated_of_carryBack right]
  exact differ

/-- A token that is carried back still governs what it governed. -/
theorem Governs.compose (h : second.Governs p t) (carried : carryBack first t = some back) :
    (compose first second).Governs p back := by
  have same := generated_of_carryBack carried
  refine ⟨List.mem_filterMap.2 ⟨t, h.mem, carried⟩, same ▸ h.upTo, ?_⟩
  intro u mem upTo
  obtain ⟨v, known, back⟩ := List.mem_filterMap.1 mem
  rw [generated_of_carryBack back] at upTo ⊢
  exact same ▸ h.greatest v known upTo

theorem carryBack_of_governs (distinct : first.Distinct) (found : first.Governs t.origin u)
    (here : u.generated.line = t.origin.line) :
    carryBack first t = some ⟨t.generated, u.origin, u.source, u.name <|> t.name⟩ := by
  rw [carryBack, (lookup?_eq_some_iff distinct).2 found]
  exact if_pos here

/-! ## Following a position back -/

/-- The position is looked up in the last map, and the origin of each token found in the map before
it, on the line of which a token is found, too. The tokens are listed like the maps. -/
inductive Traces (p : Position) : (maps : List SourceMap) → (chain : List Token) → Prop
  | last {m : SourceMap} {t : Token} : m.Governs p t → Traces p [m] [t]
  | hop {m : SourceMap} {maps : List SourceMap} {t u : Token} {chain : List Token} :
    Traces p maps (t :: chain) → m.Governs t.origin u → u.generated.line = t.origin.line →
    Traces p (m :: maps) (u :: t :: chain)

/-- **One look-up in the collapsed map does for a chain of look-ups.** If a position is followed
back from the last map, in which `last` is found, to the first one, in which `first` is found, then
looking it up in the collapsed map finds a token at the generated position of `last`, with the
source and the origin of `first`, and with the first name on the way, counted from the first map. -/
theorem governs_of_traces {maps : List SourceMap} {chain : List Token} {first last : Token}
    (distinct : ∀ m ∈ maps, m.Distinct) (traces : Traces p maps chain)
    (reached : chain.head? = some first) (started : chain.getLast? = some last) :
    ∃ m t, collapse maps = some m ∧ m.Distinct ∧ m.Governs p t ∧ m.lookup? p = some t ∧
      t.generated = last.generated ∧ t.source = first.source ∧ t.origin = first.origin ∧
      t.name = chain.findSome? Token.name := by
  induction traces generalizing first with
  | @last m t governs =>
    cases reached
    cases started
    have own := distinct m List.mem_cons_self
    refine ⟨m, t, rfl, own, governs, (lookup?_eq_some_iff own).2 governs, rfl, rfl, rfl, ?_⟩
    cases named : t.name <;> simp [named]
  | @hop m maps v u chain _ found here ih =>
    cases reached
    rw [List.getLast?_cons_cons] at started
    obtain ⟨second, t, collapsed, distinct', governs, _, generated, _, origin, name⟩ :=
      ih (fun m mem => distinct m (List.mem_cons_of_mem _ mem)) rfl started
    rw [← origin] at found here
    have carried := carryBack_of_governs (distinct m List.mem_cons_self) found here
    have kept := governs.compose carried
    have distinct'' : (compose m second).Distinct := distinct'.compose
    refine ⟨compose m second, _, collapse_cons collapsed, distinct'', kept,
      (lookup?_eq_some_iff distinct'').2 kept, generated, rfl, rfl, ?_⟩
    rw [List.findSome?_cons, ← name]
    cases u.name <;> rfl

/-- The map of a first edit. -/
def firstMap : SourceMap := ofTokens none
  [⟨⟨0, 0⟩, ⟨3, 1⟩, some "app.js", some "all"⟩, ⟨⟨0, 4⟩, ⟨3, 9⟩, some "app.js", none⟩]

/-- The map of a second edit, which renames what it moves. -/
def secondMap : SourceMap := ofTokens none
  [⟨⟨0, 0⟩, ⟨0, 0⟩, some "b.js", none⟩, ⟨⟨0, 6⟩, ⟨0, 5⟩, some "b.js", some "sum"⟩]

/-- The map of a third edit. One token comes from a line that the second map does not govern. -/
def thirdMap : SourceMap := ofTokens none
  [⟨⟨0, 0⟩, ⟨0, 0⟩, some "c.js", none⟩, ⟨⟨0, 5⟩, ⟨1, 2⟩, some "c.js", none⟩,
    ⟨⟨0, 8⟩, ⟨0, 7⟩, some "c.js", some "x"⟩]

/-- The name of the second map is the first one on the way. -/
theorem governs_of_traces_renamed : ∃ m, collapse [firstMap, secondMap, thirdMap] = some m ∧
    m.lookup? ⟨0, 9⟩ = some ⟨⟨0, 8⟩, ⟨3, 9⟩, some "app.js", some "sum"⟩ := by
  have distinct : ∀ m ∈ [firstMap, secondMap, thirdMap], m.Distinct := by decide
  have third : thirdMap.lookup? ⟨0, 9⟩ = some ⟨⟨0, 8⟩, ⟨0, 7⟩, some "c.js", some "x"⟩ := by decide
  have second : secondMap.lookup? ⟨0, 7⟩ = some ⟨⟨0, 6⟩, ⟨0, 5⟩, some "b.js", some "sum"⟩ := by
    decide
  have first : firstMap.lookup? ⟨0, 5⟩ = some ⟨⟨0, 4⟩, ⟨3, 9⟩, some "app.js", none⟩ := by decide
  have traces := Traces.hop (.hop (.last (governs_of_lookup? third)) (governs_of_lookup? second) rfl)
    (governs_of_lookup? first) rfl
  obtain ⟨m, ⟨_, _, _, _⟩, collapsed, _, _, found, rfl, rfl, rfl, rfl⟩ :=
    governs_of_traces distinct traces rfl rfl
  exact ⟨m, collapsed, found⟩

end SourceMap

end WorkerBundler
