import WorkerBundler.Proofs.Keyed
import WorkerBundler.Proofs.SourceMap.Characters
import WorkerBundler.SourceMap.Compose

/-!
# Characters carried through successive edits

`Rewrites` says that a text is edited in rounds, each round against the text that the one before it
made, and `Carried` that every round copies a character. The collapsed map of the rounds is then as
good as a map of one round: with a map of every character in each of them, a carried character that
ends no line has exactly one token, and it leads to the source of the first round
(`collapse_of_carried`).

The look-ups on the way are exact. A token of a later map leads to a place where the earlier text
has a carried character, and the earlier map has just one token there (`lookup?_of_mem`).
-/

namespace WorkerBundler

open SourceMap (Token)

/-! ## Rounds of edits -/

namespace EditedText

/-- Records edits one after the other, unless one of them is refused. -/
def recordAll (t : EditedText) : List Edit → Except EditFault EditedText
  | [] => .ok t
  | e :: rest =>
    match t.overwrite e.start e.stop e.content with
    | .error fault => .error fault
    | .ok t => recordAll t rest

theorem fits_of_recordAll {t after : EditedText} {edits : List Edit} (fits : t.Fits)
    (h : t.recordAll edits = .ok after) : after.Fits ∧ after.source = t.source := by
  induction edits generalizing t with
  | nil =>
    cases h
    exact ⟨fits, rfl⟩
  | cons e edits ih =>
    rw [recordAll] at h
    split at h
    · cases h
    · rename_i recorded
      obtain ⟨fits', same, _⟩ := fits.overwrite recorded
      obtain ⟨fits'', source⟩ := ih fits' h
      exact ⟨fits'', source.trans same⟩

/-- The source is edited in rounds, each with the options of its map, and becomes the text. -/
inductive Rewrites : (source : String) → List (EditedText × MapOptions) → (text : String) → Prop
  | none {source : String} : Rewrites source [] source
  | round {source text : String} {edits : List Edit} {t : EditedText} {o : MapOptions}
    {rounds : List (EditedText × MapOptions)} :
    (ofSource source).recordAll edits = .ok t → Rewrites t.text rounds text →
    Rewrites source ((t, o) :: rounds) text

/-- The character behind `old` in the source of the first text is copied by each text in turn, and
stands behind `new` in the last one. -/
inductive Carried (c : Char) : List EditedText → (old new : List Char) → Prop
  | none {place : List Char} : Carried c [] place place
  | round {t : EditedText} {texts : List EditedText} {old between new : List Char} :
    t.Copied c old between → Carried c texts between new → Carried c (t :: texts) old new

end EditedText

/-! ## Looking up a token -/

namespace SourceMap

/-- The generated positions of the tokens ascend. -/
def Ordered (m : SourceMap) : Prop :=
  m.tokens.Pairwise fun t u => t.generated.before u.generated = true

variable {m first second : SourceMap} {t : Token}

theorem Ordered.nodup (ordered : m.Ordered) : (m.tokens.map Token.generated).Nodup := by
  refine List.pairwise_map.2 (List.Pairwise.imp ?_ ordered)
  intro t u before same
  rw [same] at before
  exact Position.not_before_self _ before

/-- The token at a position is the one that is looked up there. -/
theorem lookup?_of_mem (ordered : m.Ordered) (mem : t ∈ m.tokens) :
    m.lookup? t.generated = some t := by
  rw [lookup?, find?_key ordered.nodup mem]

/-- There is no other token at the position of a token. -/
theorem filter_generated (ordered : m.Ordered) (mem : t ∈ m.tokens) :
    m.tokens.filter (fun u => u.generated = t.generated) = [t] := by
  have same : ∀ u ∈ m.tokens.filter (fun u => u.generated = t.generated), u = t := by
    intro u listed
    obtain ⟨listed, here⟩ := List.mem_filter.1 listed
    exact eq_of_key ordered.nodup listed mem (of_decide_eq_true here)
  have once : (m.tokens.filter (fun u => u.generated = t.generated)).Nodup :=
    (List.Nodup.of_map _ ordered.nodup).filter _
  have there : t ∈ m.tokens.filter (fun u => u.generated = t.generated) :=
    List.mem_filter.2 ⟨mem, decide_eq_true rfl⟩
  exact List.perm_singleton.1
    ((List.perm_ext_iff_of_nodup once (List.nodup_singleton t)).2 fun u =>
      ⟨fun listed => List.mem_singleton.2 (same u listed),
        fun one => List.mem_singleton.1 one ▸ there⟩)

/-- A token whose origin is the position of an earlier token is carried back to the origin of
that. -/
theorem carryBack_of_mem {earlier : Token} (ordered : first.Ordered)
    (mem : earlier ∈ first.tokens) (meets : t.origin = earlier.generated) :
    carryBack first t =
      some ⟨t.generated, earlier.origin, earlier.source, earlier.name <|> t.name⟩ := by
  rw [carryBack, meets, lookup?_of_mem ordered mem]
  simp

theorem generated_of_carryBack {back : Token} (h : carryBack first t = some back) :
    back.generated = t.generated := by
  unfold carryBack at h
  split at h
  · cases h
  · split at h
    · cases h
      rfl
    · cases h

theorem Ordered.compose (ordered : second.Ordered) : (compose first second).Ordered := by
  refine List.Pairwise.filterMap (carryBack first) ?_ ordered
  intro t u before t' left u' right
  rw [generated_of_carryBack left, generated_of_carryBack right]
  exact before

/-- The maps of successive edits are collapsed from the last one on. -/
theorem collapse_cons {maps : List SourceMap} (h : collapse maps = some second) :
    collapse (first :: maps) = some (compose first second) := by
  cases maps with
  | nil => cases h
  | cons m maps => rw [collapse, h, Option.map_some]; nofun

end SourceMap

/-! ## Carrying characters -/

namespace EditedText

variable {source text : String} {rounds : List (EditedText × MapOptions)} {c : Char}
  {old new : List Char}

theorem ordered_sourceMap (t : EditedText) (o : MapOptions) : (t.sourceMap o).Ordered :=
  (ascends_tokens t o).ordered

/-- A carried character stands in the first source and in the last text. -/
theorem exists_of_carried (rewrites : Rewrites source rounds text) (some : rounds ≠ [])
    (carried : Carried c (rounds.map Prod.fst) old new) :
    (∃ behind, source.toList = old ++ c :: behind) ∧
      ∃ behind, text.toList = new ++ c :: behind := by
  induction rewrites generalizing old with
  | none => exact absurd rfl some
  | @round source _ edits t o rounds recorded others ih =>
    cases carried with
    | round copied later =>
      obtain ⟨behind, behind', _, _, front, text, _⟩ := copied
      have same : t.source = source := (fits_of_recordAll (fits_ofSource source) recorded).2
      refine ⟨⟨behind, same ▸ front⟩, ?_⟩
      cases others with
      | none =>
        cases later
        exact ⟨behind', text⟩
      | round recorded' others =>
        exact (ih (List.cons_ne_nil _ _) later).2

/-- The collapsed map of rounds ascends, and carried characters have their tokens in it. -/
theorem exists_collapse {t : EditedText} {o : MapOptions}
    (every : ∀ r ∈ (t, o) :: rounds, r.2.everyCharacter = true) :
    ∃ m, SourceMap.collapse (((t, o) :: rounds).map fun r => r.1.sourceMap r.2) = some m ∧
      m.Ordered ∧ ∀ c old new, c ≠ '\n' → Carried c (t :: rounds.map Prod.fst) old new →
        ⟨Position.zero.advanceText new, Position.zero.advanceText old, some o.source, none⟩ ∈
          m.tokens := by
  have first := every (t, o) List.mem_cons_self
  induction rounds generalizing t o with
  | nil =>
    refine ⟨t.sourceMap o, rfl, ordered_sourceMap t o, ?_⟩
    intro c old new visible carried
    cases carried with
    | round copied later =>
      cases later
      exact mem_tokens_of_copied first visible copied
  | cons r rounds ih =>
    obtain ⟨t', o'⟩ := r
    have others := fun r mem => every r (List.mem_cons_of_mem _ mem)
    obtain ⟨m, collapsed, ordered, tokens⟩ := ih others (others (t', o') List.mem_cons_self)
    refine ⟨SourceMap.compose (t.sourceMap o) m, SourceMap.collapse_cons collapsed,
      ordered.compose, ?_⟩
    intro c old new visible carried
    cases carried with
    | round copied later =>
      refine List.mem_filterMap.2 ⟨_, tokens c _ new visible later, ?_⟩
      exact SourceMap.carryBack_of_mem (ordered_sourceMap t o)
        (mem_tokens_of_copied first visible copied) rfl

/-- **A character that successive edits copy is mapped to where it comes from.** The collapsed map
of their maps has exactly one token at the character, and it names the source of the first edit and
the place of the character there. -/
theorem collapse_of_carried {t : EditedText} {o : MapOptions}
    (rewrites : Rewrites source ((t, o) :: rounds) text)
    (every : ∀ r ∈ (t, o) :: rounds, r.2.everyCharacter = true) (visible : c ≠ '\n')
    (carried : Carried c (t :: rounds.map Prod.fst) old new) :
    (∃ behind, source.toList = old ++ c :: behind) ∧
      (∃ behind, text.toList = new ++ c :: behind) ∧
      ∃ m, SourceMap.collapse (((t, o) :: rounds).map fun r => r.1.sourceMap r.2) = some m ∧
        m.tokens.filter (fun u => u.generated = Position.zero.advanceText new) =
          [⟨Position.zero.advanceText new, Position.zero.advanceText old, some o.source,
            none⟩] := by
  obtain ⟨front, last⟩ := exists_of_carried rewrites (List.cons_ne_nil _ _) carried
  obtain ⟨m, collapsed, ordered, tokens⟩ := exists_collapse every
  exact ⟨front, last, m, collapsed, SourceMap.filter_generated ordered
    (tokens c old new visible carried)⟩

/-! ## Two rounds -/

/-- The first round shortens a name. -/
def shortened : EditedText := ⟨"x(AAAA,\n  𝒳y);", [⟨2, 6, "b"⟩]⟩

/-- The second round lengthens another name and joins the lines. -/
def joined : EditedText := ⟨"x(b,\n  𝒳y);", [⟨0, 1, "longer"⟩, ⟨4, 5, ""⟩]⟩

theorem rewrites_joined (o o' : MapOptions) :
    Rewrites "x(AAAA,\n  𝒳y);" [(shortened, o), (joined, o')] "longer(b,  𝒳y);" := by
  have first : (ofSource "x(AAAA,\n  𝒳y);").recordAll [⟨2, 6, "b"⟩] = .ok shortened := by
    decide
  have between : shortened.text = "x(b,\n  𝒳y);" := by decide
  have second : (ofSource shortened.text).recordAll [⟨4, 5, ""⟩, ⟨0, 1, "longer"⟩] =
      .ok joined := by
    rw [between]
    decide
  have last : joined.text = "longer(b,  𝒳y);" := by decide
  exact .round first (.round second (last ▸ .none))

theorem carried_joined : Carried 'y' [shortened, joined]
    ['x', '(', 'A', 'A', 'A', 'A', ',', '\n', ' ', ' ', '𝒳']
    ['l', 'o', 'n', 'g', 'e', 'r', '(', 'b', ',', ' ', ' ', '𝒳'] := by
  have first : Replaced 0 (['x', '('] ++ (['A', 'A', 'A', 'A'] ++ [',', '\n', ' ', ' ', '𝒳']))
      [⟨2, 6, "b"⟩] (['x', '('] ++ ("b".toList ++ [',', '\n', ' ', ' ', '𝒳'])) :=
    .edit (by decide) (by decide) .kept
  have second : Replaced 0 ([] ++ (['x'] ++ (['(', 'b', ','] ++ (['\n'] ++ [' ', ' ', '𝒳']))))
      [⟨0, 1, "longer"⟩, ⟨4, 5, ""⟩]
      ([] ++ ("longer".toList ++ (['(', 'b', ','] ++ ("".toList ++ [' ', ' ', '𝒳'])))) :=
    .edit (by decide) (by decide)
      (.edit (by decide) (by decide) .kept)
  refine .round ⟨[')', ';'], [')', ';'], _, [], ?_, ?_, (List.append_nil _).symm, first, .kept⟩
    (.round ⟨[')', ';'], [')', ';'], _, [], ?_, ?_, (List.append_nil _).symm, second, .kept⟩ .none)
  · decide
  · decide
  · decide
  · decide

/-- The last name is mapped back over both rounds, to another line and column. -/
theorem collapse_joined : ∃ m, SourceMap.collapse
      [shortened.sourceMap ⟨"app.js", none, true, false⟩,
        joined.sourceMap ⟨"out.js", none, true, false⟩] = some m ∧
    m.tokens.filter (fun u => u.generated = ⟨0, 13⟩) =
      [⟨⟨0, 13⟩, ⟨1, 4⟩, some "app.js", none⟩] := by
  have every : ∀ r ∈ [(shortened, (⟨"app.js", none, true, false⟩ : MapOptions)),
      (joined, ⟨"out.js", none, true, false⟩)], r.2.everyCharacter = true := by
    simp
  obtain ⟨_, _, m, collapsed, tokens⟩ :=
    collapse_of_carried (rewrites_joined _ _) every (by decide) carried_joined
  have place : Position.zero.advanceText
      ['l', 'o', 'n', 'g', 'e', 'r', '(', 'b', ',', ' ', ' ', '𝒳'] = ⟨0, 13⟩ := by decide
  have origin : Position.zero.advanceText
      ['x', '(', 'A', 'A', 'A', 'A', ',', '\n', ' ', ' ', '𝒳'] = ⟨1, 4⟩ := by decide
  rw [place, origin] at tokens
  exact ⟨m, collapsed, tokens⟩

end EditedText

end WorkerBundler
