import VirtualShell.Pattern.Matcher

/-!
# Where matches are

A way through a text only goes forward and never beyond its end. So the matches of a pattern follow each
other from left to right without an overlap.
-/
namespace VirtualShell.Pattern
set_option autoImplicit false

/-- What has to follow is asked at a place from here on that is not beyond the end. -/
def Advances (text : Array Char) (w : Way) : Prop :=
  ∀ k s t, s.position ≤ text.size → w k s = some t →
    ∃ s', s.position ≤ s'.position ∧ s'.position ≤ text.size ∧ k s' = some t

variable {text : Array Char} {body : Way} {k : Rest} {s t : Place}

theorem Advances.step (h : Advances text body) {w : Rest} (hs : s.position ≤ text.size) (ht : body w s = some t)
    (hw : ∀ s', s'.position ≤ text.size → w s' = some t →
      ∃ s'', s'.position ≤ s''.position ∧ s''.position ≤ text.size ∧ k s'' = some t) :
    ∃ s', s.position ≤ s'.position ∧ s'.position ≤ text.size ∧ k s' = some t := by
  obtain ⟨s', hLess, hBound, hRest⟩ := h w s t hs ht
  obtain ⟨s'', hLess', hBound', hEnd⟩ := hw s' hBound hRest
  exact ⟨s'', Nat.le_trans hLess hLess', hBound', hEnd⟩

theorem some_of_orElse {o : Option Place} {next : Unit → Option Place} (h : o.orElse next = some t) :
    o = some t ∨ next () = some t := by
  cases o with
  | none => exact .inr h
  | some s => exact .inl h

theorem advances_greedily (h : Advances text body) (least : Nat) (most : Option Nat) (fuel count : Nat)
    (last : Option Nat) : Advances text fun k => greedily body least most k fuel count last := by
  intro k s t hs ht
  induction fuel generalizing count last s with
  | zero => cases ht
  | succ fuel ih =>
    dsimp only at ht
    rw [greedily] at ht
    split at ht
    · exact h.step hs ht fun s' => ih (count + 1) last s'
    · split at ht
      · rcases some_of_orElse ht with hRound | hStop
        · exact h.step hs hRound fun s' => ih (count + 1) (some s.position) s'
        · exact ⟨s, Nat.le_refl _, hs, hStop⟩
      · exact ⟨s, Nat.le_refl _, hs, ht⟩

theorem advances_lazily (h : Advances text body) (least : Nat) (most : Option Nat) (fuel count : Nat)
    (last : Option Nat) : Advances text fun k => lazily body least most k fuel count last := by
  intro k s t hs ht
  induction fuel generalizing count last s with
  | zero => cases ht
  | succ fuel ih =>
    dsimp only at ht
    rw [lazily] at ht
    split at ht
    · exact h.step hs ht fun s' => ih (count + 1) last s'
    · rcases some_of_orElse ht with hStop | hRound
      · exact ⟨s, Nat.le_refl _, hs, hStop⟩
      · split at hRound
        · exact h.step hs hRound fun s' => ih (count + 1) (some s.position) s'
        · cases hRound

/-- A part that is done in its first way ends from here on, not beyond the end. -/
theorem Advances.ends (h : Advances text body) (hs : s.position ≤ text.size) (ht : body some s = some t) :
    s.position ≤ t.position ∧ t.position ≤ text.size := by
  obtain ⟨s', hLess, hBound, hEnd⟩ := h some s t hs ht
  cases hEnd
  exact ⟨hLess, hBound⟩

theorem ends_possessively (h : Advances text body) (least : Nat) (most : Option Nat) (fuel count : Nat)
    (last : Option Nat) (hs : s.position ≤ text.size)
    (ht : possessively body least most fuel count last s = some t) :
    s.position ≤ t.position ∧ t.position ≤ text.size := by
  induction fuel generalizing count last s with
  | zero => cases ht
  | succ fuel ih =>
    rw [possessively] at ht
    split at ht
    · obtain ⟨s', hRound, ht⟩ := Option.bind_eq_some_iff.mp ht
      obtain ⟨hLess, hBound⟩ := h.ends hs hRound
      obtain ⟨hLess', hBound'⟩ := ih _ _ hBound ht
      exact ⟨Nat.le_trans hLess hLess', hBound'⟩
    · split at ht
      · split at ht
        · rename_i s' hRound
          obtain ⟨hLess, hBound⟩ := h.ends hs hRound
          obtain ⟨hLess', hBound'⟩ := ih _ _ hBound ht
          exact ⟨Nat.le_trans hLess hLess', hBound'⟩
        · cases ht
          exact ⟨Nat.le_refl _, hs⟩
      · cases ht
        exact ⟨Nat.le_refl _, hs⟩

theorem le_of_sameSpan {o : Options} {start n count : Nat} (hn : n ≤ text.size)
    (h : sameSpan text o start n count = true) : n + count ≤ text.size := by
  induction count generalizing start n with
  | zero => exact hn
  | succ count ih =>
    rw [sameSpan] at h
    split at h
    · rename_i hSome
      obtain ⟨hNext, -⟩ := Array.getElem?_eq_some_iff.mp hSome
      have hRest := ih (n := n + 1) hNext (Bool.and_eq_true _ _ ▸ h).2
      omega
    · cases h

theorem way_advances (text : Array Char) (p : Pattern) : Advances text (way text p) := by
  induction p with
  | empty =>
    intro k s t hs ht
    exact ⟨s, Nat.le_refl _, hs, ht⟩
  | char set =>
    intro k s t hs ht
    rw [way] at ht
    split at ht
    · rename_i c hChar
      obtain ⟨hNext, -⟩ := Array.getElem?_eq_some_iff.mp hChar
      split at ht
      · exact ⟨{ s with position := s.position + 1 }, Nat.le_succ _, hNext, ht⟩
      · cases ht
    · cases ht
  | anchor a =>
    intro k s t hs ht
    rw [way] at ht
    split at ht
    · exact ⟨s, Nat.le_refl _, hs, ht⟩
    · cases ht
  | seq p q ihp ihq =>
    intro k s t hs ht
    exact ihp.step hs ht fun s' hs' => ihq k s' t hs'
  | alt p q ihp ihq =>
    intro k s t hs ht
    rcases some_of_orElse ht with hFirst | hSecond
    · exact ihp k s t hs hFirst
    · exact ihq k s t hs hSecond
  | group number p ih =>
    intro k s t hs ht
    cases number with
    | none => exact ih k s t hs ht
    | some number =>
      refine ih.step hs ht fun s' hs' hRest => ?_
      exact ⟨s'.keep number s.position, Nat.le_refl _, hs', hRest⟩
  | repetition p least most greed ih =>
    intro k s t hs ht
    cases greed with
    | greedy => exact advances_greedily ih least most _ 0 none k s t hs ht
    | «lazy» => exact advances_lazily ih least most _ 0 none k s t hs ht
    | possessive =>
      obtain ⟨s', hRounds, hRest⟩ := Option.bind_eq_some_iff.mp ht
      obtain ⟨hLess, hBound⟩ := ends_possessively ih least most _ 0 none hs hRounds
      exact ⟨s', hLess, hBound, hRest⟩
  | again number o =>
    intro k s t hs ht
    rw [way] at ht
    split at ht
    · split at ht
      · rename_i hSame
        exact ⟨_, Nat.le_add_right _ _, le_of_sameSpan hs hSame, ht⟩
      · cases ht
    · cases ht
  | ahead p negated ih =>
    intro k s t hs ht
    unfold way at ht
    split at ht
    · rename_i seen _
      exact ⟨⟨s.position, seen.groups⟩, Nat.le_refl _, hs, ht⟩
    · exact ⟨s, Nat.le_refl _, hs, ht⟩
    · cases ht
  | behind p width negated ih =>
    intro k s t hs ht
    unfold way at ht
    dsimp only at ht
    split at ht
    · rename_i seen _
      exact ⟨⟨s.position, seen.groups⟩, Nat.le_refl _, hs, ht⟩
    · exact ⟨s, Nat.le_refl _, hs, ht⟩
    · cases ht
  | atomic p ih =>
    intro k s t hs ht
    obtain ⟨s', hFirst, hRest⟩ := Option.bind_eq_some_iff.mp ht
    obtain ⟨hLess, hBound⟩ := ih.ends hs hFirst
    exact ⟨s', hLess, hBound, hRest⟩
  | ifGroup number yes no ihYes ihNo =>
    intro k s t hs ht
    rw [way] at ht
    split at ht
    · exact ihYes k s t hs ht
    · exact ihNo k s t hs ht

theorem endFrom?_bounds {p : Pattern} {start last : Nat} {mayBeEmpty : Bool} (hStart : start ≤ text.size)
    (h : endFrom? p text start mayBeEmpty = some last) : start ≤ last ∧ last ≤ text.size := by
  obtain ⟨t, ht, rfl⟩ := Option.map_eq_some_iff.mp h
  obtain ⟨s', hLess, hBound, hEnd⟩ := way_advances text p _ _ t hStart ht
  split at hEnd
  · cases hEnd
    exact ⟨hLess, hBound⟩
  · cases hEnd

theorem searchFrom_bounds {p : Pattern} {start count first last : Nat} {mayBeEmpty : Bool}
    (hCount : start + count ≤ text.size) (h : searchFrom p text start mayBeEmpty count = some (first, last)) :
    start ≤ first ∧ first ≤ last ∧ last ≤ text.size := by
  induction count generalizing start mayBeEmpty with
  | zero =>
    obtain ⟨last', hEnd, hEq⟩ := Option.map_eq_some_iff.mp h
    cases hEq
    obtain ⟨hLess, hBound⟩ := endFrom?_bounds hCount hEnd
    exact ⟨Nat.le_refl _, hLess, hBound⟩
  | succ count ih =>
    rw [searchFrom] at h
    split at h
    · rename_i last' hEnd
      cases h
      obtain ⟨hLess, hBound⟩ := endFrom?_bounds (by omega) hEnd
      exact ⟨Nat.le_refl _, hLess, hBound⟩
    · obtain ⟨hFirst, hRest⟩ := ih (by omega) h
      exact ⟨Nat.le_of_succ_le hFirst, hRest⟩

/-- Spans from `start` to `size` that follow each other without an overlap. -/
def Disjoint (size : Nat) : Nat → List (Nat × Nat) → Prop
  | _, [] => True
  | start, (first, last) :: spans => start ≤ first ∧ first ≤ last ∧ last ≤ size ∧ Disjoint size last spans

theorem spansFrom_disjoint (p : Pattern) {fuel start : Nat} {mayBeEmpty : Bool} (hStart : start ≤ text.size) :
    Disjoint text.size start (spansFrom p text fuel start mayBeEmpty) := by
  induction fuel generalizing start mayBeEmpty with
  | zero => trivial
  | succ fuel ih =>
    rw [spansFrom]
    split
    · trivial
    · rename_i first last hFound
      obtain ⟨hFirst, hLess, hBound⟩ := searchFrom_bounds (by omega) hFound
      exact ⟨hFirst, hLess, hBound, ih hBound⟩

theorem spans_disjoint (p : Pattern) (text : Array Char) : Disjoint text.size 0 (p.spans text) :=
  spansFrom_disjoint p (Nat.zero_le _)

end VirtualShell.Pattern
