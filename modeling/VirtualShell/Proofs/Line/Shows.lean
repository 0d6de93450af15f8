import VirtualShell.Line.Command

/-!
# What a text shows outside of its quotes

All readers of a line go by one automaton. `Shows p` says of a text that it ends outside of quotes and
that only characters with `p` stand outside of them, so that a reader which stops at none of these
passes over the whole text.
-/
namespace VirtualShell.Line
set_option autoImplicit false

/-- From state `q` a text ends outside of quotes, and `p` holds of all characters that stand there. -/
def Shows (p : Char → Prop) : Quote → List Char → Prop
  | q, [] => q = .bare
  | q, c :: cs => (q = .bare → p c) ∧ Shows p (q.step c) cs

theorem lastOperatorFrom_cons {q : Quote} {c : Char} (h : ¬(q == .bare && c == '>') = true)
    (before cs : List Char) :
    lastOperatorFrom q before (c :: cs) = lastOperatorFrom (q.step c) (c :: before) cs := by
  rw [lastOperatorFrom.eq_def]
  exact if_neg h

namespace Shows

variable {p r : Char → Prop} {q : Quote} {cs ds : List Char}

theorem mono (hpr : ∀ c, p c → r c) (h : Shows p q cs) : Shows r q cs := by
  induction cs generalizing q with
  | nil => exact h
  | cons c cs ih => exact ⟨fun hq => hpr c (h.1 hq), ih h.2⟩

theorem append (h : Shows p q cs) (hd : Shows p .bare ds) : Shows p q (cs ++ ds) := by
  induction cs generalizing q with
  | nil =>
    rw [h]
    exact hd
  | cons c cs ih => exact ⟨h.1, ih h.2⟩

theorem run_eq (h : Shows p q cs) : q.run cs = .bare := by
  induction cs generalizing q with
  | nil => exact h
  | cons c cs ih => exact ih h.2

theorem splitPipesFrom_append (h : Shows p q cs) (hp : ¬p '|') (part rest : List Char) :
    splitPipesFrom q part (cs ++ rest) = splitPipesFrom .bare (cs.reverse ++ part) rest := by
  induction cs generalizing q part with
  | nil =>
    rw [h]
    rfl
  | cons c cs ih =>
    have hPipe : ¬(q == .bare && c == '|') = true := by
      intro hBoth
      obtain ⟨hq, hc⟩ := (Bool.and_eq_true _ _).mp hBoth
      rw [beq_iff_eq] at hq hc
      exact hp (hc ▸ h.1 hq)
    rw [List.cons_append, splitPipesFrom, if_neg hPipe, ih h.2, List.reverse_cons, List.append_assoc]
    rfl

theorem lastOperatorFrom_append (h : Shows p q cs) (hp : ¬p '>') (before rest : List Char) :
    lastOperatorFrom q before (cs ++ rest) = lastOperatorFrom .bare (cs.reverse ++ before) rest := by
  induction cs generalizing q before with
  | nil =>
    rw [h]
    rfl
  | cons c cs ih =>
    have hOperator : ¬(q == .bare && c == '>') = true := by
      intro hBoth
      obtain ⟨hq, hc⟩ := (Bool.and_eq_true _ _).mp hBoth
      rw [beq_iff_eq] at hq hc
      exact hp (hc ▸ h.1 hq)
    rw [List.cons_append, lastOperatorFrom_cons hOperator, ih h.2, List.reverse_cons, List.append_assoc]
    rfl

theorem splitPipesFrom_eq (h : Shows p q cs) (hp : ¬p '|') (part : List Char) :
    splitPipesFrom q part cs = [part.reverse ++ cs] := by
  have hAppend := h.splitPipesFrom_append hp part []
  rw [List.append_nil] at hAppend
  rw [hAppend, splitPipesFrom, List.reverse_append, List.reverse_reverse]

theorem splitPipes_eq (h : Shows p .bare cs) (hp : ¬p '|') : splitPipes cs = [cs] := h.splitPipesFrom_eq hp []

theorem lastOperatorFrom_eq_none (h : Shows p q cs) (hp : ¬p '>') (before : List Char) :
    lastOperatorFrom q before cs = none := by
  have hAppend := h.lastOperatorFrom_append hp before []
  rw [List.append_nil] at hAppend
  rw [hAppend]
  rfl

theorem extractRedirect_eq_none (h : Shows p .bare cs) (hp : ¬p '>') : extractRedirect cs = .ok none := by
  rw [extractRedirect, lastOperator, h.lastOperatorFrom_eq_none hp]

theorem dropRedirects_eq (h : Shows p .bare cs) (hp : ¬p '>') (fuel : Nat) : dropRedirects fuel cs = .ok cs := by
  cases fuel with
  | zero => rfl
  | succ fuel =>
    rw [dropRedirects, h.extractRedirect_eq_none hp]
    rfl

theorem afterWordFrom_eq_nil (h : Shows p q cs) (hp : ∀ c, p c → Text.isBlank c = false) :
    afterWordFrom q cs = [] := by
  induction cs generalizing q with
  | nil => rfl
  | cons c cs ih =>
    have hBlank : ¬q.separates c = true := by
      intro hBoth
      obtain ⟨hq, hc⟩ := (Bool.and_eq_true _ _).mp hBoth
      rw [beq_iff_eq] at hq
      rw [hp c (h.1 hq)] at hc
      cases hc
    rw [afterWordFrom, if_neg hBlank, ih h.2]

end Shows

end VirtualShell.Line
