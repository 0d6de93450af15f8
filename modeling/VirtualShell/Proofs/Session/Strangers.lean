import VirtualShell.Proofs.Session.Enrolment

/-!
# Users without an account

An elevated block acts as the administrator, be there such an account or not. Nobody else who acts, or is returned to,
is without an account, and no operation takes it away: whoever is a stranger after an operation was one before.
-/
namespace VirtualShell.Session
set_option autoImplicit false

/-- A user that acts or is returned to, and has no account. -/
def Stranger (s : Session) (username : String) : Prop :=
  username ∈ s.username :: s.elevations ∧ s.accounts.contains username = false

variable {s t : Session} {username : String} {mark : Mark}

theorem not_stranger_iff : ¬s.Stranger username ↔
    (username ∈ s.username :: s.elevations → s.accounts.contains username = true) := by
  rw [Stranger, not_and, Bool.not_eq_false]

theorem stranger_of_same (hSame : SameUsers s t) (h : t.Stranger username) : s.Stranger username := by
  rw [Stranger, hSame.username, hSame.elevations, hSame.accounts] at h
  exact h

theorem stranger_of_insert {a : Account} (h : Stranger { s with accounts := s.accounts.insert a } username) :
    s.Stranger username := by
  refine ⟨h.1, ?_⟩
  have hUnknown := h.2
  rw [Roster.contains_insert, Bool.or_eq_false_iff] at hUnknown
  exact hUnknown.2

/-- Nobody who is active is deleted. -/
theorem stranger_of_erase {other : String} (hInactive : s.activeUsers.contains other = false)
    (h : Stranger { s with accounts := s.accounts.erase other } username) : s.Stranger username := by
  obtain ⟨hActive, hUnknown⟩ := h
  refine ⟨hActive, ?_⟩
  have hne : username ≠ other := by
    rintro rfl
    rw [activeUsers, Roster.contains_ofList, List.any_eq_false] at hInactive
    exact hInactive username hActive (beq_self_eq_true username)
  rwa [Roster.contains_erase, bne_iff_ne.mpr hne, Bool.true_and] at hUnknown

theorem Enrolment.stranger (hStep : Enrolment s t) (h : t.Stranger username) : s.Stranger username := by
  cases hStep with
  | same hSame => exact stranger_of_same hSame.toSameUsers h
  | addGroup group => exact h
  | enlist home => exact stranger_of_insert h
  | regroup => exact stranger_of_insert h
  | erase hInactive => exact stranger_of_erase hInactive h
  | dropOwnGroup account =>
    rcases dropOwnGroup_eq s account with hSame | hDropped
    · rwa [hSame] at h
    · rw [hDropped] at h
      exact h
  | switch hKnown =>
    obtain ⟨hActive, hUnknown⟩ := h
    rcases List.mem_cons.mp hActive with rfl | hWaiting
    · cases hKnown.symm.trans hUnknown
    · exact ⟨List.mem_cons_of_mem _ hWaiting, hUnknown⟩

theorem Enrolments.stranger (hSteps : Enrolments s t) (h : t.Stranger username) : s.Stranger username := by
  induction hSteps with
  | refl => exact h
  | tail _ hStep ih => exact ih (hStep.stranger h)

theorem stranger_of_apply (o : Operation) (h : (s.apply o).2.Stranger username) : s.Stranger username :=
  Enrolments.stranger (enrols_steps o s) h

theorem stranger_of_enter (h : s.enterElevation.2.Stranger username) : username = adminName ∨ s.Stranger username := by
  obtain ⟨hActive, hUnknown⟩ := h
  rcases List.mem_cons.mp hActive with rfl | hOuter
  · exact .inl rfl
  · exact .inr ⟨hOuter, hUnknown⟩

/-- Whoever a block returns to was waiting inside of it. -/
theorem stranger_of_leave {rest : List String} (hOpen : s.elevations = mark.username :: rest)
    (h : (leaveElevation mark s).2.Stranger username) : s.Stranger username := by
  unfold leaveElevation at h
  rw [hOpen] at h
  obtain ⟨hActive, hUnknown⟩ := h
  refine ⟨?_, hUnknown⟩
  rw [hOpen]
  rcases List.mem_cons.mp hActive with rfl | hWaiting
  · dsimp only
    split
    · simp
    · simp
  · exact List.mem_cons_of_mem _ (List.mem_cons_of_mem _ hWaiting)

end VirtualShell.Session
