import VirtualShell.Proofs.Session.Ancestors

/-!
# What the checks ask for

Each check is passed if and only if the user has the rights that it asks for. None of them looks at more than those
rights, and none of them passes when a permission text is too short to tell.
-/
namespace VirtualShell
set_option autoImplicit false

namespace Subject

variable {u : Subject} {n m : Node}

theorem mayAll_eq_ok_true_iff {as : List Access} : u.mayAll n as = .ok true ↔ ∀ a ∈ as, u.may a n = .ok true := by
  induction as with
  | nil => simp [mayAll]
  | cons a as ih =>
    constructor
    · exact fun h b hb => may_of_mayAll h hb
    · intro h
      obtain ⟨ha, has⟩ := List.forall_mem_cons.mp h
      rw [mayAll, ha]
      exact ih.mpr has

/-- A node is reached through directories that are searchable, whatever the node itself allows. -/
theorem reach_eq_ok_iff {shown : String} {ps : List String} : u.reach shown n ps = .ok m ↔ n.get? ps = some m ∧
    ∀ ds rest d, ps = ds ++ rest → rest ≠ [] → n.get? ds = some d → u.may .execute d = .ok true := by
  constructor
  · intro h
    refine ⟨get?_of_reach h, fun ds rest d hps hRest hd => ?_⟩
    subst hps
    exact may_of_reach h hRest hd
  · rintro ⟨hm, hSearch⟩
    -- the way below the first name is searchable as a part of the whole one
    induction ps generalizing n with
    | nil =>
      cases hm
      rfl
    | cons p ps ih =>
      rw [Node.get?_cons] at hm
      obtain ⟨e, he, hm⟩ := Option.bind_eq_some_iff.mp hm
      have hHere : u.may .execute n = .ok true := hSearch [] (p :: ps) n rfl (List.cons_ne_nil p ps) rfl
      rw [reach, if_pos (Node.isDir_of_child? he), hHere, Result.ok_bind, if_pos rfl, he]
      refine ih hm fun ds rest d hps hRest hd => hSearch (p :: ds) rest d (by rw [hps]; rfl) hRest ?_
      rw [Node.get?_cons, he]
      exact hd

end Subject

namespace Session

variable {s : Session} {path : PathArg} {full : String} {n : Node} {attempt : Attempt}

theorem reach_eq_ok_iff : s.reach full path = .ok n ↔ s.lookup full = some n ∧ s.Searchable (Path.split full) :=
  Subject.reach_eq_ok_iff

theorem parentNode_eq_ok_iff : s.parentNode full = .ok n ↔ s.lookup (Path.parentOf full) = some n := by
  unfold parentNode
  split
  · rename_i m hm
    rw [hm, Except.ok.injEq, Option.some_inj]
  · rename_i hNone
    rw [hNone]
    constructor <;> nofun

theorem requireModifiable_eq_ok_iff : s.requireModifiable n attempt = .ok () ↔
    s.subject.may .write n = .ok true ∧ s.subject.may .execute n = .ok true := by
  unfold requireModifiable refuse
  rw [Result.bind_ite_eq_ok_iff, Subject.mayAll_eq_ok_true_iff]
  simp [pure, Except.pure]

theorem requireRemovable_eq_ok_iff {xs : List (String × Node)} : s.requireRemovable xs = .ok () ↔
    ∀ q m, (q, m) ∈ xs → m.isDir = true → ∀ a, s.subject.may a m = .ok true := by
  have hAll : ∀ a : Access, a ∈ Access.all := fun a => by cases a <;> decide
  induction xs with
  | nil => simp [requireRemovable]
  | cons x xs ih =>
    obtain ⟨p, d⟩ := x
    have hHead : s.requireRemovable ((p, d) :: xs) = .ok () ↔
        (d.isDir = true → ∀ a, s.subject.may a d = .ok true) ∧ s.requireRemovable xs = .ok () := by
      rw [requireRemovable, refuse]
      split
      · rename_i hDir
        rw [Result.bind_ite_eq_ok_iff, Subject.mayAll_eq_ok_true_iff]
        simp [hDir, hAll]
      · rename_i hFile
        simp [hFile]
    rw [hHead]
    constructor
    · rintro ⟨hFirst, hRest⟩ q m hm
      rcases List.mem_cons.mp hm with hm | hm
      · cases hm
        exact hFirst
      · exact ih.mp hRest q m hm
    · intro h
      exact ⟨h p d List.mem_cons_self, ih.mpr fun q m hm => h q m (List.mem_cons_of_mem _ hm)⟩

end Session

end VirtualShell
