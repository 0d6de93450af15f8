import VirtualShell.Proofs.Session.Ancestors
import VirtualShell.Proofs.Tree.Refill

/-!
# Hidden files

A file is hidden from a user if on the way down to it there is a directory that he may not search, or if he
may not read the file itself. What he reaches hides it still, and what he may copy does not hold it.
-/
namespace VirtualShell
set_option autoImplicit false

namespace Subject

variable {u : Subject} {n m e : Node} {w : Spot}

def HidesAlong (u : Subject) : List String → Node → Prop
  | [], n => u.may .read n ≠ .ok true
  | p :: ps, n => u.may .execute n = .ok true → ∀ e ∈ n.entries, e.name = p → u.HidesAlong ps e

/-- The file at a spot cannot be read by going down to it. -/
def Hides (u : Subject) (w : Spot) (n : Node) : Prop := ∀ ps, w = some ps → u.HidesAlong ps n

theorem Hides.enter (h : u.Hides w n) (hMay : u.may .execute n = .ok true) (he : e ∈ n.entries) :
    u.Hides (Spot.enter e.name w) e := by
  intro ps hps
  exact h _ (Spot.enter_eq_some.mp hps) hMay e he rfl

theorem Hides.follow {shown : String} {qs : List String} (h : u.Hides w n) (hReach : u.reach shown n qs = .ok m) :
    u.Hides (w.follow qs) m := by
  induction qs generalizing n w with
  | nil =>
    cases hReach
    exact h
  | cons q qs ih =>
    rw [reach] at hReach
    split at hReach
    · obtain ⟨may, hMay, hReach⟩ := Result.exists_of_bind_ok hReach
      split at hReach
      · rename_i hTrue
        subst hTrue
        split at hReach
        · rename_i e hChild
          have hEnter := h.enter hMay (Node.mem_of_child? hChild)
          rw [Node.name_of_child? hChild] at hEnter
          exact ih hEnter hReach
        · cases hReach
      · cases hReach
    · cases hReach

/-- Who cannot read a file, or cannot search a directory above it, has it hidden from him. -/
theorem hidesAlong_of_get? {ps : List String} (hOrder : n.Everywhere Node.Ordered) (hm : n.get? ps = some m)
    (h : u.may .read m ≠ .ok true ∨
      ∃ ds rest d, ps = ds ++ rest ∧ rest ≠ [] ∧ n.get? ds = some d ∧ u.may .execute d ≠ .ok true) :
    u.HidesAlong ps n := by
  induction ps generalizing n with
  | nil =>
    cases hm
    rcases h with hRead | ⟨ds, rest, d, hps, hRest, -, -⟩
    · exact hRead
    · exact absurd (List.append_eq_nil_iff.mp hps.symm).2 hRest
  | cons p ps ih =>
    intro hMay e he hName
    have hChild : n.child? p = some e := (Keyed.find?_eq_some_iff hOrder.here).mpr ⟨he, hName⟩
    rw [Node.get?_cons, hChild] at hm
    apply ih (hOrder.of_mem he) hm
    rcases h with hRead | ⟨ds, rest, d, hps, hRest, hd, hClosed⟩
    · exact .inl hRead
    · cases ds with
      | nil =>
        cases hd
        exact absurd hMay hClosed
      | cons q ds =>
        obtain ⟨rfl, hTail⟩ := List.cons.inj hps
        rw [Node.get?_cons, hChild] at hd
        exact .inr ⟨ds, rest, d, hTail, hRest, hd, hClosed⟩

/-- A subtree that can be read in full hides nothing. -/
theorem not_hidesAlong {ps : List String} (hm : n.get? ps = some m)
    (h : n.Everywhere fun k => u.may .read k = .ok true ∧ (k.isDir = true → u.may .execute k = .ok true)) :
    ¬u.HidesAlong ps n := by
  induction ps generalizing n with
  | nil => exact fun hHides => hHides h.here.1
  | cons p ps ih =>
    intro hHides
    rw [Node.get?_cons] at hm
    obtain ⟨e, he, hm⟩ := Option.bind_eq_some_iff.mp hm
    have hMem := Node.mem_of_child? he
    have hDir : n.isDir = true := by
      cases n with
      | file i c => cases hMem
      | dir i es => rfl
    exact ih hm (h.of_mem hMem) (hHides (h.here.2 hDir) e hMem (Node.name_of_child? he))

end Subject

namespace Session

variable {s : Session} {path : PathArg} {target : String}

/-- There is a file at the place `ps` that the acting user cannot read, or he cannot search every directory
above it. -/
def Unreadable (s : Session) (ps : List String) : Prop :=
  ∃ i c, s.root.get? ps = some (.file i c) ∧ (s.subject.may .read (.file i c) ≠ .ok true ∨ ¬s.Searchable ps)

theorem Unreadable.hides {ps : List String} (h : s.Unreadable ps) (hOrder : s.root.Everywhere Node.Ordered) :
    s.subject.Hides (some ps) s.root := by
  obtain ⟨i, c, hFile, hClosed⟩ := h
  intro qs hqs
  cases hqs
  apply Subject.hidesAlong_of_get? hOrder hFile
  rcases hClosed with hRead | hSearch
  · exact .inl hRead
  · right
    by_contra hNone
    apply hSearch
    intro ds rest d hps hRest hd
    by_contra hMay
    exact hNone ⟨ds, rest, d, hps, hRest, hd, hMay⟩

/-- The administrator reads everything. -/
theorem Unreadable.not_admin {ps : List String} (h : s.Unreadable ps) : s.subject.isAdmin = false := by
  obtain ⟨i, c, hFile, hClosed⟩ := h
  by_contra hAdmin
  have hAdmin : s.subject.isAdmin = true := by simpa using hAdmin
  rcases hClosed with hRead | hSearch
  · apply hRead
    simp [Subject.may, hAdmin]
  · apply hSearch
    intro ds rest d hps hRest hd
    have hDir : d.isDir = true := by
      obtain ⟨q, qs, rfl⟩ := List.exists_cons_of_ne_nil hRest
      rw [hps, Node.get?_append, hd] at hFile
      cases d with
      | file i c => cases hFile
      | dir i es => rfl
    rw [Subject.may, if_pos hAdmin, hDir, Bool.true_or]

theorem readable_of_requireReadable {xs : List (String × Node)} (h : s.requireReadable xs = .ok ()) {q : String}
    {m : Node} (hm : (q, m) ∈ xs) :
    s.subject.may .read m = .ok true ∧ (m.isDir = true → s.subject.may .execute m = .ok true) := by
  induction xs with
  | nil => cases hm
  | cons x xs ih =>
    obtain ⟨q', m'⟩ := x
    rw [requireReadable] at h
    obtain ⟨may, hMay, h⟩ := Result.exists_of_bind_ok h
    split at h
    · rename_i hTrue
      subst hTrue
      rcases List.mem_cons.mp hm with hm | hm
      · cases hm
        split at hMay
        · exact ⟨Subject.may_of_mayAll hMay (by simp), fun _ => Subject.may_of_mayAll hMay (by simp)⟩
        · rename_i hFile
          exact ⟨Subject.may_of_mayAll hMay (by simp), fun hDir => absurd hDir hFile⟩
      · exact ih h hm
    · cases h

/-- What may be copied does not hold the file. -/
theorem Unreadable.follow_eq_none {ps : List String} {n : Node} (h : s.Unreadable ps)
    (hOrder : s.root.Everywhere Node.Ordered) (hn : s.reach target path = .ok n) {shown : String}
    (hReadable : s.requireReadable (n.walk shown) = .ok ()) :
    Spot.follow (some ps) (Path.split target) = none := by
  cases hInside : Spot.follow (some ps) (Path.split target) with
  | none => rfl
  | some rest =>
    have hHides := (h.hides hOrder).follow hn
    obtain ⟨i, c, hFile, -⟩ := h
    obtain rfl : ps = Path.split target ++ rest := Option.some.inj (Spot.follow_eq_some.mp hInside)
    have hLookup : s.root.get? (Path.split target) = some n := lookup_of_reach hn
    rw [Node.get?_append, hLookup] at hFile
    -- All of the node could be read, the file in it as well.
    have hAll : n.Everywhere fun k =>
        s.subject.may .read k = .ok true ∧ (k.isDir = true → s.subject.may .execute k = .ok true) :=
      .of_walk fun q m hm => readable_of_requireReadable hReadable hm
    exact absurd (hHides rest hInside) (Subject.not_hidesAlong hFile hAll)

end Session

end VirtualShell
