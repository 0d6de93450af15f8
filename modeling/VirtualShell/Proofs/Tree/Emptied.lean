import VirtualShell.Proofs.Result
import VirtualShell.Proofs.Tree.Refill

/-!
# Trees without what lies below one directory

`emptied` leaves out all that lies below the directory at a spot. Two trees differ only there if they are
the same once it is left out. As long as the way down does not enter that directory, it finds in the emptied
tree what it finds in the whole one.
-/
namespace VirtualShell
set_option autoImplicit false

namespace Node

def bare : Node → Node
  | file i c => file i c
  | dir i _ => dir i []

def emptied : Spot → Node → Node
  | none, n => n
  | some ps, n => n.modify bare ps

variable {n m e : Node} {w : Spot}

@[simp] theorem info_bare (n : Node) : n.bare.info = n.info := by cases n <;> rfl

@[simp] theorem name_bare (n : Node) : n.bare.name = n.name := by cases n <;> rfl

@[simp] theorem isDir_bare (n : Node) : n.bare.isDir = n.isDir := by cases n <;> rfl

@[simp] theorem kind_bare (n : Node) : n.bare.kind = n.kind := by cases n <;> rfl

@[simp] theorem content_bare (n : Node) : n.bare.content = n.content := by cases n <;> rfl

@[simp] theorem bare_bare (n : Node) : n.bare.bare = n.bare := by cases n <;> rfl

theorem bare_mapEntries (g : List Node → List Node) (n : Node) : (n.mapEntries g).bare = n.bare := by
  cases n <;> rfl

theorem bare_eq_dir {i : Info} (h : n.bare = dir i []) : ∃ es, n = dir i es := by
  cases n with
  | file j c => cases h
  | dir j es =>
    obtain ⟨rfl⟩ : j = i := by simpa [bare] using h
    exact ⟨es, rfl⟩

@[simp] theorem emptied_none (n : Node) : n.emptied none = n := rfl

theorem map_emptied_none (found : Option Node) : found.map (emptied none) = found := by
  cases found <;> rfl

@[simp] theorem bare_emptied (w : Spot) (n : Node) : (n.emptied w).bare = n.bare := by
  match w with
  | none => rfl
  | some [] => exact bare_bare n
  | some (_ :: _) => exact bare_mapEntries _ n

@[simp] theorem info_emptied (w : Spot) (n : Node) : (n.emptied w).info = n.info := by
  rw [← info_bare, bare_emptied, info_bare]

@[simp] theorem name_emptied (w : Spot) (n : Node) : (n.emptied w).name = n.name := by
  rw [← name_bare, bare_emptied, name_bare]

@[simp] theorem isDir_emptied (w : Spot) (n : Node) : (n.emptied w).isDir = n.isDir := by
  rw [← isDir_bare, bare_emptied, isDir_bare]

theorem emptied_file (w : Spot) (i : Info) (c : String) : (file i c).emptied w = file i c := by
  match w with
  | none => rfl
  | some [] => rfl
  | some (_ :: _) => rfl

/-- A directory that is not the one at the spot keeps its entries, each without what is to be left out of it. -/
theorem emptied_dir (h : w ≠ some []) (i : Info) (es : List Node) :
    (dir i es).emptied w = dir i (es.map fun e => e.emptied (Spot.enter e.name w)) := by
  match w with
  | none => simp
  | some [] => exact absurd rfl h
  | some (p :: ps) =>
    have hEntry : ∀ e : Node,
        (if e.name == p then e.modify bare ps else e) = e.emptied (Spot.enter e.name (some (p :: ps))) := by
      intro e
      rw [Spot.enter_cons]
      by_cases hp : e.name = p
      · simp [hp, emptied]
      · simp [hp, Ne.symm hp]
    rw [emptied, modify_dir]
    simp only [hEntry]

theorem exists_emptied_dir (w : Spot) (i : Info) (es : List Node) : ∃ xs, (dir i es).emptied w = dir i xs :=
  bare_eq_dir (bare_emptied w (dir i es))

theorem entries_emptied (h : w ≠ some []) (n : Node) :
    (n.emptied w).entries = n.entries.map fun e => e.emptied (Spot.enter e.name w) := by
  cases n with
  | file i c => rw [emptied_file]; rfl
  | dir i es => rw [emptied_dir h]; rfl

theorem child?_emptied (h : w ≠ some []) (n : Node) (p : String) :
    (n.emptied w).child? p = (n.child? p).map (emptied (Spot.enter p w)) := by
  match w with
  | none => rw [emptied_none, Spot.enter_none, map_emptied_none]
  | some [] => exact absurd rfl h
  | some (q :: ps) =>
    rw [emptied, child?_modify name_bare, Spot.enter_cons]
    by_cases hp : p = q
    · simp only [hp, if_true]
      rfl
    · rw [if_neg hp, if_neg (Ne.symm hp), map_emptied_none]

theorem get?_emptied_here (n : Node) (ps : List String) : (n.emptied (some ps)).get? ps = (n.get? ps).map bare := by
  have h := get?_modify_append name_bare ps [] n
  rw [List.append_nil] at h
  rw [emptied, h]
  cases n.get? ps <;> rfl

/-- What does not lie below the directory is found without what does. -/
theorem get?_emptied {ps qs : List String} (h : ¬∃ q rest, qs = ps ++ q :: rest) (n : Node) :
    (n.emptied (some ps)).get? qs = (n.get? qs).map (emptied (Spot.follow (some ps) qs)) := by
  induction qs generalizing ps n with
  | nil => rfl
  | cons q qs ih =>
    cases ps with
    | nil => exact absurd ⟨q, qs, rfl⟩ h
    | cons p ps =>
      have hAway : some (p :: ps) ≠ some [] := by simp
      rw [get?_cons, get?_cons, child?_emptied hAway, Spot.follow_cons, Spot.enter_cons]
      by_cases hp : p = q
      · subst hp
        rw [if_pos rfl]
        have hBelow : ¬∃ r rest, qs = ps ++ r :: rest := by
          rintro ⟨r, rest, rfl⟩
          exact h ⟨r, rest, rfl⟩
        cases n.child? p with
        | none => rfl
        | some e => exact ih hBelow e
      · rw [if_neg hp, Spot.follow_none, map_emptied_none, map_emptied_none]

/-- Whatever is done to the entries of the directory, nothing changes elsewhere. -/
theorem emptied_modify {g : List Node → List Node} (ps : List String) (n : Node) :
    (n.modify (mapEntries g) ps).emptied (some ps) = n.emptied (some ps) := by
  rw [emptied, modify_modify (name_mapEntries g)]
  simp only [bare_mapEntries]
  rfl

end Node

namespace Subject

variable {u : Subject} {n m e : Node} {w : Spot}

structure Bars (u : Subject) (w : Spot) (n : Node) : Prop where
  ordered : n.Everywhere Node.Ordered
  closed : ∀ ps m, w = some ps → n.get? ps = some m → u.may .execute m ≠ .ok true

theorem Bars.follow {qs : List String} (h : u.Bars w n) (hm : n.get? qs = some m) : u.Bars (w.follow qs) m := by
  refine ⟨h.ordered.get? hm, fun ps d hps hd => ?_⟩
  apply h.closed _ d (Spot.follow_eq_some.mp hps)
  rw [Node.get?_append, hm]
  exact hd

theorem Bars.enter (h : u.Bars w n) (he : e ∈ n.entries) : u.Bars (Spot.enter e.name w) e := by
  have hChild : n.child? e.name = some e := (Keyed.find?_eq_some_iff h.ordered.here).mpr ⟨he, rfl⟩
  have hGet : n.get? [e.name] = some e := by
    rw [Node.get?_cons, hChild]
    rfl
  exact h.follow hGet

theorem Bars.ne_here (h : u.Bars w n) (hMay : u.may .execute n = .ok true) : w ≠ some [] :=
  fun hHere => h.closed [] n hHere rfl hMay

theorem may_congr {a : Access} (hInfo : m.info = n.info) (hDir : m.isDir = n.isDir) : u.may a m = u.may a n := by
  simp only [may, hInfo, hDir]

theorem may_emptied (u : Subject) (a : Access) (w : Spot) (n : Node) : u.may a (n.emptied w) = u.may a n :=
  may_congr (Node.info_emptied w n) (Node.isDir_emptied w n)

theorem mayAll_emptied (u : Subject) (as : List Access) (w : Spot) (n : Node) :
    u.mayAll (n.emptied w) as = u.mayAll n as := by
  induction as with
  | nil => rfl
  | cons a as ih => rw [mayAll, mayAll, may_emptied, ih]

theorem Bars.reach_emptied (h : u.Bars w n) (shown : String) (qs : List String) :
    u.reach shown (n.emptied w) qs = (u.reach shown n qs).map (Node.emptied (w.follow qs)) := by
  induction qs generalizing n w with
  | nil => rfl
  | cons q qs ih =>
    rw [reach, reach, Node.isDir_emptied, may_emptied]
    split
    · cases hMay : u.may .execute n with
      | error fault => rfl
      | ok may =>
        cases may with
        | false => rfl
        | true =>
          simp only [Result.ok_bind, if_true, Node.child?_emptied (h.ne_here hMay), Spot.follow_cons]
          cases hChild : n.child? q with
          | none => rfl
          | some e =>
            have hEntry := h.enter (Node.mem_of_child? hChild)
            rw [Node.name_of_child? hChild] at hEntry
            exact ih hEntry
    · rfl

end Subject

def Node.SameUpTo (w : Spot) (n m : Node) : Prop := m.emptied w = n.emptied w

namespace Node.SameUpTo

variable {w : Spot} {n m : Node}

theorem info (h : SameUpTo w n m) : m.info = n.info := by rw [← info_emptied w m, h, info_emptied]

theorem isDir (h : SameUpTo w n m) : m.isDir = n.isDir := by rw [← isDir_emptied w m, h, isDir_emptied]

theorem name (h : SameUpTo w n m) : m.name = n.name := by rw [← name_emptied w m, h, name_emptied]

theorem may (h : SameUpTo w n m) (u : Subject) (a : Access) : u.may a m = u.may a n :=
  Subject.may_congr h.info h.isDir

theorem mayAll (h : SameUpTo w n m) (u : Subject) (as : List Access) : u.mayAll m as = u.mayAll n as := by
  rw [← u.mayAll_emptied as w m, h, u.mayAll_emptied]

/-- The entries of a directory that is not at the spot itself. -/
theorem child? (h : SameUpTo w n m) (hAway : w ≠ some []) (p : String) :
    (m.child? p = none ∧ n.child? p = none) ∨
      ∃ e e', n.child? p = some e ∧ m.child? p = some e' ∧ SameUpTo (Spot.enter p w) e e' := by
  have hChild : (m.emptied w).child? p = (n.emptied w).child? p := congrArg (·.child? p) h
  rw [child?_emptied hAway, child?_emptied hAway] at hChild
  cases hn : n.child? p with
  | none =>
    rw [hn] at hChild
    exact .inl ⟨Option.map_eq_none_iff.mp hChild, rfl⟩
  | some e =>
    rw [hn] at hChild
    obtain ⟨e', he', hSame⟩ := Option.map_eq_some_iff.mp hChild
    exact .inr ⟨e, e', rfl, he', hSame⟩

theorem isNone_child? (h : SameUpTo w n m) (hAway : w ≠ some []) (p : String) :
    (m.child? p).isNone = (n.child? p).isNone := by
  rcases h.child? hAway p with ⟨hm, hn⟩ | ⟨e, e', hn, hm, -⟩
  · rw [hm, hn]
  · rw [hm, hn]
    rfl

end Node.SameUpTo

end VirtualShell
