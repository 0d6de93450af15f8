import VirtualShell.Proofs.Mode
import VirtualShell.Proofs.Session.Rights

/-!
# The way down

Whoever goes down from a node is stopped by the first name that does not lead on, because he is at a file, may not search
the directory, or does not find the name in it. What is wrong further down does not matter. All this is told by lookups
and by the letters of permission texts.
-/
namespace VirtualShell
set_option autoImplicit false

namespace Node

/-- A lookup of `ps` finds `m`, and `P` holds of every node that it passes on the way. -/
def Along (P : Node → Prop) (n : Node) (ps : List String) (m : Node) : Prop :=
  n.get? ps = some m ∧ ∀ ds rest d, ps = ds ++ rest → rest ≠ [] → n.get? ds = some d → P d

section

variable {P Q : Node → Prop} {n m k : Node} {p : String} {ps qs : List String}

theorem along_nil (n : Node) : n.Along P [] n := by
  refine ⟨rfl, fun ds rest d hps hRest => ?_⟩
  exact absurd (List.append_eq_nil_iff.mp hps.symm).2 hRest

theorem along_cons : n.Along P (p :: ps) m ↔ P n ∧ ∃ e, n.child? p = some e ∧ e.Along P ps m := by
  constructor
  · rintro ⟨hm, hWay⟩
    obtain ⟨e, he, hm⟩ := Option.bind_eq_some_iff.mp hm
    refine ⟨hWay [] (p :: ps) n rfl (List.cons_ne_nil p ps) rfl, e, he, hm, fun ds rest d hps hRest hd => ?_⟩
    refine hWay (p :: ds) rest d (by rw [hps]; rfl) hRest ?_
    rw [get?_cons, he]
    exact hd
  · rintro ⟨hn, e, he, hm, hBelow⟩
    refine ⟨by rw [get?_cons, he]; exact hm, fun ds rest d hps hRest hd => ?_⟩
    cases ds with
    | nil =>
      cases hd
      exact hn
    | cons q ds =>
      obtain ⟨rfl, rfl⟩ := List.cons.inj hps
      rw [get?_cons, he] at hd
      exact hBelow ds rest d rfl hRest hd

theorem Along.append (h : n.Along P ps m) (h' : m.Along P qs k) : n.Along P (ps ++ qs) k := by
  induction ps generalizing n with
  | nil =>
    cases h.1
    exact h'
  | cons p ps ih =>
    obtain ⟨hn, e, he, hBelow⟩ := along_cons.mp h
    exact along_cons.mpr ⟨hn, e, he, ih hBelow⟩

theorem Along.mono (h : n.Along P ps m) (hPQ : ∀ d, P d → Q d) : n.Along Q ps m :=
  ⟨h.1, fun ds rest d hps hRest hd => hPQ d (h.2 ds rest d hps hRest hd)⟩

end

end Node

theorem Access.place_lt (a : Access) : a.place < 3 := by
  cases a <;> decide

namespace Subject

def offset (u : Subject) (i : Info) : Nat :=
  if u.owns i = true then 0 else if u.groups.contains i.group = true then 3 else 6

/-- All but the administrator need the letter of the access in their triad. -/
def Has (u : Subject) (a : Access) (n : Node) : Prop :=
  if u.isAdmin = true then a = .execute → n.isDir = true ∨ 'x' ∈ n.info.permissions.toList
  else n.info.permissions.toList[u.offset n.info + a.place]? = some a.letter

instance (u : Subject) (a : Access) (n : Node) : Decidable (u.Has a n) :=
  inferInstanceAs (Decidable (if u.isAdmin = true then _ → _ ∨ _ else _ = some a.letter))

inductive Stops (u : Subject) (n : Node) (p : String) : Obstacle → Prop where
  | file : n.isDir = false → Stops u n p .notADirectory
  | closed : n.isDir = true → ¬u.Has .execute n → Stops u n p .denied
  | lacking : n.isDir = true → u.Has .execute n → n.child? p = none → Stops u n p .missing

/-- A lookup of `ps` finds `m`, and `u` may search every directory on the way. -/
def Leads (u : Subject) (n : Node) (ps : List String) (m : Node) : Prop :=
  n.get? ps = some m ∧ ∀ ds rest d, ps = ds ++ rest → rest ≠ [] → n.get? ds = some d → u.Has .execute d

/-- All names before some `p` lead on, and `p` does not. -/
def StopsAlong (u : Subject) (n : Node) (ps : List String) (o : Obstacle) : Prop :=
  ∃ ds p rest d, ps = ds ++ p :: rest ∧ u.Leads n ds d ∧ u.Stops d p o

variable {u : Subject} {n m e : Node} {p : String} {ps : List String} {o : Obstacle} {shown : String} {a : Access}

theorem offset_le (u : Subject) (i : Info) : u.offset i ≤ 6 := by
  unfold offset
  split
  · omega
  · split <;> omega

theorem may_eq (h : n.info.Valid) : u.may a n = .ok (decide (u.Has a n)) := by
  by_cases hAdmin : u.isAdmin = true
  · cases a <;> simp [may, Has, hAdmin]
  · have hLength : n.info.permissions.toList.length = 9 := (Mode.isPermissions_iff.mp h.permissions).1
    have hPlace := a.place_lt
    have hTriad : (u.triad n.info)[a.place]? = n.info.permissions.toList[u.offset n.info + a.place]? := by
      unfold triad offset
      split
      · simp [hPlace]
      · split <;> simp [hPlace]
    have hInside : u.offset n.info + a.place < n.info.permissions.toList.length := by
      have hOffset := u.offset_le n.info
      omega
    unfold may
    rw [if_neg hAdmin, hTriad, List.getElem?_eq_getElem hInside]
    simp [Has, hAdmin, hInside, beq_eq_decide]

theorem may_eq_ok_true_iff (h : n.info.Valid) : u.may a n = .ok true ↔ u.Has a n := by
  rw [may_eq h]
  simp

theorem may_eq_ok_true (h : n.info.Valid) (hHas : u.Has a n) : u.may a n = .ok true := (may_eq_ok_true_iff h).mpr hHas

theorem may_eq_ok_false (h : n.info.Valid) (hNot : ¬u.Has a n) : u.may a n = .ok false := by
  rw [may_eq h, decide_eq_false hNot]

theorem has_of_isAdmin (hAdmin : u.isAdmin = true) (h : a = .execute → n.isDir = true) : u.Has a n := by
  rw [Has, if_pos hAdmin]
  exact fun ha => .inl (h ha)

theorem mayAll_eq (h : n.info.Valid) (as : List Access) : u.mayAll n as = .ok (decide (∀ a ∈ as, u.Has a n)) := by
  induction as with
  | nil => rfl
  | cons a as ih =>
    rw [mayAll, may_eq h, Result.ok_bind, ih]
    by_cases hHas : u.Has a n <;> simp [hHas, pure, Except.pure]

theorem stops_or_enters (u : Subject) (n : Node) (p : String) :
    (∃ o, u.Stops n p o) ∨ u.Has .execute n ∧ ∃ e, n.child? p = some e := by
  cases hDir : n.isDir with
  | false => exact .inl ⟨_, .file hDir⟩
  | true =>
    by_cases hSearch : u.Has .execute n
    · cases hChild : n.child? p with
      | none => exact .inl ⟨_, .lacking hDir hSearch hChild⟩
      | some e => exact .inr ⟨hSearch, e, rfl⟩
    · exact .inl ⟨_, .closed hDir hSearch⟩

theorem Stops.not_enters (h : u.Stops n p o) (hSearch : u.Has .execute n) : n.child? p = none := by
  cases h with
  | file hFile =>
    cases n with
    | file i c => rfl
    | dir i es => cases hFile
  | closed _ hClosed => exact absurd hSearch hClosed
  | lacking _ _ hNone => exact hNone

theorem Stops.unique {o' : Obstacle} (h : u.Stops n p o) (h' : u.Stops n p o') : o = o' := by
  cases h <;> cases h' <;> simp_all

theorem reach_of_stops (hn : n.info.Valid) (h : u.Stops n p o) (ps : List String) :
    u.reach shown n (p :: ps) = .error (.refused (.obstructed (.reach shown) o)) := by
  rw [reach, may_eq hn, Result.ok_bind]
  cases h with
  | file hFile => simp [hFile, refuse]
  | closed hDir hClosed => simp [hDir, hClosed, refuse]
  | lacking hDir hSearch hNone => simp [hDir, hSearch, hNone, refuse]

theorem reach_of_enters (hn : n.info.Valid) (hSearch : u.Has .execute n) (he : n.child? p = some e)
    (ps : List String) : u.reach shown n (p :: ps) = u.reach shown e ps := by
  rw [reach, may_eq hn, Result.ok_bind]
  simp [Node.isDir_of_child? he, hSearch, he]

theorem leads_cons : u.Leads n (p :: ps) m ↔ u.Has .execute n ∧ ∃ e, n.child? p = some e ∧ u.Leads e ps m :=
  Node.along_cons

theorem leads_nil (u : Subject) (n : Node) : u.Leads n [] n := Node.along_nil n

theorem stopsAlong_cons : u.StopsAlong n (p :: ps) o ↔
    u.Stops n p o ∨ u.Has .execute n ∧ ∃ e, n.child? p = some e ∧ u.StopsAlong e ps o := by
  constructor
  · rintro ⟨ds, q, rest, d, hps, hLeads, hStops⟩
    cases ds with
    | nil =>
      obtain ⟨rfl, rfl⟩ := List.cons.inj hps
      cases hLeads.1
      exact .inl hStops
    | cons q' ds =>
      obtain ⟨rfl, rfl⟩ := List.cons.inj hps
      obtain ⟨hSearch, e, he, hLeads⟩ := leads_cons.mp hLeads
      exact .inr ⟨hSearch, e, he, ds, q, rest, d, rfl, hLeads, hStops⟩
  · rintro (hStops | ⟨hSearch, e, he, ds, q, rest, d, rfl, hLeads, hStops⟩)
    · exact ⟨[], p, ps, n, rfl, u.leads_nil n, hStops⟩
    · exact ⟨p :: ds, q, rest, d, rfl, leads_cons.mpr ⟨hSearch, e, he, hLeads⟩, hStops⟩

theorem not_stopsAlong_nil : ¬u.StopsAlong n [] o := by
  rintro ⟨ds, p, rest, d, hps, -⟩
  simp at hps

theorem reach_eq_ok_iff_leads (h : n.WellFormed) : u.reach shown n ps = .ok m ↔ u.Leads n ps m := by
  rw [reach_eq_ok_iff]
  constructor
  · rintro ⟨hm, hSearch⟩
    refine ⟨hm, fun ds rest d hps hRest hd => ?_⟩
    exact (may_eq_ok_true_iff (h.get? hd).info_valid).mp (hSearch ds rest d hps hRest hd)
  · rintro ⟨hm, hSearch⟩
    refine ⟨hm, fun ds rest d hps hRest hd => ?_⟩
    exact (may_eq_ok_true_iff (h.get? hd).info_valid).mpr (hSearch ds rest d hps hRest hd)

/-- A way down fails at the first name that does not lead on, with what stops there. -/
theorem reach_eq_error_iff {fault : Fault} (h : n.WellFormed) : u.reach shown n ps = .error fault ↔
    ∃ o, u.StopsAlong n ps o ∧ fault = .refused (.obstructed (.reach shown) o) := by
  induction ps generalizing n with
  | nil =>
    constructor
    · nofun
    · rintro ⟨o, hStops, -⟩
      exact absurd hStops not_stopsAlong_nil
  | cons p ps ih =>
    -- either the first name stops, and then nothing else can, or the way goes on from its entry
    rcases u.stops_or_enters n p with ⟨o, hStops⟩ | ⟨hSearch, e, he⟩
    · rw [reach_of_stops h.info_valid hStops, Except.error.injEq]
      constructor
      · rintro rfl
        exact ⟨o, stopsAlong_cons.mpr (.inl hStops), rfl⟩
      · rintro ⟨o', hAlong, rfl⟩
        rcases stopsAlong_cons.mp hAlong with hHere | ⟨hSearch, e, he, -⟩
        · rw [hStops.unique hHere]
        · cases (hStops.not_enters hSearch).symm.trans he
    · rw [reach_of_enters h.info_valid hSearch he, ih (h.of_mem (Node.mem_of_child? he))]
      refine exists_congr fun o => and_congr_left fun _ => ?_
      rw [stopsAlong_cons]
      constructor
      · exact fun hBelow => .inr ⟨hSearch, e, he, hBelow⟩
      · rintro (hHere | ⟨-, e', he', hBelow⟩)
        · cases (hHere.not_enters hSearch).symm.trans he
        · cases he.symm.trans he'
          exact hBelow

theorem reach_append (u : Subject) (shown : String) (n : Node) (ps qs : List String) :
    u.reach shown n (ps ++ qs) = u.reach shown n ps >>= fun m => u.reach shown m qs := by
  induction ps generalizing n with
  | nil => rfl
  | cons p ps ih =>
    rw [List.cons_append, reach, reach]
    split
    · cases u.may .execute n with
      | error fault => rfl
      | ok may =>
        cases may with
        | false => rfl
        | true =>
          cases n.child? p with
          | none => rfl
          | some e => exact ih e
    · rfl

/-- On the way to what is there nothing is in the way but rights. -/
theorem reach_of_get? (h : n.WellFormed) (hm : n.get? ps = some m) : u.reach shown n ps = .ok m ∨
    u.reach shown n ps = refuse (.obstructed (.reach shown) .denied) := by
  induction ps generalizing n with
  | nil =>
    cases hm
    exact .inl rfl
  | cons p ps ih =>
    rw [Node.get?_cons] at hm
    obtain ⟨e, he, hm⟩ := Option.bind_eq_some_iff.mp hm
    by_cases hSearch : u.Has .execute n
    · rw [reach_of_enters h.info_valid hSearch he]
      exact ih (h.of_mem (Node.mem_of_child? he)) hm
    · exact .inr (reach_of_stops h.info_valid (.closed (Node.isDir_of_child? he) hSearch) ps)

/-- Below a directory that may not be searched nothing is reached, whether it is there or not. -/
theorem reach_below (h : n.WellFormed) (hm : n.get? ps = some m) (hDir : m.isDir = true)
    (hClosed : u.may .execute m ≠ .ok true) (q : String) (rest : List String) :
    u.reach shown n (ps ++ q :: rest) = refuse (.obstructed (.reach shown) .denied) := by
  rw [reach_append]
  rcases reach_of_get? h hm with hReach | hReach
  · have hValid := (h.get? hm).info_valid
    rw [hReach, Result.ok_bind]
    exact reach_of_stops hValid (.closed hDir fun hHas => hClosed (may_eq_ok_true hValid hHas)) rest
  · rw [hReach]
    rfl

end Subject

end VirtualShell
