import Mathlib.Data.List.Lex
import VirtualShell.Proofs.Search.Walk
import VirtualShell.Proofs.Session.Descent
import VirtualShell.Proofs.Session.Run
import VirtualShell.Search.Find

/-!
# What is listed

A walk lists a node with its path and then, if it is a directory that the user may read and search, what is listed of
each of its entries, in the order of their names. A node is listed if and only if every directory on the way down to it
is open in this sense, and so a look at its path finds it.
-/
namespace VirtualShell
set_option autoImplicit false

namespace Subject

/-- The right to list a directory and to look at what is listed. -/
def Enters (u : Subject) (d : Node) : Prop := u.Has .read d ∧ u.Has .execute d

instance (u : Subject) (d : Node) : Decidable (u.Enters d) := inferInstanceAs (Decidable (_ ∧ _))

mutual

/-- The node itself and then, in a directory that `u` may enter, the lists of its entries. -/
def listing (u : Subject) (path : String) : Node → List (String × Node)
  | .file i c => [(path, .file i c)]
  | .dir i es => (path, .dir i es) :: if u.Enters (.dir i es) then u.listingOf path es else []

def listingOf (u : Subject) (path : String) : List Node → List (String × Node)
  | [] => []
  | e :: es => u.listing (Path.join path e.name) e ++ u.listingOf path es

end

end Subject

/-- `nodes` are what the user of `s` can list from the node `n` at `start` on. -/
structure Session.Lists (s : Session) (start : PathArg) (n : Node) (nodes : List (String × Node)) : Prop where
  reference : nodes = s.subject.listing (s.resolve start) n
  /-- Directories come before what is below them, and names in their order. -/
  sorted : nodes.Pairwise fun x y => Path.split x.1 < Path.split y.1
  once : (nodes.map Prod.fst).Nodup
  listed_iff : ∀ q m, (q, m) ∈ nodes ↔
    ∃ rest, q = Path.ofParts (Path.split (s.resolve start) ++ rest) ∧ n.Along s.subject.Enters rest m
  stat : ∀ q m, (q, m) ∈ nodes → s.stat (some q) = .ok m
  find_iff : ∀ (f : FindFilters) found, s.find start f = .ok found ↔
    (∀ x ∈ nodes, ∃ b, f.accepts s.now x.2 = .ok b) ∧
      found = (nodes.filter fun x => (f.accepts s.now x.2).toOption == some true).map Prod.fst
  admin : s.subject.isAdmin = true → nodes = n.walk (s.resolve start)

namespace Subject

variable {u : Subject} {n m : Node} {path q : String} {qs : List String}

theorem listingOf_eq_flatMap (path : String) (es : List Node) :
    u.listingOf path es = es.flatMap fun e => u.listing (Path.join path e.name) e := by
  induction es with
  | nil => rfl
  | cons e es ih => rw [listingOf, ih, List.flatMap_cons]

theorem listing_dir (path : String) (i : Info) (es : List Node) : u.listing path (.dir i es) =
    (path, .dir i es) ::
      if u.Enters (.dir i es) then es.flatMap fun e => u.listing (Path.join path e.name) e else [] := by
  rw [listing, listingOf_eq_flatMap]

theorem walkList_eq_listing {es : List Node} (h : ∀ e ∈ es, ∀ path, u.walk path e = ⟨u.listing path e, none⟩)
    (path : String) : u.walkList path es = ⟨u.listingOf path es, none⟩ := by
  induction es with
  | nil => rfl
  | cons e es ih =>
    obtain ⟨he, hes⟩ := List.forall_mem_cons.mp h
    rw [walkList, he, ih hes, listingOf]
    rfl

theorem walk_eq_listing (h : n.WellFormed) (path : String) : u.walk path n = ⟨u.listing path n, none⟩ := by
  induction h generalizing path with
  | file => rfl
  | @dir i es hi hOrder hPart hEntries ih =>
    have hValid : (Node.dir i es).info.Valid := hi
    have hMay : u.mayAll (.dir i es) [.read, .execute] = .ok (decide (u.Enters (.dir i es))) := by
      rw [mayAll_eq hValid]
      exact congrArg _ (decide_eq_decide.mpr (by simp [Enters]))
    rw [walk, listing, hMay]
    by_cases hEnters : u.Enters (.dir i es)
    · rw [decide_eq_true hEnters, if_pos hEnters, walkList_eq_listing ih]
      rfl
    · rw [decide_eq_false hEnters, if_neg hEnters]

theorem enters_of_isAdmin (hAdmin : u.isAdmin = true) (hDir : n.isDir = true) : u.Enters n :=
  ⟨has_of_isAdmin hAdmin nofun, has_of_isAdmin hAdmin fun _ => hDir⟩

/-- From the administrator nothing is kept. -/
theorem listing_eq_walk (hAdmin : u.isAdmin = true) (n : Node) (path : String) : u.listing path n = n.walk path := by
  induction n using Node.induct generalizing path with
  | file i c => rfl
  | dir i es ih =>
    rw [listing_dir, if_pos (enters_of_isAdmin hAdmin rfl), Node.walk, Node.walkList_eq_flatMap]
    exact congrArg _ (List.flatMap_congr fun e he => ih e he _)

theorem mem_listing_iff (h : n.WellFormed) (hqs : Path.AreParts qs) : (q, m) ∈ u.listing (Path.ofParts qs) n ↔
    ∃ rest, q = Path.ofParts (qs ++ rest) ∧ n.Along u.Enters rest m := by
  induction h generalizing qs with
  | @file i c =>
    rw [listing, List.mem_singleton]
    constructor
    · rintro ⟨⟩
      exact ⟨[], by rw [List.append_nil], Node.along_nil _⟩
    · rintro ⟨rest, rfl, hWay⟩
      cases rest with
      | nil =>
        cases hWay.1
        rw [List.append_nil]
      | cons p rest => cases hWay.1
  | @dir i es hi hOrder hPart hEntries ih =>
    rw [listing_dir, List.mem_cons]
    constructor
    · rintro (hHere | hBelow)
      · cases hHere
        exact ⟨[], by rw [List.append_nil], Node.along_nil _⟩
      · split at hBelow
        · rename_i hEnters
          obtain ⟨e, he, hm⟩ := List.mem_flatMap.mp hBelow
          rw [Path.join_ofParts hqs] at hm
          obtain ⟨rest, rfl, hWay⟩ := (ih e he (hqs.concat (hPart e he))).mp hm
          have hChild : (Node.dir i es).child? e.name = some e := (Keyed.find?_eq_some_iff hOrder).mpr ⟨he, rfl⟩
          refine ⟨e.name :: rest, ?_, Node.along_cons.mpr ⟨hEnters, e, hChild, hWay⟩⟩
          rw [List.append_assoc, List.singleton_append]
        · cases hBelow
    · rintro ⟨rest, rfl, hWay⟩
      cases rest with
      | nil =>
        cases hWay.1
        rw [List.append_nil]
        exact .inl rfl
      | cons p rest =>
        obtain ⟨hEnters, e, hChild, hBelow⟩ := Node.along_cons.mp hWay
        have he : e ∈ es := Node.mem_of_child? hChild
        obtain rfl := Node.name_of_child? hChild
        rw [if_pos hEnters]
        refine .inr (List.mem_flatMap.mpr ⟨e, he, ?_⟩)
        rw [Path.join_ofParts hqs]
        refine (ih e he (hqs.concat (hPart e he))).mpr ⟨rest, ?_, hBelow⟩
        rw [List.append_assoc, List.singleton_append]

theorem split_of_mem_listing (h : n.WellFormed) (hqs : Path.AreParts qs)
    (hm : (q, m) ∈ u.listing (Path.ofParts qs) n) : ∃ rest, Path.split q = qs ++ rest := by
  obtain ⟨rest, rfl, hWay⟩ := (mem_listing_iff h hqs).mp hm
  exact ⟨rest, Path.split_ofParts (hqs.append (h.areParts hWay.1))⟩

theorem sorted_listing (h : n.WellFormed) (hqs : Path.AreParts qs) :
    (u.listing (Path.ofParts qs) n).Pairwise fun x y => Path.split x.1 < Path.split y.1 := by
  induction h generalizing qs with
  | file => exact List.pairwise_singleton _ _
  | @dir i es hi hOrder hPart hEntries ih =>
    have hBelow (e : Node) (he : e ∈ es) (x : String × Node)
        (hx : x ∈ u.listing (Path.join (Path.ofParts qs) e.name) e) :
        ∃ rest, Path.split x.1 = qs ++ e.name :: rest := by
      rw [Path.join_ofParts hqs] at hx
      obtain ⟨rest, hSplit⟩ := split_of_mem_listing (hEntries e he) (hqs.concat (hPart e he)) hx
      exact ⟨rest, by rw [hSplit, List.append_assoc, List.singleton_append]⟩
    rw [listing_dir]
    split
    · refine List.pairwise_cons.mpr ⟨fun x hx => ?_, List.pairwise_flatMap.mpr ⟨fun e he => ?_, ?_⟩⟩
      · obtain ⟨e, he, hx⟩ := List.mem_flatMap.mp hx
        obtain ⟨rest, hSplit⟩ := hBelow e he x hx
        have hLonger := List.Lex.append_left (· < ·) (.nil : List.Lex _ [] (e.name :: rest)) qs
        rw [List.append_nil] at hLonger
        rw [hSplit, Path.split_ofParts hqs]
        exact hLonger
      · rw [Path.join_ofParts hqs]
        exact ih e he (hqs.concat (hPart e he))
      · refine hOrder.imp_of_mem fun {e e'} he he' hName x hx y hy => ?_
        obtain ⟨rest, hSplit⟩ := hBelow e he x hx
        obtain ⟨rest', hSplit'⟩ := hBelow e' he' y hy
        rw [hSplit, hSplit']
        exact List.Lex.append_left _ (.rel hName) qs
    · exact List.pairwise_singleton _ _

end Subject

theorem FindFilters.select_eq_ok_iff (f : FindFilters) (now : Float) {nodes : List (String × Node)}
    {found : List String} : f.select now nodes = .ok found ↔ (∀ x ∈ nodes, ∃ b, f.accepts now x.2 = .ok b) ∧
      found = (nodes.filter fun x => (f.accepts now x.2).toOption == some true).map Prod.fst := by
  induction nodes generalizing found with
  | nil => simp [select, eq_comm]
  | cons x nodes ih =>
    obtain ⟨path, n⟩ := x
    rw [select, List.forall_mem_cons]
    cases hHere : f.accepts now n with
    | error fault => simp [bind, Except.bind]
    | ok accepted =>
      rw [Result.ok_bind, Result.bind_eq_ok_iff]
      simp only [ih, List.filter_cons, hHere, pure, Except.pure, Except.ok.injEq]
      cases accepted <;> simp [Except.toOption, eq_comm]

namespace Session

variable {s : Session} {start : PathArg} {n : Node}

theorem find_of_walk {nodes : List (String × Node)} (h : s.walk start = ⟨nodes, none⟩) (f : FindFilters) :
    s.find start f = f.select s.now nodes := by
  rw [find, h]
  exact bind_pure _

section

variable (h : s.TreeSound)

include h

theorem TreeSound.areParts_resolve (start : PathArg) : Path.AreParts (Path.split (s.resolve start)) :=
  Path.areParts_split (Path.isCanonical_resolve s.home start h.canonical)

theorem TreeSound.ofParts_split_resolve (start : PathArg) :
    Path.ofParts (Path.split (s.resolve start)) = s.resolve start := by
  obtain ⟨ps, hps, hPath⟩ := Path.isCanonical_iff.mp (Path.isCanonical_resolve s.home start h.canonical)
  rw [resolve, hPath, Path.split_ofParts hps]

/-- Where to a way leads there is something to look at, whatever way the path was found. -/
theorem TreeSound.stat_ofParts {ps : List String} {m : Node} (hWay : s.subject.Leads s.root ps m) :
    s.stat (some (Path.ofParts ps)) = .ok m := by
  have hParts := h.wellFormed.areParts hWay.1
  rw [stat, reach, resolve, Path.resolve_of_isCanonical _ _ (Path.isCanonical_ofParts hParts),
    Path.split_ofParts hParts]
  exact (Subject.reach_eq_ok_iff_leads h.wellFormed).mpr hWay

theorem TreeSound.leads_of_stat (hStat : s.stat start = .ok n) :
    s.subject.Leads s.root (Path.split (s.resolve start)) n :=
  (Subject.reach_eq_ok_iff_leads h.wellFormed).mp hStat

theorem TreeSound.wellFormed_of_stat (hStat : s.stat start = .ok n) : n.WellFormed :=
  h.wellFormed.get? (h.leads_of_stat hStat).1

theorem TreeSound.exists_refusal_of_stat {fault : Fault} (hStat : s.stat start = .error fault) :
    ∃ refusal, fault = .refused refusal := by
  obtain ⟨o, -, hFault⟩ := (Subject.reach_eq_error_iff h.wellFormed).mp hStat
  exact ⟨_, hFault⟩

theorem TreeSound.walk_of_stat_error {fault : Fault} (hStat : s.stat start = .error fault) :
    s.walk start = Trail.empty := by
  obtain ⟨refusal, rfl⟩ := h.exists_refusal_of_stat hStat
  rw [walk, hStat]

theorem TreeSound.walk_of_stat_ok (hStat : s.stat start = .ok n) :
    s.walk start = ⟨s.subject.listing (s.resolve start) n, none⟩ :=
  (walk_of_stat hStat).trans (Subject.walk_eq_listing (h.wellFormed_of_stat hStat) _)

theorem TreeSound.lists (hStat : s.stat start = .ok n) :
    s.Lists start n (s.subject.listing (s.resolve start) n) := by
  have hWay := h.leads_of_stat hStat
  have hn := h.wellFormed_of_stat hStat
  have hStart := h.areParts_resolve start
  have hListed (q : String) (m : Node) : (q, m) ∈ s.subject.listing (s.resolve start) n ↔
      ∃ rest, q = Path.ofParts (Path.split (s.resolve start) ++ rest) ∧ n.Along s.subject.Enters rest m := by
    rw [← Subject.mem_listing_iff hn hStart, h.ofParts_split_resolve]
  have hSorted : (s.subject.listing (s.resolve start) n).Pairwise fun x y => Path.split x.1 < Path.split y.1 := by
    have hAll := Subject.sorted_listing (u := s.subject) hn hStart
    rwa [h.ofParts_split_resolve] at hAll
  refine ⟨rfl, hSorted, ?_, hListed, fun q m hm => ?_, fun f found => ?_, fun hAdmin => ?_⟩
  · refine List.pairwise_map.mpr (hSorted.imp fun {x y} hLess hEq => ?_)
    rw [hEq] at hLess
    exact List.lt_irrefl _ hLess
  · obtain ⟨rest, rfl, hBelow⟩ := (hListed q m).mp hm
    exact h.stat_ofParts (Node.Along.append hWay (hBelow.mono fun d hd => hd.2))
  · rw [find_of_walk (h.walk_of_stat_ok hStat), FindFilters.select_eq_ok_iff]
  · exact Subject.listing_eq_walk hAdmin n _

/-- Where there is nothing to look at a walk is empty and a search finds nothing. Elsewhere the walk gives the list
of what is below, which is in order, names no path twice, and has what can be gone to through directories that may be
entered. -/
theorem TreeSound.walk_exact (start : PathArg) :
    (∀ fault, s.stat start = .error fault → s.walk start = Trail.empty ∧ ∀ f, s.find start f = .ok []) ∧
      ∀ n, s.stat start = .ok n → ∃ nodes, s.walk start = ⟨nodes, none⟩ ∧ s.Lists start n nodes := by
  refine ⟨fun fault hStat => ?_, fun n hStat => ?_⟩
  · have hWalk := h.walk_of_stat_error hStat
    exact ⟨hWalk, find_of_walk hWalk⟩
  · exact ⟨_, h.walk_of_stat_ok hStat, h.lists hStat⟩

end

/-- The home of the administrator is listed, but not what is in it. -/
theorem walk_around_closed_home : ∃ s nodes, Session.fresh? "user" 0.0 = some s ∧ s.TreeSound ∧
    s.walk (some "/") = ⟨nodes, none⟩ ∧ s.Lists (some "/") s.root nodes ∧ "/root" ∈ nodes.map Prod.fst ∧
    (s.lookup "/root/.bashrc").isSome = true ∧ "/root/.bashrc" ∉ nodes.map Prod.fst := by
  have hRun : (Session.fresh? "user" 0.0).map (fun s =>
      (((s.subject.listing "/" s.root).map Prod.fst).contains "/root", (s.lookup "/root/.bashrc").isSome,
        ((s.subject.listing "/" s.root).map Prod.fst).contains "/root/.bashrc")) = some (true, true, false) := by
    decide +kernel
  obtain ⟨s, hFresh, hEnd⟩ := Option.map_eq_some_iff.mp hRun
  obtain ⟨hHome, hRest⟩ := Prod.mk.inj hEnd
  obtain ⟨hInside, hHidden⟩ := Prod.mk.inj hRest
  have hSound : s.TreeSound := (Reached.start hFresh).inv.sound.tree
  have hStat := hSound.stat_ofParts (Subject.leads_nil s.subject s.root)
  rw [Path.ofParts_nil] at hStat
  have hResolve : s.resolve (some "/") = "/" := Path.resolve_of_isCanonical s.home s.cwd (by decide)
  obtain ⟨nodes, hWalk, hLists⟩ := (hSound.walk_exact (some "/")).2 s.root hStat
  have hNodes := hLists.reference
  rw [hResolve] at hNodes
  rw [← hNodes] at hHome hHidden
  exact ⟨s, nodes, hFresh, hSound, hWalk, hLists, List.contains_iff_mem.mp hHome, hInside, by simpa using hHidden⟩

end Session

end VirtualShell
