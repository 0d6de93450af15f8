import Mathlib.Data.List.Nodup
import VirtualShell.Proofs.Search.Listed

/-!
# Tests together

A node passes the tests of a search if it passes each of them alone. The words of a search leave one test of each kind,
since a test that is given again replaces the one before; what is found is therefore what each of the tests that stand
finds alone.
-/
namespace VirtualShell
set_option autoImplicit false

/-- An exact age is a whole number of units, and so there is none without a finite age. -/
def AgeFilter.Settles (a : AgeFilter) (seconds : Float) : Prop :=
  a.comparison = .exact → (Exact.ofFloat (seconds / Float.ofNat a.unit)).floor? ≠ none

namespace FindFilters

def words (tests : List (String × String)) : List String := tests.flatMap fun t => [t.1, t.2]

/-- No test of the same kind comes later. -/
def Standing (tests : List (String × String)) (t : String × String) : Prop :=
  ∃ before after, tests = before ++ t :: after ∧ ∀ later ∈ after, later.1 ≠ t.1

inductive Slot where
  | name
  | anyCaseName
  | kind
  | days
  | minutes
  deriving DecidableEq

namespace Slot

def all : List Slot := [name, anyCaseName, kind, days, minutes]

def test : Slot → String
  | name => "-name"
  | anyCaseName => "-iname"
  | kind => "-type"
  | days => "-mtime"
  | minutes => "-mmin"

theorem mem_all (slot : Slot) : slot ∈ all := by
  cases slot <;> decide

theorem test_injective {slot other : Slot} (h : slot.test = other.test) : slot = other := by
  revert h
  cases slot <;> cases other <;> decide

end Slot

def check (f : FindFilters) (now : Float) (n : Node) : Slot → Except Fault Bool
  | .name => .ok (f.name.all fun p => (Glob.ofText p).matchesName n.name)
  | .anyCaseName => .ok (f.anyCaseName.all fun p => (Glob.ofText (Text.lower p)).matchesName (Text.lower n.name))
  | .kind => .ok (f.kind.all fun k => n.kind == k)
  | .days => passes f.days (·.accepts (now - n.info.modified))
  | .minutes => passes f.minutes (·.accepts (now - n.info.modified))

/-- Checks are made one after the other, and none after one that is not passed. -/
def inTurn : List (Except Fault Bool) → Except Fault Bool
  | [] => .ok true
  | c :: cs => do if ← c then inTurn cs else return false

structure Sets (slot : Slot) (single f g : FindFilters) : Prop where
  check : ∀ now n other, g.check now n other = if other = slot then single.check now n slot else f.check now n other
  alone : ∀ now n other, single.check now n other = if other = slot then single.check now n slot else .ok true

variable {f g single : FindFilters} {now : Float} {n : Node} {test value : String} {t : String × String}
  {tests : List (String × String)} {slot : Slot}

theorem inTurn_eq_ok_true_iff {cs : List (Except Fault Bool)} : inTurn cs = .ok true ↔ ∀ c ∈ cs, c = .ok true := by
  induction cs with
  | nil => simp [inTurn]
  | cons c cs ih =>
    rw [inTurn, List.forall_mem_cons, ← ih]
    cases c with
    | error fault => simp [bind, Except.bind]
    | ok b => cases b <;> simp [bind, Except.bind, pure, Except.pure]

theorem inTurn_answers {cs : List (Except Fault Bool)} (h : ∀ c ∈ cs, ∃ b, c = .ok b) : ∃ b, inTurn cs = .ok b := by
  induction cs with
  | nil => exact ⟨true, rfl⟩
  | cons c cs ih =>
    obtain ⟨⟨b, rfl⟩, hRest⟩ := List.forall_mem_cons.mp h
    rw [inTurn, Result.ok_bind]
    cases b with
    | false => exact ⟨false, rfl⟩
    | true => exact ih hRest

/-- Where only one check can fail it decides. -/
theorem inTurn_eq_of_mem {c : Except Fault Bool} {cs : List (Except Fault Bool)} (hc : c ∈ cs)
    (h : ∀ d ∈ cs, d = c ∨ d = .ok true) : inTurn cs = c := by
  induction cs with
  | nil => cases hc
  | cons d cs ih =>
    obtain ⟨hHere, hRest⟩ := List.forall_mem_cons.mp h
    rw [inTurn]
    rcases hHere with rfl | rfl
    · cases d with
      | error fault => rfl
      | ok b =>
        cases b with
        | false => rfl
        | true => exact inTurn_eq_ok_true_iff.mpr fun x hx => (hRest x hx).elim id id
    · rw [Result.ok_bind, if_pos rfl]
      rcases List.mem_cons.mp hc with rfl | hc
      · exact inTurn_eq_ok_true_iff.mpr fun x hx => (hRest x hx).elim id id
      · exact ih hc hRest

theorem accepts_eq (f : FindFilters) (now : Float) (n : Node) :
    f.accepts now n = inTurn (Slot.all.map (f.check now n)) := by
  have hLast (c : Except Fault Bool) : (do if ← c then Except.ok true else return false) = c := by
    rcases c with fault | _ | _ <;> rfl
  simp only [accepts, Slot.all, List.map_cons, List.map_nil, inTurn, check, Result.ok_bind, hLast]
  cases f.name.all fun p => (Glob.ofText p).matchesName n.name with
  | false => rfl
  | true =>
    cases f.anyCaseName.all fun p => (Glob.ofText (Text.lower p)).matchesName (Text.lower n.name) with
    | false => rfl
    | true => cases f.kind.all fun k => n.kind == k <;> rfl

theorem accepts_eq_ok_true_iff : f.accepts now n = .ok true ↔ ∀ slot, f.check now n slot = .ok true := by
  rw [accepts_eq, inTurn_eq_ok_true_iff, List.forall_mem_map]
  exact ⟨fun h slot => h slot slot.mem_all, fun h slot _ => h slot⟩

theorem accepts_answers (h : ∀ slot, ∃ b, f.check now n slot = .ok b) : ∃ b, f.accepts now n = .ok b := by
  rw [accepts_eq]
  exact inTurn_answers (List.forall_mem_map.mpr fun slot _ => h slot)

theorem accepts_of_sets (h : Sets slot single f g) : single.accepts now n = single.check now n slot := by
  rw [accepts_eq]
  refine inTurn_eq_of_mem (List.mem_map_of_mem slot.mem_all) (List.forall_mem_map.mpr fun other _ => ?_)
  rw [h.alone]
  split
  · exact .inl rfl
  · exact .inr rfl

/-- A test is accepted whatever the tests before it are, and it takes the place of the one of its kind. -/
theorem exists_sets_of_put (h : f.put test value = .ok g) : ∃ slot single, test = slot.test ∧
    none.put test value = .ok single ∧ ∀ f', ∃ g', f'.put test value = .ok g' ∧ Sets slot single f' g' := by
  unfold put at h ⊢
  split_ifs at h ⊢ with hName hAnyCase hKind hDays hMinutes
  · refine ⟨.name, _, beq_iff_eq.mp hName, rfl, fun f' => ⟨_, rfl, ?_, ?_⟩⟩ <;> rintro now n (_ | _) <;> rfl
  · refine ⟨.anyCaseName, _, beq_iff_eq.mp hAnyCase, rfl, fun f' => ⟨_, rfl, ?_, ?_⟩⟩ <;> rintro now n (_ | _) <;> rfl
  · cases hRead : kindOf? value with
    | none =>
      rw [hRead] at h
      cases h
    | some kind =>
      refine ⟨.kind, _, beq_iff_eq.mp hKind, rfl, fun f' => ⟨_, rfl, ?_, ?_⟩⟩ <;> rintro now n (_ | _) <;> rfl
  · obtain ⟨age, hRead, -⟩ := Result.exists_of_bind_ok h
    rw [hRead]
    refine ⟨.days, _, beq_iff_eq.mp hDays, rfl, fun f' => ⟨_, rfl, ?_, ?_⟩⟩ <;> rintro now n (_ | _) <;> rfl
  · obtain ⟨age, hRead, -⟩ := Result.exists_of_bind_ok h
    rw [hRead]
    refine ⟨.minutes, _, beq_iff_eq.mp hMinutes, rfl, fun f' => ⟨_, rfl, ?_, ?_⟩⟩ <;> rintro now n (_ | _) <;> rfl

theorem sets_of_put (h : f.put test value = .ok g) :
    ∃ slot single, test = slot.test ∧ none.put test value = .ok single ∧ Sets slot single f g := by
  obtain ⟨slot, single, hTest, hSingle, hSets⟩ := exists_sets_of_put h
  obtain ⟨g', hPut, hSets⟩ := hSets f
  cases h.symm.trans hPut
  exact ⟨slot, single, hTest, hSingle, hSets⟩

theorem put_accepted_iff (f f' : FindFilters) (test value : String) :
    (∃ g, f.put test value = .ok g) ↔ ∃ g, f'.put test value = .ok g := by
  have hOther {f f' : FindFilters} : (∃ g, f.put test value = .ok g) → ∃ g, f'.put test value = .ok g := by
    rintro ⟨g, hPut⟩
    obtain ⟨slot, single, -, -, hSets⟩ := exists_sets_of_put hPut
    obtain ⟨g', hPut', -⟩ := hSets f'
    exact ⟨g', hPut'⟩
  exact ⟨hOther, hOther⟩

theorem isTest_of_put (h : f.put test value = .ok g) : isTest test = true := by
  obtain ⟨slot, single, rfl, -, -⟩ := sets_of_put h
  cases slot <;> decide

theorem prefix_of_readFrom {starts starts' words : List String} (h : readFrom starts f words = .ok (starts', g)) :
    starts <+: starts' := by
  fun_induction readFrom starts f words with
  | case1 =>
    cases h
    exact List.prefix_rfl
  | case2 => cases h
  | case3 =>
    cases h
    exact List.prefix_append _ _
  | case4 => cases h
  | case5 starts f word value rest hTest ih =>
    obtain ⟨f', -, h⟩ := Result.exists_of_bind_ok h
    exact ih f' h
  | case6 starts f word value rest hPlace hNone ih => exact (List.prefix_append _ _).trans (ih h)
  | case7 => cases h

/-- Words without a place to start from are tests that are put one after the other. -/
theorem readFrom_words_iff : readFrom [] f (words tests) = .ok ([], g) ↔
    tests.foldlM (fun f t => f.put t.1 t.2) f = .ok g := by
  induction tests generalizing f with
  | nil => simp [words, readFrom, pure, Except.pure]
  | cons t tests ih =>
    have hWords : words (t :: tests) = t.1 :: t.2 :: words tests := rfl
    rw [hWords, readFrom, List.foldlM_cons, Result.bind_eq_ok_iff]
    constructor
    · intro h
      split_ifs at h with hTest hNone
      · obtain ⟨f', hPut, h⟩ := Result.exists_of_bind_ok h
        exact ⟨f', hPut, ih.mp h⟩
      · -- a word that is no test would be a place to start from
        have := (prefix_of_readFrom h).length_le
        simp at this
    · rintro ⟨f', hPut, h⟩
      rw [if_pos (isTest_of_put hPut), hPut]
      exact ih.mpr h

theorem read_words_iff : read (words tests) = .ok ([], f) ↔
    tests.foldlM (fun f t => f.put t.1 t.2) none = .ok f :=
  readFrom_words_iff

theorem read_single_iff : read (words [t]) = .ok ([], f) ↔ none.put t.1 t.2 = .ok f := by
  rw [read_words_iff, List.foldlM_cons]
  exact Eq.congr_left (bind_pure _)

/-- Tests are accepted together if each is accepted alone. -/
theorem accepted_iff : (∃ f, read (words tests) = .ok ([], f)) ↔ ∀ t ∈ tests, ∃ g, read (words [t]) = .ok ([], g) := by
  have hFold (f : FindFilters) : (∃ g, tests.foldlM (fun f t => f.put t.1 t.2) f = .ok g) ↔
      ∀ t ∈ tests, ∃ g, none.put t.1 t.2 = .ok g := by
    induction tests generalizing f with
    | nil => simp [pure, Except.pure]
    | cons t tests ih =>
      rw [List.forall_mem_cons, put_accepted_iff none f, List.foldlM_cons]
      simp only [Result.bind_eq_ok_iff]
      constructor
      · rintro ⟨g, f', hPut, hRest⟩
        exact ⟨⟨f', hPut⟩, (ih f').mp ⟨g, hRest⟩⟩
      · rintro ⟨⟨f', hPut⟩, hRest⟩
        obtain ⟨g, hRest⟩ := (ih f').mpr hRest
        exact ⟨g, f', hPut, hRest⟩
  simp only [read_single_iff]
  simp only [read_words_iff]
  exact hFold none

theorem standing_cons_iff {u : String × String} :
    Standing (u :: tests) t ↔ Standing tests t ∨ t = u ∧ ∀ later ∈ tests, later.1 ≠ t.1 := by
  constructor
  · rintro ⟨before, after, hTests, hLast⟩
    cases before with
    | nil =>
      obtain ⟨rfl, rfl⟩ := List.cons.inj hTests
      exact .inr ⟨rfl, hLast⟩
    | cons v before =>
      obtain ⟨-, rfl⟩ := List.cons.inj hTests
      exact .inl ⟨before, after, rfl, hLast⟩
  · rintro (⟨before, after, rfl, hLast⟩ | ⟨rfl, hLast⟩)
    · exact ⟨u :: before, after, rfl, hLast⟩
    · exact ⟨[], tests, rfl, hLast⟩

theorem not_standing_nil (t : String × String) : ¬Standing [] t := by
  rintro ⟨before, after, hTests, -⟩
  exact absurd (congrArg List.length hTests) (by simp)

theorem Standing.mem (h : Standing tests t) : t ∈ tests := by
  obtain ⟨before, after, rfl, -⟩ := h
  exact List.mem_append_right _ List.mem_cons_self

theorem Standing.unique {u : String × String} (h : Standing tests t) (h' : Standing tests u) (hKind : t.1 = u.1) :
    t = u := by
  induction tests with
  | nil => cases h.mem
  | cons v tests ih =>
    rcases standing_cons_iff.mp h with hLater | ⟨rfl, hLast⟩ <;>
      rcases standing_cons_iff.mp h' with hLater' | ⟨rfl, hLast'⟩
    · exact ih hLater hLater'
    · exact absurd hKind (hLast' t hLater.mem)
    · exact absurd hKind.symm (hLast u hLater'.mem)
    · rfl

theorem standing_of_nodup (hNodup : (tests.map Prod.fst).Nodup) (ht : t ∈ tests) : Standing tests t := by
  induction tests with
  | nil => cases ht
  | cons u tests ih =>
    rw [List.map_cons, List.nodup_cons] at hNodup
    refine standing_cons_iff.mpr ?_
    rcases List.mem_cons.mp ht with rfl | ht
    · refine .inr ⟨rfl, fun later hLater hEq => hNodup.1 ?_⟩
      rw [← hEq]
      exact List.mem_map_of_mem hLater
    · exact .inl (ih hNodup.2 ht)

/-- Each slot is decided by the test of its kind that stands, if there is one. -/
theorem check_of_foldlM (h : tests.foldlM (fun f t => f.put t.1 t.2) f = .ok g) (slot : Slot) :
    (∃ t single, Standing tests t ∧ t.1 = slot.test ∧ none.put t.1 t.2 = .ok single ∧
        ∀ now n, g.check now n slot = single.check now n slot) ∨
      ((∀ t ∈ tests, t.1 ≠ slot.test) ∧ ∀ now n, g.check now n slot = f.check now n slot) := by
  induction tests generalizing f with
  | nil =>
    cases h
    exact .inr ⟨nofun, fun _ _ => rfl⟩
  | cons u tests ih =>
    rw [List.foldlM_cons] at h
    obtain ⟨f', hPut, h⟩ := Result.exists_of_bind_ok h
    rcases ih h with ⟨t, single, hStands, hRest⟩ | ⟨hNone, hCheck⟩
    · exact .inl ⟨t, single, standing_cons_iff.mpr (.inl hStands), hRest⟩
    · obtain ⟨own, single, hTest, hSingle, hSets⟩ := sets_of_put hPut
      by_cases hSame : slot = own
      · refine .inl ⟨u, single, standing_cons_iff.mpr (.inr ⟨rfl, ?_⟩), ?_, hSingle, fun now n => ?_⟩
        · rw [hTest, ← hSame]
          exact hNone
        · rw [hTest, hSame]
        · rw [hCheck, hSets.check, if_pos hSame, hSame]
      · refine .inr ⟨List.forall_mem_cons.mpr ⟨fun hEq => hSame ?_, hNone⟩, fun now n => ?_⟩
        · exact Slot.test_injective (hEq.symm.trans hTest)
        · rw [hCheck, hSets.check, if_neg hSame]

section

variable (hRead : read (words tests) = .ok ([], f))

include hRead

/-- A node passes all tests if it passes each that stands. -/
theorem accepts_iff_standing : f.accepts now n = .ok true ↔
    ∀ t, Standing tests t → ∀ single, read (words [t]) = .ok ([], single) → single.accepts now n = .ok true := by
  have hFold := read_words_iff.mp hRead
  simp only [read_single_iff]
  constructor
  · intro hAll t hStands single hSingle
    obtain ⟨slot, single', hTest, hSingle', hSets⟩ := sets_of_put hSingle
    cases hSingle.symm.trans hSingle'
    rw [accepts_of_sets hSets]
    rcases check_of_foldlM hFold slot with ⟨t', other, hStands', hTest', hOther, hCheck⟩ | ⟨hNone, -⟩
    · obtain rfl := hStands.unique hStands' (hTest.trans hTest'.symm)
      cases hSingle.symm.trans hOther
      rw [← hCheck]
      exact accepts_eq_ok_true_iff.mp hAll slot
    · exact absurd hTest (hNone t hStands.mem)
  · intro hAll
    refine accepts_eq_ok_true_iff.mpr fun slot => ?_
    rcases check_of_foldlM hFold slot with ⟨t, single, hStands, -, hSingle, hCheck⟩ | ⟨-, hCheck⟩
    · rw [hCheck]
      exact accepts_eq_ok_true_iff.mp (hAll t hStands single hSingle) slot
    · rw [hCheck]
      cases slot <;> rfl

theorem accepts_answers_of_standing (h : ∀ t, Standing tests t → ∀ single, read (words [t]) = .ok ([], single) →
    ∃ b, single.accepts now n = .ok b) : ∃ b, f.accepts now n = .ok b := by
  have hFold := read_words_iff.mp hRead
  simp only [read_single_iff] at h
  refine accepts_answers fun slot => ?_
  rcases check_of_foldlM hFold slot with ⟨t, single, hStands, hTest, hSingle, hCheck⟩ | ⟨-, hCheck⟩
  · obtain ⟨own, single', hTest', hSingle', hSets⟩ := sets_of_put hSingle
    cases hSingle.symm.trans hSingle'
    obtain rfl := Slot.test_injective (hTest.symm.trans hTest')
    obtain ⟨b, hAnswer⟩ := h t hStands single hSingle
    rw [accepts_of_sets hSets] at hAnswer
    exact ⟨b, (hCheck now n).trans hAnswer⟩
  · refine ⟨true, (hCheck now n).trans ?_⟩
    cases slot <;> rfl

/-- Of the tests only those that stand matter. -/
theorem accepts_congr {tests' : List (String × String)} {f' : FindFilters} (hRead' : read (words tests') = .ok ([], f'))
    (hStanding : ∀ t, Standing tests' t ↔ Standing tests t) : f'.accepts = f.accepts := by
  have hFold := read_words_iff.mp hRead
  have hFold' := read_words_iff.mp hRead'
  funext now n
  rw [accepts_eq, accepts_eq]
  congr 2
  funext slot
  rcases check_of_foldlM hFold slot with ⟨t, single, hStands, hTest, hSingle, hCheck⟩ | ⟨hNone, hCheck⟩
  · rcases check_of_foldlM hFold' slot with ⟨t', single', hStands', hTest', hSingle', hCheck'⟩ | ⟨hNone', -⟩
    · obtain rfl := ((hStanding t').mp hStands').unique hStands (hTest'.trans hTest.symm)
      cases hSingle.symm.trans hSingle'
      rw [hCheck, hCheck']
    · exact absurd hTest (hNone' t ((hStanding t).mpr hStands).mem)
  · rcases check_of_foldlM hFold' slot with ⟨t', single', hStands', hTest', -, -⟩ | ⟨-, hCheck'⟩
    · exact absurd hTest' (hNone t' ((hStanding t').mp hStands').mem)
    · rw [hCheck, hCheck']

end

/-- A node is accepted or not if no exact number of units is asked of an age that has none. -/
theorem accepts_answers_of_settles (h : ∀ a, f.days = some a ∨ f.minutes = some a → a.Settles (now - n.info.modified)) :
    ∃ b, f.accepts now n = .ok b := by
  have hAge {a : AgeFilter} {seconds : Float} (hSettles : a.Settles seconds) : ∃ b, a.accepts seconds = .ok b := by
    unfold AgeFilter.accepts
    cases hComparison : a.comparison with
    | older => exact ⟨_, rfl⟩
    | newer => exact ⟨_, rfl⟩
    | exact =>
      have hFinite := hSettles hComparison
      dsimp only
      cases hValue : Exact.ofFloat (seconds / Float.ofNat a.unit) with
      | notANumber => rw [hValue] at hFinite; exact absurd rfl hFinite
      | infinite negative => rw [hValue] at hFinite; exact absurd rfl hFinite
      | finite num power => exact ⟨_, rfl⟩
  have hSlot (test : Option AgeFilter) (hTest : ∀ a, test = some a → a.Settles (now - n.info.modified)) :
      ∃ b, passes test (·.accepts (now - n.info.modified)) = .ok b := by
    cases test with
    | none => exact ⟨true, rfl⟩
    | some a => exact hAge (hTest a rfl)
  refine accepts_answers fun slot => ?_
  cases slot with
  | name => exact ⟨_, rfl⟩
  | anyCaseName => exact ⟨_, rfl⟩
  | kind => exact ⟨_, rfl⟩
  | days => exact hSlot f.days fun a ha => h a (.inl ha)
  | minutes => exact hSlot f.minutes fun a ha => h a (.inr ha)

end FindFilters

namespace Session

open FindFilters (words read Standing accepted_iff accepts_congr accepts_iff_standing accepts_answers_of_standing
  accepts_answers_of_settles select_eq_ok_iff standing_of_nodup standing_cons_iff not_standing_nil)

/-- The search with these tests finds the path. -/
def Finds (s : Session) (start : PathArg) (tests : List (String × String)) (path : String) : Prop :=
  ∃ f found, read (words tests) = .ok ([], f) ∧ s.find start f = .ok found ∧ path ∈ found

def Searches (s : Session) (start : PathArg) (tests : List (String × String)) : Prop :=
  ∃ f found, read (words tests) = .ok ([], f) ∧ s.find start f = .ok found

variable {s : Session} {start : PathArg} {nodes : List (String × Node)} {f : FindFilters} {path : String}
  {tests : List (String × String)}

theorem TreeSound.exists_nodes (h : s.TreeSound) (start : PathArg) :
    ∃ nodes, s.walk start = ⟨nodes, none⟩ ∧ (nodes.map Prod.fst).Nodup := by
  cases hStat : s.stat start with
  | error fault => exact ⟨[], h.walk_of_stat_error hStat, List.nodup_nil⟩
  | ok n => exact ⟨_, h.walk_of_stat_ok hStat, (h.lists hStat).once⟩

theorem find_answers (hWalk : s.walk start = ⟨nodes, none⟩) (h : ∀ x ∈ nodes, ∃ b, f.accepts s.now x.2 = .ok b) :
    ∃ found, s.find start f = .ok found := by
  rw [find_of_walk hWalk]
  exact ⟨_, (select_eq_ok_iff f s.now).mpr ⟨h, rfl⟩⟩

theorem answers_of_find {found : List String} (hWalk : s.walk start = ⟨nodes, none⟩)
    (hFind : s.find start f = .ok found) : ∀ x ∈ nodes, ∃ b, f.accepts s.now x.2 = .ok b := by
  rw [find_of_walk hWalk] at hFind
  exact ((select_eq_ok_iff f s.now).mp hFind).1

theorem mem_find_iff {found : List String} (hWalk : s.walk start = ⟨nodes, none⟩)
    (hFind : s.find start f = .ok found) : path ∈ found ↔ ∃ m, (path, m) ∈ nodes ∧ f.accepts s.now m = .ok true := by
  rw [find_of_walk hWalk] at hFind
  obtain ⟨-, rfl⟩ := (select_eq_ok_iff f s.now).mp hFind
  simp [Result.toOption_eq_some_iff]

theorem finds_iff (hWalk : s.walk start = ⟨nodes, none⟩) (hSearches : s.Searches start tests) :
    s.Finds start tests path ↔
      ∃ m, (path, m) ∈ nodes ∧ ∀ f, read (words tests) = .ok ([], f) → f.accepts s.now m = .ok true := by
  obtain ⟨f, found, hRead, hFind⟩ := hSearches
  constructor
  · rintro ⟨f', found', hRead', hFind', hPath⟩
    cases hRead.symm.trans hRead'
    obtain ⟨m, hm, hAccepts⟩ := (mem_find_iff hWalk hFind').mp hPath
    refine ⟨m, hm, fun g hg => ?_⟩
    cases hRead.symm.trans hg
    exact hAccepts
  · rintro ⟨m, hm, hAccepts⟩
    exact ⟨f, found, hRead, hFind, (mem_find_iff hWalk hFind).mpr ⟨m, hm, hAccepts f hRead⟩⟩

theorem searches_of_standing (hWalk : s.walk start = ⟨nodes, none⟩) (hRead : read (words tests) = .ok ([], f))
    (hEach : ∀ t, Standing tests t → s.Searches start [t]) : s.Searches start tests := by
  have hAll (x : String × Node) (hx : x ∈ nodes) : ∃ b, f.accepts s.now x.2 = .ok b := by
    refine accepts_answers_of_standing hRead fun t hStands single hSingle => ?_
    obtain ⟨single', found, hSingle', hFind⟩ := hEach t hStands
    cases hSingle.symm.trans hSingle'
    exact answers_of_find hWalk hFind x hx
  obtain ⟨found, hFind⟩ := find_answers hWalk hAll
  exact ⟨f, found, hRead, hFind⟩

/-- No path is listed twice, so that what passes each test is one node. -/
theorem finds_iff_standing (hWalk : s.walk start = ⟨nodes, none⟩) (hOnce : (nodes.map Prod.fst).Nodup)
    (hRead : read (words tests) = .ok ([], f)) (hEach : ∀ t, Standing tests t → s.Searches start [t]) :
    s.Finds start tests path ↔ path ∈ nodes.map Prod.fst ∧ ∀ t, Standing tests t → s.Finds start [t] path := by
  rw [finds_iff hWalk (searches_of_standing hWalk hRead hEach)]
  constructor
  · rintro ⟨m, hm, hAccepts⟩
    refine ⟨List.mem_map_of_mem hm, fun t hStands => (finds_iff hWalk (hEach t hStands)).mpr ⟨m, hm, ?_⟩⟩
    exact (accepts_iff_standing hRead).mp (hAccepts f hRead) t hStands
  · rintro ⟨hPath, hFinds⟩
    obtain ⟨⟨_, m⟩, hm, rfl⟩ := List.mem_map.mp hPath
    refine ⟨m, hm, fun g hg => ?_⟩
    cases hRead.symm.trans hg
    refine (accepts_iff_standing hRead).mpr fun t hStands single hSingle => ?_
    obtain ⟨m', hm', hAccepts⟩ := (finds_iff hWalk (hEach t hStands)).mp (hFinds t hStands)
    obtain rfl : m' = m := congrArg Prod.snd (List.inj_on_of_nodup_map hOnce hm' hm rfl)
    exact hAccepts single hSingle

theorem find_congr {f' : FindFilters} (h : f'.accepts = f.accepts) : s.find start f' = s.find start f := by
  have hSelect (nodes : List (String × Node)) : f'.select s.now nodes = f.select s.now nodes := by
    induction nodes with
    | nil => rfl
    | cons x nodes ih => rw [FindFilters.select, FindFilters.select, ih, h]
  rw [find, find, hSelect]

/-- A search finds what each of its tests that stand finds alone. All of them stand if there are no two of a kind, and
then their order does not matter. A search comes to an end unless it asks for an exact age where there is none. -/
theorem TreeSound.find_standing (h : s.TreeSound) (start : PathArg) (hRead : read (words tests) = .ok ([], f)) :
    (∀ t ∈ tests, ∃ g, read (words [t]) = .ok ([], g)) ∧
      ((∀ t, Standing tests t → s.Searches start [t]) → s.Searches start tests ∧ ∀ path, s.Finds start tests path ↔
        path ∈ (s.walk start).nodes.map Prod.fst ∧ ∀ t, Standing tests t → s.Finds start [t] path) ∧
      (∀ tests' f', read (words tests') = .ok ([], f') → (∀ t, Standing tests' t ↔ Standing tests t) →
        s.find start f' = s.find start f) ∧
      ((tests.map Prod.fst).Nodup → (∀ t, Standing tests t ↔ t ∈ tests) ∧
        ∀ tests', tests'.Perm tests → ∃ f', read (words tests') = .ok ([], f') ∧ s.find start f' = s.find start f) ∧
      ∀ g : FindFilters, (∀ x ∈ (s.walk start).nodes, ∀ a, g.days = some a ∨ g.minutes = some a →
        a.Settles (s.now - x.2.info.modified)) → ∃ found, s.find start g = .ok found := by
  obtain ⟨nodes, hWalk, hOnce⟩ := h.exists_nodes start
  have hAccepted := accepted_iff.mp ⟨f, hRead⟩
  refine ⟨hAccepted, fun hEach => ⟨searches_of_standing hWalk hRead hEach, fun path => ?_⟩,
    fun tests' f' hRead' hStanding => find_congr (accepts_congr hRead hRead' hStanding), fun hKinds => ?_,
    fun g hSettles => ?_⟩
  · rw [hWalk]
    exact finds_iff_standing hWalk hOnce hRead hEach
  · have hAll (t : String × String) : Standing tests t ↔ t ∈ tests := ⟨Standing.mem, standing_of_nodup hKinds⟩
    refine ⟨hAll, fun tests' hPerm => ?_⟩
    obtain ⟨f', hRead'⟩ := accepted_iff.mpr fun t ht => hAccepted t (hPerm.mem_iff.mp ht)
    have hKinds' : (tests'.map Prod.fst).Nodup := (hPerm.map Prod.fst).nodup_iff.mpr hKinds
    refine ⟨f', hRead', find_congr (accepts_congr hRead hRead' fun t => ?_)⟩
    rw [hAll, ← hPerm.mem_iff]
    exact ⟨Standing.mem, standing_of_nodup hKinds'⟩
  · rw [hWalk] at hSettles
    exact find_answers hWalk fun x hx => accepts_answers_of_settles (hSettles x hx)

/-- Without a test of ages a search comes to an end. -/
theorem TreeSound.searches_of_ageless (h : s.TreeSound) (start : PathArg) (hRead : read (words tests) = .ok ([], f))
    (hDays : f.days = none) (hMinutes : f.minutes = none) : s.Searches start tests := by
  obtain ⟨nodes, hWalk, -⟩ := h.exists_nodes start
  obtain ⟨found, hFind⟩ := find_answers (f := f) hWalk fun x _ => accepts_answers_of_settles fun a ha => by
    simp [hDays, hMinutes] at ha
  exact ⟨f, found, hRead, hFind⟩

/-- Of two kinds that are asked for the first one does not matter. -/
theorem directories_found : ∃ s f, Session.fresh? "user" 0.0 = some s ∧ s.TreeSound ∧
    read (words [("-type", "f"), ("-name", "d*"), ("-type", "d")]) = .ok ([], f) ∧
    ∀ path, s.Finds (some "~") [("-type", "f"), ("-name", "d*"), ("-type", "d")] path ↔
      path ∈ (s.walk (some "~")).nodes.map Prod.fst ∧ s.Finds (some "~") [("-name", "d*")] path ∧
        s.Finds (some "~") [("-type", "d")] path := by
  have hRun : (Session.fresh? "user" 0.0).isSome = true := by decide +kernel
  obtain ⟨s, hFresh⟩ := Option.isSome_iff_exists.mp hRun
  have hSound : s.TreeSound := (Reached.start hFresh).inv.sound.tree
  have hRead : read (words [("-type", "f"), ("-name", "d*"), ("-type", "d")]) =
      .ok ([], ⟨some "d*", none, some .dir, none, none⟩) := rfl
  have hName : read (words [("-name", "d*")]) = .ok ([], ⟨some "d*", none, none, none, none⟩) := rfl
  have hKind : read (words [("-type", "d")]) = .ok ([], ⟨none, none, some .dir, none, none⟩) := rfl
  have hStanding (t : String × String) : Standing [("-type", "f"), ("-name", "d*"), ("-type", "d")] t ↔
      t = ("-name", "d*") ∨ t = ("-type", "d") := by
    simp only [standing_cons_iff, not_standing_nil, false_or]
    constructor
    · rintro ((⟨rfl, -⟩ | ⟨rfl, -⟩) | ⟨rfl, hLast⟩)
      · exact .inr rfl
      · exact .inl rfl
      · exact absurd rfl (hLast ("-type", "d") (by simp))
    · rintro (rfl | rfl)
      · exact .inl (.inr ⟨rfl, by simp⟩)
      · exact .inl (.inl ⟨rfl, nofun⟩)
  obtain ⟨-, hFinds, -⟩ := hSound.find_standing (some "~") hRead
  simp only [hStanding, forall_eq_or_imp, forall_eq] at hFinds
  obtain ⟨-, hFinds⟩ := hFinds ⟨hSound.searches_of_ageless _ hName rfl rfl, hSound.searches_of_ageless _ hKind rfl rfl⟩
  exact ⟨s, _, hFresh, hSound, hRead, hFinds⟩

/-- The root is found where first files and then directories are asked for, although it is no file. -/
theorem not_find_conjunction : ¬∀ s : Session, s.TreeSound → ∀ start tests f, read (words tests) = .ok ([], f) →
    tests ≠ [] → (∀ t ∈ tests, s.Searches start [t]) →
    ∀ path, s.Finds start tests path ↔ ∀ t ∈ tests, s.Finds start [t] path := by
  intro hEvery
  have hRun : (Session.fresh? "user" 0.0).isSome = true := by decide +kernel
  obtain ⟨s, hFresh⟩ := Option.isSome_iff_exists.mp hRun
  have hSound : s.TreeSound := (Reached.start hFresh).inv.sound.tree
  have hBoth : read (words [("-type", "f"), ("-type", "d")]) = .ok ([], ⟨none, none, some .dir, none, none⟩) := rfl
  have hFiles : read (words [("-type", "f")]) = .ok ([], ⟨none, none, some .file, none, none⟩) := rfl
  have hDirs : read (words [("-type", "d")]) = .ok ([], ⟨none, none, some .dir, none, none⟩) := rfl
  have hEach : ∀ t ∈ [("-type", "f"), ("-type", "d")], s.Searches (some "/") [t] := by
    rintro t ht
    simp only [List.mem_cons, List.not_mem_nil, or_false] at ht
    rcases ht with rfl | rfl
    · exact hSound.searches_of_ageless _ hFiles rfl rfl
    · exact hSound.searches_of_ageless _ hDirs rfl rfl
  have hStat := hSound.stat_ofParts (Subject.leads_nil s.subject s.root)
  rw [Path.ofParts_nil] at hStat
  have hWalk := hSound.walk_of_stat_ok hStat
  have hLists := hSound.lists hStat
  have hKind : s.root.kind = .dir := Node.kind_eq_dir_iff.mpr hSound.isDir
  have hFound : s.Finds (some "/") [("-type", "f"), ("-type", "d")] "/" := by
    refine (finds_iff hWalk (hSound.searches_of_ageless _ hBoth rfl rfl)).mpr ⟨s.root, ?_, fun f hf => ?_⟩
    · refine (hLists.listed_iff "/" s.root).mpr ⟨[], ?_, Node.along_nil _⟩
      rw [List.append_nil, hSound.ofParts_split_resolve]
      exact (Path.resolve_of_isCanonical s.home s.cwd (by decide)).symm
    · cases hBoth.symm.trans hf
      refine FindFilters.accepts_eq_ok_true_iff.mpr fun slot => ?_
      cases slot <;> simp [FindFilters.check, FindFilters.passes, hKind]
  have hFile := (hEvery s hSound (some "/") _ _ hBoth (by simp) hEach "/").mp hFound ("-type", "f") (by simp)
  obtain ⟨m, hm, hAccepts⟩ := (finds_iff hWalk (hEach _ (by simp))).mp hFile
  cases (hLists.stat "/" m hm).symm.trans hStat
  have hCheck := FindFilters.accepts_eq_ok_true_iff.mp (hAccepts _ hFiles) .kind
  simp [FindFilters.check, hKind] at hCheck

end Session

end VirtualShell
