import VirtualShell.Proofs.Session.Logins
import VirtualShell.Proofs.Session.Run
import VirtualShell.Proofs.Session.Strangers

/-!
# Blocks that run elevated

Whatever is done inside of a block, with other blocks in it, a user who has an account acts at its end. The block gives
back what it found, unless a snapshot was taken over inside: that closes all blocks at once, so that the block itself
has nothing left to close and its end fails.
-/
namespace VirtualShell.Session
set_option autoImplicit false

def login? (s : Session) (o : Operation) : Option String :=
  match o with
  | .switchUser username => if (s.apply o).1.toOption.isSome then some username else none
  | _ => none

/-- A body of a block, or the part of one that is run before it breaks off: the session that it begins with, the users
that log in, whether a snapshot is taken over, and the session that it leads to. Steps may fail, and so may the ends of
blocks inside. -/
inductive Course : Session → List String → Bool → Session → Prop where
  | start (s : Session) : Course s [] false s
  | wait {s t : Session} {names : List String} {restored : Bool} (now : Float) :
      Course s names restored t → Course s names restored { t with now := now }
  | operate {s t : Session} {names : List String} {restored : Bool} (o : Operation) :
      Course s names restored t → Course s (names ++ (t.login? o).toList) restored (t.apply o).2
  | restore {s t u : Session} {names : List String} {restored : Bool} {blob : Json} :
      Course s names restored t → t.restore blob = .ok u → Course s names true u
  | reject {s t : Session} {names : List String} {restored : Bool} {fault : Fault} (blob : Json) :
      Course s names restored t → ((adopt blob).run t).1 = .error fault →
      Course s names restored ((adopt blob).run t).2
  | block {s t u : Session} {names more : List String} {restored inner : Bool} :
      Course s names restored t → Course t.enterElevation.2 more inner u →
      Course s (names ++ more) (restored || inner) (leaveElevation t.enterElevation.1 u).2

/-- What is done to the session `s` without a snapshot that is taken over: users log in one after the other, and nobody
who is waiting loses the account. -/
structure Carried (s : Session) (names : List String) (t : Session) : Prop where
  logins : Logins s t names
  waiting : ∀ v ∈ s.elevations, s.accounts.contains v = true → t.accounts.contains v = true
  acting : (names = [] → s.accounts.contains s.username = true) → t.accounts.contains t.username = true

/-- No block is open, and the user has an account. -/
structure CutOff (s : Session) : Prop where
  elevations : s.elevations = []
  user : s.accounts.contains s.username = true

variable {s t u : Session} {names more : List String} {restored : Bool} {blob : Json}

theorem Carried.refl (s : Session) : Carried s [] s := ⟨.refl, fun _ _ hKnown => hKnown, fun hKnown => hKnown rfl⟩

theorem Carried.trans (h : Carried s names t) (h' : Carried t more u) : Carried s (names ++ more) u := by
  refine ⟨h.logins.trans h'.logins, fun v hv hKnown => ?_, fun hKnown => ?_⟩
  · exact h'.waiting v (h.logins.elevations ▸ hv) (h.waiting v hv hKnown)
  · refine h'.acting fun hMore => h.acting fun hNames => hKnown ?_
    rw [hNames, hMore, List.append_nil]

theorem Carried.cutOff (h : Carried s names t) (hs : s.CutOff) : t.CutOff :=
  ⟨h.logins.elevations.trans hs.elevations, h.acting fun _ => hs.user⟩

theorem carried_of_logins (hLogins : Logins s t []) (hStrangers : ∀ v, t.Stranger v → s.Stranger v) :
    Carried s [] t := by
  have hUsername : t.username = s.username := hLogins.username
  have hKeep : ∀ v ∈ s.username :: s.elevations, s.accounts.contains v = true → t.accounts.contains v = true := by
    intro v hActive hKnown
    refine not_stranger_iff.mp (fun hStranger => ?_) (by rwa [hUsername, hLogins.elevations])
    exact not_stranger_iff.mpr (fun _ => hKnown) (hStrangers v hStranger)
  refine ⟨hLogins, fun v hv => hKeep v (List.mem_cons_of_mem _ hv), fun hKnown => ?_⟩
  rw [hUsername]
  exact hKeep _ List.mem_cons_self (hKnown rfl)

theorem carried_apply (s : Session) (o : Operation) : Carried s (s.login? o).toList (s.apply o).2 := by
  by_cases hSwitch : ∃ username, o = .switchUser username
  · obtain ⟨username, rfl⟩ := hSwitch
    have hEnds : (steps (.switchUser username)).Ends s fun _ t => s.accounts.contains username = true ∧
        t = { s with username := username, switches := s.switches + 1 } :=
      Update.ends_map ((switchUser_ends s username).mono fun _ _ hEnd => ⟨hEnd.1, hEnd.2.2⟩)
    rw [login?]
    cases hRun : s.apply (.switchUser username) with
    | mk result t =>
      cases result with
      | error fault =>
        rw [hEnds.unchanged fault t hRun]
        exact .refl s
      | ok answer =>
        obtain ⟨hKnown, rfl⟩ := hEnds.answer answer t hRun
        exact ⟨⟨rfl, rfl, rfl⟩, fun _ _ hKept => hKept, fun _ => hKnown⟩
  · have hNone : s.login? o = none := by
      cases o with
      | switchUser username => exact absurd ⟨username, rfl⟩ hSwitch
      | _ => rfl
    rw [hNone]
    exact carried_of_logins (logins_apply o (fun username hEq => hSwitch ⟨username, hEq⟩) s)
      fun v hv => stranger_of_apply o hv

/-- The end of a block within which no snapshot was taken over. The user that it returns to was waiting inside. -/
theorem Carried.leave (h : Carried t.enterElevation.2 more u) :
    (leaveElevation t.enterElevation.1 u).1 = .ok () ∧ Carried t more (leaveElevation t.enterElevation.1 u).2 := by
  obtain ⟨hOk, hLogins⟩ := h.logins.leave
  have hAccounts : (leaveElevation t.enterElevation.1 u).2.accounts = u.accounts := accounts_leave _ u
  refine ⟨hOk, hLogins, fun v hv hKnown => ?_, fun hKnown => ?_⟩
  · rw [hAccounts]
    exact h.waiting v (List.mem_cons_of_mem _ hv) hKnown
  · rw [hAccounts, hLogins.username]
    cases more with
    | nil => exact h.waiting t.username List.mem_cons_self (hKnown rfl)
    | cons name names =>
      have hActing := h.acting fun hNil => nomatch hNil
      rw [h.logins.username, List.getLast?_cons, Option.getD_some] at hActing
      rw [List.getLast?_cons, Option.getD_some]
      exact hActing

/-- Blocks that were closed already cannot be closed again. -/
theorem CutOff.leave (h : u.CutOff) (mark : Mark) : leaveElevation mark u = (crash .noElevation, u) := by
  unfold leaveElevation
  rw [h.elevations]

theorem cutOff_of_restore (h : s.restore blob = .ok t) : t.CutOff := by
  obtain ⟨model, account, -, hAccount, rfl⟩ := restore_eq_ok_iff.mp h
  refine ⟨rfl, ?_⟩
  show (model.accountsOver s).contains (model.usernameOver s) = true
  rw [Roster.contains, hAccount]
  rfl

theorem Course.carried_or_cutOff (h : Course s names restored t) :
    (restored = false ∧ Carried s names t) ∨ (restored = true ∧ t.CutOff) := by
  have hStep : ∀ {s t u : Session} {names more : List String} {restored : Bool},
      (restored = false ∧ Carried s names t) ∨ (restored = true ∧ t.CutOff) → Carried t more u →
        (restored = false ∧ Carried s (names ++ more) u) ∨ (restored = true ∧ u.CutOff) := by
    intro s t u names more restored hBefore hThen
    exact hBefore.imp (fun ⟨hNot, h⟩ => ⟨hNot, h.trans hThen⟩) (fun ⟨hCut, h⟩ => ⟨hCut, hThen.cutOff h⟩)
  induction h with
  | start s => exact .inl ⟨rfl, .refl s⟩
  | @wait s t names restored now _ ih =>
    have hStill : Carried t [] { t with now := now } :=
      ⟨⟨rfl, rfl, rfl⟩, fun _ _ hKept => hKept, fun hKnown => hKnown rfl⟩
    have hBoth := hStep ih hStill
    rwa [List.append_nil] at hBoth
  | operate o _ ih => exact hStep ih (carried_apply _ o)
  | restore _ hRestore => exact .inr ⟨rfl, cutOff_of_restore hRestore⟩
  | reject blob _ hFail ih =>
    rw [adopt_unchanged hFail]
    exact ih
  | @block s t u names more restored inner _ _ ih ihInner =>
    rcases ihInner with ⟨rfl, hInner⟩ | ⟨rfl, hInner⟩
    · rw [Bool.or_false]
      exact hStep ih hInner.leave.2
    · -- the end of the block inside has failed, with nothing changed
      rw [Bool.or_true, hInner.leave]
      exact .inr ⟨rfl, hInner⟩

/-- A block ends, if no snapshot was taken over inside, with the elevations of its beginning, and with the user of its
beginning or the one who logged in last. Otherwise its end fails. A user that has an account acts in any case. -/
theorem Course.leave_exact (h : Course s.enterElevation.2 names restored t)
    (hUser : s.accounts.contains s.username = true) :
    ∃ result u, leaveElevation s.enterElevation.1 t = (result, u) ∧ u.accounts.contains u.username = true ∧
      (restored = false → result = .ok () ∧ u.elevations = s.elevations ∧
        u.username = names.getLast?.getD s.username) ∧
      (restored = true → result = crash .noElevation ∧ u.elevations = []) := by
  cases hEnd : leaveElevation s.enterElevation.1 t with
  | mk result u =>
    refine ⟨result, u, rfl, ?_⟩
    rcases h.carried_or_cutOff with ⟨rfl, hCarried⟩ | ⟨rfl, hCut⟩
    · obtain ⟨hOk, hLeft⟩ := hCarried.leave
      rw [hEnd] at hOk hLeft
      exact ⟨hLeft.acting fun _ => hUser, fun _ => ⟨hOk, hLeft.logins.elevations, hLeft.logins.username⟩,
        fun hTrue => nomatch hTrue⟩
    · rw [hCut.leave] at hEnd
      cases hEnd
      exact ⟨hCut.user, fun hFalse => (nomatch hFalse), fun _ => ⟨rfl, hCut.elevations⟩⟩

/-- The administrator logs in as somebody else inside of a block. -/
theorem block_left_by_login : ∃ s t u, Session.fresh? "user" 0.0 = some s ∧
    s.accounts.contains s.username = true ∧ Course s.enterElevation.2 ["admin"] false t ∧
    leaveElevation s.enterElevation.1 t = (.ok (), u) ∧ u.elevations = s.elevations ∧ u.username = "admin" ∧
    u.accounts.contains u.username = true := by
  have hRun : (Session.fresh? "user" 0.0).map (fun s => (s.accounts.contains s.username,
      s.enterElevation.2.login? (.switchUser "admin"))) = some (true, some "admin") := by
    decide +kernel
  obtain ⟨s, hFresh, hRun⟩ := Option.map_eq_some_iff.mp hRun
  obtain ⟨hUser, hLogin⟩ := Prod.mk.inj hRun
  have hCourse := Course.operate (.switchUser "admin") (Course.start s.enterElevation.2)
  rw [hLogin] at hCourse
  obtain ⟨result, u, hEnd, hKnown, hLeft, -⟩ := hCourse.leave_exact hUser
  obtain ⟨rfl, hElevations, hUsername⟩ := hLeft rfl
  exact ⟨s, _, u, hFresh, hUser, hCourse, hEnd, hElevations, hUsername, hKnown⟩

/-- The end of a block fails if the session is taken back to a snapshot of itself inside. -/
theorem not_leave_succeeds : ¬∀ (s t : Session) (names : List String) (restored : Bool),
    s.accounts.contains s.username = true → Course s.enterElevation.2 names restored t →
    ∃ u, leaveElevation s.enterElevation.1 t = (.ok (), u) ∧
      (u.elevations = s.elevations ∨ restored = true ∧ u.elevations = []) ∧
      u.accounts.contains u.username = true ∧ (names = [] → restored = false → u.username = s.username) := by
  intro h
  have hRun : (Session.fresh? "user" 0.0).map (fun s => (s.accounts.contains s.username,
      (s.enterElevation.2.restore s.snapshot).toOption.map fun t => t.elevations)) = some (true, some []) := by
    decide +kernel
  obtain ⟨s, hFresh, hRun⟩ := Option.map_eq_some_iff.mp hRun
  obtain ⟨hUser, hRun⟩ := Prod.mk.inj hRun
  obtain ⟨t, hRestore, hClosed⟩ := Option.map_eq_some_iff.mp hRun
  have hCourse := (Course.start s.enterElevation.2).restore (Result.toOption_eq_some_iff.mp hRestore)
  obtain ⟨u, hEnd, -⟩ := h s t [] true hUser hCourse
  have hFails : (leaveElevation s.enterElevation.1 t).1 = crash .noElevation := by
    unfold leaveElevation
    rw [hClosed]
  rw [hEnd] at hFails
  cases hFails

end VirtualShell.Session
