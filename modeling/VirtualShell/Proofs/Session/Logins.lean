import VirtualShell.Proofs.Session.Enrolment

/-!
# Logins

Who acts after some steps is told by the logins among them. An elevated block returns to the user before
it, unless there was a login inside, which the count of switches tells.
-/
namespace VirtualShell.Session
set_option autoImplicit false

/-- From `s` to `t` the users `names` logged in, one after the other, and every elevation has ended. -/
structure Logins (s t : Session) (names : List String) : Prop where
  username : t.username = names.getLast?.getD s.username
  elevations : t.elevations = s.elevations
  switches : t.switches = s.switches + names.length

variable {s t u : Session} {names more : List String}

theorem Logins.refl : Logins s s [] := ⟨rfl, rfl, rfl⟩

theorem Logins.trans (h : Logins s t names) (h' : Logins t u more) : Logins s u (names ++ more) := by
  refine ⟨?_, h'.elevations.trans h.elevations, ?_⟩
  · rw [h'.username, h.username, List.getLast?_append]
    cases more.getLast? <;> rfl
  · rw [h'.switches, h.switches, List.length_append, Nat.add_assoc]

theorem Logins.still (h : Logins s t names) (h' : Logins t u []) : Logins s u names := by
  have hBoth := h.trans h'
  rwa [List.append_nil] at hBoth

theorem SameIdentity.logins (h : SameIdentity s t) : Logins s t [] := ⟨h.username, h.elevations, h.switches⟩

theorem logins_dropOwnGroup (s : Session) (account : Account) : Logins s (s.dropOwnGroup account) [] := by
  rcases dropOwnGroup_eq s account with hSame | hErased
  · rw [hSame]
    exact .refl
  · rw [hErased]
    exact ⟨rfl, rfl, rfl⟩

theorem logins_addUser (s : Session) (username : String) (groups : List String) (primary : Option String)
    (createHome : Bool) : (addUser username groups primary createHome).Ends s fun _ t => Logins s t [] := by
  refine (addUser_ends s username groups primary createHome).mono ?_
  rintro account t ⟨-, -, -, -, -, -, -, rfl⟩
  dsimp only
  split
  · refine Logins.still ?_ (sameIdentity_addHome _ _ _).logins
    exact ⟨rfl, rfl, rfl⟩
  · exact ⟨rfl, rfl, rfl⟩

theorem logins_deleteUser (s : Session) (username : String) (removeHome : Bool) :
    Logins s ((deleteUser username removeHome).run s).2 [] := by
  rcases deleteUser_run s username removeHome with hSame | ⟨-, t, hErased, hEnd⟩
  · rw [hSame]
    exact .refl
  · have hLogins : Logins s t [] := by
      refine Logins.still ?_ hErased.logins
      exact ⟨rfl, rfl, rfl⟩
    rcases hEnd with hEnd | ⟨account, hEnd⟩
    · rw [hEnd]
      exact hLogins
    · rw [hEnd]
      exact hLogins.still (logins_dropOwnGroup t account)

/-- Nobody logs in by an operation other than a switch. -/
theorem logins_apply (o : Operation) (h : ∀ username, o ≠ .switchUser username) (s : Session) :
    Logins s (s.apply o).2 [] := by
  have hKeeps : ∀ {α : Type} {u : Update α}, u.Ends s (fun _ t => Logins s t []) → Logins s (u.run s).2 [] :=
    fun hEnds => hEnds.keeps (P := fun t => Logins s t []) (fun _ _ ht => ht) .refl
  rw [apply]
  cases o with
  | switchUser username => exact absurd rfl (h username)
  | deleteUser username removeHome =>
    rw [steps, Update.snd_run_map]
    exact logins_deleteUser s username removeHome
  | addUser username groups primary createHome =>
    exact hKeeps (Update.ends_map (logins_addUser s username groups primary createHome))
  | addGroup name =>
    refine hKeeps (Update.ends_map ((addGroup_ends s name).mono ?_))
    rintro _ _ ⟨-, -, -, rfl⟩
    exact ⟨rfl, rfl, rfl⟩
  | changeGroups username groups append =>
    refine hKeeps (Update.ends_map ((changeGroups_ends s username groups append).mono ?_))
    rintro _ _ ⟨-, -, -, -, -, rfl⟩
    exact ⟨rfl, rfl, rfl⟩
  | _ => exact hKeeps ((sameIdentity_steps _ rfl s).mono fun _ _ ht => ht.logins)

/-- Whoever logs in goes home. -/
theorem logins_switchUser (s : Session) (username : String) : (switchUser username).Ends s fun _ t =>
    Logins s t.goHome [username] := by
  refine (switchUser_ends s username).mono ?_
  rintro _ _ ⟨-, -, rfl⟩
  refine Logins.still ?_ (sameIdentity_goHome _).logins
  exact ⟨rfl, rfl, rfl⟩

/-- The end of an elevated block gives back the elevation, and the user unless one logged in inside. -/
theorem Logins.leave (h : Logins s.enterElevation.2 t names) :
    (leaveElevation s.enterElevation.1 t).1 = .ok () ∧
      Logins s (leaveElevation s.enterElevation.1 t).2 names := by
  have hOpen : t.elevations = s.username :: s.elevations := h.elevations
  have hSwitches : t.switches = s.switches + names.length := h.switches
  have hUsername : t.username = names.getLast?.getD adminName := h.username
  unfold leaveElevation
  rw [hOpen]
  refine ⟨rfl, ?_, rfl, hSwitches⟩
  show (if t.switches == s.switches then s.username else t.username) = names.getLast?.getD s.username
  cases names with
  | nil => rw [hSwitches, List.length_nil, Nat.add_zero, beq_self_eq_true, if_pos rfl, List.getLast?_nil, Option.getD_none]
  | cons name names =>
    have hMore : (t.switches == s.switches) = false := by
      rw [hSwitches, List.length_cons, beq_eq_false_iff_ne]
      omega
    rw [hMore, if_neg Bool.false_ne_true, hUsername, List.getLast?_cons, Option.getD_some, Option.getD_some]

end VirtualShell.Session
