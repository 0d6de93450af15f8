import VirtualShell.Proofs.Session.Named
import VirtualShell.Proofs.Shell.Place

/-!
# Names without unsafe characters

What is typed is looked at before it becomes a name, and the name of an account before it becomes that of a
home directory. The second check lets a newline pass at the end of a name. Names also come from the working
directory and from the home directories that a tilde stands for; each of them has passed a check before.
-/
namespace VirtualShell
set_option autoImplicit false

/-- A name without unsafe characters, or that of an account, spelled with characters that have `p`. -/
def ProperName (p : Char → Prop) (name : String) : Prop :=
  Path.hasUnsafe name = false ∨ isAccountName name = true ∧ Line.Spelled p name.toList

theorem isUnsafe_of_isNameChar {c : Char} (h : isNameChar c = true) : Path.isUnsafe c = false := by
  have hTable : ∀ n < 0x7b, isNameChar (Char.ofNat n) = true → Path.isUnsafe (Char.ofNat n) = false := by decide
  have hBound : c.toNat < 0x7b := by
    simp only [isNameChar, isNameStart, Bool.or_eq_true, Bool.and_eq_true, decide_eq_true_eq, beq_iff_eq] at h
    obtain ((⟨-, hz⟩ | rfl) | ⟨-, hNine⟩) | rfl := h
    · exact Nat.lt_succ_of_le (UInt32.le_iff_toNat_le.mp hz)
    · decide
    · exact Nat.lt_of_le_of_lt (UInt32.le_iff_toNat_le.mp hNine) (by decide)
    · decide
  have hHere := hTable c.toNat hBound
  rw [Char.ofNat_toNat] at hHere
  exact hHere h

theorem hasUnsafe_eq_false_iff {text : String} :
    Path.hasUnsafe text = false ↔ ∀ c ∈ text.toList, Path.isUnsafe c = false := by
  simp [Path.hasUnsafe]

/-- Of the names of accounts only those that end in a newline are unsafe. -/
theorem exists_stem_of_isAccountName {name : String} (h : isAccountName name = true)
    (hUnsafe : Path.hasUnsafe name = true) : ∃ stem, name = stem ++ "\n" ∧ Path.hasUnsafe stem = false := by
  unfold isAccountName at h
  split at h
  · cases h
  · rename_i c cs hName
    dsimp only at h
    rw [Bool.and_eq_true, Bool.and_eq_true] at h
    obtain ⟨⟨hStart, -⟩, hRest⟩ := h
    have hFirst : isNameChar c = true := by
      unfold isNameChar
      rw [hStart]
      rfl
    have hSafe : ∀ ds : List Char, ds.all isNameChar = true → ∀ d ∈ c :: ds, Path.isUnsafe d = false := by
      intro ds hds
      refine List.forall_mem_cons.mpr ⟨isUnsafe_of_isNameChar hFirst, fun d hd => ?_⟩
      exact isUnsafe_of_isNameChar (List.all_eq_true.mp hds d hd)
    split at hRest
    · rename_i hLast
      obtain ⟨ds, rfl⟩ := List.getLast?_eq_some_iff.mp (beq_iff_eq.mp hLast)
      rw [List.dropLast_concat] at hRest
      refine ⟨String.ofList (c :: ds), ?_, ?_⟩
      · apply String.toList_inj.mp
        rw [hName, String.toList_append, String.toList_ofList]
        rfl
      · rw [hasUnsafe_eq_false_iff, String.toList_ofList]
        exact hSafe ds hRest
    · have hNever : Path.hasUnsafe name = false := by
        rw [hasUnsafe_eq_false_iff, hName]
        exact hSafe cs hRest
      rw [hNever] at hUnsafe
      cases hUnsafe

theorem ProperName.hasUnsafe_eq_false {p : Char → Prop} {name : String} (h : ProperName p name) (hp : ¬p '\n') :
    Path.hasUnsafe name = false := by
  rcases h with hSafe | ⟨hName, hSpelled⟩
  · exact hSafe
  · by_contra hUnsafe
    obtain ⟨stem, rfl, -⟩ := exists_stem_of_isAccountName hName (Bool.not_eq_false _ ▸ hUnsafe)
    refine hp (hSpelled '\n' ?_)
    rw [String.toList_append]
    exact List.mem_append_right _ List.mem_cons_self

namespace Session

section

variable {Q : String → Prop} {s t : Session}

def AllHomes (Q : String → Prop) (s : Session) : Prop := ∀ a ∈ s.accounts.members, Q a.home

theorem AllHomes.of_same (h : s.AllHomes Q) (hSame : SameUsers s t) : t.AllHomes Q := by
  unfold AllHomes
  rwa [hSame.accounts]

theorem AllHomes.insert (h : s.AllHomes Q) {a : Account} (ha : Q a.home) :
    AllHomes Q { s with accounts := s.accounts.insert a } := by
  intro b hb
  rcases Roster.of_mem_insert hb with rfl | hb
  · exact ha
  · exact h b hb

theorem AllHomes.addUser (h : s.AllHomes Q) {username : String}
    (hHome : isAccountName username = true → Q ("/home/" ++ username)) (groups : List String)
    (primary : Option String) (createHome : Bool) :
    (addUser username groups primary createHome).Ends s fun _ t => t.AllHomes Q := by
  refine (addUser_ends s username groups primary createHome).mono ?_
  rintro account t ⟨-, hName, -, -, -, -, hAccount, rfl⟩
  have hOwn : Q account.home := by
    rw [hAccount, Account.home_create (usualHome_ne username)]
    exact hHome hName
  have hAdded : AllHomes Q { s with groups := s.groups.add (primaryOr primary username),
                                    accounts := s.accounts.insert account } :=
    AllHomes.insert (s := { s with groups := s.groups.add (primaryOr primary username) }) h hOwn
  dsimp only
  split
  · exact hAdded.of_same (sameIdentity_addHome _ _ _).toSameUsers
  · exact hAdded

theorem AllHomes.deleteUser (h : s.AllHomes Q) (username : String) (removeHome : Bool) :
    ((deleteUser username removeHome).run s).2.AllHomes Q := by
  rcases deleteUser_run s username removeHome with hSame | ⟨-, t, hErased, hEnd⟩
  · rwa [hSame]
  · have hLess : AllHomes Q { s with accounts := s.accounts.erase username } :=
      fun a ha => h a (Roster.of_mem_erase ha)
    have hAfter : t.AllHomes Q := hLess.of_same hErased.toSameUsers
    rcases hEnd with hEnd | ⟨account, hEnd⟩
    · rwa [hEnd]
    · rw [hEnd, AllHomes, accounts_dropOwnGroup]
      exact hAfter

/-- Home directories stay where they are. The one of a new account is named after it. -/
theorem AllHomes.apply (h : s.AllHomes Q) (o : Operation) (ho : o.Enlists fun name => Q ("/home/" ++ name)) :
    (s.apply o).2.AllHomes Q := by
  have hKeeps : ∀ {α : Type} {u : Update α}, u.Ends s (fun _ t => t.AllHomes Q) → (u.run s).2.AllHomes Q :=
    fun hEnds => hEnds.keeps (P := AllHomes Q) (fun _ _ ht => ht) h
  cases hOn : o.isOnAccounts with
  | false => exact hKeeps ((sameIdentity_steps o hOn s).mono fun _ _ ht => h.of_same ht.toSameUsers)
  | true =>
    cases o with
    | addUser username groups primary createHome =>
      exact hKeeps (Update.ends_map (h.addUser ho groups primary createHome))
    | addGroup name =>
      refine hKeeps (Update.ends_map ((addGroup_ends s name).mono ?_))
      rintro _ _ ⟨-, -, -, rfl⟩
      exact h
    | changeGroups username groups append =>
      refine hKeeps (Update.ends_map ((changeGroups_ends s username groups append).mono ?_))
      rintro _ _ ⟨-, -, account, hAccount, rfl, rfl⟩
      exact h.insert (h account (Roster.find?_eq_some_iff.mp hAccount).1)
    | deleteUser username removeHome =>
      rw [Session.apply, steps, Update.snd_run_map]
      exact h.deleteUser username removeHome
    | switchUser username =>
      refine hKeeps (Update.ends_map ((switchUser_ends s username).mono ?_))
      rintro _ _ ⟨-, -, rfl⟩
      exact h
    | _ => cases hOn

/-- What holds of the usual home directory of any account holds of those that lines give to accounts. -/
theorem invariant_allHomes (hQ : ∀ username, isAccountName username = true → Q ("/home/" ++ username)) :
    Invariant fun _ s => s.AllHomes Q where
  operate o h := by
    refine h.apply o ?_
    cases o with
    | addUser username => exact hQ username
    | _ => trivial
  login h hRun := by
    obtain ⟨-, -, rfl⟩ := (switchUser_ends _ _).answer _ _ hRun
    exact h
  enter h := h
  leave {mark marks s} h := by
    unfold leaveElevation
    split
    · exact h
    · exact h

end

section

variable {p : Char → Prop} {s : Session} {marks : List Mark}

/-- Proper are the names in the tree, and those of which the paths of home directories consist. -/
structure Spelt (p : Char → Prop) (marks : List Mark) (s : Session) : Prop where
  housed : Housed 0 marks s
  names : s.root.AllNames (ProperName p)
  homes : s.AllHomes fun home => ∀ q ∈ Path.split home, ProperName p q

theorem Spelt.cwd (h : Spelt p marks s) : ∀ q ∈ Path.split s.cwd, ProperName p q := by
  obtain ⟨kind, hKind⟩ := Option.ne_none_iff_exists'.mp h.housed.grounded.placed.present
  obtain ⟨n, hn, -⟩ := Option.map_eq_some_iff.mp hKind
  exact h.names.of_get? hn

theorem Spelt.home (h : Spelt p marks s) : ∀ q ∈ Path.split s.home, ProperName p q := by
  obtain ⟨a, ha⟩ := Option.isSome_iff_exists.mp h.housed.grounded.accounts.user
  rw [Session.home, account?, ha]
  exact h.homes a (Roster.find?_eq_some_iff.mp ha).1

theorem Spelt.admits (h : Spelt p marks s) : s.Admits (ProperName p) where
  slash := .inl (by decide)
  part {path target} hTarget q hq := by
    obtain ⟨text, rfl, hText, hSafe, -, hFull, -⟩ := Path.forWriting_eq_some.mp (forWriting_of_requireWritePath hTarget)
    rw [hFull, Path.split_resolve_some _ _ hText] at hq
    -- a part of the target comes from the working directory, from a tilde, or from what was looked at
    rcases Path.mem_split_of_mem_placeOf hq with hCwd | hPath
    · exact h.cwd q hCwd
    · rcases Path.mem_split_expandHome hPath with hHome | hTyped
      · exact h.home q hHome
      · rw [hasUnsafe_eq_false_iff] at hSafe
        exact .inl (hasUnsafe_eq_false_iff.mpr fun c hc => hSafe c (hTyped c hc))
  destination _ _ hSafe := .inl hSafe

theorem Spelt.of_same {t : Session} {more : List Mark} (h : Spelt p marks s) (hHoused : Housed 0 more t)
    (hRoot : t.root = s.root) (hAccounts : t.accounts = s.accounts) : Spelt p more t := by
  refine ⟨hHoused, ?_, ?_⟩
  · rw [hRoot]
    exact h.names
  · rw [AllHomes, hAccounts]
    exact h.homes

theorem properName_of_isAccountName {username : String} (h : isAccountName username = true)
    (hSpelled : Line.Spelled p username.toList) : ∀ q ∈ Path.split ("/home/" ++ username), ProperName p q := by
  rw [usualHome_eq, Path.split_ofParts (areParts_usualHome h)]
  exact List.forall_mem_cons.mpr ⟨.inl (by decide), List.forall_mem_singleton.mpr (.inr ⟨h, hSpelled⟩)⟩

theorem invariantOf_spelt (p : Char → Prop) : InvariantOf p (Spelt p) where
  operate {marks s} o ho h := by
    have hNames : o.Enlists (ProperName p) := by
      cases o with
      | addUser => exact fun hName => .inr ⟨hName, ho⟩
      | _ => trivial
    have hHomes : o.Enlists fun name => ∀ q ∈ Path.split ("/home/" ++ name), ProperName p q := by
      cases o with
      | addUser => exact fun hName => properName_of_isAccountName hName ho
      | _ => trivial
    exact ⟨(invariant_housed 0).operate o h.housed, apply_names h.names h.admits o hNames, h.homes.apply o hHomes⟩
  login {marks s t username name} h hRun := by
    obtain ⟨-, -, rfl⟩ := (switchUser_ends s username).answer _ _ hRun
    exact h.of_same ((invariant_housed 0).login h.housed hRun) rfl rfl
  enter h := h.of_same ((invariant_housed 0).enter h.housed) rfl rfl
  leave {mark marks s} h := by
    refine h.of_same ((invariant_housed 0).leave h.housed) (root_leave mark s) ?_
    unfold leaveElevation
    split
    · rfl
    · rfl

end

end Session

namespace Shell

open Session

variable {p : Char → Prop} {sh : Shell}

/-- A shell that is reached by lines all characters of which have `p`. -/
inductive ReachedBy (p : Char → Prop) : Shell → Prop where
  | start {username : String} {now : Float} {s : Session} (tally : Tally) :
      Session.fresh? username now = some s → ReachedBy p ⟨s, tally⟩
  | wait {sh : Shell} (now : Float) : ReachedBy p sh →
      ReachedBy p { sh with session := { sh.session with now := now } }
  | line {sh : Shell} (o : ShellOptions) (markup : Bool) {line : String} : Line.Spelled p line.toList →
      ReachedBy p sh → ReachedBy p (sh.run o markup line).2

theorem ReachedBy.reached (h : ReachedBy p sh) : Reached sh := by
  induction h with
  | start tally hFresh => exact .start tally hFresh
  | wait now _ ih => exact ih.wait now
  | line o markup _ _ ih => exact ih.line o markup _

theorem Reached.by_any (h : Reached sh) : ReachedBy (fun _ => True) sh := by
  induction h with
  | start tally hFresh => exact .start tally hFresh
  | wait now _ ih => exact ih.wait now
  | line o markup line _ ih => exact ih.line o markup fun _ _ => trivial

theorem ReachedBy.spelt (h : ReachedBy p sh) (hSpace : p ' ') : Spelt p [] sh.session := by
  induction h with
  | @start username now s tally hFresh =>
    obtain ⟨hRoot, hAccounts⟩ := start_of_fresh? hFresh
    have hHomes : ∀ a ∈ Seed.accounts.members, ∀ q ∈ Path.split a.home, Path.hasUnsafe q = false := by decide
    refine ⟨(Reached.start tally hFresh).housed, ?_, ?_⟩
    · show s.root.AllNames (ProperName p)
      rw [hRoot]
      exact (Seed.safe_root now).mono fun _ hSafe => .inl hSafe
    · show s.AllHomes _
      rw [AllHomes, hAccounts]
      exact fun a ha q hq => .inl (hHomes a ha q hq)
  | @wait sh now hBefore ih => exact ih.of_same (hBefore.wait now).reached.housed rfl rfl
  | line o markup hLine _ ih => exact run_keeps_of (invariantOf_spelt p) hLine hSpace ih

theorem ReachedBy.properName (h : ReachedBy p sh) (hSpace : p ' ') {path : String} {n : Node}
    (hn : (path, n) ∈ sh.session.root.walk "/") : ProperName p n.name :=
  ((h.spelt hSpace).names.of_mem_walk hn).here

theorem ReachedBy.runLines (h : ReachedBy p sh) {lines : List String}
    (hLines : ∀ line ∈ lines, Line.Spelled p line.toList) : ReachedBy p (sh.runLines lines) := by
  induction lines generalizing sh with
  | nil => exact h
  | cons line lines ih =>
    obtain ⟨hLine, hLines⟩ := List.forall_mem_cons.mp hLines
    rw [Shell.runLines, List.foldl_cons]
    exact ih (h.line .default false hLine) hLines

theorem Reached.allHomes {Q : String → Prop} (h : Reached sh) (hSeed : ∀ a ∈ Seed.accounts.members, Q a.home)
    (hQ : ∀ username, isAccountName username = true → Q ("/home/" ++ username)) : sh.session.AllHomes Q := by
  induction h with
  | start tally hFresh =>
    rw [AllHomes, (start_of_fresh? hFresh).2]
    exact hSeed
  | wait now _ ih => exact ih
  | line o markup line _ ih => exact @run_keeps _ [] _ o markup (invariant_allHomes hQ) line ih

/-- An unsafe name of a node is that of an account, safe up to a newline that it ends in. There is none as long
as no line has a newline in it. -/
theorem unsafe_name_of_account (sh : Shell) :
    (Reached sh → ∀ path n, (path, n) ∈ sh.session.root.walk "/" → Path.hasUnsafe n.name = true →
      isAccountName n.name = true ∧ ∃ stem, n.name = stem ++ "\n" ∧ Path.hasUnsafe stem = false) ∧
    (ReachedBy (· ≠ '\n') sh → ∀ path n, (path, n) ∈ sh.session.root.walk "/" →
      Path.hasUnsafe n.name = false) := by
  constructor
  · intro h path n hn hUnsafe
    rcases h.by_any.properName trivial hn with hSafe | ⟨hName, -⟩
    · rw [hSafe] at hUnsafe
      cases hUnsafe
    · exact ⟨hName, exists_stem_of_isAccountName hName hUnsafe⟩
  · exact fun h path n hn => (h.properName (by decide) hn).hasUnsafe_eq_false fun hNewline => hNewline rfl

/-- A home directory gets the newline that was typed at the end of a quoted name. -/
theorem unsafe_name_after_enrolment : ∃ s, Session.fresh? "user" 0.0 = some s ∧
    (∃ n, ("/home/alice\n", n) ∈ (Shell.runLines ⟨s, []⟩ ["sudo useradd 'alice\n'"]).session.root.walk "/" ∧
      Path.hasUnsafe n.name = true ∧ isAccountName n.name = true ∧
      ∃ stem, n.name = stem ++ "\n" ∧ Path.hasUnsafe stem = false) ∧
    ∀ path n, (path, n) ∈ (Shell.runLines ⟨s, []⟩ ["sudo useradd alice"]).session.root.walk "/" →
      Path.hasUnsafe n.name = false := by
  have hRun : (Session.fresh? "user" 0.0).map (fun s =>
      ((Shell.runLines ⟨s, []⟩ ["sudo useradd 'alice\n'"]).session.root.walk "/").any fun entry =>
        entry.1 == "/home/alice\n" && Path.hasUnsafe entry.2.name) = some true := by
    decide +kernel
  obtain ⟨s, hFresh, hAny⟩ := Option.map_eq_some_iff.mp hRun
  obtain ⟨⟨path, n⟩, hn, hHere⟩ := List.any_eq_true.mp hAny
  obtain ⟨hPath, hUnsafe⟩ := (Bool.and_eq_true _ _).mp hHere
  obtain rfl : path = "/home/alice\n" := beq_iff_eq.mp hPath
  have hNone : '\n' ∉ "sudo useradd alice".toList := by decide
  have hPlain : ∀ line ∈ ["sudo useradd alice"], Line.Spelled (· ≠ '\n') line.toList :=
    List.forall_mem_singleton.mpr fun _ hc hNewline => hNone (hNewline ▸ hc)
  refine ⟨s, hFresh, ⟨n, hn, hUnsafe, ?_⟩, ?_⟩
  · exact (unsafe_name_of_account _).1 ((Reached.start [] hFresh).runLines _) _ n hn hUnsafe
  · exact (unsafe_name_of_account _).2 ((ReachedBy.start [] hFresh).runLines hPlain)

theorem not_all_names_safe : ¬∀ sh : Shell, Reached sh → ∀ path n, (path, n) ∈ sh.session.root.walk "/" →
    path ≠ "/" → Path.hasUnsafe n.name = false := by
  intro h
  have hRun : (Session.fresh? "user" 0.0).map (fun s =>
      ((Shell.runLines ⟨s, []⟩ ["sudo useradd 'alice\n'"]).session.root.walk "/").all fun entry =>
        entry.1 == "/" || !Path.hasUnsafe entry.2.name) = some false := by
    decide +kernel
  obtain ⟨s, hFresh, hAll⟩ := Option.map_eq_some_iff.mp hRun
  rw [List.all_eq_true.mpr] at hAll
  · cases hAll
  · rintro ⟨path, n⟩ hn
    by_cases hPath : path = "/"
    · simp [hPath]
    · have hSafe := h _ ((Reached.start [] hFresh).runLines _) path n hn hPath
      simp [hSafe]

end Shell

end VirtualShell
