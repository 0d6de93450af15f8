import VirtualShell.Proofs.Shell.Keeping

/-!
# What commands answer

Only the commands that list directories and search lines ever answer with markup.
-/
namespace VirtualShell
set_option autoImplicit false

namespace Act

variable {α β : Type} {a : Act α}

/-- What the answers are like, whatever session they are given in. -/
def Answers (Q : α → Prop) (a : Act α) : Prop := ∀ s x, (a.run s).1 = .ok x → Q x

section

variable {Q : α → Prop} {Q' : β → Prop}

theorem answers_pure {x : α} (h : Q x) : Answers Q (pure x : Act α) := by
  intro s y hRun
  cases hRun
  exact h

theorem answers_bind {f : α → Act β} (ha : Answers Q a) (hf : ∀ x, Q x → Answers Q' (f x)) :
    Answers Q' (a >>= f) := by
  intro s y hRun
  rw [run_bind] at hRun
  split at hRun
  · rename_i x t hFirst
    exact hf x (ha s x (congrArg Prod.fst hFirst)) t y hRun
  · cases hRun

theorem answers_trivial (a : Act α) : Answers (fun _ => True) a := fun _ _ _ => trivial

/-- What comes before does not matter. -/
theorem answers_after {f : α → Act β} (hf : ∀ x, Answers Q' (f x)) : Answers Q' (a >>= f) :=
  answers_bind (answers_trivial a) fun x _ => hf x

theorem answers_inspect {see : Session → Except Fault α} (h : ∀ s x, see s = .ok x → Q x) :
    Answers (fun answer => ∀ x, answer = .ok x → Q x) (inspect see) := by
  intro s answer hRun x hx
  subst hx
  rw [inspect, run_attempt, Update.run_look] at hRun
  split at hRun
  · rename_i hSee
    cases hRun
    exact h s x (congrArg Prod.fst hSee)
  · cases hRun
  · cases hRun

end

abbrev Plain (a : Act Reply) : Prop := a.Answers fun r => r.markup = false

theorem plain_perform {operation : String → Update α} (operands : List String)
    (blame : String → Refusal → Problem) : Plain (perform operands operation blame) :=
  answers_after fun _ => answers_pure rfl

end Act

open Act

theorem plain_silently {α : Type} (command : String) (u : Update α) : Plain (Identity.silently command u) := by
  refine answers_after fun result => ?_
  cases result with
  | ok _ => exact answers_pure rfl
  | error r => exact answers_pure rfl

theorem plain_describe (command : String) (c : Call) (text : Account → String) :
    Plain (Identity.describe command c text) := by
  refine answers_after fun s => ?_
  dsimp only
  split
  · exact answers_pure rfl
  · exact answers_pure rfl

theorem plain_excerpt (command : String) (choose : Nat → List String → List String) (c : Call) :
    Plain (Content.excerpt command choose c) := by
  unfold Content.excerpt
  dsimp only
  split
  · exact answers_pure rfl
  · exact answers_after fun found => answers_pure rfl

theorem plain_openEditor {s : Session} {path : String} {r : Reply} (h : Content.openEditor s path = .ok r) :
    r.markup = false := by
  unfold Content.openEditor at h
  dsimp only at h
  split at h
  · split at h
    · cases h
      rfl
    · split at h
      · cases h
        rfl
      · cases h
        rfl
      · cases h
  · cases h
  · split at h
    · cases h
      rfl
    · obtain ⟨place, -, h⟩ := Result.exists_of_bind_ok h
      split at h
      · cases h
        rfl
      · cases h
        rfl

theorem plain_nano (c : Call) : Plain (Content.nano c) := by
  unfold Content.nano
  split
  · exact answers_pure rfl
  · refine answers_bind (answers_inspect fun _ _ => plain_openEditor) fun answer hAnswer => ?_
    cases answer with
    | ok r => exact answers_pure (hAnswer r rfl)
    | error r => exact answers_pure rfl

theorem plain_cat (c : Call) : Plain (Content.cat c) := by
  unfold Content.cat
  split
  · exact answers_pure rfl
  · exact answers_pure rfl
  · exact answers_after fun found => answers_pure rfl

theorem plain_less (c : Call) : Plain (Content.less c) := by
  unfold Content.less
  split
  · exact answers_pure rfl
  · exact answers_pure rfl
  · refine answers_after fun result => ?_
    cases result with
    | ok _ => exact answers_pure rfl
    | error _ => exact answers_pure rfl

theorem plain_transfer (command : String) (operation : String → String → Update String) (c : Call) :
    Plain (Change.transfer command operation c) := by
  unfold Change.transfer
  split
  · exact answers_pure rfl
  · exact answers_pure rfl
  · dsimp only
    split
    all_goals
      refine answers_after fun ready => ?_
      split
    all_goals first | exact plain_perform _ _ | exact answers_pure rfl

theorem plain_rm (c : Call) : Plain (Change.rm c) := by
  unfold Change.rm
  dsimp only
  split
  · split
    · exact answers_pure rfl
    · exact answers_pure rfl
  · exact answers_after fun problems => answers_pure rfl

theorem plain_useradd (c : Call) : Plain (Identity.useradd c) := by
  unfold Identity.useradd
  split
  · exact answers_pure rfl
  · exact plain_silently _ _
  · exact answers_pure rfl

theorem plain_usermod (c : Call) : Plain (Identity.usermod c) := by
  unfold Identity.usermod
  split
  · exact answers_pure rfl
  · split
    · exact plain_silently _ _
    · exact answers_pure rfl

theorem plain_find (c : Call) : Plain (Lookup.find c) := by
  unfold Lookup.find
  split
  · exact answers_pure rfl
  · exact answers_after fun found => answers_pure rfl

/-- Operands that are done one after the other, if there are any. -/
theorem plain_unless {b : Bool} {r : Reply} {a : Act Reply} (hr : r.markup = false) (ha : Plain a) :
    Plain (if b then pure r else a) := by
  split
  · exact answers_pure hr
  · exact ha

theorem Manual.markup_man (c : Call) : (man c).markup = false := by
  unfold man
  split
  · rfl
  · split
    · rfl
    · rfl

theorem Manual.markup_whatis (c : Call) : (whatis c).markup = false := by
  unfold whatis
  split
  · rfl
  · rfl

theorem Manual.markup_apropos (c : Call) : (apropos c).markup = false := by
  unfold apropos
  split
  · rfl
  · split
    · rfl
    · rfl

theorem Utility.act_plain {u : Utility} (hList : u ≠ .ls) (hSearch : u ≠ .grep) (c : Call) : Plain (u.act c) := by
  cases u with
  | apropos => exact answers_pure (Manual.markup_apropos c)
  | cat => exact plain_cat c
  | cd =>
    unfold act Identity.cd
    dsimp only
    split
    · exact plain_silently _ _
    · exact plain_silently _ _
    · exact answers_pure rfl
  | chmod =>
    unfold act Change.chmod
    dsimp only
    split
    · exact answers_after fun problems => answers_pure rfl
    · exact answers_pure rfl
  | chown =>
    unfold act Change.chown
    dsimp only
    split
    · exact plain_perform _ _
    · exact answers_pure rfl
  | cp => exact plain_transfer "cp" (fun source dest => Session.copy (some source) (some dest) _) c
  | echo => exact answers_pure rfl
  | find => exact plain_find c
  | grep => exact absurd rfl hSearch
  | groupadd =>
    unfold act Identity.groupadd
    dsimp only
    split
    · exact plain_silently _ _
    · exact answers_pure rfl
  | groups => exact plain_describe "groups" c _
  | head => exact plain_excerpt "head" (fun count lines => lines.take count) c
  | id => exact plain_describe "id" c _
  | less => exact plain_less c
  | ls => exact absurd rfl hList
  | man => exact answers_pure (Manual.markup_man c)
  | mkdir => exact plain_unless rfl (plain_perform _ _)
  | mv => exact plain_transfer "mv" (fun source dest => Session.move (some source) (some dest)) c
  | nano => exact plain_nano c
  | pwd => exact answers_after fun s => answers_pure rfl
  | rm => exact plain_rm c
  | rmdir => exact plain_unless rfl (plain_perform _ _)
  | sort => exact answers_after fun found => answers_pure rfl
  | stat => exact plain_unless rfl (answers_after fun found => answers_pure rfl)
  | su =>
    unfold act Identity.su
    exact plain_silently _ _
  | elevate => exact answers_pure rfl
  | tail => exact plain_excerpt "tail" (fun count lines => lines.drop (lines.length - count)) c
  | touch => exact plain_unless rfl (plain_perform _ _)
  | useradd => exact plain_useradd c
  | userdel =>
    unfold act Identity.userdel
    dsimp only
    split
    · exact plain_silently _ _
    · exact answers_pure rfl
  | usermod => exact plain_usermod c
  | wc => exact answers_after fun found => answers_pure rfl
  | whatis => exact answers_pure (Manual.markup_whatis c)
  | whoami => exact answers_after fun s => answers_pure rfl

end VirtualShell
