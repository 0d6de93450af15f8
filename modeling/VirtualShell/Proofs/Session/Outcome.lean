import VirtualShell.Proofs.Result
import VirtualShell.Session.Update

/-!
# How steps end

`Ends` is the judgement on steps that may fail: an answer comes with what holds of it and of the
session then, a fault leaves the session as it was. Since nothing takes back what was written, the
rule for a write asks the steps after it to answer, which is what `Returns` says of them. A caller
sees no more of the end than its `upshot`.
-/
namespace VirtualShell.Update
set_option autoImplicit false

variable {α β : Type} {u : Update α} {f : α → Update β} {s : Session}

/-- The steps answer, and `post` holds of the answer and the session. -/
def Returns (u : Update α) (s : Session) (post : α → Session → Prop) : Prop :=
  ∃ a s', u.run s = (.ok a, s') ∧ post a s'

/-- The steps answer such that `post` holds, or they fail and the session is the same. -/
structure Ends (u : Update α) (s : Session) (post : α → Session → Prop) : Prop where
  answer : ∀ a s', u.run s = (.ok a, s') → post a s'
  unchanged : ∀ fault s', u.run s = (.error fault, s') → s' = s

section

variable {post post' : α → Session → Prop}

theorem Returns.mono (h : u.Returns s post) (hPost : ∀ a t, post a t → post' a t) : u.Returns s post' := by
  obtain ⟨a, t, hRun, ha⟩ := h
  exact ⟨a, t, hRun, hPost a t ha⟩

theorem Returns.ends (h : u.Returns s post) : u.Ends s post := by
  obtain ⟨a, s', hRun, hPost⟩ := h
  constructor
  · intro b t ht
    cases hRun.symm.trans ht
    exact hPost
  · intro fault t ht
    cases hRun.symm.trans ht

theorem ends_of_error {fault : Fault} (h : u.run s = (.error fault, s)) : u.Ends s post := by
  constructor
  · intro a t ht
    cases h.symm.trans ht
  · intro fault' t ht
    cases h.symm.trans ht
    rfl

theorem Ends.mono (h : u.Ends s post) (hPost : ∀ a t, post a t → post' a t) : u.Ends s post' :=
  ⟨fun a t ht => hPost a t (h.answer a t ht), h.unchanged⟩

/-- Steps whose answer would be impossible fail. -/
theorem Ends.fails (h : u.Ends s post) (hNone : ∀ a t, ¬post a t) : ∃ fault, u.run s = (.error fault, s) := by
  cases hRun : u.run s with
  | mk result t =>
    cases result with
    | ok a => exact absurd (h.answer a t hRun) (hNone a t)
    | error fault =>
      rw [h.unchanged fault t hRun]
      exact ⟨fault, rfl⟩

/-- The steps answer if and only if `cond` holds, and then `post` holds. Otherwise they fail and the session is the
same. -/
structure Decided (u : Update α) (s : Session) (cond : Prop) (post : α → Session → Prop) : Prop extends
    Ends u s post where
  succeeds : (∃ a s', u.run s = (.ok a, s')) ↔ cond

theorem decided_of_ends {cond : Prop} (hEnds : u.Ends s fun a t => cond ∧ post a t)
    (hReturns : cond → u.Returns s fun _ _ => True) : u.Decided s cond post := by
  refine ⟨hEnds.mono fun a t h => h.2, ?_, ?_⟩
  · rintro ⟨a, t, hRun⟩
    exact (hEnds.answer a t hRun).1
  · intro hCond
    obtain ⟨a, t, hRun, -⟩ := hReturns hCond
    exact ⟨a, t, hRun⟩

/-- What is kept by an answer of which `post` holds is kept in every case. -/
theorem Ends.keeps {P : Session → Prop} (h : u.Ends s post) (hKeep : ∀ a t, post a t → P t) (hs : P s) :
    P (u.run s).2 := by
  cases hRun : u.run s with
  | mk result t =>
    cases result with
    | ok a => exact hKeep a t (h.answer a t hRun)
    | error fault =>
      rw [h.unchanged fault t hRun]
      exact hs

end

theorem exists_run_eq {a : α} (h : (u.run s).1.toOption = some a) : ∃ s', u.run s = (.ok a, s') :=
  ⟨_, Prod.ext (Result.toOption_eq_some_iff.mp h) rfl⟩

theorem run_bind (s : Session) : (u >>= f).run s =
    match u.run s with
    | (.ok a, s') => (f a).run s'
    | (.error fault, s') => (.error fault, s') :=
  rfl

theorem run_session_bind (f : Session → Update β) (s : Session) : (session >>= f).run s = (f s).run s := rfl

theorem run_look (see : Session → Except Fault α) (s : Session) : (look see).run s = (see s, s) := rfl

theorem run_lift_bind (r : Except Fault α) (f : α → Update β) (s : Session) : ((liftM r : Update α) >>= f).run s =
    match r with
    | .ok a => (f a).run s
    | .error fault => (.error fault, s) := by
  cases r <;> rfl

theorem run_map (g : α → β) (u : Update α) (s : Session) : (g <$> u).run s =
    match u.run s with
    | (.ok a, s') => (.ok (g a), s')
    | (.error fault, s') => (.error fault, s') :=
  rfl

theorem snd_run_map (g : α → β) (u : Update α) (s : Session) : ((g <$> u).run s).2 = (u.run s).2 := by
  rw [run_map]
  cases hRun : u.run s with
  | mk result t => cases result <;> rfl

section

variable {post : β → Session → Prop}

theorem returns_pure {b : β} (h : post b s) : (pure b : Update β).Returns s post := ⟨b, s, rfl, h⟩

theorem returns_session_bind {f : Session → Update β} (h : (f s).Returns s post) :
    (session >>= f).Returns s post :=
  h

theorem returns_write {post : Unit → Session → Prop} {change : Session → Session} (h : post () (change s)) :
    (write change).Returns s post :=
  ⟨(), change s, rfl, h⟩

theorem returns_bind {m : α → Session → Prop} (hu : u.Returns s m)
    (hf : ∀ a t, m a t → (f a).Returns t post) : (u >>= f).Returns s post := by
  obtain ⟨a, t, hRun, hMid⟩ := hu
  obtain ⟨b, t', hNext, hPost⟩ := hf a t hMid
  refine ⟨b, t', ?_, hPost⟩
  rw [run_bind, hRun]
  exact hNext

theorem returns_write_bind {change : Session → Session} {f : Unit → Update β}
    (h : (f ()).Returns (change s) post) : (write change >>= f).Returns s post :=
  h

theorem returns_lift_bind {r : Except Fault α} {a : α} (hr : r = .ok a) (h : (f a).Returns s post) :
    ((liftM r : Update α) >>= f).Returns s post := by
  subst hr
  exact h

theorem returns_error_ite {c : Prop} [Decidable c] {u : Update β} {fault : Fault} (hc : ¬c) (h : u.Returns s post) :
    (if c then liftM (.error fault : Except Fault β) else u).Returns s post := by
  rwa [if_neg hc]

theorem ends_pure {b : β} (h : post b s) : (pure b : Update β).Ends s post := (returns_pure h).ends

theorem ends_error (fault : Fault) : (liftM (.error fault : Except Fault β) : Update β).Ends s post :=
  ends_of_error rfl

theorem ends_error_ite {c : Prop} [Decidable c] {u : Update β} {fault : Fault} (h : ¬c → u.Ends s post) :
    (if c then liftM (.error fault : Except Fault β) else u).Ends s post := by
  split
  · exact ends_error _
  · rename_i hc
    exact h hc

theorem ends_ite_error {c : Prop} [Decidable c] {u : Update β} {fault : Fault} (h : c → u.Ends s post) :
    (if c then u else liftM (.error fault : Except Fault β)).Ends s post := by
  split
  · rename_i hc
    exact h hc
  · exact ends_error _

theorem ends_look {see : Session → Except Fault β} (h : ∀ b, see s = .ok b → post b s) :
    (look see).Ends s post := by
  cases hSee : see s with
  | ok b => exact Returns.ends ⟨b, s, congrArg (·, s) hSee, h b hSee⟩
  | error fault => exact ends_of_error (congrArg (·, s) hSee)

theorem ends_session_bind {f : Session → Update β} (h : (f s).Ends s post) : (session >>= f).Ends s post :=
  ⟨h.answer, h.unchanged⟩

theorem ends_lift_bind {r : Except Fault α} (h : ∀ a, r = .ok a → (f a).Ends s post) :
    ((liftM r : Update α) >>= f).Ends s post := by
  cases r with
  | ok a => exact ⟨(h a rfl).answer, (h a rfl).unchanged⟩
  | error fault => exact ends_of_error rfl

/-- Steps that answer in any case may follow those that wrote to the session. -/
theorem ends_bind {m : α → Session → Prop} (hu : u.Ends s m) (hf : ∀ a t, m a t → (f a).Returns t post) :
    (u >>= f).Ends s post := by
  cases hRun : u.run s with
  | mk result t =>
    cases result with
    | ok a => exact (returns_bind ⟨a, t, hRun, hu.answer a t hRun⟩ hf).ends
    | error fault =>
      apply ends_of_error
      rw [run_bind, hRun, hu.unchanged fault t hRun]

theorem ends_write_bind {change : Session → Session} {f : Unit → Update β}
    (h : (f ()).Returns (change s) post) : (write change >>= f).Ends s post :=
  (returns_write_bind h).ends

theorem ends_map {g : α → β} (h : u.Ends s fun a t => post (g a) t) : (g <$> u).Ends s post :=
  ends_bind (f := fun a => pure (g a)) h fun _ _ ha => returns_pure ha

end

/-- Steps that keep `P`, whether they answer or fail. -/
def Keeps (P : Session → Prop) (u : Update α) : Prop := ∀ s, P s → P (u.run s).2

/-- How steps end, as their caller sees it. -/
inductive Upshot where
  | answered
  | refused (kind : ErrorKind)
  | crashed (crash : Crash)
  deriving DecidableEq

def Upshot.ofFault : Fault → Upshot
  | .refused refusal => .refused refusal.kind
  | .crashed crash => .crashed crash

variable {γ δ : Type} {t : Session} {u' : Update β}

def upshot (u : Update α) (s : Session) : Upshot :=
  match (u.run s).1 with
  | .ok _ => .answered
  | .error fault => .ofFault fault

theorem upshot_eq_answered_iff : u.upshot s = .answered ↔ ∃ a t, u.run s = (.ok a, t) := by
  unfold upshot
  cases hRun : u.run s with
  | mk result t =>
    cases result with
    | ok a => simp
    | error fault => cases fault <;> simp [Upshot.ofFault]

theorem upshot_session_bind (f : Session → Update β) : (session >>= f).upshot s = (f s).upshot s := rfl

theorem upshot_bind_ok {r : Except Fault γ} {c : γ} {f : γ → Update β} (hr : r = .ok c) :
    ((liftM r : Update γ) >>= f).upshot s = (f c).upshot s := by
  subst hr
  rfl

theorem upshot_bind_error {r : Except Fault γ} {fault : Fault} {f : γ → Update β} (hr : r = .error fault) :
    ((liftM r : Update γ) >>= f).upshot s = .ofFault fault := by
  subst hr
  rfl

theorem upshot_bind_congr {R : γ → δ → Prop} {r : Except Fault γ} {r' : Except Fault δ} {f : γ → Update α}
    {f' : δ → Update β} (hr : Result.Agree R r r')
    (h : ∀ c d, r = .ok c → r' = .ok d → R c d → (f' d).upshot t = (f c).upshot s) :
    ((liftM r' : Update δ) >>= f').upshot t = ((liftM r : Update γ) >>= f).upshot s := by
  cases hr with
  | error fault => rfl
  | ok hcd => exact h _ _ rfl rfl hcd

theorem upshot_bind_same {r : Except Fault γ} {f : γ → Update α} {f' : γ → Update β}
    (h : ∀ c, r = .ok c → (f' c).upshot t = (f c).upshot s) :
    ((liftM r : Update γ) >>= f').upshot t = ((liftM r : Update γ) >>= f).upshot s := by
  refine upshot_bind_congr (.refl (fun _ => rfl) r) fun c d hc _ hcd => ?_
  rw [← hcd]
  exact h c hc

theorem upshot_error_ite {c : Prop} [Decidable c] {fault : Fault} (h : ¬c → u'.upshot t = u.upshot s) :
    (if c then liftM (.error fault : Except Fault β) else u').upshot t =
      (if c then liftM (.error fault : Except Fault α) else u).upshot s := by
  split
  · rfl
  · rename_i hc
    exact h hc

theorem upshot_ite_error {c : Prop} [Decidable c] {fault : Fault} (h : c → u'.upshot t = u.upshot s) :
    (if c then u' else liftM (.error fault : Except Fault β)).upshot t =
      (if c then u else liftM (.error fault : Except Fault α)).upshot s := by
  split
  · rename_i hc
    exact h hc
  · rfl

end VirtualShell.Update
