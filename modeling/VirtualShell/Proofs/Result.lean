/-!
# Results that may be faults

What is known of the parts when the whole is not a fault.
-/
namespace VirtualShell.Result
set_option autoImplicit false

variable {ε α β : Type}

theorem ok_bind (a : α) (f : α → Except ε β) : ((.ok a : Except ε α) >>= f) = f a := rfl

theorem exists_of_bind_ok {r : Except ε α} {f : α → Except ε β} {b : β} (h : (r >>= f) = .ok b) :
    ∃ a, r = .ok a ∧ f a = .ok b := by
  cases r with
  | error fault => cases h
  | ok a => exact ⟨a, rfl, h⟩

theorem exists_of_map_ok {r : Except ε α} {g : α → β} {b : β} (h : g <$> r = .ok b) : ∃ a, r = .ok a ∧ g a = b := by
  cases r with
  | error fault => cases h
  | ok a =>
    cases h
    exact ⟨a, rfl, rfl⟩

theorem bind_eq_ok_iff {r : Except ε α} {f : α → Except ε β} {b : β} :
    (r >>= f) = .ok b ↔ ∃ a, r = .ok a ∧ f a = .ok b := by
  constructor
  · exact exists_of_bind_ok
  · rintro ⟨a, rfl, h⟩
    exact h

theorem map_eq_error_iff {r : Except ε α} {g : α → β} {fault : ε} : g <$> r = .error fault ↔ r = .error fault := by
  cases r with
  | ok a => exact ⟨nofun, nofun⟩
  | error first => exact ⟨fun h => congrArg _ (Except.error.inj h), fun h => congrArg _ (Except.error.inj h)⟩

theorem bind_eq_error_iff {r : Except ε α} {f : α → Except ε β} {fault : ε} :
    (r >>= f) = .error fault ↔ r = .error fault ∨ ∃ a, r = .ok a ∧ f a = .error fault := by
  cases r with
  | ok a => simp [ok_bind]
  | error first =>
    refine ⟨fun h => .inl (congrArg _ (Except.error.inj h)), ?_⟩
    rintro (h | ⟨_, h, -⟩)
    · exact congrArg _ (Except.error.inj h)
    · cases h

/-- A check that answers nothing but whether it has passed. -/
theorem bind_ite_eq_ok_iff {r : Except ε Bool} {u : Except ε Unit} {fault : ε} :
    (do if ← r then u else .error fault) = .ok () ↔ r = .ok true ∧ u = .ok () := by
  cases r with
  | error fault => exact ⟨nofun, fun h => nomatch h.1⟩
  | ok may => cases may <;> simp [ok_bind]

theorem toOption_eq_some_iff {r : Except ε α} {a : α} : r.toOption = some a ↔ r = .ok a := by
  cases r <;> simp [Except.toOption]

/-- What the steps for all members of a list keep holds of the result of a fold over it. -/
theorem foldlM_keeps_of_mem {P : β → Prop} {f : β → α → Except ε β} {xs : List α}
    (hStep : ∀ x ∈ xs, ∀ b b', P b → f b x = .ok b' → P b') {b b' : β} (hb : P b) (h : xs.foldlM f b = .ok b') :
    P b' := by
  induction xs generalizing b with
  | nil =>
    cases h
    exact hb
  | cons x xs ih =>
    obtain ⟨hHead, hTail⟩ := List.forall_mem_cons.mp hStep
    rw [List.foldlM_cons] at h
    obtain ⟨c, hc, h⟩ := exists_of_bind_ok h
    exact ih hTail (hHead b c hb hc) h

theorem foldlM_keeps {P : β → Prop} {f : β → α → Except ε β} (hStep : ∀ b a b', P b → f b a = .ok b' → P b')
    {xs : List α} {b b' : β} (hb : P b) (h : xs.foldlM f b = .ok b') : P b' :=
  foldlM_keeps_of_mem (fun a _ b b' => hStep b a b') hb h

theorem mapM_ok {P : β → Prop} {f : α → Except ε β} (hStep : ∀ a b, f a = .ok b → P b) {xs : List α}
    {ys : List β} (h : xs.mapM f = .ok ys) : ys.length = xs.length ∧ ∀ y ∈ ys, P y := by
  induction xs generalizing ys with
  | nil =>
    cases h
    exact ⟨rfl, by simp⟩
  | cons x xs ih =>
    rw [List.mapM_cons] at h
    obtain ⟨y, hy, h⟩ := exists_of_bind_ok h
    obtain ⟨zs, hzs, h⟩ := exists_of_bind_ok h
    cases h
    obtain ⟨hLength, hMem⟩ := ih hzs
    refine ⟨by rw [List.length_cons, List.length_cons, hLength], ?_⟩
    intro z hz
    rcases List.mem_cons.mp hz with rfl | hz
    · exact hStep x z hy
    · exact hMem z hz

theorem mapM_eq_ok {f : α → Except ε β} {g : α → β} {xs : List α} (h : ∀ x ∈ xs, f x = .ok (g x)) :
    xs.mapM f = .ok (xs.map g) := by
  induction xs with
  | nil => rfl
  | cons x xs ih =>
    obtain ⟨hx, hxs⟩ := List.forall_mem_cons.mp h
    rw [List.mapM_cons, hx, ih hxs]
    rfl

/-- Members that are turned into lists one by one can be folded afterwards. -/
theorem foldlM_map_foldl {γ : Type} (f : α → Except ε (List β)) (g : γ → β → γ) (xs : List α) (r : γ) :
    xs.foldlM (fun r x => (fun ys => ys.foldl g r) <$> f x) r = (fun yss => yss.flatten.foldl g r) <$> xs.mapM f := by
  induction xs generalizing r with
  | nil => rfl
  | cons x xs ih =>
    rw [List.foldlM_cons, List.mapM_cons]
    cases f x with
    | error fault => rfl
    | ok ys =>
      have hRest := ih (ys.foldl g r)
      rw [ok_bind]
      refine hRest.trans ?_
      cases xs.mapM f with
      | error fault => rfl
      | ok yss => simp [bind, Except.bind, pure, Except.pure, Functor.map, Except.map, List.foldl_append]

/-- Two results that are the same fault, or answers that `R` relates. -/
inductive Agree (R : α → β → Prop) : Except ε α → Except ε β → Prop where
  | ok {a : α} {b : β} : R a b → Agree R (.ok a) (.ok b)
  | error (fault : ε) : Agree R (.error fault) (.error fault)

theorem agree_of_map_eq {r r' : Except ε α} {g : α → β} (h : r'.map g = r.map g) :
    Agree (fun a b => g b = g a) r r' := by
  cases r with
  | error fault =>
    cases r' with
    | error fault' =>
      cases h
      exact .error fault
    | ok b => cases h
  | ok a =>
    cases r' with
    | error fault' => cases h
    | ok b => exact .ok (Except.ok.inj h)

namespace Agree

variable {α' β' : Type} {R : α → β → Prop} {S : α' → β' → Prop}

theorem refl {R : α → α → Prop} (h : ∀ a, R a a) (r : Except ε α) : Agree R r r := by
  cases r with
  | ok a => exact .ok (h a)
  | error fault => exact .error fault

theorem ok_of_ok {r : Except ε α} {r' : Except ε β} {a : α}
    (h : Agree R r r') (hr : r = .ok a) : ∃ b, r' = .ok b ∧ R a b := by
  cases h with
  | error fault => cases hr
  | ok hab =>
    cases hr
    exact ⟨_, rfl, hab⟩

theorem bind {r : Except ε α} {r' : Except ε β} {f : α → Except ε α'} {g : β → Except ε β'} (h : Agree R r r')
    (hNext : ∀ a b, R a b → Agree S (f a) (g b)) : Agree S (r >>= f) (r' >>= g) := by
  cases h with
  | ok hab => exact hNext _ _ hab
  | error fault => exact .error fault

/-- Two results with one beginning. -/
theorem bind_same {r : Except ε α} {f : α → Except ε α'} {g : α → Except ε β'}
    (hNext : ∀ a, Agree S (f a) (g a)) : Agree S (r >>= f) (r >>= g) := by
  cases r with
  | ok a => exact hNext a
  | error fault => exact .error fault

theorem map {r : Except ε α} {r' : Except ε β} {f : α → α'} {g : β → β'} (h : Agree R r r')
    (hMap : ∀ a b, R a b → S (f a) (g b)) : Agree S (f <$> r) (g <$> r') := by
  cases h with
  | ok hab => exact .ok (hMap _ _ hab)
  | error fault => exact .error fault

end Agree

end VirtualShell.Result
