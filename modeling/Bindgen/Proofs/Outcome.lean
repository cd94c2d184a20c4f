import Mathlib.Data.List.Forall2

/-!
# Steps that can fail

How a sequence of steps in `Except` comes to a result: each of its steps does. Proofs about checks, encodings
and walks take their hypotheses apart with these and do not unfold the monad.
-/

namespace Bindgen

variable {ε α β : Type}

theorem bind_eq_ok {x : Except ε α} {f : α → Except ε β} {b : β} :
    (x >>= f) = .ok b ↔ ∃ a, x = .ok a ∧ f a = .ok b := by
  cases x with
  | error e =>
    constructor
    · intro h; exact absurd h (by simp [bind, Except.bind])
    · rintro ⟨a, h, -⟩; exact absurd h (by simp)
  | ok a =>
    constructor
    · intro h; exact ⟨a, rfl, h⟩
    · rintro ⟨a', h, h'⟩
      obtain rfl := Except.ok.inj h
      exact h'

theorem bind_ok (a : α) (f : α → Except ε β) : (Except.ok a >>= f) = f a := rfl

theorem bind_eq_error {x : Except ε α} {f : α → Except ε β} {e : ε} :
    (x >>= f) = .error e ↔ x = .error e ∨ ∃ a, x = .ok a ∧ f a = .error e := by
  cases x with
  | error e' =>
    constructor
    · intro h; exact Or.inl (congrArg _ (Except.error.inj h))
    · rintro (h | ⟨a, h, -⟩)
      · exact congrArg _ (Except.error.inj h)
      · exact absurd h (by simp)
  | ok a =>
    constructor
    · intro h; exact Or.inr ⟨a, rfl, h⟩
    · rintro (h | ⟨a', h, h'⟩)
      · exact absurd h (by simp)
      · obtain rfl := Except.ok.inj h
        exact h'

theorem pure_eq_ok {a b : α} : (pure a : Except ε α) = .ok b ↔ a = b := by
  constructor
  · intro h; exact Except.ok.inj h
  · rintro rfl; rfl

theorem map_eq_ok {x : Except ε α} {f : α → β} {b : β} :
    f <$> x = .ok b ↔ ∃ a, x = .ok a ∧ f a = b := by
  cases x with
  | error e =>
    constructor
    · intro h; exact absurd h (by simp [Functor.map, Except.map])
    · rintro ⟨a, h, -⟩; exact absurd h (by simp)
  | ok a =>
    constructor
    · intro h; exact ⟨a, rfl, Except.ok.inj h⟩
    · rintro ⟨a', h, rfl⟩
      obtain rfl := Except.ok.inj h
      rfl

theorem map_eq_error {x : Except ε α} {f : α → β} {e : ε} : f <$> x = .error e ↔ x = .error e := by
  cases x with
  | error e' => exact ⟨fun h => congrArg _ (Except.error.inj h), fun h => congrArg _ (Except.error.inj h)⟩
  | ok a => simp [Functor.map, Except.map]

theorem mapError_eq_ok {ε' : Type} {f : ε → ε'} {x : Except ε α} {a : α} : x.mapError f = .ok a ↔ x = .ok a := by
  cases x <;> simp [Except.mapError]

theorem mapM_eq_ok {f : α → Except ε β} {xs : List α} {ys : List β} :
    xs.mapM f = .ok ys ↔ List.Forall₂ (fun x y => f x = .ok y) xs ys := by
  induction xs generalizing ys with
  | nil =>
    rw [List.mapM_nil, pure_eq_ok, List.forall₂_nil_left_iff]
    exact eq_comm
  | cons x xs ih =>
    rw [List.mapM_cons, bind_eq_ok, List.forall₂_cons_left_iff]
    constructor
    · rintro ⟨y, hy, h⟩
      obtain ⟨ys', hys, h⟩ := bind_eq_ok.1 h
      exact ⟨y, ys', hy, ih.1 hys, (pure_eq_ok.1 h).symm⟩
    · rintro ⟨y, ys', hy, hys, rfl⟩
      exact ⟨y, hy, bind_eq_ok.2 ⟨ys', ih.2 hys, rfl⟩⟩

/-- What each of some things is made of, and what it comes to. -/
theorem mapM_map_eq_ok {γ : Type} {f : β → Except ε γ} {g : α → β} {h : α → γ} {xs : List α}
    (hf : ∀ x ∈ xs, f (g x) = .ok (h x)) : (xs.map g).mapM f = .ok (xs.map h) := by
  rw [mapM_eq_ok, List.forall₂_map_left_iff, List.forall₂_map_right_iff, List.forall₂_same]
  exact hf

theorem exists_of_mapM_eq_ok {f : α → Except ε β} {xs : List α} {ys : List β} (h : xs.mapM f = .ok ys) :
    ∀ x ∈ xs, ∃ y, f x = .ok y := by
  induction mapM_eq_ok.1 h with
  | nil => exact fun _ hx => absurd hx List.not_mem_nil
  | cons hxy _ ih =>
    rw [List.forall_mem_cons]
    exact ⟨⟨_, hxy⟩, ih (mapM_eq_ok.2 ‹_›)⟩

theorem exists_mapM_eq_ok {f : α → Except ε β} {xs : List α} (h : ∀ x ∈ xs, ∃ y, f x = .ok y) :
    ∃ ys, xs.mapM f = .ok ys := by
  induction xs with
  | nil => exact ⟨[], rfl⟩
  | cons x xs ih =>
    rw [List.forall_mem_cons] at h
    obtain ⟨y, hy⟩ := h.1
    obtain ⟨ys, hys⟩ := ih h.2
    exact ⟨y :: ys, by rw [List.mapM_cons, hy, bind_ok, hys]; rfl⟩

theorem mapM_congr {f g : α → Except ε β} {xs : List α} (h : ∀ x ∈ xs, f x = g x) :
    xs.mapM f = xs.mapM g := by
  induction xs with
  | nil => rfl
  | cons x xs ih =>
    rw [List.forall_mem_cons] at h
    rw [List.mapM_cons, List.mapM_cons, h.1, ih h.2]

theorem forM_eq_ok {f : α → Except ε Unit} {xs : List α} :
    xs.forM f = .ok () ↔ ∀ x ∈ xs, f x = .ok () := by
  induction xs with
  | nil => exact ⟨fun _ _ hx => absurd hx List.not_mem_nil, fun _ => rfl⟩
  | cons x xs ih =>
    rw [List.forall_mem_cons, ← ih]
    show (f x >>= fun _ => xs.forM f) = _ ↔ _
    rw [bind_eq_ok]
    constructor
    · rintro ⟨u, h, h'⟩; exact ⟨h, h'⟩
    · rintro ⟨h, h'⟩; exact ⟨(), h, h'⟩

/-- What every step preserves holds after all of them. -/
theorem foldlM_preserves {P : β → Prop} {f : β → α → Except ε β} (hf : ∀ x a y, f x a = .ok y → P x → P y)
    {xs : List α} {x y : β} (h : xs.foldlM f x = .ok y) (hx : P x) : P y := by
  induction xs generalizing x with
  | nil => exact pure_eq_ok.1 h ▸ hx
  | cons a xs ih =>
    rw [List.foldlM_cons] at h
    obtain ⟨z, hz, h⟩ := bind_eq_ok.1 h
    exact ih h (hf x a z hz hx)

/-! ## What comes of steps -/

section Yields

variable {P : ε → Prop} {Q : α → Prop} {R : β → Prop}

/-- A result has `Q`, and a fault has `P`. -/
def Yields (P : ε → Prop) (Q : α → Prop) : Except ε α → Prop
  | .ok a => Q a
  | .error e => P e

theorem Yields.bind {x : Except ε α} {f : α → Except ε β} (h : Yields P Q x) (hf : ∀ a, Q a → Yields P R (f a)) :
    Yields P R (x >>= f) := by
  cases x with
  | ok a => exact hf a h
  | error e => exact h

theorem Yields.mono {Q' : α → Prop} {x : Except ε α} (h : Yields P Q x) (hQ : ∀ a, Q a → Q' a) :
    Yields P Q' x := by
  cases x with
  | ok a => exact hQ a h
  | error e => exact h

theorem Yields.of_ok {x : Except ε α} {a : α} (h : Yields P Q x) (hx : x = .ok a) : Q a := by
  rw [hx] at h
  exact h

theorem Yields.of_error {x : Except ε α} {e : ε} (h : Yields P Q x) (hx : x = .error e) : P e := by
  rw [hx] at h
  exact h

theorem Yields.mapM {f : α → Except ε β} {xs : List α} (h : ∀ x ∈ xs, Yields P R (f x)) :
    Yields P (∀ y ∈ ·, R y) (xs.mapM f) := by
  induction xs with
  | nil => exact fun _ hy => absurd hy List.not_mem_nil
  | cons x xs ih =>
    rw [List.forall_mem_cons] at h
    rw [List.mapM_cons]
    exact h.1.bind fun y hy => (ih h.2).bind fun ys hys => List.forall_mem_cons.2 ⟨hy, hys⟩

end Yields

/-! ## Steps with a state -/

section State

variable {σ : Type}

/-- One step after another, where the state is kept after a fault. -/
theorem state_bind_apply (x : ExceptT ε (StateM σ) α) (f : α → ExceptT ε (StateM σ) β) (s : σ) :
    (x >>= f) s = match x s with
      | (.ok a, s') => f a s'
      | (.error e, s') => (.error e, s') := by
  simp only [bind, ExceptT.bind, ExceptT.mk, StateT.bind, ExceptT.bindCont]
  cases x s with
  | mk r s' => cases r <;> rfl

theorem state_map_apply (f : α → β) (x : ExceptT ε (StateM σ) α) (s : σ) :
    (f <$> x) s = (f <$> (x s).1, (x s).2) := by
  rw [← bind_pure_comp, state_bind_apply]
  cases x s with
  | mk r s' => cases r <;> rfl

theorem state_bind_eq_ok {x : ExceptT ε (StateM σ) α} {f : α → ExceptT ε (StateM σ) β} {s : σ} {b : β}
    (h : ((x >>= f) s).1 = .ok b) : ∃ a s', x s = (.ok a, s') ∧ (f a s').1 = .ok b := by
  rw [state_bind_apply] at h
  cases hx : x s with
  | mk r s' =>
    rw [hx] at h
    cases r with
    | ok a => exact ⟨a, s', rfl, h⟩
    | error e => exact absurd h (by simp)

/-- What every step of a run preserves. -/
theorem state_foldlM {P : β → Prop} {step : β → α → ExceptT ε (StateM σ) β}
    (hstep : ∀ x a s y, P x → (step x a s).1 = .ok y → P y) :
    ∀ (l : List α) (x : β) (s : σ) (y : β), P x → (l.foldlM step x s).1 = .ok y → P y
  | [], x, s, y, hx, h => Except.ok.inj h ▸ hx
  | a :: l, x, s, y, hx, h => by
    rw [List.foldlM_cons] at h
    obtain ⟨z, s', hz, h⟩ := state_bind_eq_ok h
    exact state_foldlM hstep l z s' y (hstep x a s z hx (congrArg Prod.fst hz)) h

end State

end Bindgen
