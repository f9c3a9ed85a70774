import Mathlib.Data.List.Forall2

namespace GeoQuery.Outcome

variable {ε α β : Type}

theorem bind_eq_ok_iff {x : Except ε α} {f : α → Except ε β} {b : β} :
    (x >>= f) = .ok b ↔ ∃ a, x = .ok a ∧ f a = .ok b := by
  cases x with
  | error e => simp [bind, Except.bind]
  | ok a => simp [bind, Except.bind]

theorem map_eq_ok_iff {x : Except ε α} {f : α → β} {b : β} :
    x.map f = .ok b ↔ ∃ a, x = .ok a ∧ f a = b := by
  cases x with
  | error e => simp [Except.map]
  | ok a => simp [Except.map]

theorem exists_eq_ok_of_isOk {x : Except ε α} (h : x.isOk = true) : ∃ a, x = .ok a := by
  cases x with
  | error e => cases h
  | ok a => exact ⟨a, rfl⟩

theorem mapError_eq_ok_iff {δ : Type} {x : Except ε α} {f : ε → δ} {a : α} :
    x.mapError f = .ok a ↔ x = .ok a := by
  cases x with
  | error e =>
      constructor
      · intro h
        cases h
      · intro h
        cases h
  | ok a =>
      constructor
      · intro h
        cases h
        rfl
      · intro h
        cases h
        rfl

theorem bind_eq_error_iff {x : Except ε α} {f : α → Except ε β} {e : ε} :
    (x >>= f) = .error e ↔ x = .error e ∨ ∃ a, x = .ok a ∧ f a = .error e := by
  cases x with
  | error e => simp [bind, Except.bind]
  | ok a => simp [bind, Except.bind]

theorem mapM_eq_ok_iff {f : α → Except ε β} {items : List α} {values : List β} :
    items.mapM f = .ok values ↔ List.Forall₂ (fun a b => f a = .ok b) items values := by
  induction items generalizing values with
  | nil => simp [pure, Except.pure, eq_comm]
  | cons a items ih =>
      rw [List.mapM_cons, bind_eq_ok_iff]
      constructor
      · intro h
        obtain ⟨b, head, rest⟩ := h
        obtain ⟨values, tail, heq⟩ := bind_eq_ok_iff.1 rest
        cases heq
        exact .cons head (ih.1 tail)
      · intro h
        cases h with
        | cons head tail => exact ⟨_, head, bind_eq_ok_iff.2 ⟨_, ih.2 tail, rfl⟩⟩

/-- Two outcomes that succeed alike; they may fail for different reasons. -/
def Agree (x y : Except ε α) : Prop := ∀ a, x = .ok a ↔ y = .ok a

namespace Agree

variable {x y : Except ε α}

theorem refl (x : Except ε α) : Agree x x := fun _ => Iff.rfl

theorem of_errors {e e' : ε} : Agree (.error e : Except ε α) (.error e') := fun _ => by simp

theorem map (h : Agree x y) (f : α → β) : Agree (x.map f) (y.map f) := by
  intro b
  simp only [map_eq_ok_iff, h _]

theorem bind (h : Agree x y) {f g : α → Except ε β} (rest : ∀ a, Agree (f a) (g a)) :
    Agree (x >>= f) (y >>= g) := by
  intro b
  simp only [bind_eq_ok_iff, h _, rest _ _]

theorem mapM {γ : Type} {f : γ → Except ε α} {g : β → Except ε α} {h : γ → β} {items : List γ}
    (each : ∀ c ∈ items, Agree (f c) (g (h c))) : Agree (items.mapM f) ((items.map h).mapM g) := by
  induction items with
  | nil => exact refl _
  | cons c items ih =>
      obtain ⟨head, tail⟩ := List.forall_mem_cons.1 each
      rw [List.mapM_cons, List.map_cons, List.mapM_cons]
      exact head.bind fun a => (ih tail).bind fun as => refl _

theorem foldlM {γ σ : Type} {f : σ → γ → Except ε σ} {g : σ → β → Except ε σ} {h : γ → β}
    {items : List γ} (each : ∀ c ∈ items, ∀ s, Agree (f s c) (g s (h c))) (s : σ) :
    Agree (items.foldlM f s) ((items.map h).foldlM g s) := by
  induction items generalizing s with
  | nil => exact refl _
  | cons c items ih =>
      obtain ⟨head, tail⟩ := List.forall_mem_cons.1 each
      rw [List.foldlM_cons, List.map_cons, List.foldlM_cons]
      exact (head s).bind fun s => ih tail s

end Agree

end GeoQuery.Outcome
