import PinBench.Fault

/-!
# Results that may be faults

* `ok_of_bind`, `error_of_bind`: **a chain that comes to its end took every step**, and one that
  does not stopped at one of them.
* `forall_error_bind`: what is true of the faults of every step is true of the faults of the chain.
* `OffBus`: a result that is no fault of the bus.
-/

namespace PinBench

theorem ok_bind {ε α γ : Type} (a : α) (f : α → Except ε γ) : (Except.ok a >>= f) = f a := rfl

theorem ok_of_bind {ε α γ : Type} {x : Except ε α} {f : α → Except ε γ} {c : γ}
    (h : (x >>= f) = .ok c) : ∃ a, x = .ok a ∧ f a = .ok c := by
  cases x with
  | error e => cases h
  | ok a => exact ⟨a, rfl, h⟩

theorem error_of_bind {ε α γ : Type} {x : Except ε α} {f : α → Except ε γ} {e : ε}
    (h : (x >>= f) = .error e) : x = .error e ∨ ∃ a, x = .ok a ∧ f a = .error e := by
  cases x with
  | error e' =>
    cases h
    exact .inl rfl
  | ok a => exact .inr ⟨a, rfl, h⟩

/-- What is true of the faults of every step is true of the faults of the chain. -/
theorem forall_error_bind {ε α γ : Type} {P : ε → Prop} {x : Except ε α} {f : α → Except ε γ}
    (hx : ∀ e, x = .error e → P e) (hf : ∀ a e, f a = .error e → P e) :
    ∀ e, (x >>= f) = .error e → P e := by
  intro e h
  rcases error_of_bind h with h | ⟨a, -, h⟩
  · exact hx e h
  · exact hf a e h

theorem error_of_map {ε α γ : Type} {x : Except ε α} {f : α → γ} {e : ε}
    (h : x.map f = .error e) : x = .error e := by
  cases x with
  | error e' =>
    cases h
    rfl
  | ok a => cases h

/-! ## Faults that are not of the bus -/

theorem Fault.exists_of_isBus {f : Fault} (h : f.isBus = true) : ∃ e, f = .bus e := by
  cases f with
  | bus e => exact ⟨e, rfl⟩
  | _ => cases h

/-- A result that is no fault of the bus. -/
def OffBus {α : Type} (x : Except Fault α) : Prop := ∀ f, x = .error f → f.isBus = false

end PinBench
