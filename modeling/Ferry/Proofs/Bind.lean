/-!
A computation of two steps taken apart: what it comes to says what each of its steps came to.
-/
namespace Ferry

variable {ε α β : Type} {x : Except ε α} {f : α → Except ε β}

theorem exists_of_bind_eq_ok {b : β} (ok : x >>= f = .ok b) : ∃ a, x = .ok a ∧ f a = .ok b := by
  cases x with
  | error e => cases ok
  | ok a => exact ⟨a, rfl, ok⟩

theorem of_bind_eq_error {e : ε} (error : x >>= f = .error e) :
    x = .error e ∨ ∃ a, x = .ok a ∧ f a = .error e := by
  cases x with
  | error e' =>
    cases error
    exact .inl rfl
  | ok a => exact .inr ⟨a, rfl, error⟩

theorem exists_of_map_eq_ok {g : α → β} {b : β} (ok : x.map g = .ok b) :
    ∃ a, x = .ok a ∧ g a = b := by
  cases x with
  | error e => cases ok
  | ok a => exact ⟨a, rfl, Except.ok.inj ok⟩

end Ferry
