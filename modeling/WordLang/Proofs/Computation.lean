/-! Computations that may fail, with and without a state: what one of them followed by another comes
to. -/
namespace WordLang

section Stateful

variable {ε σ α β : Type} {m : EStateM ε σ α} {s s' : σ} {a : α} {d : ε}

theorem bind_of_ok (h : m s = .ok a s') (f : α → EStateM ε σ β) : (m >>= f) s = f a s' := by
  show EStateM.bind m f s = _
  rw [EStateM.bind, h]

theorem bind_of_error (h : m s = .error d s') (f : α → EStateM ε σ β) :
    (m >>= f) s = .error d s' := by
  show EStateM.bind m f s = _
  rw [EStateM.bind, h]

theorem exists_of_bind_ok {f : α → EStateM ε σ β} {b : β} (h : (m >>= f) s = .ok b s') :
    ∃ a s₁, m s = .ok a s₁ ∧ f a s₁ = .ok b s' := by
  cases hm : m s with
  | ok a s₁ => exact ⟨a, s₁, rfl, by rwa [bind_of_ok hm] at h⟩
  | error d s₁ =>
    rw [bind_of_error hm] at h
    cases h

theorem exists_of_bind_error {f : α → EStateM ε σ β} (h : (m >>= f) s = .error d s') :
    m s = .error d s' ∨ ∃ a s₁, m s = .ok a s₁ ∧ f a s₁ = .error d s' := by
  cases hm : m s with
  | ok a s₁ => exact .inr ⟨a, s₁, rfl, by rwa [bind_of_ok hm] at h⟩
  | error d₁ s₁ =>
    rw [bind_of_error hm] at h
    cases h
    exact .inl rfl

/-- Two sequences come to the same if their first parts do, and what follows does then. -/
theorem bind_congr_at {m₁ m₂ : EStateM ε σ α} {f₁ f₂ : α → EStateM ε σ β} {t : σ}
    (hm : m₁ s = m₂ t) (hf : ∀ a s', m₂ t = .ok a s' → f₁ a s' = f₂ a s') :
    (m₁ >>= f₁) s = (m₂ >>= f₂) t := by
  cases h : m₂ t with
  | ok a s' => rw [bind_of_ok h, bind_of_ok (hm.trans h), hf a s' h]
  | error d s' => rw [bind_of_error h, bind_of_error (hm.trans h)]

end Stateful

/-- A sequence succeeds when both of its parts do. -/
theorem bind_eq_ok {ε α β : Type} {x : Except ε α} {f : α → Except ε β} {b : β} :
    x >>= f = .ok b ↔ ∃ a, x = .ok a ∧ f a = .ok b := by
  cases x with
  | error d => simp [bind, Except.bind]
  | ok a => simp [bind, Except.bind]

/-- A sequence fails when one of its parts does. -/
theorem bind_eq_error {ε α β : Type} {x : Except ε α} {f : α → Except ε β} {d : ε} :
    x >>= f = .error d ↔ x = .error d ∨ ∃ a, x = .ok a ∧ f a = .error d := by
  cases x with
  | error d => simp [bind, Except.bind]
  | ok a => simp [bind, Except.bind]

theorem eq_ok_of_mapError {ε ε' α : Type} {x : Except ε α} {f : ε → ε'} {a : α}
    (h : x.mapError f = .ok a) : x = .ok a := by
  cases x with
  | error d => cases h
  | ok b => cases h; rfl

theorem exists_of_mapError {ε ε' α : Type} {x : Except ε α} {f : ε → ε'} {d : ε'}
    (h : x.mapError f = .error d) : ∃ d', x = .error d' := by
  cases x with
  | error d' => exact ⟨d', rfl⟩
  | ok a => cases h

theorem eq_error_of_map {ε α β : Type} {x : Except ε α} {f : α → β} {d : ε}
    (h : x.map f = .error d) : x = .error d := by
  cases x with
  | error d' => cases h; rfl
  | ok a => cases h

/-- What went wrong, if something did. -/
def errorOf {ε α : Type} : Except ε α → Option ε
  | .ok _ => none
  | .error d => some d

theorem eq_error_of_errorOf {ε α : Type} {x : Except ε α} {d : ε} (h : errorOf x = some d) :
    x = .error d := by
  cases x with
  | ok a => cases h
  | error d' => cases h; rfl

/-- A result that passes a test is a result. -/
theorem exists_of_any_toOption {ε α : Type} {x : Except ε α} {p : α → Bool}
    (h : x.toOption.any p = true) : ∃ a, x = .ok a ∧ p a = true := by
  cases x with
  | error d => cases h
  | ok a => exact ⟨a, rfl, h⟩

end WordLang
