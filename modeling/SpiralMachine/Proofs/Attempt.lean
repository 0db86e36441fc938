/-!
# Attempts

An attempt gives a value or the cause for which it failed. Where one attempt comes after another,
both succeed or the first failure is what comes of them (`bind_eq_ok_iff`, `bind_eq_error_iff`).
-/

set_option autoImplicit false

namespace SpiralMachine.Except

variable {ε δ α β : Type} {attempt : Except ε α}

/-- Where one attempt after another succeeds, the first one did. -/
theorem exists_of_bind {next : α → Except ε β} {value : β} (h : attempt >>= next = .ok value) :
    ∃ found, attempt = .ok found ∧ next found = .ok value := by
  cases attempt with
  | error cause => cases h
  | ok found => exact ⟨found, rfl, h⟩

/-- Where one attempt after another fails, the first one did, or what comes after it. -/
theorem error_of_bind {next : α → Except ε β} {cause : ε} (h : attempt >>= next = .error cause) :
    attempt = .error cause ∨ ∃ found, attempt = .ok found ∧ next found = .error cause := by
  cases attempt with
  | error other =>
    cases h
    exact .inl rfl
  | ok found => exact .inr ⟨found, rfl, h⟩

theorem bind_eq_ok_iff {next : α → Except ε β} {value : β} :
    attempt >>= next = .ok value ↔ ∃ found, attempt = .ok found ∧ next found = .ok value := by
  refine ⟨exists_of_bind, ?_⟩
  rintro ⟨found, rfl, h⟩
  exact h

theorem bind_eq_error_iff {next : α → Except ε β} {cause : ε} :
    attempt >>= next = .error cause ↔
      attempt = .error cause ∨ ∃ found, attempt = .ok found ∧ next found = .error cause := by
  refine ⟨error_of_bind, ?_⟩
  rintro (rfl | ⟨found, rfl, h⟩)
  · rfl
  · exact h

theorem map_eq_error_iff {change : α → β} {cause : ε} :
    change <$> attempt = .error cause ↔ attempt = .error cause := by
  cases attempt with
  | error other =>
    constructor
    · rintro ⟨⟩
      rfl
    · rintro ⟨⟩
      rfl
  | ok found => exact iff_of_false nofun nofun

/-- One attempt after another succeeds if the first does, and the other after it. -/
theorem exists_bind_iff {next : α → Except ε β} :
    (∃ value, attempt >>= next = .ok value) ↔
      ∃ found, attempt = .ok found ∧ ∃ value, next found = .ok value := by
  simp only [bind_eq_ok_iff, ← exists_and_left]
  exact exists_comm

theorem exists_map_iff {change : α → β} :
    (∃ value, change <$> attempt = .ok value) ↔ ∃ found, attempt = .ok found := by
  cases attempt with
  | error cause => exact iff_of_false nofun nofun
  | ok found => exact iff_of_true ⟨_, rfl⟩ ⟨found, rfl⟩

theorem mapError_eq_ok_iff {change : ε → δ} {value : α} :
    attempt.mapError change = .ok value ↔ attempt = .ok value := by
  cases attempt with
  | error cause => exact iff_of_false nofun nofun
  | ok found =>
    constructor
    · rintro ⟨⟩
      rfl
    · rintro ⟨⟩
      rfl

end SpiralMachine.Except
