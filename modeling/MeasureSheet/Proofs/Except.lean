import Mathlib.Data.List.Forall2

/-! When steps that may fail succeed: one after the other, and along a list. -/

namespace MeasureSheet

variable {ε α β : Type}

theorem map_eq_ok_iff {result : Except ε α} {f : α → β} {b : β}
    : result.map f = .ok b ↔ ∃ a, result = .ok a ∧ f a = b := by
  cases result <;> simp [Except.map]

theorem bind_eq_ok_iff {result : Except ε α} {next : α → Except ε β} {b : β}
    : (result >>= next) = .ok b ↔ ∃ a, result = .ok a ∧ next a = .ok b := by
  cases result <;> simp [bind, Except.bind]

theorem pure_eq_ok_iff {a b : α} : (pure a : Except ε α) = .ok b ↔ a = b := by
  simp [pure, Except.pure]

/-- A test of each item succeeds along a list when it succeeds on every member. -/
theorem forM_eq_ok_iff {items : List α} {test : α → Except ε Unit}
    : items.forM test = .ok () ↔ ∀ item ∈ items, test item = .ok () := by
  rw [List.forM_eq_forM]
  induction items with
  | nil => simp [pure_eq_ok_iff]
  | cons item rest ih =>
      rw [List.forM_cons, bind_eq_ok_iff, ih, List.forall_mem_cons]
      simp only [Unique.exists_iff, PUnit.default_eq_unit]

/-- A list is read item by item. -/
theorem mapM_eq_ok_iff_forall₂ {read : α → Except ε β} {items : List α} {values : List β}
    : items.mapM read = .ok values ↔ List.Forall₂ (fun a b => read a = .ok b) items values := by
  induction items generalizing values with
  | nil => rw [List.mapM_nil, pure_eq_ok_iff, List.forall₂_nil_left_iff, eq_comm]
  | cons item items ih =>
      simp only [List.mapM_cons, List.forall₂_cons_left_iff, bind_eq_ok_iff, pure_eq_ok_iff, ih]
      constructor
      · rintro ⟨b, first, others, later, rfl⟩
        exact ⟨b, others, first, later, rfl⟩
      · rintro ⟨b, others, first, later, rfl⟩
        exact ⟨b, first, others, later, rfl⟩

end MeasureSheet
