import MeasureSheet.Proofs.FieldMap.Entries
import MeasureSheet.Record

/-! Look-up in records. A record is determined by its measurements, and storing one changes no
other.
-/

namespace MeasureSheet.Record

theorem ext_measurement? {r s : Record} (same : ∀ f, r.measurement? f = s.measurement? f)
    : r = s := by
  have entries : r.entries = s.entries := FieldMap.ext_find? same
  cases r
  cases s
  simpa using entries

theorem isKnown_iff {r : Record} {f : Field} : r.isKnown f ↔ r.measurement? f ≠ none := by
  simp [isKnown, FieldMap.contains, measurement?, Option.isSome_iff_ne_none]

theorem isKnown_eq_false_iff {r : Record} {f : Field}
    : r.isKnown f = false ↔ r.measurement? f = none := by
  simp [isKnown, FieldMap.contains, measurement?]

theorem isKnown_congr {r s : Record} {f : Field} (same : r.measurement? f = s.measurement? f)
    : r.isKnown f = s.isKnown f := by
  rw [Bool.eq_iff_iff, isKnown_iff, isKnown_iff, same]

theorem isKnown_eq_isSome_value? (r : Record) (f : Field)
    : r.isKnown f = (r.value? f).isSome := by
  rw [value?, Option.isSome_map]
  rfl

theorem value?_congr {r s : Record} {f : Field} (same : r.measurement? f = s.measurement? f)
    : r.value? f = s.value? f := by
  rw [value?, value?, same]

theorem isSupplied_iff {r : Record} {f : Field}
    : r.isSupplied f ↔ ∃ m, r.measurement? f = some m ∧ m.provenance = .supplied := by
  simp [isSupplied, Option.any_eq_true]

/-- A field that was not supplied takes what is stored for it; nothing else changes. -/
theorem measurement?_store (r : Record) (f : Field) (m : Measurement) (g : Field)
    : (r.store f m).measurement? g
      = if g = f ∧ r.isSupplied f = false then some m else r.measurement? g := by
  by_cases supplied : r.isSupplied f
  · simp [store, accepts, supplied]
  · have free : r.isSupplied f = false := by simpa using supplied
    have accepts : r.accepts f := by simp [accepts, free]
    simp only [store, accepts, if_true, free, and_true]
    exact FieldMap.find?_insert r.entries f g m

/-- An unknown field takes what is stored for it, as only supplied fields refuse. -/
theorem measurement?_store_of_unknown {r : Record} {f : Field} (unknown : r.isKnown f = false)
    (m : Measurement) (g : Field)
    : (r.store f m).measurement? g = if g = f then some m else r.measurement? g := by
  have free : r.isSupplied f = false := by simp [isSupplied, isKnown_eq_false_iff.mp unknown]
  simp only [measurement?_store, free, and_true]

/-- What is stored for an unknown field makes it known. -/
theorem isKnown_store_of_unknown {r : Record} {f : Field} (unknown : r.isKnown f = false)
    (m : Measurement)
    : (r.store f m).isKnown f := by
  rw [isKnown_iff, measurement?_store_of_unknown unknown, if_pos rfl]
  exact Option.some_ne_none m

end MeasureSheet.Record
