import MeasureSheet.Format.Settings
import MeasureSheet.Proofs.Format.Rules

/-! Settings are read as they were written. -/

namespace MeasureSheet

open Json (Document Fault Value ReadsBack)
open Json.Document

/-- A range comes back exactly when its bounds do. -/
theorem PlausibleRange.ofJson_document_iff {range : PlausibleRange}
    : PlausibleRange.ofJson range.toJson.document = .ok range
      ↔ ReadsBack range.min ∧ ReadsBack range.max := by
  obtain ⟨min, max⟩ := range
  rw [← asFloat_document_self_iff, ← asFloat_document_self_iff, PlausibleRange.ofJson,
    PlausibleRange.toJson, asRecord_document]
  simp [Draft.member, Draft.finish, once, required, bind_eq_ok_iff, map_eq_ok_iff]

/-- Weights come back exactly when both shares do. -/
theorem BlendWeights.ofJson_document_iff {w : BlendWeights}
    : BlendWeights.ofJson w.toJson.document = .ok w ↔ ReadsBack w.model ∧ ReadsBack w.rule := by
  obtain ⟨model, rule⟩ := w
  rw [← asFloat_document_self_iff, ← asFloat_document_self_iff, BlendWeights.ofJson,
    BlendWeights.toJson, asRecord_document]
  simp [Draft.member, Draft.finish, once, bind_eq_ok_iff, map_eq_ok_iff, pure_eq_ok_iff,
    -bind_pure_comp]

namespace Settings

/-- The numbers that settings hold. -/
def numbers (s : Settings) : List Float :=
  [s.weights.model, s.weights.rule] ++ s.ranges.values.flatMap fun range => [range.min, range.max]

/-- Decimal places come back, and so does their absence. -/
theorem ofJson_roundTo (places : Option UInt32)
    : asNullable asUInt32 (Value.ofOption (fun n : UInt32 => .integer n.toNat) places).document
      = .ok places :=
  asNullable_document (fun _ null => nomatch null) asUInt32_document

/-- Settings come back exactly when their numbers do. -/
theorem ofJson_document_iff {s : Settings}
    : Settings.ofJson s.toJson.document = .ok s ↔ ∀ x ∈ s.numbers, ReadsBack x := by
  have bounds
      : FieldMap.ofJson PlausibleRange.ofJson (s.ranges.toJson PlausibleRange.toJson).document
          = .ok s.ranges
        ↔ ∀ x ∈ s.ranges.values.flatMap fun range => [range.min, range.max], ReadsBack x := by
    rw [FieldMap.ofJson_document_self_iff, List.forall_mem_flatMap]
    simp only [PlausibleRange.ofJson_document_iff, FieldMap.values, List.forall_mem_map,
      List.forall_mem_cons, List.not_mem_nil, IsEmpty.forall_iff, implies_true, and_true]
  rw [numbers, List.forall_mem_append, List.forall_mem_cons, List.forall_mem_singleton,
    ← BlendWeights.ofJson_document_iff, ← bounds]
  obtain ⟨weights, roundTo, ranges⟩ := s
  rw [Settings.ofJson, Settings.toJson, asRecord_document]
  simp [Draft.member, Draft.finish, once, bind_eq_ok_iff, map_eq_ok_iff, pure_eq_ok_iff,
    ofJson_roundTo, -bind_pure_comp]

/-- Accepted settings are loaded from their own text exactly when their numbers come back. -/
theorem load_compact_iff {s : Settings} (accepted : s.check = .ok ())
    : Settings.load s.toJson.compact = .ok s ↔ ∀ x ∈ s.numbers, ReadsBack x := by
  rw [← ofJson_document_iff, load, Json.readText_compact]
  constructor
  · intro h
    cases read : ofJson s.toJson.document with
    | error fault => simp [read] at h
    | ok t =>
        simp only [read] at h
        cases check : t.check with
        | error e => simp [check] at h
        | ok _ => simpa [check] using h
  · intro read
    simp only [read, accepted]

end Settings

end MeasureSheet
