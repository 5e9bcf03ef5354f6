import MeasureSheet.Format.Records
import MeasureSheet.Proofs.Format.Rules

/-! Records are read as they were written, whatever the provenances of their values. -/

namespace MeasureSheet

open Json (Document Fault Value ReadsBack)
open Json.Document

namespace Provenance

/-- A provenance is read from the members beside its source, which are all read for later. -/
theorem ofJson_tagged_iff (name : String) (kind : ProvenanceKind) (members : List (String × Value))
    (level : Nat) (p : Provenance) (known : ProvenanceKind.ofName? name = some kind)
    (others : ∀ q ∈ members, q.1 ≠ "source")
    : Provenance.ofJson level (Value.object (("source", .string name) :: members)).document = .ok p
      ↔ (∀ q ∈ members, retain (level + 1) q.2.document = .ok ())
        ∧ ofContents (.members (members.map fun q => (q.1, q.2.document))) kind = .ok p := by
  rw [ofJson, bind_eq_ok_iff]
  simp only [asTagged_document_iff known others, and_assoc, exists_and_left, exists_eq_left]

theorem ofRule_document (make : RuleId → Provenance) (id : RuleId)
    : ofRule make (.members [("rule", id.toJson.document)]) = .ok (make id) := by
  have select
      : (Contents.members [("rule", id.toJson.document)]).select ["rule"]
        = .ok [id.toJson.document] := by
    simp [Contents.select, Contents.member, bind, Except.bind, pure, Except.pure]
  simp only [ofRule, select, bind_eq_ok_iff, Except.ok.injEq, exists_eq_left',
    RuleId.ofJson_document, pure_eq_ok_iff]

theorem retain_ruleId (level : Nat) (id : RuleId) : retain level id.toJson.document = .ok () := by
  have small : id.number.toNat < 2 ^ 32 := id.number.toNat_lt
  exact retain_integer level (by omega)

/-- Every provenance comes back. -/
theorem ofJson_document (level : Nat) (p : Provenance)
    : Provenance.ofJson level p.toJson.document = .ok p := by
  cases p with
  | supplied =>
      exact (ofJson_tagged_iff "supplied" .supplied [] level _ rfl (by simp)).mpr ⟨by simp, rfl⟩
  | rule id =>
      exact (ofJson_tagged_iff "rule" .rule [("rule", id.toJson)] level _ rfl (by simp)).mpr
        ⟨by simp [retain_ruleId], ofRule_document rule id⟩
  | predicted =>
      exact (ofJson_tagged_iff "predicted" .predicted [] level _ rfl (by simp)).mpr ⟨by simp, rfl⟩
  | blended id =>
      exact (ofJson_tagged_iff "blended" .blended [("rule", id.toJson)] level _ rfl (by simp)).mpr
        ⟨by simp [retain_ruleId], ofRule_document blended id⟩

end Provenance

/-- A measurement comes back exactly when its value does. -/
theorem Measurement.ofJson_document_iff {e : Measurement} (level : Nat)
    : Measurement.ofJson level e.toJson.document = .ok e ↔ ReadsBack e.value := by
  obtain ⟨value, provenance⟩ := e
  rw [← asFloat_document_self_iff, Measurement.ofJson, Measurement.toJson, asRecord_document]
  simp [Draft.member, Draft.finish, once, required, bind_eq_ok_iff, map_eq_ok_iff,
    Provenance.ofJson_document]

namespace Record

/-- The numbers that a record holds. -/
def numbers (r : Record) : List Float :=
  r.entries.values.map (·.value)

/-- A record comes back exactly when its numbers do. -/
theorem ofJson_document_iff {r : Record}
    : Record.ofJson r.toJson.document = .ok r ↔ ∀ x ∈ r.numbers, ReadsBack x := by
  have whole
      : Record.ofJson r.toJson.document = .ok r
        ↔ FieldMap.ofJson (Measurement.ofJson 1) r.toJson.document = .ok r.entries := by
    rw [Record.ofJson, map_eq_ok_iff]
    cases r
    simp
  rw [whole, Record.toJson, FieldMap.ofJson_document_self_iff]
  simp only [Measurement.ofJson_document_iff, numbers, FieldMap.values, List.map_map,
    List.forall_mem_map, Function.comp_apply]

end Record

end MeasureSheet
