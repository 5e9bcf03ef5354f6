import MeasureSheet.Format.Tables
import MeasureSheet.Proofs.Format.Rules

/-! Rule tables are read as they were written, but for their numbers. An accepted table is loaded
from its own text when the text of each of its numbers is read, with the numbers that are read.
-/

namespace MeasureSheet.RuleTable

open Json (Document Fault Value Readable ReadsBack reread)
open Json.Document

theorem ofJson_descriptions (descriptions : FieldMap String)
    : FieldMap.ofJson asString (descriptions.toJson .string).document = .ok descriptions :=
  FieldMap.ofJson_document_self_iff.mpr fun p _ => asString_document p.2

theorem ofJson_order (order : List Field)
    : asList Field.ofJson (Value.array (order.map Field.toJson)).document = .ok order :=
  asList_document_iff.mpr (List.forall₂_same.mpr fun f _ => f.ofJson_document)

/-- A table is read when its numbers are, with the numbers that are read. -/
theorem ofJson_document_iff {t u : RuleTable}
    : RuleTable.ofJson t.toJson.document = .ok u
      ↔ (∀ x ∈ t.numbers, Readable x) ∧ t.mapNumbers reread = u := by
  rw [RuleTable.ofJson, RuleTable.toJson, asRecord_document]
  simp [Draft.member, Draft.finish, once, required, bind_eq_ok_iff, map_eq_ok_iff, ofJson_order,
    ofJson_descriptions, RuleBook.ofJson_document_iff, numbers, mapNumbers, and_assoc]

/-- What is read from the text of an accepted table is accepted, as its numbers do not count. -/
theorem load_save_eq_ok_iff {t u : RuleTable} (accepted : t.check = .ok ())
    : RuleTable.load t.save = .ok u
      ↔ (∀ x ∈ t.numbers, Readable x) ∧ t.mapNumbers reread = u := by
  rw [← ofJson_document_iff, load, save, Json.readText_pretty]
  cases read : ofJson t.toJson.document with
  | error fault => simp
  | ok other =>
      obtain ⟨-, rfl⟩ := ofJson_document_iff.mp read
      simp [check_mapNumbers, accepted]

/-- The text of an accepted table is not refused as inconsistent. -/
theorem load_save_ne_inconsistent {t : RuleTable} (accepted : t.check = .ok ())
    (cause : Inconsistency)
    : RuleTable.load t.save ≠ .error (.inconsistent cause) := by
  rw [load, save, Json.readText_pretty]
  cases read : ofJson t.toJson.document with
  | error fault => simp
  | ok other =>
      obtain ⟨-, rfl⟩ := ofJson_document_iff.mp read
      simp [check_mapNumbers, accepted]

/-- An accepted table is loaded from its own text exactly when its numbers come back. -/
theorem load_save_iff {t : RuleTable} (accepted : t.check = .ok ())
    : RuleTable.load t.save = .ok t ↔ ∀ x ∈ t.numbers, ReadsBack x := by
  rw [load_save_eq_ok_iff accepted, mapNumbers_eq_self_iff, ← forall₂_and]
  simp only [Json.readsBack_iff]

end MeasureSheet.RuleTable
