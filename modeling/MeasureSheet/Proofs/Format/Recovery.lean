import MeasureSheet.Proofs.Format.Records
import MeasureSheet.Proofs.Format.Settings
import MeasureSheet.Proofs.Format.Tables

/-! Reading undoes writing. Names, texts, tags, integers and missing values always come back, so
that tables, records and settings come back whenever their numbers do.
-/

namespace MeasureSheet

open Json (ReadsBack)

/-- Accepted tables, records and accepted settings whose numbers come back are read from their texts
as they were.
-/
theorem written_isRecovered
    : (∀ t : RuleTable,
        t.check = .ok ()
        → (∀ x ∈ t.numbers, ReadsBack x)
        → RuleTable.load t.save = .ok t)
      ∧ (∀ r : Record,
          (∀ x ∈ r.numbers, ReadsBack x)
          → Json.readText Record.ofJson r.toJson.compact = .ok r)
      ∧ (∀ s : Settings,
          s.check = .ok ()
          → (∀ x ∈ s.numbers, ReadsBack x)
          → Settings.load s.toJson.compact = .ok s) := by
  refine ⟨fun t accepted numbers => ?_, fun r numbers => ?_, fun s accepted numbers => ?_⟩
  · exact (RuleTable.load_save_iff accepted).mpr numbers
  · rw [Json.readText_compact]
    exact Record.ofJson_document_iff.mpr numbers
  · exact (Settings.load_compact_iff accepted).mpr numbers

/-- A table with all kinds of relations, extreme numbers and characters that have to be escaped. -/
def variedTable : RuleTable :=
  RuleTable.ofBook
    (.ofRules
      [
        {
          id := ⟨4294967295⟩,
          target := .named "hip",
          relation := .proportion (.named "waist") 1.2,
          priority := -2147483648,
          tolerance := 0.25,
          notes := "\"wide\" \\ loose\t\u0007"
        },
        {
          id := ⟨0⟩,
          target := .named "hip",
          relation := .ratio (.named "bust") 5e-324,
          priority := 7
        },
        {
          id := ⟨7⟩,
          target := .named "bust",
          relation := .combine (.named "waist") .subtract (.named "belt"),
          priority := 2147483647
        },
        {
          id := ⟨8⟩,
          target := .named "waist",
          relation := .offset (.named "belt") (-0.0),
          priority := 0,
          notes := "für alle"
        }
      ])
    [.named "belt", .named "waist", .named "bust", .named "hip"]
    (.ofList [(.named "hip", "at the widest place\n"), (.named "", "")])

/-- A record with a value of every provenance. -/
def variedRecord : Record where
  entries :=
    .ofList
      [
        (.named "waist", { value := 71.3, provenance := .supplied }),
        (.named "hip", { value := -0.0, provenance := .rule ⟨4294967295⟩ }),
        (.named "bust", { value := 1e22, provenance := .predicted }),
        (.named "belt", { value := 2.5e-7, provenance := .blended ⟨0⟩ })
      ]

/-- Settings that do not round, with a range of one point. -/
def variedSettings : Settings where
  weights := { model := 0.75, rule := 0.25 }
  roundTo := none
  ranges :=
    .ofList
      [
        (.named "hip", { min := 70.0, max := 250.0 }),
        (.named "", { min := 0.0, max := 0.0 })
      ]

theorem varied_isRecovered
    : variedTable.check = .ok ()
      ∧ RuleTable.load variedTable.save = .ok variedTable
      ∧ Json.readText Record.ofJson variedRecord.toJson.compact = .ok variedRecord
      ∧ variedSettings.check = .ok ()
      ∧ Settings.load variedSettings.toJson.compact = .ok variedSettings := by
  obtain ⟨table, record, settings⟩ := written_isRecovered
  have tableAccepted : variedTable.check = .ok () := by decide +kernel
  have settingsAccepted : variedSettings.check = .ok () := by decide +kernel
  exact ⟨tableAccepted, table variedTable tableAccepted (by decide +kernel),
    record variedRecord (by decide +kernel), settingsAccepted,
    settings variedSettings settingsAccepted (by decide +kernel)⟩

end MeasureSheet
