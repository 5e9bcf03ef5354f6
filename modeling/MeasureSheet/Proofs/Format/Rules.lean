import MeasureSheet.Format.Rules
import MeasureSheet.Proofs.Field.Canonical
import MeasureSheet.Proofs.FieldMap.Entries
import MeasureSheet.Proofs.Json.Decoding
import MeasureSheet.Proofs.RuleTable.Numbers

/-! Rules are read as they were written, but for their numbers. A rule is read when the text of each
of its numbers is, and is then the rule with the numbers that were read.
-/

namespace MeasureSheet

open Json (Document Fault Value Readable ReadsBack reread)
open Json.Document

-- -----------------------------------------------------------------------------------------------
-- Names and maps

theorem Field.ofJson_document (f : Field) : Field.ofJson f.toJson.document = .ok f := by
  rw [Field.ofJson, Field.toJson, asString_document]
  exact congrArg Except.ok f.named_text

theorem RuleId.ofJson_document (id : RuleId) : RuleId.ofJson id.toJson.document = .ok id := by
  rw [RuleId.ofJson, RuleId.toJson, asUInt32_document]
  rfl

namespace FieldMap

variable {α : Type} {read : Document → Except Fault α} {f : α → Value}

/-- The entries of a map are read with their keys as texts. -/
theorem mapM_entries_iff {entries : List (Field × α)} {pairs : List (String × α)}
    : (entries.map fun p => (p.1.text, f p.2)).mapM (fun q => (read q.2.document).map (q.1, ·))
        = .ok pairs
      ↔ List.Forall₂ (fun p q => read (f p.2).document = .ok q.2 ∧ p.1.text = q.1)
          entries pairs := by
  rw [mapM_eq_ok_iff_forall₂, List.forall₂_map_left_iff]
  simp only [map_eq_ok_iff, Prod.ext_iff]
  constructor <;> refine List.Forall₂.imp fun p q h => ?_
  · obtain ⟨a, found, same, rfl⟩ := h
    exact ⟨found, same⟩
  · exact ⟨q.2, h.1, h.2, rfl⟩

/-- A map is read entry by entry, with its keys as they were. -/
theorem ofJson_document_iff {m n : FieldMap α}
    : FieldMap.ofJson read (m.toJson f).document = .ok n
      ↔ List.Forall₂ (fun p q => read (f p.2).document = .ok q.2 ∧ q.1 = p.1)
          m.entries n.entries := by
  rw [FieldMap.ofJson, FieldMap.toJson, asMembers_document, map_eq_ok_iff]
  simp only [mapM_entries_iff]
  constructor
  · intro h
    obtain ⟨pairs, found, rfl⟩ := h
    have named
        : List.Forall₂ (fun p q => read (f p.2).document = .ok q.2 ∧ q.1 = p.1) m.entries
            (pairs.map fun q => (Field.named q.1, q.2)) := by
      rw [List.forall₂_map_right_iff]
      refine found.imp fun p q h => ⟨h.1, ?_⟩
      rw [← h.2, Field.named_text]
    -- The keys come back as they were, so the pairs ascend and are the entries of their map.
    have keys : (pairs.map fun q => (Field.named q.1, q.2)).map Prod.fst = m.keys := by
      rw [keys, eq_comm, ← List.forall₂_eq_eq_eq, List.forall₂_map_left_iff,
        List.forall₂_map_right_iff]
      exact named.imp fun p q h => h.2.symm
    have ascending
        : (pairs.map fun q => (Field.named q.1, q.2)).Pairwise fun p q => p.1 < q.1 := by
      rw [← List.pairwise_map (f := Prod.fst) (R := (· < ·)), keys]
      exact m.pairwise_keys
    rwa [entries_ofList ascending]
  · intro recovered
    refine ⟨n.entries.map fun q => (q.1.text, q.2), ?_, ?_⟩
    · rw [List.forall₂_map_right_iff]
      exact recovered.imp fun p q h => ⟨h.1, congrArg Field.text h.2.symm⟩
    · simp [List.map_map, Function.comp_def, Field.named_text, ofList_entries]

/-- A map is read as a map of its values when each value is read as its image. -/
theorem ofJson_document_map_iff {P : α → Prop} {g : α → α} {m n : FieldMap α}
    (each : ∀ a b, read (f a).document = .ok b ↔ P a ∧ g a = b)
    : FieldMap.ofJson read (m.toJson f).document = .ok n
      ↔ (∀ p ∈ m.entries, P p.2) ∧ (m.map fun _ => g) = n := by
  have entry (p q : Field × α)
      : read (f p.2).document = .ok q.2 ∧ q.1 = p.1 ↔ P p.2 ∧ (p.1, g p.2) = q := by
    rw [each, Prod.ext_iff, and_assoc, and_comm (a := g p.2 = q.2), eq_comm (a := q.1)]
  have entries : (m.map fun _ => g).entries = n.entries ↔ (m.map fun _ => g) = n := by
    cases n
    simp [map]
  rw [ofJson_document_iff, ← entries]
  simp only [entry]
  exact forall₂_and_eq_iff

/-- A map comes back exactly when the value of every entry does. -/
theorem ofJson_document_self_iff {m : FieldMap α}
    : FieldMap.ofJson read (m.toJson f).document = .ok m
      ↔ ∀ p ∈ m.entries, read (f p.2).document = .ok p.2 := by
  simp only [ofJson_document_iff, List.forall₂_same, and_true]

end FieldMap

-- -----------------------------------------------------------------------------------------------
-- Relations

theorem Operator.ofJsonInside_document (op : Operator)
    : Operator.ofJsonInside op.toJson.document = .ok op := by
  cases op <;> rfl

namespace Relation

/-- A relation is read from the members beside its kind, which are all read for later. -/
theorem ofJson_tagged_iff (name : String) (kind : RelationKind) (members : List (String × Value))
    (level : Nat) (s : Relation) (known : RelationKind.ofName? name = some kind)
    (others : ∀ p ∈ members, p.1 ≠ "kind")
    : Relation.ofJson level (Value.object (("kind", .string name) :: members)).document = .ok s
      ↔ (∀ p ∈ members, retain (level + 1) p.2.document = .ok ())
        ∧ ofContents (.members (members.map fun p => (p.1, p.2.document))) kind = .ok s := by
  rw [ofJson, bind_eq_ok_iff]
  simp only [asTagged_document_iff known others, and_assoc, exists_and_left, exists_eq_left]

/-- What is read of one base and one number, when the number is. -/
theorem ofBaseAndNumber_iff (make : Field → Float → Relation) (number : String) (base : Field)
    (x : Float) (s : Relation) (different : number ≠ "base")
    : ofBaseAndNumber make number
          (.members [("base", base.toJson.document), (number, (Value.float x).document)])
        = .ok s
      ↔ Readable x ∧ make base (reread x) = s := by
  have select
      : (Contents.members
            [("base", base.toJson.document), (number, (Value.float x).document)]).select
          ["base", number]
        = .ok [base.toJson.document, (Value.float x).document] := by
    simp [Contents.select, Contents.member, different, different.symm, bind, Except.bind, pure,
      Except.pure]
  simp only [ofBaseAndNumber, select, bind_eq_ok_iff, Except.ok.injEq, exists_eq_left',
    Field.ofJson_document, pure_eq_ok_iff, Json.asFloat_document_iff, and_assoc, exists_and_left]

/-- A relation of a kind with one base and one number is read when its number is. -/
theorem ofJson_baseAndNumber_iff (make : Field → Float → Relation) (name number : String)
    (kind : RelationKind) (level : Nat) (base : Field) (x : Float) (s : Relation)
    (known : RelationKind.ofName? name = some kind)
    (reader : ∀ contents, ofContents contents kind = ofBaseAndNumber make number contents)
    (different : number ≠ "base") (beside : number ≠ "kind")
    : Relation.ofJson level
          (Value.object
            [("kind", .string name), ("base", base.toJson), (number, .float x)]).document
        = .ok s
      ↔ Readable x ∧ make base (reread x) = s := by
  rw [ofJson_tagged_iff name kind _ level s known (by simp [beside]), reader]
  simp only [List.map_cons, List.map_nil, ofBaseAndNumber_iff make number base x s different]
  rw [and_iff_right_iff_imp]
  intro h p member
  rcases List.mem_pair.mp member with rfl | rfl
  · exact retain_string (level + 1) _
  · exact retain_of_asFloat (Json.asFloat_document_iff.mpr ⟨h.1, rfl⟩) (level + 1)

/-- A relation is read when its numbers are, with the numbers that are read. -/
theorem ofJson_document_iff {r s : Relation} (level : Nat)
    : Relation.ofJson level r.toJson.document = .ok s
      ↔ (∀ x ∈ r.numbers, Readable x) ∧ r.mapNumbers reread = s := by
  cases r with
  | proportion base x =>
      rw [numbers, List.forall_mem_singleton]
      exact ofJson_baseAndNumber_iff proportion "proportion" "multiplier" .proportion level base x s
        rfl (fun _ => rfl) (by decide) (by decide)
  | ratio base x =>
      rw [numbers, List.forall_mem_singleton]
      exact ofJson_baseAndNumber_iff ratio "ratio" "multiplier" .ratio level base x s
        rfl (fun _ => rfl) (by decide) (by decide)
  | offset base x =>
      rw [numbers, List.forall_mem_singleton]
      exact ofJson_baseAndNumber_iff offset "offset" "offset" .offset level base x s
        rfl (fun _ => rfl) (by decide) (by decide)
  | combine lhs op rhs =>
      have tagged := ofJson_tagged_iff "combine" .combine
        [("lhs", lhs.toJson), ("op", op.toJson), ("rhs", rhs.toJson)] level s rfl (by simp)
      have retained
          : ∀ p ∈ [("lhs", lhs.toJson), ("op", op.toJson), ("rhs", rhs.toJson)],
              retain (level + 1) p.2.document = .ok () := by
        simp only [List.forall_mem_cons]
        exact ⟨retain_string _ _, retain_string _ _, retain_string _ _, by simp⟩
      have select
          : (Contents.members [("lhs", lhs.toJson.document), ("op", op.toJson.document),
              ("rhs", rhs.toJson.document)]).select ["lhs", "op", "rhs"]
            = .ok [lhs.toJson.document, op.toJson.document, rhs.toJson.document] := by
        simp [Contents.select, Contents.member, bind, Except.bind, pure, Except.pure]
      refine (tagged.trans (and_iff_right retained)).trans ?_
      simp only [ofContents, List.map_cons, List.map_nil, select, bind_eq_ok_iff, Except.ok.injEq,
        exists_eq_left', Field.ofJson_document, Operator.ofJsonInside_document, pure_eq_ok_iff,
        numbers, List.not_mem_nil, IsEmpty.forall_iff, implies_true, true_and, mapNumbers]

end Relation

-- -----------------------------------------------------------------------------------------------
-- Rules

/-- A rule is read when its numbers are, with the numbers that are read. -/
theorem Rule.ofJson_document_iff {r s : Rule} (level : Nat)
    : Rule.ofJson level r.toJson.document = .ok s
      ↔ (∀ x ∈ r.numbers, Readable x) ∧ r.mapNumbers reread = s := by
  rw [numbers, List.forall_mem_append, List.forall_mem_singleton, Rule.ofJson, Rule.toJson,
    asRecord_document]
  simp [Draft.member, Draft.finish, once, required, bind_eq_ok_iff, map_eq_ok_iff,
    RuleId.ofJson_document, Field.ofJson_document, asInt32_document, asString_document,
    Relation.ofJson_document_iff, Json.asFloat_document_iff, mapNumbers, and_assoc]

/-- A rule book is read when its numbers are, with the numbers that are read. -/
theorem RuleBook.ofJson_document_iff {book other : RuleBook} (level : Nat)
    : RuleBook.ofJson level book.toJson.document = .ok other
      ↔ (∀ x ∈ book.numbers, Readable x) ∧ book.mapNumbers reread = other := by
  have each (rules others : List Rule)
      : asList (Rule.ofJson (level + 2)) (Value.array (rules.map Rule.toJson)).document = .ok others
        ↔ (∀ r ∈ rules, ∀ x ∈ r.numbers, Readable x)
          ∧ rules.map (Rule.mapNumbers reread) = others := by
    simp only [asList_document_iff, Rule.ofJson_document_iff]
    exact forall₂_and_eq_iff
  rw [RuleBook.ofJson, RuleBook.toJson, map_eq_ok_iff, forall_numbers_iff]
  simp only [FieldMap.ofJson_document_map_iff each, and_assoc, exists_and_left, exists_eq_left']
  rfl

end MeasureSheet
