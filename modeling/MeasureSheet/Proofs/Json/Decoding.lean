import MeasureSheet.Proofs.Except
import MeasureSheet.Proofs.Json.Rereading

/-! Readers on documents of values: what they make of scalars, lists, objects and tagged objects
that were written.
-/

namespace MeasureSheet.Json

open Value (document documents memberDocuments)

-- -----------------------------------------------------------------------------------------------
-- Floats

/-- The text of a float is read as some float. -/
def Readable (x : Float) : Prop :=
  (readText Document.asFloat (Value.float x).compact).isOk

instance (x : Float) : Decidable (Readable x) :=
  inferInstanceAs (Decidable (_ = true))

/-- What is read from the text of a float, or the float itself when nothing is. -/
def reread (x : Float) : Float :=
  (readText Document.asFloat (Value.float x).compact).toOption.getD x

/-- A float that is finite and is read from its own text as it was. -/
def ReadsBack (x : Float) : Prop :=
  x.isFinite ∧ readText Document.asFloat (Value.float x).compact = .ok x

instance (x : Float) : Decidable (ReadsBack x) :=
  inferInstanceAs (Decidable (_ ∧ _))

theorem asFloat_document_iff {x y : Float}
    : (Value.float x).document.asFloat = .ok y ↔ Readable x ∧ reread x = y := by
  rw [Readable, reread, readText_compact]
  cases (Value.float x).document.asFloat <;> simp [Except.isOk, Except.toBool, Except.toOption]

/-- Null is written for a float that is no number, and null is not read as one. -/
theorem Readable.finite {x : Float} (readable : Readable x) : x.isFinite := by
  by_contra infinite
  have read := asFloat_document_iff.mpr ⟨readable, rfl⟩
  rw [document, if_neg infinite] at read
  cases read

theorem readsBack_iff {x : Float} : ReadsBack x ↔ Readable x ∧ reread x = x := by
  rw [ReadsBack, readText_compact, asFloat_document_iff]
  exact and_iff_right_of_imp fun h => h.1.finite

namespace Document

variable {α σ : Type}

-- -----------------------------------------------------------------------------------------------
-- Scalars

theorem asString_document (s : String) : asString (Value.string s).document = .ok s := by
  simp [document, asString, Token.of, Except.map]

theorem asFloat_document_self_iff {x : Float}
    : asFloat (Value.float x).document = .ok x ↔ ReadsBack x := by
  rw [readsBack_iff, asFloat_document_iff]

theorem asIntegerWithin_document {low high i : Int} (inside : low ≤ i ∧ i ≤ high)
    (fits : -2 ^ 63 ≤ i ∧ i < 2 ^ 64)
    : asIntegerWithin low high (Value.integer i).document = .ok i := by
  have read : asNumber (Value.integer i).document = .ok (.integer i) :=
    Numeral.value_ofInt fits.1 fits.2
  simp only [asIntegerWithin, read, bind, Except.bind, inside, and_self, if_true]
  rfl

theorem asUInt32_document (n : UInt32)
    : asUInt32 (Value.integer n.toNat).document = .ok n := by
  have small : n.toNat < UInt32.size := n.toNat_lt_size
  have size : UInt32.size = 2 ^ 32 := rfl
  rw [asUInt32, asIntegerWithin_document (by omega) (by omega)]
  simp [Except.map]

theorem asInt32_document (i : Int32)
    : asInt32 (Value.integer i.toInt).document = .ok i := by
  have low := i.minValue_le_toInt
  have high := i.toInt_le
  have least := Int32.toInt_minValue
  have greatest := Int32.toInt_maxValue
  rw [asInt32, asIntegerWithin_document ⟨low, high⟩ (by omega)]
  simp [Except.map]

theorem asNullable_document {read : Document → Except Fault α} {f : α → Value} {a : Option α}
    (visible : ∀ a, (f a).document ≠ .null) (recovered : ∀ a, read (f a).document = .ok a)
    : asNullable read (Value.ofOption f a).document = .ok a := by
  cases a with
  | none => rfl
  | some a =>
      rw [Value.ofOption, asNullable.eq_def]
      split
      next null => exact absurd null (visible a)
      next => simp [recovered, Except.map]

-- -----------------------------------------------------------------------------------------------
-- Collections

theorem asList_document_iff {read : Document → Except Fault α} {f : α → Value} {xs ys : List α}
    : asList read (Value.array (xs.map f)).document = .ok ys
      ↔ List.Forall₂ (fun x y => read (f x).document = .ok y) xs ys := by
  have items
      : (Value.array (xs.map f)).document = .array (xs.map fun x => (f x).document) none := by
    simp [document, Value.documents_eq_map]
  have whole : asList read (.array (xs.map fun x => (f x).document) none)
      = (xs.map fun x => (f x).document).mapM read := by
    rw [asList]
    cases (xs.map fun x => (f x).document).mapM read <;> rfl
  rw [items, whole, mapM_eq_ok_iff_forall₂, List.forall₂_map_left_iff]

/-- Values that follow from items under a condition on them are those of a map. -/
theorem forall₂_and_eq_iff {β : Type} {P : β → Prop} {g : β → α} {items : List β} {values : List α}
    : List.Forall₂ (fun b a => P b ∧ g b = a) items values
      ↔ (∀ b ∈ items, P b) ∧ items.map g = values := by
  rw [List.forall₂_and_left, ← List.forall₂_eq_eq_eq, List.forall₂_map_left_iff]

/-- The members of an object are read one after the other. -/
theorem asRecord_document (names : List String)
    (member : σ → String → Document → Except Fault σ) (start : σ)
    (members : List (String × Value))
    : asRecord names member start (Value.object members).document
      = members.foldlM (fun state p => member state p.1 p.2.document) start := by
  rw [document, asRecord, Value.memberDocuments_eq_map, List.foldlM_map]
  simp only [Token.of, bind, Except.bind, String.ofList_toList]
  cases members.foldlM (fun state p => member state p.1 p.2.document) start <;> rfl

/-- The members of an object are read with their keys. -/
theorem asMembers_document (read : Document → Except Fault α) (members : List (String × Value))
    : asMembers read (Value.object members).document
      = members.mapM fun p => (read p.2.document).map (p.1, ·) := by
  have step (p : String × Value)
      : (do
          let key ← (Token.of p.1.toList).value
          return (String.ofList key, ← read p.2.document))
        = (read p.2.document).map (p.1, ·) := by
    cases read p.2.document <;> simp [Token.of, bind, Except.bind, Except.map, pure, Except.pure]
  rw [document, asMembers, Value.memberDocuments_eq_map, List.mapM_map]
  simp only [Function.comp_def, step]
  cases members.mapM fun p => (read p.2.document).map (p.1, ·) <;> rfl

-- -----------------------------------------------------------------------------------------------
-- Tagged objects

theorem retain_integer (level : Nat) {i : Int} (fits : -2 ^ 63 ≤ i ∧ i < 2 ^ 64)
    : retain level (Value.integer i).document = .ok () := by
  rw [document, retain, Numeral.value_ofInt fits.1 fits.2]
  rfl

theorem retain_string (level : Nat) (s : String)
    : retain level (Value.string s).document = .ok () :=
  rfl

/-- What is read as a number can be read for later. -/
theorem retain_of_asFloat {d : Document} {x : Float} (read : d.asFloat = .ok x) (level : Nat)
    : retain level d = .ok () := by
  cases d with
  | number token =>
      cases value : token.value with
      | error fault => simp [asFloat, asNumber, value, bind, Except.bind] at read
      | ok n => simp [retain, value, Except.map]
  | null => cases read
  | bool _ => cases read
  | string token => cases read
  | array _ _ => cases read
  | object _ _ => cases read
  | halfWord _ => cases read
  | broken _ => cases read

theorem asWord_document {word? : String → Option α} {name : String} {a : α}
    (known : word? name = some a)
    : asWord word? (Value.string name).document = .ok a := by
  simp [asWord, asString_document, bind, Except.bind, known, pure, Except.pure]

/-- A member beside the tag is read for later. -/
theorem tagMember_eq_ok_iff {tag key : String} {word? : String → Option α} {level : Nat}
    {state result : Option α × List (String × Document)} {d : Document} (other : key ≠ tag)
    : tagMember tag word? level state (.of key.toList) d = .ok result
      ↔ retain level d = .ok () ∧ result = (state.1, state.2 ++ [(key, d)]) := by
  simp only [tagMember, Token.of, bind, Except.bind, String.ofList_toList, other, if_false]
  cases retain level d <;> simp [pure, Except.pure, eq_comm]

/-- The members beside the tag are read for later, by induction on them. -/
theorem foldlM_tagMember_eq_ok_iff {tag : String} {word? : String → Option α} {level : Nat}
    {members : List (String × Value)} {state result : Option α × List (String × Document)}
    (others : ∀ p ∈ members, p.1 ≠ tag)
    : members.foldlM (fun state p => tagMember tag word? level state (.of p.1.toList) p.2.document)
          state
        = .ok result
      ↔ (∀ p ∈ members, retain level p.2.document = .ok ())
        ∧ result = (state.1, state.2 ++ members.map fun p => (p.1, p.2.document)) := by
  induction members generalizing state with
  | nil => simp [pure, Except.pure, eq_comm]
  | cons p members ih =>
      have other : p.1 ≠ tag := others p List.mem_cons_self
      rw [List.foldlM_cons, bind_eq_ok_iff]
      simp only [tagMember_eq_ok_iff other,
        ih fun q member => others q (List.mem_cons_of_mem p member), List.forall_mem_cons,
        List.map_cons]
      constructor
      · intro h
        obtain ⟨_, ⟨first, rfl⟩, rest, rfl⟩ := h
        exact ⟨⟨first, rest⟩, by simp⟩
      · intro h
        obtain ⟨⟨first, rest⟩, rfl⟩ := h
        exact ⟨_, ⟨first, rfl⟩, rest, by simp⟩

/-- A tagged object is read as its tag and the other members, each of which is read for later. -/
theorem asTagged_document_iff {tag : String} {word? : String → Option α} {name : String} {kind : α}
    (known : word? name = some kind) {members : List (String × Value)}
    (others : ∀ p ∈ members, p.1 ≠ tag) {level : Nat} {result : α × Contents}
    : asTagged tag word? level (Value.object ((tag, .string name) :: members)).document = .ok result
      ↔ (∀ p ∈ members, retain (level + 1) p.2.document = .ok ())
        ∧ result = (kind, .members (members.map fun p => (p.1, p.2.document))) := by
  have first
      : tagMember tag word? (level + 1) (none, []) (.of tag.toList) (Value.string name).document
        = .ok (some kind, []) := by
    simp [tagMember, Token.of, bind, Except.bind, String.ofList_toList, once, asWord_document known,
      Except.map, pure, Except.pure]
  rw [document, asTagged, Value.memberDocuments_eq_map, List.foldlM_map, List.foldlM_cons]
  simp only [first, bind_eq_ok_iff, Except.ok.injEq, exists_eq_left',
    foldlM_tagMember_eq_ok_iff others]
  constructor
  · intro h
    obtain ⟨_, ⟨retained, rfl⟩, _, -, _, tag, finished⟩ := h
    obtain rfl : kind = _ := Except.ok.inj tag
    exact ⟨retained, (Except.ok.inj finished).symm⟩
  · intro h
    obtain ⟨retained, rfl⟩ := h
    exact ⟨_, ⟨retained, rfl⟩, (), rfl, kind, rfl, rfl⟩

end Document

end MeasureSheet.Json
