import MeasureSheet.Json.Decoding
import MeasureSheet.Proofs.Json.FloatTexts

/-! Written values are read as the documents that they are. Texts of values are put together from
texts that are read whatever follows them, so both layouts of a value are read as one document.
-/

namespace MeasureSheet.Json

-- -----------------------------------------------------------------------------------------------
-- Spaces

/-- Nothing but spaces. -/
def IsBlank (cs : List Char) : Prop :=
  ∀ c ∈ cs, isSpace c

theorem isBlank_nil : IsBlank [] :=
  fun _ member => absurd member List.not_mem_nil

theorem isBlank_space : IsBlank [' '] := by
  simp [IsBlank, isSpace]

theorem isBlank_lineBreak (level : Nat) : IsBlank (Value.lineBreak level) := by
  intro c member
  rcases List.mem_cons.mp member with rfl | member
  · decide
  · rw [List.eq_of_mem_replicate member]
    decide

theorem skipSpace_append {blank : List Char} (isBlank : IsBlank blank) (cs : List Char)
    : skipSpace (blank ++ cs) = skipSpace cs :=
  List.dropWhile_append_of_pos isBlank

theorem skipSpace_cons {c : Char} (visible : isSpace c = false) (cs : List Char)
    : skipSpace (c :: cs) = c :: cs :=
  List.dropWhile_cons_of_neg (by simp [visible])

theorem skipSpace_skipSpace (cs : List Char) : skipSpace (skipSpace cs) = skipSpace cs := by
  induction cs with
  | nil => rfl
  | cons c cs ih =>
      cases visible : isSpace c with
      | true => simpa [skipSpace, List.dropWhile_cons, visible] using ih
      | false => rw [skipSpace_cons visible, skipSpace_cons visible]

/-- A numeral ends before spaces as it does before what follows them. -/
theorem EndsNumeral.append {blank rest : List Char} (isBlank : IsBlank blank)
    (ends : EndsNumeral rest)
    : EndsNumeral (blank ++ rest) := by
  cases blank with
  | nil => exact ends
  | cons c blank =>
      intro d head
      obtain rfl : c = d := Option.some.inj head
      have space := isBlank c List.mem_cons_self
      simp only [isSpace, Bool.or_eq_true, decide_eq_true_eq] at space
      rcases space with ((rfl | rfl) | rfl) | rfl <;> decide

theorem endsNumeral_nil : EndsNumeral [] :=
  fun _ none => nomatch none

theorem endsNumeral_cons {c : Char}
    (apart : c.isDigit = false ∧ c ≠ '.' ∧ c ≠ 'e' ∧ c ≠ 'E') (rest : List Char)
    : EndsNumeral (c :: rest) := by
  intro d head
  obtain rfl := Option.some.inj head
  exact apart

theorem splitValue_skipSpace (steps : Nat) (cs : List Char)
    : splitValue steps (skipSpace cs) = splitValue steps cs := by
  cases steps with
  | zero => rfl
  | succ steps => simp only [splitValue, skipSpace_skipSpace]

theorem splitItems_skipSpace (steps : Nat) (cs : List Char)
    : splitItems steps (skipSpace cs) = splitItems steps cs := by
  cases steps with
  | zero => rfl
  | succ steps => simp only [splitItems, splitValue_skipSpace]

theorem splitValue_append {blank : List Char} (isBlank : IsBlank blank) (steps : Nat)
    (cs : List Char)
    : splitValue steps (blank ++ cs) = splitValue steps cs := by
  rw [← splitValue_skipSpace, skipSpace_append isBlank, splitValue_skipSpace]

theorem splitItems_append {blank : List Char} (isBlank : IsBlank blank) (steps : Nat)
    (cs : List Char)
    : splitItems steps (blank ++ cs) = splitItems steps cs := by
  rw [← splitItems_skipSpace, skipSpace_append isBlank, splitItems_skipSpace]

/-- Where a value is read there is no closing bracket. -/
theorem exists_first_of_splitValue {steps : Nat} {cs rest : List Char} {d : Document}
    (read : splitValue steps cs = (d, some rest))
    : ∃ c text, skipSpace cs = c :: text ∧ c ≠ ']' := by
  cases steps with
  | zero => simp [splitValue] at read
  | succ steps =>
      simp only [splitValue] at read
      cases first : skipSpace cs with
      | nil => simp [first] at read
      | cons c text =>
          refine ⟨c, text, rfl, ?_⟩
          rintro rfl
          simp [first] at read

theorem exists_first_of_splitItems {steps : Nat} {cs rest : List Char} {items : List Document}
    (read : splitItems steps cs = (items, none, some rest))
    : ∃ c text, skipSpace cs = c :: text ∧ c ≠ ']' := by
  cases steps with
  | zero => simp [splitItems] at read
  | succ steps =>
      cases value : splitValue steps cs with
      | mk item behind =>
          cases behind with
          | none => simp [splitItems, value] at read
          | some behind => exact exists_first_of_splitValue value

-- -----------------------------------------------------------------------------------------------
-- Texts that are read

/-- A text is read as a document, whatever follows that does not go on with a numeral. -/
def ReadsAs (cs : List Char) (d : Document) : Prop :=
  ∀ (steps : Nat) (rest : List Char),
    2 * cs.length ≤ steps → EndsNumeral rest → splitValue steps (cs ++ rest) = (d, some rest)

/-- A text is read as the items of an array up to its closing bracket. -/
def ItemsReadAs (cs : List Char) (items : List Document) : Prop :=
  ∀ (steps : Nat) (rest : List Char),
    2 * cs.length < steps → splitItems steps (cs ++ ']' :: rest) = (items, none, some rest)

/-- A text is read as the members of an object up to its closing brace. -/
def MembersReadAs (cs : List Char) (members : List (Token (List Char) × Document)) : Prop :=
  ∀ (steps : Nat) (rest : List Char),
    2 * cs.length < steps
    → ∃ text,
        skipSpace (cs ++ '}' :: rest) = '"' :: text
        ∧ splitMembers steps text = (members, none, some rest)

theorem readsAs_null : ReadsAs ['n', 'u', 'l', 'l'] .null := by
  intro steps rest enough _
  cases steps with
  | zero => simp at enough
  | succ steps => rfl

/-- No other value begins as a numeral does. -/
theorem splitValue_numeral {c : Char} (first : c = '-' ∨ c.isDigit) (steps : Nat) (cs : List Char)
    : splitValue (steps + 1) (c :: cs)
      = (.number (splitNumber (c :: cs)).1, (splitNumber (c :: cs)).2) := by
  have other : ∀ d ∈ ['"', '[', '{', 'n', 't', 'f', ' ', '\n', '\t', '\r'], c ≠ d := by
    have none : ∀ d ∈ ['"', '[', '{', 'n', 't', 'f', ' ', '\n', '\t', '\r'],
        ¬ (d = '-' ∨ d.isDigit) := by
      simp only [List.forall_mem_cons, List.not_mem_nil, IsEmpty.forall_iff, implies_true, and_true]
      decide
    rintro d member rfl
    exact none c member first
  have visible : isSpace c = false := by
    simp only [List.mem_cons, forall_eq_or_imp] at other
    simp [isSpace, other]
  rw [splitValue, skipSpace_cons visible]
  split
  next absurd => cases absurd
  iterate 6
    next same => exact absurd (List.cons.inj same).1 (other _ (by simp))
  next same =>
    cases same
    rw [if_pos first]

theorem readsAs_numeral {n : Numeral} (wellFormed : n.WellFormed)
    : ReadsAs n.chars (.number { value := n.value, obstacle := none }) := by
  intro steps rest enough ends
  obtain ⟨c, cs, chars, first⟩ := wellFormed.head?_chars
  have read := Numeral.splitNumber_chars wellFormed ends
  rw [chars] at enough read ⊢
  cases steps with
  | zero => simp at enough
  | succ steps => rw [List.cons_append, splitValue_numeral first, ← List.cons_append, read]

theorem readsAs_string (s : List Char) : ReadsAs (quote s) (.string (.of s)) := by
  intro steps rest enough _
  cases steps with
  | zero => simp [quote] at enough
  | succ steps =>
      have read := splitString_quoted s rest
      have parts : quote s ++ rest = '"' :: (s.flatMap escapeChar ++ '"' :: rest) := by
        simp [quote]
      rw [parts, splitValue, skipSpace_cons rfl]
      simp only [read]

theorem readsAs_array_nil : ReadsAs ['[', ']'] (.array [] none) := by
  intro steps rest enough _
  cases steps with
  | zero => simp at enough
  | succ steps => rfl

theorem ItemsReadAs.array {cs : List Char} {items : List Document} (read : ItemsReadAs cs items)
    : ReadsAs ('[' :: cs ++ [']']) (.array items none) := by
  intro steps rest enough _
  cases steps with
  | zero => simp at enough
  | succ steps =>
      have inside := read steps rest (by simp at enough; omega)
      obtain ⟨c, text, first, other⟩ := exists_first_of_splitItems inside
      rw [← splitItems_skipSpace, first] at inside
      have parts : '[' :: cs ++ [']'] ++ rest = '[' :: (cs ++ ']' :: rest) := by simp
      rw [parts, splitValue, skipSpace_cons rfl]
      simp only [first, inside]

theorem readsAs_object_nil : ReadsAs ['{', '}'] (.object [] none) := by
  intro steps rest enough _
  cases steps with
  | zero => simp at enough
  | succ steps => rfl

theorem MembersReadAs.object {cs : List Char} {members : List (Token (List Char) × Document)}
    (read : MembersReadAs cs members)
    : ReadsAs ('{' :: cs ++ ['}']) (.object members none) := by
  intro steps rest enough _
  cases steps with
  | zero => simp at enough
  | succ steps =>
      obtain ⟨text, first, inside⟩ :=
        read steps rest (by simp at enough; omega)
      have parts : '{' :: cs ++ ['}'] ++ rest = '{' :: (cs ++ '}' :: rest) := by simp
      rw [parts, splitValue, skipSpace_cons rfl]
      simp only [first, inside]

variable {cs more before after : List Char} {d : Document}

theorem ReadsAs.item (read : ReadsAs cs d) (spaceBefore : IsBlank before)
    (spaceAfter : IsBlank after)
    : ItemsReadAs (before ++ cs ++ after) [d] := by
  intro steps rest enough
  cases steps with
  | zero => omega
  | succ steps =>
      have value := read steps (after ++ ']' :: rest)
        (by simp at enough; omega) ((endsNumeral_cons (by decide) rest).append spaceAfter)
      have parts : before ++ cs ++ after ++ ']' :: rest
          = before ++ (cs ++ (after ++ ']' :: rest)) := by
        simp
      have behind : skipSpace (after ++ ']' :: rest) = ']' :: rest := by
        rw [skipSpace_append spaceAfter, skipSpace_cons rfl]
      rw [parts, splitItems_append spaceBefore, splitItems]
      simp only [value, behind]

theorem ReadsAs.consItem {items : List Document} (read : ReadsAs cs d)
    (others : ItemsReadAs more items) (spaceBefore : IsBlank before)
    : ItemsReadAs (before ++ cs ++ ',' :: more) (d :: items) := by
  intro steps rest enough
  cases steps with
  | zero => omega
  | succ steps =>
      have value := read steps (',' :: (more ++ ']' :: rest))
        (by simp at enough; omega) (endsNumeral_cons (by decide) _)
      have next := others steps rest (by simp at enough; omega)
      have parts : before ++ cs ++ ',' :: more ++ ']' :: rest
          = before ++ (cs ++ ',' :: (more ++ ']' :: rest)) := by
        simp
      rw [parts, splitItems_append spaceBefore, splitItems]
      simp only [value, skipSpace_cons (show isSpace ',' = false from rfl), next]

theorem ReadsAs.member {gap : List Char} (read : ReadsAs cs d) (key : List Char)
    (spaceBefore : IsBlank before) (spaceGap : IsBlank gap) (spaceAfter : IsBlank after)
    : MembersReadAs (before ++ quote key ++ ':' :: (gap ++ cs) ++ after) [(.of key, d)] := by
  intro steps rest enough
  cases steps with
  | zero => omega
  | succ steps =>
      have value := read steps (after ++ '}' :: rest)
        (by simp at enough; omega) ((endsNumeral_cons (by decide) rest).append spaceAfter)
      refine
        ⟨key.flatMap escapeChar ++ '"' :: ':' :: (gap ++ (cs ++ (after ++ '}' :: rest))), ?_, ?_⟩
      · have parts : before ++ quote key ++ ':' :: (gap ++ cs) ++ after ++ '}' :: rest
            = before ++ ('"' :: (key.flatMap escapeChar
              ++ '"' :: ':' :: (gap ++ (cs ++ (after ++ '}' :: rest))))) := by
          simp [quote]
        rw [parts, skipSpace_append spaceBefore, skipSpace_cons rfl]
      · rw [splitMembers, splitString_quoted]
        simp only [skipSpace_cons (show isSpace ':' = false from rfl), splitValue_append spaceGap,
          value, skipSpace_append spaceAfter, skipSpace_cons (show isSpace '}' = false from rfl)]

theorem ReadsAs.consMember {gap : List Char} {members : List (Token (List Char) × Document)}
    (read : ReadsAs cs d) (key : List Char) (others : MembersReadAs more members)
    (spaceBefore : IsBlank before) (spaceGap : IsBlank gap)
    : MembersReadAs (before ++ quote key ++ ':' :: (gap ++ cs) ++ ',' :: more)
        ((.of key, d) :: members) := by
  intro steps rest enough
  cases steps with
  | zero => omega
  | succ steps =>
      have value := read steps (',' :: (more ++ '}' :: rest))
        (by simp at enough; omega) (endsNumeral_cons (by decide) _)
      obtain ⟨text, first, next⟩ :=
        others steps rest (by simp at enough; omega)
      refine
        ⟨key.flatMap escapeChar ++ '"' :: ':' :: (gap ++ (cs ++ ',' :: (more ++ '}' :: rest))),
          ?_, ?_⟩
      · have parts : before ++ quote key ++ ':' :: (gap ++ cs) ++ ',' :: more ++ '}' :: rest
            = before ++ ('"' :: (key.flatMap escapeChar
              ++ '"' :: ':' :: (gap ++ (cs ++ ',' :: (more ++ '}' :: rest))))) := by
          simp [quote]
        rw [parts, skipSpace_append spaceBefore, skipSpace_cons rfl]
      · rw [splitMembers, splitString_quoted]
        simp only [skipSpace_cons (show isSpace ':' = false from rfl), splitValue_append spaceGap,
          value, skipSpace_cons (show isSpace ',' = false from rfl), first, next]

-- -----------------------------------------------------------------------------------------------
-- Values

namespace Value

mutual

/-- What the text of a value shows. -/
def document : Value → Document
  | null => .null
  | integer i => .number { value := (Numeral.ofInt i).value, obstacle := none }
  | float x => if x.isFinite then .number (splitNumber (floatChars x)).1 else .null
  | string s => .string (.of s.toList)
  | array items => .array (documents items) none
  | object members => .object (memberDocuments members) none

def documents : List Value → List Document
  | [] => []
  | item :: items => item.document :: documents items

def memberDocuments : List (String × Value) → List (Token (List Char) × Document)
  | [] => []
  | (key, value) :: members => (.of key.toList, value.document) :: memberDocuments members

end

theorem documents_eq_map (items : List Value) : documents items = items.map document := by
  induction items with
  | nil => rfl
  | cons item items ih => rw [documents, ih, List.map_cons]

theorem memberDocuments_eq_map (members : List (String × Value))
    : memberDocuments members = members.map fun p => (.of p.1.toList, p.2.document) := by
  induction members with
  | nil => rfl
  | cons p members ih => rw [memberDocuments, ih, List.map_cons]

theorem readsAs_integer (i : Int) : ReadsAs (integerChars i) (integer i).document := by
  rw [Numeral.integerChars_eq]
  exact readsAs_numeral (Numeral.wellFormed_ofInt i)

theorem readsAs_float (x : Float) : ReadsAs (floatChars x) (float x).document := by
  rw [document]
  split
  next finite =>
    obtain ⟨n, wellFormed, chars⟩ := exists_numeral_of_isFinite finite
    have alone := Numeral.splitNumber_chars wellFormed endsNumeral_nil
    rw [List.append_nil] at alone
    rw [← chars, alone]
    exact readsAs_numeral wellFormed
  next infinite =>
    rw [floatChars, if_neg infinite]
    exact readsAs_null

mutual

theorem readsAs_compactChars : (v : Value) → ReadsAs v.compactChars v.document
  | null => readsAs_null
  | integer i => readsAs_integer i
  | float x => readsAs_float x
  | string s => readsAs_string s.toList
  | array [] => readsAs_array_nil
  | array (item :: items) => (readsAs_compactItems (item :: items) (List.cons_ne_nil _ _)).array
  | object [] => readsAs_object_nil
  | object (p :: members) => (readsAs_compactMembers (p :: members) (List.cons_ne_nil _ _)).object

theorem readsAs_compactItems
    : (items : List Value) → items ≠ [] → ItemsReadAs (compactItems items) (documents items)
  | [], empty => absurd rfl empty
  | [item], _ => (readsAs_compactChars item).item isBlank_nil isBlank_nil
  | item :: next :: items, _ =>
      (readsAs_compactChars item).consItem
        (readsAs_compactItems (next :: items) (List.cons_ne_nil _ _)) isBlank_nil

theorem readsAs_compactMembers
    : (members : List (String × Value)) → members ≠ []
      → MembersReadAs (compactMembers members) (memberDocuments members)
  | [], empty => absurd rfl empty
  | [(key, value)], _ => by
      have read := (readsAs_compactChars value).member key.toList isBlank_nil isBlank_nil
        isBlank_nil
      simpa [compactMembers, memberDocuments] using read
  | (key, value) :: next :: members, _ => by
      have read := (readsAs_compactChars value).consMember key.toList
        (readsAs_compactMembers (next :: members) (List.cons_ne_nil _ _)) isBlank_nil isBlank_nil
      simpa [compactMembers, memberDocuments] using read

end

mutual

theorem readsAs_prettyChars (level : Nat) : (v : Value) → ReadsAs (v.prettyChars level) v.document
  | null => readsAs_null
  | integer i => readsAs_integer i
  | float x => readsAs_float x
  | string s => readsAs_string s.toList
  | array [] => readsAs_array_nil
  | array (item :: items) => by
      have read := (readsAs_prettyItems (level + 1) (item :: items) (List.cons_ne_nil _ _)
        (isBlank_lineBreak level)).array
      simpa [prettyChars, document] using read
  | object [] => readsAs_object_nil
  | object (p :: members) => by
      have read := (readsAs_prettyMembers (level + 1) (p :: members) (List.cons_ne_nil _ _)
        (isBlank_lineBreak level)).object
      simpa [prettyChars, document] using read

theorem readsAs_prettyItems (level : Nat) {after : List Char}
    : (items : List Value) → items ≠ [] → IsBlank after
      → ItemsReadAs (prettyItems level items ++ after) (documents items)
  | [], empty, _ => absurd rfl empty
  | [item], _, spaceAfter => by
      have read := (readsAs_prettyChars level item).item (isBlank_lineBreak level) spaceAfter
      simpa [prettyItems, documents] using read
  | item :: next :: items, _, spaceAfter => by
      have read := (readsAs_prettyChars level item).consItem
        (readsAs_prettyItems level (next :: items) (List.cons_ne_nil _ _) spaceAfter)
        (isBlank_lineBreak level)
      simpa [prettyItems, documents] using read

theorem readsAs_prettyMembers (level : Nat) {after : List Char}
    : (members : List (String × Value)) → members ≠ [] → IsBlank after
      → MembersReadAs (prettyMembers level members ++ after) (memberDocuments members)
  | [], empty, _ => absurd rfl empty
  | [(key, value)], _, spaceAfter => by
      have read := (readsAs_prettyChars level value).member key.toList
        (isBlank_lineBreak level) isBlank_space spaceAfter
      simpa [prettyMembers, memberDocuments] using read
  | (key, value) :: next :: members, _, spaceAfter => by
      have read := (readsAs_prettyChars level value).consMember key.toList
        (readsAs_prettyMembers level (next :: members) (List.cons_ne_nil _ _) spaceAfter)
        (isBlank_lineBreak level) isBlank_space
      simpa [prettyMembers, memberDocuments] using read

end

end Value

-- -----------------------------------------------------------------------------------------------
-- Whole texts

variable {α : Type}

/-- A text that is read as a document gives what the document gives. -/
theorem ReadsAs.readText (read : ReadsAs cs d) (reader : Document → Except Fault α)
    : Json.readText reader (String.ofList cs) = reader d := by
  have whole : splitValue (2 * cs.length + 2) cs = (d, some []) := by
    simpa using read (2 * cs.length + 2) [] (by omega) endsNumeral_nil
  unfold Json.readText Document.ofText
  simp only [String.toList_ofList, whole]
  cases reader d <;> rfl

theorem readText_compact (reader : Document → Except Fault α) (v : Value)
    : readText reader v.compact = reader v.document :=
  v.readsAs_compactChars.readText reader

theorem readText_pretty (reader : Document → Except Fault α) (v : Value)
    : readText reader v.pretty = reader v.document :=
  (v.readsAs_prettyChars 0).readText reader

end MeasureSheet.Json
