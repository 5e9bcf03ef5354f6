import MeasureSheet.Proofs.Field.Blanks
import MeasureSheet.Proofs.Format.Rules

/-! Normalization of names, one character after the other. Whatever text comes in, a canonical name
goes out, and canonical names are the texts that are left as they are.
-/

namespace MeasureSheet

-- -----------------------------------------------------------------------------------------------
-- Canonical names

theorem isNameChar_iff {c : Char}
    : isNameChar c ↔ 'a' ≤ c ∧ c ≤ 'z' ∨ '0' ≤ c ∧ c ≤ '9' ∨ c = '_' := by
  have lower : c.isLower ↔ 'a' ≤ c ∧ c ≤ 'z' :=
    Bool.and_eq_true_iff.trans (and_congr decide_eq_true_iff decide_eq_true_iff)
  have digit : c.isDigit ↔ '0' ≤ c ∧ c ≤ '9' :=
    Bool.and_eq_true_iff.trans (and_congr decide_eq_true_iff decide_eq_true_iff)
  rw [isNameChar, Bool.or_eq_true, Bool.or_eq_true, beq_iff_eq, lower, digit, or_assoc]

theorem isNameChar_eq_false_of_large {c : Char} (large : 128 ≤ c.toNat) : isNameChar c = false := by
  by_contra holds
  have range := toNat_of_isNameChar (by simpa using holds)
  omega

theorem singleUnderscores_iff {cs : List Char} : SingleUnderscores cs ↔ ¬ ['_', '_'] <:+: cs := by
  induction cs with
  | nil => simp [SingleUnderscores]
  | cons c cs ih =>
      rw [SingleUnderscores, ih, List.infix_cons_iff, not_or, List.cons_prefix_cons]
      cases cs with
      | nil => simp
      | cons d cs =>
          rw [List.cons_prefix_cons, and_iff_left List.nil_prefix, List.head?_cons,
            Option.some.injEq, @eq_comm _ c, @eq_comm _ d]

/-- Lower-case letters, digits and underscores, no two of these side by side. -/
theorem canonicalName_iff {cs : List Char}
    : CanonicalName cs
      ↔ (∀ c ∈ cs, 'a' ≤ c ∧ c ≤ 'z' ∨ '0' ≤ c ∧ c ≤ '9' ∨ c = '_') ∧ ¬ ['_', '_'] <:+: cs := by
  simp only [← isNameChar_iff, ← singleUnderscores_iff]
  exact ⟨fun canonical => ⟨canonical.nameChars, canonical.singleUnderscores⟩,
    fun both => ⟨both.1, both.2⟩⟩

-- -----------------------------------------------------------------------------------------------
-- Lower case

/-- A lower case for every character, of one character or several. Outside ASCII it matters only
where ASCII letters come from.
-/
structure LowerCase where
  lower : Char → List Char
  ascii : ∀ c : Char, c.toNat < 128 → lower c = [c.toLower]
  kelvin : lower '\u212A' = ['k']
  dotted : lower '\u0130' = ['i', '\u0307']
  other
    : ∀ c : Char,
        128 ≤ c.toNat → c ≠ '\u212A' → c ≠ '\u0130'
        → lower c ≠ [] ∧ ∀ d ∈ lower c, d.isLower = false ∧ d.isDigit = false

/-- The lower case of ASCII, and of the two characters that come to it from outside. -/
def LowerCase.basic : LowerCase where
  lower c :=
    if c.toNat < 128 then [c.toLower]
    else if c = '\u212A' then ['k']
    else if c = '\u0130' then ['i', '\u0307']
    else [c]
  ascii c small := if_pos small
  kelvin := by decide
  dotted := by decide
  other c large notKelvin notDotted := by
    rw [if_neg (by omega), if_neg notKelvin, if_neg notDotted]
    have foreign := Bool.or_eq_false_iff.mp (isNameChar_eq_false_of_large large)
    exact ⟨List.cons_ne_nil c [],
      List.forall_mem_singleton.mpr (Bool.or_eq_false_iff.mp foreign.1)⟩

instance : Inhabited LowerCase := ⟨.basic⟩

/-- An underscore in place of what is no lower-case letter and no digit. -/
def mask (c : Char) : Char :=
  if c.isLower || c.isDigit then c else '_'

/-- Puts a character behind a name, but no underscore behind another one. -/
def pushMasked (name : List Char) (c : Char) : List Char :=
  if mask c = '_' ∧ name.getLast? = some '_' then name else name ++ [mask c]

namespace LowerCase

/-- The name that a text is normalized to, a character at a time. -/
def normalize (casing : LowerCase) (cs : List Char) : List Char :=
  ((Text.trim cs).flatMap casing.lower).foldl pushMasked []

end LowerCase

theorem getLast?_collapse (cs : List Char) : (collapse cs).getLast? = cs.getLast? := by
  induction cs with
  | nil => rfl
  | cons c cs ih =>
      unfold collapse
      split
      next beside =>
        cases cs with
        | nil => cases beside.2
        | cons d cs => rw [ih, List.getLast?_cons_cons]
      next => rw [List.getLast?_cons, List.getLast?_cons, ih]

/-- A name that is put together from masked characters has its underscores collapsed. -/
theorem foldl_pushMasked (cs : List Char)
    : cs.foldl pushMasked [] = collapse (cs.map mask) := by
  induction cs using List.reverseRecOn with
  | nil => rfl
  | append_singleton cs c ih =>
      rw [List.foldl_append, ih, List.foldl_cons, List.foldl_nil, pushMasked, getLast?_collapse,
        List.map_append, List.map_cons, List.map_nil]
      split
      next beside =>
        rw [beside.1, collapse_append_cons_of_beside (Or.inl beside.2), List.append_nil]
      next apart =>
        rw [collapse_append_of_apart]
        · simp [collapse]
        · intro last next
          exact apart ⟨Option.some.inj next, last⟩

theorem mask_of_isNameChar {c : Char} (name : isNameChar c) : mask c = c := by
  unfold mask
  split
  · rfl
  next other =>
    obtain rfl : c = '_' := by simpa [isNameChar, other] using name
    rfl

theorem spell_of_ascii {c : Char} (ascii : c.toNat < 128) : spell c = [mask c.toLower] := by
  cases upper : c.isUpper with
  | true =>
      have spelled : spell c = [c.toLower] := by rw [spell, if_pos upper]
      have name : isNameChar c.toLower := isNameChar_of_mem_spell (c := c) (by simp [spelled])
      rw [spelled, mask_of_isNameChar name]
  | false =>
      have same : c.toLower = c := dif_neg (of_decide_eq_false upper)
      have kelvin : c ≠ '\u212A' := by
        rintro rfl
        exact absurd ascii (by decide)
      have dotted : c ≠ '\u0130' := by
        rintro rfl
        exact absurd ascii (by decide)
      rw [same, spell, mask]
      split_ifs <;> simp_all

/-- Outside ASCII only two characters are spelled with a letter. -/
theorem spell_of_other {c : Char} (large : 128 ≤ c.toNat) (kelvin : c ≠ '\u212A')
    (dotted : c ≠ '\u0130')
    : spell c = ['_'] :=
  spell_of_noLetter (by omega) (isNameChar_eq_false_of_large large) kelvin dotted

/-- A lower case is masked as the character is spelled, but for the number of underscores. -/
theorem map_mask_lower (casing : LowerCase) (c : Char)
    : (casing.lower c).map mask = spell c
      ∨ spell c = ['_'] ∧ ∃ n, (casing.lower c).map mask = List.replicate (n + 1) '_' := by
  by_cases ascii : c.toNat < 128
  · left
    rw [casing.ascii c ascii, spell_of_ascii ascii]
    rfl
  by_cases kelvin : c = '\u212A'
  · left
    rw [kelvin, casing.kelvin]
    decide
  by_cases dotted : c = '\u0130'
  · left
    rw [dotted, casing.dotted]
    decide
  · right
    obtain ⟨nonempty, foreign⟩ := casing.other c (by omega) kelvin dotted
    have positive := List.length_pos_of_ne_nil nonempty
    refine ⟨spell_of_other (by omega) kelvin dotted, (casing.lower c).length - 1, ?_⟩
    rw [List.eq_replicate_iff, List.length_map]
    refine ⟨by omega, fun d member => ?_⟩
    obtain ⟨e, lowered, rfl⟩ := List.mem_map.mp member
    simp [mask, foreign e lowered]

theorem collapse_flatMap_lower (casing : LowerCase) (front cs : List Char)
    : collapse (front ++ (cs.flatMap casing.lower).map mask)
      = collapse (front ++ cs.flatMap spell) := by
  induction cs generalizing front with
  | nil => rfl
  | cons c cs ih =>
      rw [List.flatMap_cons, List.flatMap_cons, List.map_append]
      rcases map_mask_lower casing c with same | ⟨blank, n, underscores⟩
      · rw [same, ← List.append_assoc, ih, List.append_assoc]
      · rw [blank, underscores, collapse_replicate_append, List.append_cons, ih, ← List.append_cons]
        rfl

namespace LowerCase

/-- Whichever lower case is used, a text is normalized to the name of its field. -/
theorem normalize_eq (casing : LowerCase) (cs : List Char)
    : casing.normalize cs = canonicalChars cs := by
  rw [normalize, foldl_pushMasked, canonicalChars]
  exact collapse_flatMap_lower casing [] (Text.trim cs)

/-- The texts that are left as they are are those that come out. -/
theorem canonicalName_iff_normalize_eq (casing : LowerCase) {name : List Char}
    : CanonicalName name ↔ casing.normalize name = name := by
  rw [normalize_eq]
  constructor
  · exact fun canonical => canonical.canonicalChars_eq
  · intro kept
    rw [← kept]
    exact canonicalName_canonicalChars name

/-- Normalization projects texts onto canonical names. What it gives and what it leaves as it is are
the texts of lower-case letters, digits and single underscores, so that a second time changes
nothing and the name of a field is read from its JSON text as that field.
-/
theorem normalize_isProjection (casing : LowerCase)
    : (∀ name, CanonicalName name
        ↔ (∀ c ∈ name, 'a' ≤ c ∧ c ≤ 'z' ∨ '0' ≤ c ∧ c ≤ '9' ∨ c = '_')
          ∧ ¬ ['_', '_'] <:+: name)
      ∧ (∀ cs, CanonicalName (casing.normalize cs))
      ∧ (∀ name, CanonicalName name ↔ casing.normalize name = name)
      ∧ (∀ cs, casing.normalize (casing.normalize cs) = casing.normalize cs)
      ∧ (∀ text : String, (Field.named text).text = String.ofList (casing.normalize text.toList))
      ∧ ∀ f : Field,
          Json.readText Field.ofJson f.toJson.compact = .ok f
          ∧ Json.readText Field.ofJson f.toJson.pretty = .ok f := by
  have canonical (cs : List Char) : CanonicalName (casing.normalize cs) := by
    rw [normalize_eq]
    exact canonicalName_canonicalChars cs
  refine ⟨fun name => canonicalName_iff, canonical,
    fun name => casing.canonicalName_iff_normalize_eq, fun cs => ?_, fun text => ?_, fun f => ?_⟩
  · exact casing.canonicalName_iff_normalize_eq.mp (canonical cs)
  · rw [normalize_eq]
    rfl
  · rw [Json.readText_compact, Json.readText_pretty]
    exact ⟨f.ofJson_document, f.ofJson_document⟩

/-- Blanks at the ends go, hyphens make one underscore, and letters come from outside ASCII. -/
theorem basic_normalize_iris
    : basic.normalize " \u0130ris--Top\u00A0(\u212Am)".toList = "i_ris_top_km_".toList
      ∧ CanonicalName (basic.normalize " \u0130ris--Top\u00A0(\u212Am)".toList) :=
  ⟨by decide +kernel, basic.normalize_isProjection.2.1 _⟩

end LowerCase

end MeasureSheet
