import Mathlib.Data.List.DropRight
import MeasureSheet.Proofs.Field.Canonical

/-! Blanks in names. A text without its blanks names the same field unless some of them stand
between letters or digits, where they are spelled as the underscore between two words.
-/

namespace MeasureSheet

-- -----------------------------------------------------------------------------------------------
-- How blanks are spelled

theorem spell_of_isBlank {c : Char} (blank : Text.isBlank c) : spell c = ['_'] := by
  have range : c.toNat ≤ 32 ∨ 133 ≤ c.toNat ∧ c.toNat ≤ 160 ∨ 5760 ≤ c.toNat ∧ c.toNat ≤ 8287
      ∨ c.toNat = 12288 := by
    simp only [Text.isBlank, Text.blankRanges, List.any_cons, List.any_nil, Bool.or_false,
      Bool.or_eq_true, Bool.and_eq_true, decide_eq_true_eq] at blank
    omega
  have name : isNameChar c = false := by
    by_contra holds
    have ascii := toNat_of_isNameChar (by simpa using holds)
    omega
  have kelvin : c ≠ '\u212A' := by
    rintro rfl
    exact absurd blank (by decide)
  have dotted : c ≠ '\u0130' := by
    rintro rfl
    exact absurd blank (by decide)
  exact spell_of_noLetter (by omega) name kelvin dotted

theorem spell_ne_nil (c : Char) : spell c ≠ [] := by
  unfold spell
  split_ifs <;> simp

theorem flatMap_spell_of_isBlank {gap : List Char} (blanks : ∀ b ∈ gap, Text.isBlank b)
    : gap.flatMap spell = List.replicate gap.length '_' := by
  induction gap with
  | nil => rfl
  | cons b gap ih =>
      rw [List.flatMap_cons, spell_of_isBlank (blanks b List.mem_cons_self),
        ih fun d member => blanks d (List.mem_cons_of_mem b member)]
      rfl

-- -----------------------------------------------------------------------------------------------
-- Underscores that are taken up by others

/-- No underscore is lost between two parts, of which only one has an underscore at the seam. -/
theorem collapse_append_of_apart {front back : List Char}
    (apart : front.getLast? = some '_' → back.head? ≠ some '_')
    : collapse (front ++ back) = collapse front ++ collapse back := by
  induction front with
  | nil => rfl
  | cons c front ih =>
      cases front with
      | nil =>
          have kept : ¬ (c = '_' ∧ back.head? = some '_') :=
            fun seam => apart (congrArg some seam.1) seam.2
          simp [collapse, kept]
      | cons d front =>
          have rest := ih (by simpa using apart)
          rw [List.cons_append, collapse, rest, collapse.eq_2 c]
          by_cases seam : c = '_' ∧ d = '_' <;> simp [seam]

/-- What stands behind a part is seen from it only by how it begins. -/
theorem collapse_append_inj {front back back' : List Char} (same : back.head? = back'.head?)
    : collapse (front ++ back) = collapse (front ++ back') ↔ collapse back = collapse back' := by
  induction front with
  | nil => rfl
  | cons c front ih =>
      have begin : (front ++ back).head? = (front ++ back').head? := by
        simp only [List.head?_append, same]
      rw [List.cons_append, List.cons_append, collapse, collapse, begin]
      split
      · exact ih
      · rw [List.cons.injEq, and_iff_right rfl, ih]

/-- Underscores side by side are as good as one. -/
theorem collapse_replicate_append (front back : List Char) (n : Nat)
    : collapse (front ++ (List.replicate (n + 1) '_' ++ back))
      = collapse (front ++ '_' :: back) := by
  induction n with
  | zero => rfl
  | succ n ih =>
      rw [← ih]
      refine (collapse_append_inj ?_).mpr ?_
      · simp [List.replicate_succ]
      · simp [List.replicate_succ, collapse]

/-- An underscore beside another one does not count. -/
theorem collapse_append_cons_of_beside {front back : List Char}
    (beside : front.getLast? = some '_' ∨ back.head? = some '_')
    : collapse (front ++ '_' :: back) = collapse (front ++ back) := by
  rcases beside with before | behind
  · obtain ⟨front, rfl⟩ : ∃ front', front = front' ++ ['_'] :=
      ⟨front.dropLast, (List.dropLast_append_getLast? '_' before).symm⟩
    rw [List.append_assoc, List.append_assoc]
    exact collapse_replicate_append front back 1
  · exact (collapse_append_inj (by simp [behind])).mpr (by simp [collapse, behind])

/-- Underscores between two parts are lost only when there are none or another is beside them: only
then is a text spelled as it is without them, if what stands behind is spelled alike.
-/
theorem collapse_append_eq_iff {front back back' : List Char} (same : back'.head? = back.head?)
    (n : Nat)
    : collapse (front ++ back') = collapse (front ++ (List.replicate n '_' ++ back))
      ↔ (n = 0 ∨ front.getLast? = some '_' ∨ back.head? = some '_')
        ∧ collapse back' = collapse back := by
  cases n with
  | zero => simpa using collapse_append_inj same
  | succ n =>
      rw [collapse_replicate_append]
      by_cases beside : front.getLast? = some '_' ∨ back.head? = some '_'
      · rw [collapse_append_cons_of_beside beside, collapse_append_inj same]
        simp [beside]
      · obtain ⟨before, behind⟩ := not_or.mp beside
        rw [collapse_append_of_apart fun last => absurd last before,
          collapse_append_of_apart fun last => absurd last before, List.append_cancel_left_eq]
        have different : collapse back' ≠ collapse ('_' :: back) := by
          intro equal
          have heads := congrArg List.head? equal
          rw [head?_collapse, head?_collapse, same] at heads
          exact behind heads
        simp [before, behind, different]

-- -----------------------------------------------------------------------------------------------
-- Blanks between words

/-- A word can end with the character: it is not spelled with an underscore behind. -/
def endsWord (c : Char) : Bool :=
  (spell c).getLast? ≠ some '_'

/-- A word can start with the character: it is not spelled with an underscore in front. -/
def startsWord (c : Char) : Bool :=
  (spell c).head? ≠ some '_'

/-- Somewhere there is a blank behind the end of a word, and what is not blank again starts one. -/
def separatesWords : List Char → Bool
  | [] => false
  | c :: cs =>
      endsWord c && cs.head?.any Text.isBlank
          && (cs.find? fun d => !Text.isBlank d).any startsWord
        || separatesWords cs

theorem endsWord_of_isBlank {b : Char} (blank : Text.isBlank b) : endsWord b = false := by
  simp [endsWord, spell_of_isBlank blank]

/-- Blanks at the start of a text separate nothing, by induction on them. -/
theorem separatesWords_append_left {gap : List Char} (blanks : ∀ b ∈ gap, Text.isBlank b)
    (cs : List Char)
    : separatesWords (gap ++ cs) = separatesWords cs := by
  induction gap with
  | nil => rfl
  | cons b gap ih =>
      have later := ih fun d member => blanks d (List.mem_cons_of_mem b member)
      rw [List.cons_append, separatesWords, later,
        endsWord_of_isBlank (blanks b List.mem_cons_self)]
      rfl

theorem find?_not_isBlank_of_blanks {gap : List Char} (blanks : ∀ b ∈ gap, Text.isBlank b)
    : (gap.find? fun d => !Text.isBlank d) = none :=
  List.find?_eq_none.mpr fun b member => by simp [blanks b member]

/-- Blanks at the end of a text separate nothing, by induction on what stands before. -/
theorem separatesWords_append_right {gap : List Char} (blanks : ∀ b ∈ gap, Text.isBlank b)
    (cs : List Char)
    : separatesWords (cs ++ gap) = separatesWords cs := by
  have none := find?_not_isBlank_of_blanks blanks
  induction cs with
  | nil => simpa [separatesWords] using separatesWords_append_left blanks []
  | cons c cs ih =>
      rw [List.cons_append, separatesWords, separatesWords, ih, List.find?_append, none,
        Option.or_none]
      cases cs with
      | nil => simp
      | cons d cs => rfl

/-- From one character that is no blank to the next a text separates words or not. -/
theorem separatesWords_cons_append {c d : Char} {gap : List Char}
    (blanks : ∀ b ∈ gap, Text.isBlank b) (solid : Text.isBlank d = false) (cs : List Char)
    : separatesWords (c :: (gap ++ d :: cs))
      = (endsWord c && !gap.isEmpty && startsWord d || separatesWords (d :: cs)) := by
  have next : ((gap ++ d :: cs).find? fun d => !Text.isBlank d) = some d := by
    rw [List.find?_append, find?_not_isBlank_of_blanks blanks]
    simp [solid]
  rw [separatesWords, next, separatesWords_append_left blanks]
  cases gap with
  | nil => simp [solid]
  | cons b gap => simp [blanks b List.mem_cons_self]

/-- Without its blanks a text that neither starts nor ends with one is spelled as before unless they
separate words. The induction is on what follows a character that is no blank and some blanks.
-/
theorem collapse_squeeze_eq_iff {c : Char} {gap rest : List Char}
    (blanks : ∀ b ∈ gap, Text.isBlank b)
    (closed : ∀ b ∈ (c :: (gap ++ rest)).getLast?, Text.isBlank b = false)
    : collapse (spell c ++ (Text.squeeze rest).flatMap spell)
        = collapse (spell c ++ (gap ++ rest).flatMap spell)
      ↔ separatesWords (c :: (gap ++ rest)) = false := by
  induction rest generalizing c gap with
  | nil =>
      obtain rfl : gap = [] := by
        by_contra some
        obtain ⟨front, b, rfl⟩ := List.eq_nil_or_concat gap |>.resolve_left some
        have blank := blanks b (by simp)
        rw [closed b (by simp [List.getLast?_cons])] at blank
        cases blank
      simp [Text.squeeze, separatesWords]
  | cons d rest ih =>
      cases blank : Text.isBlank d with
      | true =>
          have squeezed : Text.squeeze (d :: rest) = Text.squeeze rest := by
            simp [Text.squeeze, blank]
          have moved : gap ++ d :: rest = gap ++ [d] ++ rest := by simp
          rw [squeezed, moved]
          refine ih ?_ (moved ▸ closed)
          simpa [or_imp, forall_and, blank] using blanks
      | false =>
          have squeezed : Text.squeeze (d :: rest) = d :: Text.squeeze rest := by
            simp [Text.squeeze, blank]
          have last : (c :: (gap ++ d :: rest)).getLast? = (d :: rest).getLast? := by
            rw [← List.cons_append, List.getLast?_append_cons]
          have later := @ih d [] (by simp) (last ▸ closed)
          have same
              : (spell d ++ (Text.squeeze rest).flatMap spell).head?
                = (spell d ++ rest.flatMap spell).head? := by
            simp [List.head?_append_of_ne_nil _ (spell_ne_nil d)]
          rw [squeezed, separatesWords_cons_append blanks blank, List.flatMap_append,
            flatMap_spell_of_isBlank blanks, List.flatMap_cons, List.flatMap_cons,
            collapse_append_eq_iff same, List.head?_append_of_ne_nil _ (spell_ne_nil d)]
          rw [List.nil_append] at later
          rw [later, endsWord, startsWord, List.length_eq_zero_iff, ← List.isEmpty_iff]
          grind

/-- A text is what is left of it without blanks at its ends, between these blanks. -/
theorem exists_append_trim (cs : List Char)
    : ∃ front back,
        cs = front ++ (Text.trim cs ++ back)
        ∧ (∀ b ∈ front, Text.isBlank b)
        ∧ (∀ b ∈ back, Text.isBlank b)
        ∧ (∀ c ∈ (Text.trim cs).head?, Text.isBlank c = false)
        ∧ ∀ c ∈ (Text.trim cs).getLast?, Text.isBlank c = false := by
  let behind := cs.dropWhile Text.isBlank
  have trimmed : Text.trim cs = behind.rdropWhile Text.isBlank := rfl
  have parted : Text.trim cs ++ behind.rtakeWhile Text.isBlank = behind :=
    List.rdropWhile_append_rtakeWhile ..
  refine ⟨cs.takeWhile Text.isBlank, behind.rtakeWhile Text.isBlank, ?_, ?_, ?_, ?_, ?_⟩
  · rw [parted, List.takeWhile_append_dropWhile]
  · exact fun b member => List.mem_takeWhile_imp member
  · exact fun b member => List.mem_rtakeWhile_imp member
  · intro c first
    have start : behind.head? = some c := by
      rw [← parted, List.head?_append, Option.mem_def.mp first, Option.some_or]
    have solid := List.head?_dropWhile_not Text.isBlank cs
    simpa [behind, start] using solid
  · intro c last
    obtain ⟨some, rfl⟩ := List.mem_getLast?_eq_getLast last
    exact (Bool.not_eq_true _).mp (List.rdropWhile_last_not Text.isBlank behind some)

theorem Field.ofChars_eq_iff {cs ds : List Char}
    : ofChars cs = ofChars ds ↔ canonicalChars cs = canonicalChars ds := by
  constructor
  · exact congrArg chars
  · intro same
    apply ext_chars
    exact same

/-- A text without its blanks names the same field unless they separate words: at its ends and
beside underscores blanks are lost in its name as well.
-/
theorem Field.ofChars_squeeze_eq_iff (cs : List Char)
    : ofChars (Text.squeeze cs) = ofChars cs ↔ separatesWords cs = false := by
  obtain ⟨front, back, parted, blanks, blanks', start, closed⟩ := exists_append_trim cs
  have none {gap : List Char} (blanks : ∀ b ∈ gap, Text.isBlank b) : Text.squeeze gap = [] :=
    List.filter_eq_nil_iff.mpr fun b member => by simp [blanks b member]
  have squeezed : Text.squeeze cs = Text.squeeze (Text.trim cs) := by
    conv_lhs => rw [parted]
    simp only [Text.squeeze, List.filter_append] at none ⊢
    rw [none blanks, none blanks', List.nil_append, List.append_nil]
  have words : separatesWords cs = separatesWords (Text.trim cs) := by
    conv_lhs => rw [parted]
    rw [separatesWords_append_left blanks, separatesWords_append_right blanks']
  have solid : ∀ c ∈ Text.squeeze cs, Text.isBlank c = false :=
    fun c member => Text.isBlank_eq_false_of_mem_squeeze member
  rw [ofChars_eq_iff, canonicalChars, canonicalChars, trim_of_solid solid, words, squeezed]
  cases core : Text.trim cs with
  | nil => simp [Text.squeeze, separatesWords]
  | cons c rest =>
      rw [core] at start closed
      have kept : Text.squeeze (c :: rest) = c :: Text.squeeze rest := by
        simp [Text.squeeze, start c rfl]
      rw [kept, List.flatMap_cons, List.flatMap_cons]
      exact @collapse_squeeze_eq_iff c [] rest (by simp) closed

end MeasureSheet
