import MeasureSheet.Proofs.Formula.Grammar

/-! The operator characters of a formula. One is counted, to the right of the equals sign; those to
the left of it are no operators to the reader, but like all characters that no name holds.
-/

namespace MeasureSheet.Formula

variable {text : String} {f : Formula} {cs target side : List Char}

-- -----------------------------------------------------------------------------------------------
-- Operators in names

/-- An underscore in place of an operator. -/
def maskOperator (c : Char) : Char :=
  if isOperator c then '_' else c

/-- What does not tell operators from an underscore does not see them masked. -/
theorem apply_maskOperator {α : Type} {g : Char → α} (same : ∀ op : Operator, g '_' = g op.symbol)
    (c : Char)
    : g (maskOperator c) = g c := by
  unfold maskOperator
  split
  next operator =>
    obtain ⟨op, found⟩ := Option.isSome_iff_exists.mp operator
    rw [same op, Operator.symbol_of_ofSymbol? found]
  next => rfl

theorem isOperator_maskOperator (c : Char) : isOperator (maskOperator c) = false := by
  unfold maskOperator
  split
  next => decide
  next other => exact Bool.eq_false_of_not_eq_true other

theorem isBlank_maskOperator (c : Char) : Text.isBlank (maskOperator c) = Text.isBlank c :=
  apply_maskOperator (fun op => by cases op <;> decide) c

theorem squeeze_map_maskOperator
    : Text.squeeze (cs.map maskOperator) = (Text.squeeze cs).map maskOperator := by
  simp only [Text.squeeze, List.filter_map, Function.comp_def, isBlank_maskOperator]

theorem trim_map_maskOperator
    : Text.trim (cs.map maskOperator) = (Text.trim cs).map maskOperator := by
  simp only [Text.trim, List.dropWhile_map, ← List.map_reverse, Function.comp_def,
    isBlank_maskOperator]

/-- A text names the same field with underscores in place of its operators. -/
theorem ofChars_map_maskOperator : Field.ofChars (cs.map maskOperator) = Field.ofChars cs := by
  have spelled (c : Char) : spell (maskOperator c) = spell c :=
    apply_maskOperator (fun op => by cases op <;> decide) c
  apply Field.ext_chars
  change canonicalChars (cs.map maskOperator) = canonicalChars cs
  simp only [canonicalChars, trim_map_maskOperator, List.flatMap_map, spelled]

theorem beginsLikeNumber_map_maskOperator
    : beginsLikeNumber (cs.map maskOperator) = beginsLikeNumber cs := by
  cases cs with
  | nil => rfl
  | cons c cs =>
      exact apply_maskOperator (g := fun c => c.isDigit || c == '.')
        (fun op => by cases op <;> decide) c

theorem readTarget_map_maskOperator : readTarget (cs.map maskOperator) = readTarget cs := by
  simp only [readTarget, ofChars_map_maskOperator, beginsLikeNumber_map_maskOperator]

-- -----------------------------------------------------------------------------------------------
-- Sides of a text

/-- The text has an equals sign between a target and a side, and no other. -/
structure CutAt (cs target side : List Char) : Prop where
  text : cs = target ++ '=' :: side
  notTarget : '=' ∉ target
  notSide : '=' ∉ side

theorem cutAt_iff : CutAt cs target side ↔ cs = target ++ '=' :: side ∧ cs.count '=' = 1 := by
  constructor
  · rintro ⟨rfl, notTarget, notSide⟩
    simp [List.count_eq_zero_of_not_mem, notTarget, notSide]
  · rintro ⟨rfl, one⟩
    rw [List.count_append, List.count_cons_self] at one
    exact ⟨rfl, List.count_eq_zero.mp (by omega), List.count_eq_zero.mp (by omega)⟩

theorem CutAt.sides_eq (cut : CutAt cs target side) : sides cs = .ok (target, side) :=
  sides_eq_ok_iff.mpr (cutAt_iff.mp cut)

theorem CutAt.squeeze (cut : CutAt cs target side)
    : CutAt (Text.squeeze cs) (Text.squeeze target) (Text.squeeze side) := by
  obtain ⟨rfl, notTarget, notSide⟩ := cut
  refine ⟨?_, fun member => notTarget (List.mem_of_mem_filter member),
    fun member => notSide (List.mem_of_mem_filter member)⟩
  rw [Text.squeeze, List.filter_append, List.filter_cons_of_pos (by decide)]
  rfl

theorem CutAt.map_maskOperator (cut : CutAt cs target side)
    : CutAt (target.map maskOperator ++ '=' :: side) (target.map maskOperator) side := by
  refine ⟨rfl, fun member => ?_, cut.notSide⟩
  obtain ⟨c, member, masked⟩ := List.mem_map.mp member
  have equals : (maskOperator c == '=') = (c == '=') :=
    apply_maskOperator (g := (· == '=')) (fun op => by cases op <;> decide) c
  rw [masked] at equals
  exact cut.notTarget (beq_iff_eq.mp equals.symm ▸ member)

/-- A text has an equals sign and no other when it has one without its blanks. -/
theorem exists_cutAt (one : (Text.squeeze cs).count '=' = 1)
    : ∃ target side, CutAt cs target side := by
  have one : cs.count '=' = 1 := by
    rwa [Text.squeeze, List.count_filter (by decide)] at one
  obtain ⟨target, side, rfl, -⟩ := List.eq_append_cons_of_mem
    (List.one_le_count_iff.mp (Nat.le_of_eq one.symm))
  exact ⟨target, side, cutAt_iff.mpr ⟨rfl, one⟩⟩

theorem countP_isOperator_squeeze : (Text.squeeze cs).countP isOperator = cs.countP isOperator := by
  rw [Text.squeeze, List.countP_filter]
  refine List.countP_congr fun c _ => ?_
  rw [Bool.and_eq_true, and_iff_left_iff_imp]
  intro operator
  rcases isOperator_iff.mp operator with rfl | rfl | rfl | rfl <;> decide

-- -----------------------------------------------------------------------------------------------
-- Operators in formulas

/-- Whatever becomes of a text, the operators of its target play no part in it. -/
theorem parse_map_maskOperator (cut : CutAt text.toList target side)
    : parse (String.ofList (target.map maskOperator ++ '=' :: side)) = parse text := by
  have masked := cut.map_maskOperator.squeeze
  rw [squeeze_map_maskOperator] at masked
  unfold parse parseChars
  rw [String.toList_ofList, masked.sides_eq, cut.squeeze.sides_eq]
  change readTarget _ >>= _ = readTarget _ >>= _
  rw [readTarget_map_maskOperator]

/-- A text that is read has a single operator to the right of its equals sign. It has others when
its target holds some, and these are taken into the name: with underscores in their place the text
has one operator and is read as the same formula.
-/
theorem exists_oneOperator_of_parse (read : parse text = .ok f)
    : ∃ target side,
        CutAt text.toList target side
        ∧ side.countP isOperator = 1
        ∧ text.toList.countP isOperator = target.countP isOperator + 1
        ∧ parse (String.ofList (target.map maskOperator ++ '=' :: side)) = .ok f
        ∧ (target.map maskOperator ++ '=' :: side).countP isOperator = 1 := by
  obtain ⟨left, right, parts, -, made, -⟩ := parseChars_eq_ok_iff_sides.mp read
  obtain ⟨target, side, cut⟩ := exists_cutAt (sides_eq_ok_iff.mp parts).2
  obtain ⟨rfl, rfl⟩ : Text.squeeze target = left ∧ Text.squeeze side = right := by
    simpa [cut.squeeze.sides_eq] using parts
  obtain ⟨-, -, -, -, one, -⟩ := readRelation_eq_ok_iff.mp made
  rw [countP_isOperator_squeeze] at one
  have total (front : List Char)
      : (front ++ '=' :: side).countP isOperator = front.countP isOperator + 1 := by
    rw [List.countP_append, List.countP_cons_of_neg (by decide), one]
  have none : (target.map maskOperator).countP isOperator = 0 := by
    simp [List.countP_eq_zero, isOperator_maskOperator]
  refine ⟨target, side, cut, one, cut.text ▸ total target, ?_, ?_⟩
  · rw [parse_map_maskOperator cut, read]
  · rw [total, none]

/-- Both hyphens are taken into the name, and one operator is left. -/
theorem hyphenatedTarget_isRead
    : parse "Left-hand-hip = waist / 0.5"
        = .ok { target := .named "left_hand_hip", relation := .ratio (.named "waist") 2.0 }
      ∧ ∃ target side,
          CutAt "Left-hand-hip = waist / 0.5".toList target side
          ∧ side.countP isOperator = 1
          ∧ "Left-hand-hip = waist / 0.5".toList.countP isOperator
              = target.countP isOperator + 1
          ∧ parse (String.ofList (target.map maskOperator ++ '=' :: side))
              = .ok { target := .named "left_hand_hip", relation := .ratio (.named "waist") 2.0 }
          ∧ (target.map maskOperator ++ '=' :: side).countP isOperator = 1 := by
  have read
      : parse "Left-hand-hip = waist / 0.5"
        = .ok { target := .named "left_hand_hip", relation := .ratio (.named "waist") 2.0 } := by
    decide +kernel
  exact ⟨read, exists_oneOperator_of_parse read⟩

theorem signedTarget_isRead
    : ¬ ∀ text f, parse text = .ok f → text.toList.countP isOperator = 1 := by
  intro single
  have read
      : parse "a-b = c + d"
        = .ok { target := .named "a_b", relation := .combine (.named "c") .add (.named "d") } := by
    decide +kernel
  have one := single "a-b = c + d" _ read
  revert one
  decide +kernel

end MeasureSheet.Formula
