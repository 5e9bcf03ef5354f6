import MeasureSheet.Derivation

/-! Indentation of derivations. A line is indented by one group of three characters for every step
of the way down to its place, and the groups of a child follow from the text of its parent's alone.
-/

namespace MeasureSheet.Derivation

/-- The group of a place itself: a branch, which is bent at a last child. -/
def branch (last : Bool) : String :=
  if last then "`--" else "|--"

/-- The group of a place further up: its line goes on, unless it was a last child. -/
def trunk (last : Bool) : String :=
  if last then "   " else "|  "

/-- The groups of all places on a way, as the places below continue them. -/
def stem (way : List Bool) : String :=
  String.join (way.map trunk)

/-- The indentation at the end of a way down from the root, which tells for every place on it
whether it is a last child.
-/
def indent (way : List Bool) : String :=
  stem way.dropLast ++ String.join (way.getLast?.toList.map branch)

theorem stem_append_singleton (way : List Bool) (last : Bool)
    : stem (way ++ [last]) = stem way ++ trunk last := by
  simp [stem]

theorem indent_append_singleton (way : List Bool) (last : Bool)
    : indent (way ++ [last]) = stem way ++ branch last := by
  simp [indent]

theorem length_stem (way : List Bool) : (stem way).length = 3 * way.length := by
  induction way with
  | nil => rfl
  | cons last way ih =>
      have group : (trunk last).length = 3 := by cases last <;> rfl
      rw [stem, List.map_cons, String.join_cons, String.length_append, ← stem, ih, group,
        List.length_cons]
      omega

theorem length_indent (way : List Bool) : (indent way).length = 3 * way.length := by
  rcases List.eq_nil_or_concat way with rfl | ⟨above, last, rfl⟩
  · rfl
  · have group : (branch last).length = 3 := by cases last <;> rfl
    rw [List.concat_eq_append, indent_append_singleton, String.length_append, length_stem, group,
      List.length_append]
    rfl

/-- The last child of the last child of a first one. -/
example : indent [false, true, true] = "|     `--" :=
  rfl

-- -----------------------------------------------------------------------------------------------
-- Replacement of groups

/-- Replaces every occurrence of three characters, from left to right. -/
def replaceGroup (a b c : Char) (new : List Char) : List Char → List Char
  | x :: y :: z :: rest =>
      if x = a ∧ y = b ∧ z = c then new ++ replaceGroup a b c new rest
      else x :: replaceGroup a b c new (y :: z :: rest)
  | short => short

/-- Makes trunks of branches: those that are bent end, and the others go on. -/
def continueBranches (cs : List Char) : List Char :=
  replaceGroup '|' '-' '-' ['|', ' ', ' '] (replaceGroup '`' '-' '-' [' ', ' ', ' '] cs)

theorem replaceGroup_cons_of_ne {a b c x : Char} {new : List Char} (different : x ≠ a)
    (rest : List Char)
    : replaceGroup a b c new (x :: rest) = x :: replaceGroup a b c new rest := by
  match rest with
  | [] | [y] => rfl
  | y :: z :: rest => rw [replaceGroup, if_neg fun same => different same.1]

/-- Trunks stay as they are, and keep apart from what follows them. -/
theorem continueBranches_trunk (last : Bool) (rest : List Char)
    : continueBranches ((trunk last).toList ++ rest)
      = (trunk last).toList ++ continueBranches rest := by
  have blank {a b c : Char} (other : ' ' ≠ a) (new rest : List Char)
      : replaceGroup a b c new (' ' :: rest) = ' ' :: replaceGroup a b c new rest :=
    replaceGroup_cons_of_ne other rest
  cases last with
  | true =>
      have chars : (trunk true).toList = [' ', ' ', ' '] := rfl
      simp only [chars, continueBranches, List.cons_append, List.nil_append,
        blank (by decide : ' ' ≠ '`'), blank (by decide : ' ' ≠ '|')]
  | false =>
      have chars : (trunk false).toList = ['|', ' ', ' '] := rfl
      have bar (rest : List Char)
          : replaceGroup '|' '-' '-' ['|', ' ', ' '] ('|' :: ' ' :: ' ' :: rest)
            = '|' :: replaceGroup '|' '-' '-' ['|', ' ', ' '] (' ' :: ' ' :: rest) :=
        if_neg (by decide)
      simp only [chars, continueBranches, List.cons_append, List.nil_append,
        replaceGroup_cons_of_ne (by decide : '|' ≠ '`'), blank (by decide : ' ' ≠ '`'), bar,
        blank (by decide : ' ' ≠ '|')]

theorem continueBranches_branch (last : Bool)
    : continueBranches (branch last).toList = (trunk last).toList := by
  cases last <;> rfl

/-- The stem below a place is its indentation with branches made trunks, by induction on the way. -/
theorem continueBranches_indent (way : List Bool)
    : continueBranches (indent way).toList = (stem way).toList := by
  have general (above : List Bool) (rest : List Char)
      : continueBranches ((stem above).toList ++ rest)
        = (stem above).toList ++ continueBranches rest := by
    induction above with
    | nil => rfl
    | cons last above ih =>
        have chars : (stem (last :: above)).toList
            = (trunk last).toList ++ (stem above).toList := by
          rw [stem, List.map_cons, String.join_cons, String.toList_append, ← stem]
        rw [chars, List.append_assoc, continueBranches_trunk, ih, List.append_assoc]
  rcases List.eq_nil_or_concat way with rfl | ⟨above, last, rfl⟩
  · rfl
  · rw [List.concat_eq_append, indent_append_singleton, String.toList_append, general,
      continueBranches_branch, stem_append_singleton, String.toList_append]

end MeasureSheet.Derivation
