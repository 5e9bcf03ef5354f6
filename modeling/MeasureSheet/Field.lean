import MeasureSheet.Text.Blank

/-! Measurement names. A field is a name in canonical form: lower-case letters, digits and
underscores, no two underscores side by side. Every text has a canonical form, and fields are
ordered as their texts are.
-/

namespace MeasureSheet

-- -----------------------------------------------------------------------------------------------
-- Canonical names

/-- The characters of a canonical name. -/
def isNameChar (c : Char) : Bool :=
  c.isLower || c.isDigit || c == '_'

/-- No two underscores stand side by side. -/
def SingleUnderscores : List Char → Prop
  | [] => True
  | c :: cs => ¬ (c = '_' ∧ cs.head? = some '_') ∧ SingleUnderscores cs

structure CanonicalName (cs : List Char) : Prop where
  nameChars : ∀ c ∈ cs, isNameChar c
  singleUnderscores : SingleUnderscores cs

/-- A measurement name in canonical form. -/
structure Field where
  chars : List Char
  canonical : CanonicalName chars
deriving DecidableEq

-- -----------------------------------------------------------------------------------------------
-- The canonical form of a text

/-- What one character becomes in a canonical name: its lower case, with an underscore for every
character that is no ASCII letter or digit. Two characters outside ASCII have a lower case that
holds an ASCII letter: the Kelvin sign, and the capital I with a dot above, whose lower case is an
`i` followed by a combining dot.
-/
def spell (c : Char) : List Char :=
  if c.isUpper then [c.toLower]
  else if c.isLower || c.isDigit then [c]
  else if c = '\u212A' then ['k']
  else if c = '\u0130' then ['i', '_']
  else ['_']

/-- One underscore for each run of them. -/
def collapse : List Char → List Char
  | [] => []
  | c :: cs => if c = '_' ∧ cs.head? = some '_' then collapse cs else c :: collapse cs

/-- The canonical form: blanks at the ends dropped, each character spelled, underscores collapsed.
-/
def canonicalChars (cs : List Char) : List Char :=
  collapse ((Text.trim cs).flatMap spell)

theorem isNameChar_of_mem_spell {c d : Char} (h : d ∈ spell c) : isNameChar d := by
  unfold spell at h
  split at h
  case isTrue hUpper =>
    obtain rfl : d = c.toLower := by simpa using h
    have hLe : 'A'.val ≤ c.val ∧ c.val ≤ 'Z'.val := of_decide_eq_true hUpper
    have hVal : c.toLower.val = c.val + ('a'.val - 'A'.val) := congrArg Char.val (dif_pos hLe)
    have hLower : 'a'.val ≤ c.toLower.val ∧ c.toLower.val ≤ 'z'.val := by
      rw [hVal]
      simp only [UInt32.le_iff_toNat_le, UInt32.toNat_add] at hLe ⊢
      simp at hLe ⊢
      omega
    have hIsLower : c.toLower.isLower :=
      Bool.and_eq_true_iff.mpr ⟨decide_eq_true hLower.1, decide_eq_true hLower.2⟩
    simp [isNameChar, hIsLower]
  case isFalse =>
    split at h
    case isTrue hName =>
      obtain rfl : d = c := by simpa using h
      simpa [isNameChar] using Or.inl hName
    case isFalse =>
      split at h
      · obtain rfl : d = 'k' := by simpa using h
        decide
      · split at h
        · rcases (by simpa using h : d = 'i' ∨ d = '_') with rfl | rfl <;> decide
        · obtain rfl : d = '_' := by simpa using h
          decide

theorem head?_collapse (cs : List Char) : (collapse cs).head? = cs.head? := by
  induction cs with
  | nil => rfl
  | cons c cs ih =>
      unfold collapse
      split
      case isTrue h => rw [ih, h.2, h.1, List.head?_cons]
      case isFalse => simp

theorem mem_of_mem_collapse {c : Char} {cs : List Char} (h : c ∈ collapse cs) : c ∈ cs := by
  induction cs with
  | nil => exact h
  | cons d cs ih =>
      unfold collapse at h
      split at h
      · exact List.mem_cons_of_mem _ (ih h)
      · rcases List.mem_cons.1 h with rfl | h
        · exact List.mem_cons_self
        · exact List.mem_cons_of_mem _ (ih h)

theorem singleUnderscores_collapse (cs : List Char) : SingleUnderscores (collapse cs) := by
  induction cs with
  | nil => trivial
  | cons c cs ih =>
      unfold collapse
      split
      · exact ih
      case isFalse h => exact ⟨by rwa [head?_collapse], ih⟩

theorem canonicalName_canonicalChars (cs : List Char) : CanonicalName (canonicalChars cs) where
  nameChars c h := by
    obtain ⟨d, -, hd⟩ := List.mem_flatMap.1 (mem_of_mem_collapse h)
    exact isNameChar_of_mem_spell hd
  singleUnderscores := singleUnderscores_collapse _

namespace Field

/-- The field that a list of characters names. -/
def ofChars (cs : List Char) : Field where
  chars := canonicalChars cs
  canonical := canonicalName_canonicalChars cs

/-- The field that a text names. -/
def named (text : String) : Field :=
  ofChars text.toList

def text (f : Field) : String :=
  String.ofList f.chars

instance : Inhabited Field := ⟨named ""⟩

instance : ToString Field := ⟨text⟩

/-- The name says nothing: it has neither a letter nor a digit. -/
def isBlank (f : Field) : Bool :=
  f.chars.isEmpty || f.chars == ['_']

theorem ext_chars {f g : Field} (h : f.chars = g.chars) : f = g := by
  cases f; cases g; simp_all

-- -----------------------------------------------------------------------------------------------
-- Lexical order

instance : LT Field := ⟨fun f g => f.chars < g.chars⟩

instance (f g : Field) : Decidable (f < g) :=
  inferInstanceAs (Decidable (f.chars < g.chars))

protected theorem lt_irrefl (f : Field) : ¬ f < f :=
  List.lt_irrefl f.chars

protected theorem lt_trans {f g h : Field} (hfg : f < g) (hgh : g < h) : f < h :=
  List.lt_trans (α := Char) hfg hgh

protected theorem lt_asymm {f g : Field} (h : f < g) : ¬ g < f :=
  fun h' => f.lt_irrefl (Field.lt_trans h h')

protected theorem ne_of_lt {f g : Field} (h : f < g) : f ≠ g :=
  fun h' => g.lt_irrefl (h' ▸ h)

/-- Of two different fields one comes first. -/
protected theorem lt_of_not_lt_of_ne {f g : Field} (h : ¬ f < g) (hne : f ≠ g) : g < f := by
  apply Decidable.byContradiction
  intro h'
  exact hne (ext_chars (List.le_antisymm (α := Char) h' h))

-- -----------------------------------------------------------------------------------------------
-- Ascending lists of fields

/-- Puts a field into an ascending list, unless it is there already. -/
def insertAscending (f : Field) : List Field → List Field
  | [] => [f]
  | g :: gs => if f < g then f :: g :: gs else if f = g then g :: gs else g :: insertAscending f gs

/-- The members of a list in lexical order, each once. -/
def ascending (fs : List Field) : List Field :=
  fs.foldr insertAscending []

theorem mem_insertAscending {f g : Field} {gs : List Field}
    : g ∈ insertAscending f gs ↔ g = f ∨ g ∈ gs := by
  induction gs with
  | nil => simp [insertAscending]
  | cons h hs ih =>
      unfold insertAscending
      split
      · simp
      · split
        case isTrue hEq => subst hEq; simp
        case isFalse => simp only [List.mem_cons, ih]; grind

theorem pairwise_insertAscending {f : Field} {gs : List Field} (h : gs.Pairwise (· < ·))
    : (insertAscending f gs).Pairwise (· < ·) := by
  induction gs with
  | nil => simp [insertAscending]
  | cons g gs ih =>
      rw [List.pairwise_cons] at h
      unfold insertAscending
      split
      case isTrue hlt =>
        refine List.pairwise_cons.2 ⟨fun k hk => ?_, List.pairwise_cons.2 h⟩
        rcases List.mem_cons.1 hk with rfl | hk
        · exact hlt
        · exact Field.lt_trans hlt (h.1 k hk)
      case isFalse hlt =>
        split
        · exact List.pairwise_cons.2 h
        case isFalse hne =>
          refine List.pairwise_cons.2 ⟨fun k hk => ?_, ih h.2⟩
          rcases mem_insertAscending.1 hk with rfl | hk
          · exact Field.lt_of_not_lt_of_ne hlt hne
          · exact h.1 k hk

@[simp] theorem mem_ascending {f : Field} {fs : List Field} : f ∈ ascending fs ↔ f ∈ fs := by
  induction fs with
  | nil => simp [ascending]
  | cons g gs ih =>
      change f ∈ insertAscending g (ascending gs) ↔ f ∈ g :: gs
      rw [mem_insertAscending, ih, List.mem_cons]

theorem pairwise_ascending (fs : List Field) : (ascending fs).Pairwise (· < ·) := by
  induction fs with
  | nil => exact List.Pairwise.nil
  | cons g gs ih => exact pairwise_insertAscending ih

end Field

end MeasureSheet
