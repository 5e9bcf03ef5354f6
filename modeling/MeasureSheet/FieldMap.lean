import MeasureSheet.Field

/-! Finite maps keyed by fields, held as lists in ascending order of their keys. A map has one
representation, so equal maps are those with equal look-ups, and listing a map is reading its
entries.
-/

namespace MeasureSheet

structure FieldMap (α : Type) where
  entries : List (Field × α)
  ascending : entries.Pairwise fun p q => p.1 < q.1
deriving DecidableEq

namespace FieldMap

variable {α β : Type}

-- -----------------------------------------------------------------------------------------------
-- Entry lists

/-- The value beside a key. -/
def lookup (f : Field) : List (Field × α) → Option α
  | [] => none
  | (g, a) :: rest => if f = g then some a else lookup f rest

/-- Puts an entry in its place, over the one that has its key. -/
def place (f : Field) (a : α) : List (Field × α) → List (Field × α)
  | [] => [(f, a)]
  | (g, b) :: rest =>
      if f < g then (f, a) :: (g, b) :: rest
      else if f = g then (f, a) :: rest
      else (g, b) :: place f a rest

def remove (f : Field) (entries : List (Field × α)) : List (Field × α) :=
  entries.filter fun p => p.1 ≠ f

theorem mem_place {f : Field} {a : α} {p : Field × α} {entries : List (Field × α)}
    (h : p ∈ place f a entries)
    : p = (f, a) ∨ p ∈ entries := by
  induction entries with
  | nil => simpa [place] using h
  | cons q rest ih =>
      unfold place at h
      split at h
      · simpa using h
      · split at h
        · rcases List.mem_cons.1 h with h | h
          · exact Or.inl h
          · exact Or.inr (List.mem_cons_of_mem _ h)
        · rcases List.mem_cons.1 h with rfl | h
          · exact Or.inr List.mem_cons_self
          · exact (ih h).imp_right (List.mem_cons_of_mem _)

theorem pairwise_place {f : Field} {a : α} {entries : List (Field × α)}
    (h : entries.Pairwise fun p q => p.1 < q.1)
    : (place f a entries).Pairwise fun p q => p.1 < q.1 := by
  induction entries with
  | nil => simp [place]
  | cons q rest ih =>
      rw [List.pairwise_cons] at h
      unfold place
      split
      case isTrue hlt =>
        refine List.pairwise_cons.2 ⟨fun p hp => ?_, List.pairwise_cons.2 h⟩
        rcases List.mem_cons.1 hp with rfl | hp
        · exact hlt
        · exact Field.lt_trans hlt (h.1 p hp)
      case isFalse hlt =>
        split
        case isTrue heq =>
          exact List.pairwise_cons.2 ⟨fun p hp => heq ▸ h.1 p hp, h.2⟩
        case isFalse hne =>
          refine List.pairwise_cons.2 ⟨fun p hp => ?_, ih h.2⟩
          rcases mem_place hp with rfl | hp
          · exact Field.lt_of_not_lt_of_ne hlt hne
          · exact h.1 p hp

theorem lookup_place (f g : Field) (a : α) (entries : List (Field × α))
    : lookup g (place f a entries) = if g = f then some a else lookup g entries := by
  induction entries with
  | nil => simp [place, lookup]
  | cons q rest ih =>
      unfold place
      split
      · simp [lookup]
      · split
        case isTrue heq => by_cases h : g = f <;> simp_all [lookup]
        case isFalse hne =>
          simp only [lookup, ih]
          by_cases h : g = q.1
          · simp [h, Ne.symm hne]
          · simp [h]

-- -----------------------------------------------------------------------------------------------
-- Maps

def empty : FieldMap α where
  entries := []
  ascending := List.Pairwise.nil

instance : EmptyCollection (FieldMap α) := ⟨empty⟩

instance : Inhabited (FieldMap α) := ⟨∅⟩

instance [BEq α] : BEq (FieldMap α) := ⟨fun m n => m.entries == n.entries⟩

def find? (m : FieldMap α) (f : Field) : Option α :=
  lookup f m.entries

def contains (m : FieldMap α) (f : Field) : Bool :=
  (m.find? f).isSome

def insert (m : FieldMap α) (f : Field) (a : α) : FieldMap α where
  entries := place f a m.entries
  ascending := pairwise_place m.ascending

def erase (m : FieldMap α) (f : Field) : FieldMap α where
  entries := remove f m.entries
  ascending := m.ascending.filter _

/-- Applies a function to every key with its value. -/
def map (m : FieldMap α) (g : Field → α → β) : FieldMap β where
  entries := m.entries.map fun p => (p.1, g p.1 p.2)
  ascending := List.pairwise_map.2 m.ascending

/-- The keys in ascending order. -/
def keys (m : FieldMap α) : List Field :=
  m.entries.map (·.1)

def values (m : FieldMap α) : List α :=
  m.entries.map (·.2)

def size (m : FieldMap α) : Nat :=
  m.entries.length

def isEmpty (m : FieldMap α) : Bool :=
  m.entries.isEmpty

/-- The map of a list of pairs, where of two pairs with one key the later counts. -/
def ofList (pairs : List (Field × α)) : FieldMap α :=
  pairs.foldl (fun m p => m.insert p.1 p.2) ∅

@[simp] theorem find?_empty (f : Field) : (∅ : FieldMap α).find? f = none :=
  rfl

theorem find?_insert (m : FieldMap α) (f g : Field) (a : α)
    : (m.insert f a).find? g = if g = f then some a else m.find? g :=
  lookup_place f g a m.entries

theorem find?_map (m : FieldMap α) (g : Field → α → β) (f : Field)
    : (m.map g).find? f = (m.find? f).map (g f) := by
  simp only [find?, map]
  induction m.entries with
  | nil => rfl
  | cons p rest ih =>
      by_cases h : f = p.1 <;> simp_all [lookup]

theorem pairwise_keys (m : FieldMap α) : m.keys.Pairwise (· < ·) :=
  List.pairwise_map.2 m.ascending

theorem mem_keys_iff_contains {m : FieldMap α} {f : Field} : f ∈ m.keys ↔ m.contains f := by
  simp only [keys, contains, find?]
  induction m.entries with
  | nil => simp [lookup]
  | cons p rest ih =>
      by_cases h : f = p.1
      · simp [lookup, h]
      · simpa [lookup, h] using ih

end FieldMap

end MeasureSheet
