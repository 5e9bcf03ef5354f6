import MeasureSheet.FieldMap

/-! The entries of a finite map. A map is determined by its look-ups, and insertion and removal
change one place of its entry list.
-/

namespace MeasureSheet.FieldMap

variable {α : Type}

/-- A key that stands before every entry has no value, by induction on the entries. -/
theorem lookup_eq_none_of_below {f : Field} {entries : List (Field × α)}
    (below : ∀ p ∈ entries, f < p.1)
    : lookup f entries = none := by
  induction entries with
  | nil => rfl
  | cons p rest ih =>
      have different : f ≠ p.1 := Field.ne_of_lt (below p List.mem_cons_self)
      simp only [lookup, different, if_false]
      exact ih fun q member => below q (List.mem_cons_of_mem _ member)

/-- Look-up among ascending entries finds exactly the values that stand beside the key. -/
theorem lookup_eq_some_iff {f : Field} {a : α} {entries : List (Field × α)}
    (ascending : entries.Pairwise fun p q => p.1 < q.1)
    : lookup f entries = some a ↔ (f, a) ∈ entries := by
  induction entries with
  | nil => simp [lookup]
  | cons p rest ih =>
      obtain ⟨above, ascending⟩ := List.pairwise_cons.mp ascending
      by_cases same : f = p.1
      · subst same
        have absent : (p.1, a) ∉ rest := fun member => p.1.lt_irrefl (above (p.1, a) member)
        simp only [lookup, if_true, Option.some.injEq, List.mem_cons, absent, or_false]
        exact ⟨fun h => h ▸ rfl, fun h => (congrArg Prod.snd h).symm⟩
      · have different : (f, a) ≠ p := fun h => same (congrArg Prod.fst h)
        simp only [lookup, same, if_false, List.mem_cons, different, false_or]
        exact ih ascending

theorem find?_eq_some_iff {m : FieldMap α} {f : Field} {a : α}
    : m.find? f = some a ↔ (f, a) ∈ m.entries :=
  lookup_eq_some_iff m.ascending

/-- The entries hold no pair twice, since their keys ascend. -/
theorem nodup_entries (m : FieldMap α) : m.entries.Nodup := by
  refine m.ascending.imp fun {p q} below same => ?_
  subst same
  exact p.1.lt_irrefl below

/-- Maps with equal look-ups are equal: their entries agree up to order, and the order is fixed. -/
theorem ext_find? {m n : FieldMap α} (same : ∀ f, m.find? f = n.find? f) : m = n := by
  have perm : m.entries.Perm n.entries := by
    rw [List.perm_ext_iff_of_nodup m.nodup_entries n.nodup_entries]
    intro p
    rw [← find?_eq_some_iff, same, find?_eq_some_iff]
  have equal : m.entries = n.entries :=
    perm.eq_of_pairwise (fun p q _ _ hpq hqp => absurd hqp (Field.lt_asymm hpq))
      m.ascending n.ascending
  cases m
  cases n
  simpa using equal

/-- Every key divides the entries into those before it and those behind it. Its own entry, if it has
one, stands between them, and so does the entry that an insertion leaves.
-/
theorem exists_surroundings (m : FieldMap α) (f : Field)
    : ∃ front back,
        m.entries = front ++ (m.find? f).toList.map (f, ·) ++ back
        ∧ (∀ a, (m.insert f a).entries = front ++ (f, a) :: back)
        ∧ (m.erase f).entries = front ++ back := by
  obtain ⟨entries, ascending⟩ := m
  simp only [find?, insert, erase]
  induction entries with
  | nil => exact ⟨[], [], rfl, fun a => rfl, rfl⟩
  | cons p rest ih =>
      obtain ⟨above, restAscending⟩ := List.pairwise_cons.mp ascending
      by_cases before : f < p.1
      · have below : ∀ q ∈ p :: rest, f < q.1 := by
          intro q member
          rcases List.mem_cons.mp member with rfl | member
          · exact before
          · exact Field.lt_trans before (above q member)
        refine ⟨[], p :: rest, ?_, fun a => by simp [place, before], ?_⟩
        · simp [lookup_eq_none_of_below below]
        · exact List.filter_eq_self.mpr fun q member =>
            decide_eq_true (Field.ne_of_lt (below q member)).symm
      · by_cases same : f = p.1
        · subst same
          refine ⟨[], rest, by simp [lookup], fun a => by simp [place, before], ?_⟩
          simp only [remove, List.filter_cons, ne_eq, not_true_eq_false, decide_false,
            Bool.false_eq_true, if_false, List.nil_append]
          exact List.filter_eq_self.mpr fun q member =>
            decide_eq_true (Field.ne_of_lt (above q member)).symm
        · obtain ⟨front, back, found, inserted, erased⟩ := ih restAscending
          refine ⟨p :: front, back, ?_, fun a => ?_, ?_⟩
          · simpa [lookup, same] using found
          · simpa [place, before, same] using inserted a
          · simpa [remove, Ne.symm same] using erased

-- -----------------------------------------------------------------------------------------------
-- Maps of lists

/-- A key behind every other is placed at the end, by induction on the entries. -/
theorem place_of_above {f : Field} {a : α} {entries : List (Field × α)}
    (above : ∀ p ∈ entries, p.1 < f)
    : place f a entries = entries ++ [(f, a)] := by
  induction entries with
  | nil => rfl
  | cons p rest ih =>
      have before : p.1 < f := above p List.mem_cons_self
      rw [place, if_neg (Field.lt_asymm before), if_neg (Field.ne_of_lt before).symm,
        ih fun q member => above q (List.mem_cons_of_mem p member), List.cons_append]

/-- Pairs that ascend are entered one behind the other, by induction on them. -/
theorem entries_foldl_insert {pairs : List (Field × α)} {m : FieldMap α}
    (ascending : (m.entries ++ pairs).Pairwise fun p q => p.1 < q.1)
    : (pairs.foldl (fun m p => m.insert p.1 p.2) m).entries = m.entries ++ pairs := by
  induction pairs generalizing m with
  | nil => rw [List.foldl_nil, List.append_nil]
  | cons p pairs ih =>
      have last : (m.insert p.1 p.2).entries = m.entries ++ [p] := by
        refine place_of_above fun q member => ?_
        exact (List.pairwise_append.mp ascending).2.2 q member p List.mem_cons_self
      have split : (m.insert p.1 p.2).entries ++ pairs = m.entries ++ p :: pairs := by
        rw [last, List.append_assoc, List.singleton_append]
      rw [List.foldl_cons, ih (by rwa [split]), split]

/-- Pairs that ascend are the entries of their map. -/
theorem entries_ofList {pairs : List (Field × α)}
    (ascending : pairs.Pairwise fun p q => p.1 < q.1)
    : (ofList pairs).entries = pairs :=
  entries_foldl_insert (m := ∅) ascending

/-- A map is the map of its entries. -/
theorem ofList_entries (m : FieldMap α) : ofList m.entries = m := by
  have same := entries_ofList m.ascending
  cases listed : ofList m.entries
  cases m
  simp_all

end MeasureSheet.FieldMap
