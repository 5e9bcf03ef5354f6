import MeasureSheet.Relation

/-! What relations come to. A relation has a value only where each of its inputs has one, and the
value is finite, whatever numbers the inputs are.
-/

namespace MeasureSheet

theorem isFinite_of_finite? {x y : Float} (kept : finite? x = some y) : y.isFinite := by
  obtain ⟨finite, rfl⟩ := finite?_eq_some_iff.mp kept
  exact finite

namespace Relation

variable {known : Field → Option Float} {r : Relation} {x : Float}

/-- A relation has a value only where each of its inputs has one. -/
theorem isSome_of_evaluate (follows : r.evaluate known = some x)
    : ∀ f ∈ r.inputs, (known f).isSome := by
  have isSome {o : Option Float} {y : Float} (found : o = some y) : o.isSome := by simp [found]
  cases r with
  | proportion | ratio | offset =>
      obtain ⟨y, found, -⟩ := Option.bind_eq_some_iff.mp follows
      simpa [inputs] using isSome found
  | combine lhs op rhs =>
      obtain ⟨y, left, follows⟩ := Option.bind_eq_some_iff.mp follows
      obtain ⟨z, right, -⟩ := Option.bind_eq_some_iff.mp follows
      simpa [inputs] using And.intro (isSome left) (isSome right)

theorem isFinite_of_evaluate (follows : r.evaluate known = some x) : x.isFinite := by
  cases r with
  | proportion | ratio | offset =>
      obtain ⟨y, -, follows⟩ := Option.bind_eq_some_iff.mp follows
      exact isFinite_of_finite? follows
  | combine lhs op rhs =>
      obtain ⟨y, -, follows⟩ := Option.bind_eq_some_iff.mp follows
      obtain ⟨z, -, follows⟩ := Option.bind_eq_some_iff.mp follows
      cases op <;> exact isFinite_of_finite? follows

end Relation

end MeasureSheet
