import MeasureSheet.Proofs.Inference.Explanation

/-! Locality of inference. What a field is inferred to be depends on the fields that it is derived
from over any number of rules, on what was known for them and on their rules, and on nothing else.
-/

namespace MeasureSheet.RuleTable

variable {t t' : RuleTable}

/-- Tables with the same candidates for a field and all from which it is reached, over records with
the same measurements of these, infer the same for the field, by induction along the dependencies.
-/
theorem infer_of_ancestors (accepted : t.check = .ok ()) (accepted' : t'.check = .ok ())
    {given given' : Record} {f : Field}
    (candidates : ∀ g, t.graph.Reaches g f → t'.candidates g = t.candidates g)
    (known : ∀ g, t.graph.Reaches g f → given'.measurement? g = given.measurement? g)
    : (t'.infer given').measurement? f = (t.infer given).measurement? f := by
  have coherent := check_eq_ok_iff_coherent.mp accepted
  have coherent' := check_eq_ok_iff_coherent.mp accepted'
  induction f using coherent.acyclic.wellFounded.induction with
  | h f ih =>
      have self : t.graph.Reaches f f := Relation.ReflTransGen.refl
      rw [coherent'.measurement?_infer, coherent.measurement?_infer, candidates f self,
        known f self]
      congr 1
      apply answer?_congr
      intro r candidate base input
      have step := coherent.derives_of_candidate candidate input
      -- What reaches an input of a candidate reaches the field.
      have further {g : Field} (path : t.graph.Reaches g base) : t.graph.Reaches g f :=
        path.tail step
      exact Record.value?_congr
        (ih base step (fun g path => candidates g (further path))
          (fun g path => known g (further path)))

/-- A table with the rules for the hip and the thigh, and others for the calf and what follows it.
-/
def calfTable : RuleTable where
  order := [.named "calf", .named "hip", .named "thigh", .named "ankle"]
  book := .ofRules [
    {
      id := .ofRow 0,
      target := .named "hip",
      relation := .combine (.named "waist") .divide (.named "belt"),
      priority := 1
    },
    {
      id := .ofRow 1,
      target := .named "hip",
      relation := .proportion (.named "waist") 1.5,
      priority := 2
    },
    {
      id := .ofRow 2,
      target := .named "thigh",
      relation := .offset (.named "hip") (-40.0),
      priority := 1
    },
    {
      id := .ofRow 7,
      target := .named "calf",
      relation := .proportion (.named "waist") 0.5,
      priority := 1
    },
    {
      id := .ofRow 3,
      target := .named "ankle",
      relation := .combine (.named "calf") .subtract (.named "thigh"),
      priority := 1
    }
  ]
  descriptions := ∅

theorem thigh_infer_calfTable
    : let t := figureTable [.named "hip", .named "thigh", .named "calf"]
      let given' : Record :=
        .ofKnown [("waist", some 70.0), ("height", some 180.0), ("ankle", some 24.0),
          ("belt", some 0.0)]
      t.check = .ok ()
      ∧ calfTable.check = .ok ()
      ∧ (∀ g, t.graph.Reaches g (.named "thigh") → calfTable.candidates g = t.candidates g)
      ∧ (∀ g,
          t.graph.Reaches g (.named "thigh") → given'.measurement? g = figure.measurement? g)
      ∧ (calfTable.infer given').measurement? (.named "thigh")
        = (t.infer figure).measurement? (.named "thigh") := by
  intro t given'
  have accepted : t.check = .ok () := rfl
  have accepted' : calfTable.check = .ok () := by decide +kernel
  let ancestry := [Field.named "thigh", .named "hip", .named "waist", .named "belt"]
  have inside {g : Field} (path : t.graph.Reaches g (.named "thigh")) : g ∈ ancestry :=
    path.mem_of_mem (by decide +kernel) List.mem_cons_self
  have alike
      : ∀ g ∈ ancestry,
          calfTable.candidates g = t.candidates g
          ∧ given'.measurement? g = figure.measurement? g := by
    decide +kernel
  have candidates g (path : t.graph.Reaches g (.named "thigh")) := (alike g (inside path)).1
  have known g (path : t.graph.Reaches g (.named "thigh")) := (alike g (inside path)).2
  exact ⟨accepted, accepted', candidates, known,
    infer_of_ancestors accepted accepted' candidates known⟩

end MeasureSheet.RuleTable
