import PropStyling.Proofs.Keyed
import PropStyling.Value.Cascade

/-! # Cascades of one shape

Objects cascade onto objects, texts onto texts and lists onto lists; in front of any
other value the earlier one is lost, whatever it is. Across shapes a cascade is not
associative, since a list between two objects drops the first of them. Among values of
one shape it is, so a run of them may be cascaded by itself before it goes onto what
stands before the run. Objects hold no name twice, as in every object of a
configuration.
-/
namespace PropStyling

theorem joinClasses_assoc (first middle last : String) :
    joinClasses (joinClasses first middle) last = joinClasses first (joinClasses middle last) := by
  by_cases hf : first.isEmpty = true
  · simp [joinClasses, hf]
  · by_cases hm : middle.isEmpty = true
    · simp [joinClasses, hf, hm]
    · by_cases hl : last.isEmpty = true
      · simp [joinClasses, hf, hm, hl]
      · simp [joinClasses, hf, hm, hl, String.append_assoc]

inductive Shape where
  | object
  | text
  | list
  | other
deriving DecidableEq

namespace Value

def shape : Value → Shape
  | .object _ => .object
  | .string _ => .text
  | .array _ => .list
  | _ => .other

def HasDistinctNames : Value → Prop
  | .object fields => (Fields.names fields).Nodup
  | _ => True

instance : DecidablePred HasDistinctNames
  | .object fields => inferInstanceAs (Decidable (Fields.names fields).Nodup)
  | .null => isTrue trivial
  | .bool _ => isTrue trivial
  | .number _ => isTrue trivial
  | .string _ => isTrue trivial
  | .array _ => isTrue trivial

theorem shape_cascade (earlier later : Value) :
    (earlier.cascade later).shape = later.shape := by
  cases earlier <;> cases later <;> rfl

theorem cascade_of_other {earlier later : Value} (h : later.shape = .other) :
    earlier.cascade later = later := by
  cases later with
  | object _ => cases h
  | string _ => cases h
  | array _ => cases h
  | _ => cases earlier <;> rfl

theorem hasDistinctNames_cascade {earlier later : Value} (he : earlier.HasDistinctNames)
    (hl : later.HasDistinctNames) : (earlier.cascade later).HasDistinctNames := by
  cases later with
  | object fields =>
    cases earlier with
    | object first => exact Fields.nodup_names_merge fields he
    | _ => exact hl
  | _ => cases earlier <;> exact trivial

/-- Values of one shape cascade in turn or at once. -/
theorem cascade_assoc (first : Value) {middle last : Value} (hs : middle.shape = last.shape)
    (hd : middle.HasDistinctNames) :
    (first.cascade middle).cascade last = first.cascade (middle.cascade last) := by
  cases middle with
  | object fields =>
    cases last with
    | object later =>
      cases first with
      | object earlier => exact congrArg object (Fields.merge_assoc earlier later hd)
      | _ => rfl
    | _ => cases hs
  | string text =>
    cases last with
    | string later =>
      cases first with
      | string earlier => exact congrArg string (joinClasses_assoc earlier text later)
      | _ => rfl
    | _ => cases hs
  | array items =>
    cases last with
    | array later =>
      cases first with
      | array earlier => exact congrArg array (List.append_assoc earlier items later)
      | _ => rfl
    | _ => cases hs
  | _ => rw [cascade_of_other hs.symm, cascade_of_other hs.symm, cascade_of_other hs.symm]

/-- A run of values of one shape goes onto a value one after another or as its cascade. -/
theorem foldl_cascade (first v : Value) {vs : List Value} {shape : Shape}
    (h : ∀ w ∈ v :: vs, w.shape = shape ∧ w.HasDistinctNames) :
    vs.foldl cascade (first.cascade v) = first.cascade (vs.foldl cascade v) := by
  induction vs generalizing v with
  | nil => rfl
  | cons w ws ih =>
    obtain ⟨hv, hws⟩ := List.forall_mem_cons.mp h
    obtain ⟨hw, hrest⟩ := List.forall_mem_cons.mp hws
    have hvw : (v.cascade w).shape = shape ∧ (v.cascade w).HasDistinctNames :=
      ⟨(shape_cascade v w).trans hw.1, hasDistinctNames_cascade hv.2 hw.2⟩
    calc (w :: ws).foldl cascade (first.cascade v)
        = ws.foldl cascade (first.cascade (v.cascade w)) := by
          rw [List.foldl_cons, cascade_assoc first (hv.1.trans hw.1.symm) hv.2]
      _ = first.cascade ((w :: ws).foldl cascade v) :=
          ih (v.cascade w) (List.forall_mem_cons.mpr ⟨hvw, hrest⟩)

theorem cascadeAll?_eq_none {values : List Value} : cascadeAll? values = none ↔ values = [] := by
  cases values with
  | nil => exact iff_of_true rfl rfl
  | cons v vs => exact iff_of_false (Option.some_ne_none _) (List.cons_ne_nil v vs)

/-- The cascade of a run and of a later run of one shape is that of the two cascades. -/
theorem cascadeAll?_append {values later : List Value} {v w : Value} {shape : Shape}
    (hv : cascadeAll? values = some v) (hw : cascadeAll? later = some w)
    (h : ∀ x ∈ later, x.shape = shape ∧ x.HasDistinctNames) :
    cascadeAll? (values ++ later) = some (v.cascade w) := by
  cases values with
  | nil => cases hv
  | cons x xs =>
    cases later with
    | nil => cases hw
    | cons y ys =>
      cases hv
      cases hw
      rw [List.cons_append, cascadeAll?, List.foldl_append, List.foldl_cons, foldl_cascade _ y h]

end Value

end PropStyling
