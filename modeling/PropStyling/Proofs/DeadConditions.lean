import PropStyling.Proofs.Value.Equality
import PropStyling.Validator

/-! # Conditions that can never hold

A validator is shown nothing but the value that a condition implies. For the built-in
validators this one check decides whether the condition is dead, that is, whether no props
meet both the validator and the condition. A built-in validator looks at the value of its
prop only up to loose equality, and a prop that meets a condition with a value is loosely
equal to the implied value; neither a missing prop nor null meets such a condition, though
every built-in validator accepts them.
-/
namespace PropStyling

theorem ValueType.admits_iff {t : ValueType} {v : Value} :
    t.admits v = true ↔ v.kindName = t.name := by
  cases t <;> cases v <;> simp [admits, Value.kindName, name]

theorem PropCheck.value?_eq_some {c : PropCheck} {v : Value} :
    c.value? = some v ↔ List.lookup c.prop c.props = some v ∧ v ≠ .null := by
  unfold value?
  split
  · next h => simp [h]
  · next h => simp [h, eq_comm]
  · next w hw h => simp only [h, Option.some.injEq]; grind

namespace Expected

/-- Any expectation is met by the value it implies. -/
theorem accepts_toValue (e : Expected) : e.accepts e.toValue = true := by
  cases e with
  | truthy => rfl
  | bool b => exact Value.bool_same.mpr rfl
  | number n => exact Value.number_looselyEqual.mpr ⟨n, rfl, Binary64.same_refl _⟩
  | string s => exact Value.string_same.mpr rfl

theorem accepts_of_ne_truthy {e : Expected} (h : e ≠ .truthy) (v : Value) :
    e.accepts v = v.looselyEqual e.toValue := by
  cases e with
  | truthy => exact absurd rfl h
  | _ => rfl

theorem toValue_ne_null (e : Expected) : e.toValue ≠ .null := by
  cases e <;> exact Value.noConfusion

end Expected

namespace Condition

def implied (c : Condition) : Props := [(c.prop, c.expected.toValue)]

theorem lookup_implied (c : Condition) :
    List.lookup c.prop c.implied = some c.expected.toValue := by
  simp [implied]

theorem holds_implied (c : Condition) : c.holds c.implied = true := by
  unfold holds
  rw [lookup_implied]
  exact c.expected.accepts_toValue

/-- A condition with a value holds when its prop has a value loosely equal to that one. -/
theorem holds_iff {c : Condition} (h : c.hasValue = true) {props : Props} :
    c.holds props = true ↔ ∃ v, List.lookup c.prop props = some v ∧
      v.looselyEqual c.expected.toValue = true := by
  have he : c.expected ≠ .truthy := bne_iff_ne.mp h
  unfold holds
  cases List.lookup c.prop props with
  | none => simp
  | some v => simp [Expected.accepts_of_ne_truthy he]

end Condition

namespace Validator

/-- The built-in validators, behind any number of delegations. -/
inductive BuiltIn : Validator → Prop where
  | hasType (expected : ValueType) : BuiltIn (.hasType expected)
  | oneOf (allowed : List Value) : BuiltIn (.oneOf allowed)
  | delegate {inner : Validator} (h : BuiltIn inner) : BuiltIn (.delegate inner)

variable {c d : PropCheck} {v w : Value}

theorem hasType_reject?_eq_none {expected : ValueType} (hc : c.value? = some v) :
    (hasType expected).reject? c = none ↔ v.kindName = expected.name := by
  rw [← ValueType.admits_iff, reject?, hc]
  simp

theorem oneOf_reject?_eq_none {allowed : List Value} (hc : c.value? = some v) :
    (oneOf allowed).reject? c = none ↔ ∃ a ∈ allowed, a.looselyEqual v = true := by
  rw [reject?, hc]
  simp

/-- A built-in validator that accepts a value accepts every value loosely equal to it. -/
theorem BuiltIn.accepts_of_looselyEqual {validator : Validator} (hb : validator.BuiltIn)
    (hc : c.value? = some v) (hd : d.value? = some w) (he : v.looselyEqual w = true)
    (ha : validator.reject? c = none) : validator.reject? d = none := by
  induction hb with
  | hasType expected =>
    rw [hasType_reject?_eq_none hc] at ha
    rw [hasType_reject?_eq_none hd]
    exact (Value.kindName_of_looselyEqual he).symm.trans ha
  | oneOf allowed =>
    obtain ⟨a, hm, hav⟩ := (oneOf_reject?_eq_none hc).mp ha
    exact (oneOf_reject?_eq_none hd).mpr ⟨a, hm, Value.looselyEqual_trans hav he⟩
  | delegate _ ih => exact ih ha

/-- A built-in validator rejects the implied value of a condition with a value exactly when the
condition is dead: no props that it accepts meet the condition. The props that hold nothing but
the implied value always meet it. -/
theorem rejects_implied_iff_dead (validator : Validator) (hb : validator.BuiltIn)
    (c : Condition) (hv : c.hasValue = true) (component location : String) :
    let rejects (props : Props) :=
      (validator.reject? ⟨props, c.prop, component, location⟩).isSome
    (rejects [(c.prop, c.expected.toValue)] = true ↔
      ¬ ∃ props, rejects props = false ∧ c.holds props = true) ∧
    c.holds [(c.prop, c.expected.toValue)] = true := by
  intro rejects
  refine ⟨⟨?_, ?_⟩, c.holds_implied⟩
  · rintro hr ⟨props, ha, hp⟩
    obtain ⟨v, hl, he⟩ := (Condition.holds_iff hv).mp hp
    have hn : v ≠ .null := by
      rintro rfl
      exact c.expected.toValue_ne_null (Value.null_same.mp he)
    let actual : PropCheck := ⟨props, c.prop, component, location⟩
    let implied : PropCheck := ⟨c.implied, c.prop, component, location⟩
    have hactual : actual.value? = some v := PropCheck.value?_eq_some.mpr ⟨hl, hn⟩
    have himplied : implied.value? = some c.expected.toValue :=
      PropCheck.value?_eq_some.mpr ⟨c.lookup_implied, c.expected.toValue_ne_null⟩
    have hnone : validator.reject? implied = none :=
      hb.accepts_of_looselyEqual hactual himplied he
        (Option.isNone_iff_eq_none.mp (Option.isSome_eq_false_iff.mp ha))
    exact absurd hr (Option.not_isSome_iff_eq_none.mpr hnone)
  · intro hdead
    by_contra hr
    exact hdead ⟨_, Bool.eq_false_iff.mpr hr, c.holds_implied⟩

/-- Where the texts `2` and `b` and the float two are listed, the integer two can be met, and the
integer three and the text `c` cannot. -/
theorem rejects_implied_iff_dead_of_listed :
    let two : Number := .float ⟨false, 0x10000000000000, -51, by decide, by decide, by decide,
      .inl (by decide)⟩
    let validator : Validator := .delegate (.delegate (.oneOf [.string "2", .number two,
      .array [.number two], .string "b"]))
    let Dead (expected : Expected) := ¬ ∃ props,
      (validator.reject? ⟨props, "size", "Box", "prop"⟩).isSome = false ∧
        Condition.holds ⟨"size", expected⟩ props = true
    validator.BuiltIn ∧ ¬ Dead (.number (.integer ⟨2, by decide, by decide⟩)) ∧
      Dead (.number (.integer ⟨3, by decide, by decide⟩)) ∧ Dead (.string "c") := by
  intro two validator Dead
  have hb : validator.BuiltIn := .delegate (.delegate (.oneOf _))
  have h : ∀ e : Expected, Condition.hasValue ⟨"size", e⟩ = true → (Dead e ↔
      (validator.reject? ⟨[("size", e.toValue)], "size", "Box", "prop"⟩).isSome = true) :=
    fun e he => (rejects_implied_iff_dead validator hb ⟨"size", e⟩ he "Box" "prop").1.symm
  refine ⟨hb, ?_, ?_, ?_⟩
  · rw [h _ (by decide)]
    decide +kernel
  · rw [h _ (by decide)]
    decide +kernel
  · rw [h _ (by decide)]
    decide +kernel

end Validator

end PropStyling
