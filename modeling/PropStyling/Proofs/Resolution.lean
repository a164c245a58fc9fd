import PropStyling.Proofs.Fields
import PropStyling.Proofs.Grouping
import PropStyling.Resolution

/-! # Resolution without groups

The resolution of grouped rules is read off the flat run of rules. A target has a
style when some rule for it holds, the style is the cascade of the values of the
rules for it that hold, and targets come in the order of their first rule, whether
or not that rule holds.
-/
namespace PropStyling

namespace Rule

def holding (rules : List Rule) (props : Props) (t : Target) : List Rule :=
  rules.filter fun r => r.target = t && r.selector.holds props

def style? (rules : List Rule) (props : Props) (t : Target) : Option Value :=
  Value.cascadeAll? ((holding rules props t).map value)

end Rule

theorem Value.cascadeAll?_isSome (values : List Value) :
    (Value.cascadeAll? values).isSome = !values.isEmpty := by
  cases values with
  | nil => rfl
  | cons v vs => rfl

namespace Rule

theorem style?_isSome (rules : List Rule) (props : Props) (t : Target) :
    (style? rules props t).isSome =
      rules.any fun r => r.target = t && r.selector.holds props := by
  rw [style?, Value.cascadeAll?_isSome, List.isEmpty_map, holding]
  induction rules with
  | nil => rfl
  | cons r rules ih =>
    rw [List.filter_cons, List.any_cons]
    cases h : (decide (r.target = t) && r.selector.holds props) with
    | true => rfl
    | false => simpa using ih

theorem style?_of_not_mem {rules : List Rule} {t : Target} (props : Props)
    (h : t ∉ targets rules) : style? rules props t = none := by
  rw [← Option.not_isSome_iff_eq_none, style?_isSome]
  intro ha
  obtain ⟨r, hr, hc⟩ := List.any_eq_true.mp ha
  rw [Bool.and_eq_true, decide_eq_true_eq] at hc
  exact h (mem_targets.mpr ⟨r, hr, hc.1⟩)

end Rule

theorem Group.resolve?_withTarget (rules : List Rule) (props : Props) (t : Target) :
    resolve? props ⟨t, Rule.withTarget rules t⟩ = (Rule.style? rules props t).map (t, ·) := by
  simp only [resolve?, Rule.style?, Rule.holding, Rule.withTarget, List.filter_filter,
    Bool.and_comm]

namespace Resolution

theorem styles_partition (rules : List Rule) (props : Props) :
    (ofGroups (Group.partition rules) props).styles =
      (Rule.targets rules).filterMap fun t => (Rule.style? rules props t).map (t, ·) := by
  simp only [ofGroups, Group.partition, List.filterMap_map, Function.comp_def,
    Group.resolve?_withTarget]

theorem map_fst_styles_partition (rules : List Rule) (props : Props) :
    (ofGroups (Group.partition rules) props).styles.map Prod.fst =
      (Rule.targets rules).filter fun t => (Rule.style? rules props t).isSome := by
  rw [styles_partition, map_fst_filterMap]

/-- The style of a target is the cascade of the values of its rules that hold. -/
theorem get?_partition (rules : List Rule) (props : Props) (t : Target) :
    (ofGroups (Group.partition rules) props).get? t = Rule.style? rules props t := by
  rw [get?, styles_partition, lookup_filterMap]
  split
  · rfl
  · next h => exact (Rule.style?_of_not_mem props h).symm

/-- Resolving a configuration is the flat cascade of its rules: the targets with a rule that
holds, each once and in the order of their first rule, take the cascade of the values of those
rules onto the first of them, and the declared names play no part. -/
theorem ofGroups_ofDeclarations (declarations : List Declaration) (props : Props)
    (known : Option SubComponents) :
    let rules := declarations.flatMap fun d => d.entries.flatMap fun entry =>
      (Key.pieces entry.1).filterMap fun piece => (Selector.parse piece).toOption.map fun s =>
        Rule.mk entry.1 s (if Selector.isProperty piece then .object [(piece, entry.2)] else entry.2)
    let holds := fun (t : Target) (r : Rule) =>
      r.selector.target = t && r.selector.conditions.all fun k => k.holds props
    let resolution := ofGroups (Grouping.ofDeclarations known declarations).groups props
    (resolution.styles.map Prod.fst =
      (rules.map fun r => r.selector.target).eraseDups.filter fun t => rules.any (holds t)) ∧
    (resolution.styles.map Prod.fst).Nodup ∧
    (∀ t, resolution.get? t = match (rules.filter (holds t)).map Rule.value with
      | [] => none
      | first :: later => some (later.foldl Value.cascade first)) ∧
    ∀ other, ofGroups (Grouping.ofDeclarations other declarations).groups props = resolution := by
  intro rules holds resolution
  have hg : ∀ known, (Grouping.ofDeclarations known declarations).groups =
      Group.partition rules := by
    intro known
    rw [Grouping.groups_ofDeclarations, Rule.ofDeclarations_eq]
  have hr : resolution = ofGroups (Group.partition rules) props :=
    congrArg (ofGroups · props) (hg known)
  have ht : resolution.styles.map Prod.fst =
      (Rule.targets rules).filter fun t => rules.any (holds t) := by
    rw [hr, map_fst_styles_partition]
    simp only [Rule.style?_isSome]
    rfl
  refine ⟨ht, ?_, ?_, ?_⟩
  · rw [ht]
    exact (Rule.nodup_targets rules).filter _
  · intro t
    rw [hr, get?_partition, Rule.style?, Value.cascadeAll?.eq_def]
    rfl
  · intro other
    rw [hr, hg]

end Resolution

end PropStyling
