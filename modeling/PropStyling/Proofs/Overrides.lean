import PropStyling.Component
import PropStyling.Proofs.Resolution
import PropStyling.Proofs.Value.Cascade

/-! # Overrides

A caller's overrides are the same as default styles that were appended from the start,
except that they need not fit the schema. Where they have values of one shape for a
target, those values may be cascaded by themselves and then put onto the style that the
defaults give. Where they have none, the style of the defaults is left as it is.
-/
namespace PropStyling

namespace Rule

variable {rules later : List Rule} {props : Props} {t : Target}

theorem holding_append : holding (rules ++ later) props t =
    holding rules props t ++ holding later props t :=
  List.filter_append ..

theorem style?_eq_none : style? rules props t = none ↔ holding rules props t = [] := by
  rw [style?, Value.cascadeAll?_eq_none, List.map_eq_nil_iff]

theorem style?_append_of_none (h : style? later props t = none) :
    style? (rules ++ later) props t = style? rules props t := by
  rw [style?, holding_append, style?_eq_none.mp h, List.append_nil, style?]

theorem style?_of_none_append (h : style? rules props t = none) :
    style? (rules ++ later) props t = style? later props t := by
  rw [style?, holding_append, style?_eq_none.mp h, List.nil_append, style?]

/-- Later rules add their targets at the end. -/
theorem targets_append (rules later : List Rule) : ∃ added,
    targets (rules ++ later) = targets rules ++ added ∧ ∀ t ∈ added, t ∉ targets rules := by
  refine ⟨((later.map target).removeAll (rules.map target)).eraseDups, ?_, fun t ht => ?_⟩
  · rw [targets, List.map_append, List.eraseDups_append]
    rfl
  · rw [List.mem_eraseDups, List.removeAll, List.mem_filter] at ht
    simpa [targets] using ht.2

theorem hasDistinctNames_of_mem {declarations : List Declaration} {r : Rule}
    (h : ∀ d ∈ declarations, ∀ entry ∈ d.entries, entry.2.HasDistinctNames)
    (hr : r ∈ ofDeclarations declarations) : r.value.HasDistinctNames := by
  obtain ⟨d, hd, entry, he, piece, -, -, -, hv⟩ := mem_ofDeclarations hr
  rw [hv]
  split
  · exact List.nodup_singleton piece
  · exact h d hd entry he

end Rule

namespace Resolution

/-- Later rules of which none holds change nothing, the order of the targets included. -/
theorem ofGroups_partition_append {rules later : List Rule} {props : Props}
    (h : ∀ r ∈ later, r.selector.holds props = false) :
    ofGroups (Group.partition (rules ++ later)) props = ofGroups (Group.partition rules) props := by
  have hlater : ∀ t, Rule.style? later props t = none := by
    intro t
    rw [Rule.style?_eq_none, Rule.holding, List.filter_eq_nil_iff]
    intro r hr
    simp [h r hr]
  have hsame : ∀ t, Rule.style? (rules ++ later) props t = Rule.style? rules props t :=
    fun t => Rule.style?_append_of_none (hlater t)
  obtain ⟨added, ht, hn⟩ := Rule.targets_append rules later
  have hadded : (added.filterMap fun t => (Rule.style? rules props t).map (t, ·)) = [] := by
    rw [List.filterMap_eq_nil_iff]
    intro t hta
    rw [Rule.style?_of_not_mem props (hn t hta), Option.map_none]
  have hs : (ofGroups (Group.partition (rules ++ later)) props).styles =
      (ofGroups (Group.partition rules) props).styles := by
    simp only [styles_partition, hsame, ht, List.filterMap_append, hadded, List.append_nil]
  exact congrArg Resolution.mk hs

end Resolution

namespace Component

variable {schema : Schema} {styles : Styles} {name : String} {c : Component}

theorem ofStyles_eq_ok : ofStyles schema styles name = .ok c ↔
    schema.validate name styles = none ∧
      c = ⟨schema, name, .ofDeclarations schema.subComponents styles.declarations⟩ := by
  rw [ofStyles]
  cases schema.validate name styles with
  | none => exact ⟨fun h => ⟨rfl, (Except.ok.inj h).symm⟩, fun h => congrArg Except.ok h.2.symm⟩
  | some report =>
    constructor
    · intro h
      cases h
    · intro h
      cases h.1

theorem ofStyles_of_isNone (h : (schema.validate name styles).isNone = true) :
    ofStyles schema styles name =
      .ok ⟨schema, name, .ofDeclarations schema.subComponents styles.declarations⟩ :=
  ofStyles_eq_ok.mpr ⟨Option.isNone_iff_eq_none.mp h, rfl⟩

theorem resolve_of_ofStyles (h : ofStyles schema styles name = .ok c) (props : Props) :
    c.resolve props =
      .ofGroups (Group.partition (Rule.ofDeclarations styles.declarations)) props := by
  rw [(ofStyles_eq_ok.mp h).2, resolve, Grouping.groups_ofDeclarations]

/-- With overrides or without any, what counts is the one run of rules. -/
theorem resolveWith_of_ofStyles (h : ofStyles schema styles name = .ok c) (props : Props)
    (overrides : Styles) : c.resolveWith props overrides = .ofGroups (Group.partition
      (Rule.ofDeclarations (styles.declarations ++ overrides.declarations))) props := by
  rw [resolveWith]
  split
  · next he =>
    rw [List.isEmpty_iff.mp he, List.append_nil, resolve_of_ofStyles h]
  · rw [(ofStyles_eq_ok.mp h).2]
    exact congrArg (Resolution.ofGroups · props) (Grouping.groups_append_ofDeclarations ..)

/-- Overrides are the same as appended defaults: the component resolves with them as the appended
configuration is resolved under any declared names, and as the component of the appended
configuration resolves, if that is one. -/
theorem resolveWith_eq_append (schema : Schema) (name : String) (styles overrides : Styles)
    (props : Props) {c : Component} (h : ofStyles schema styles name = .ok c) :
    (∀ known, c.resolveWith props overrides = .ofGroups
      (Grouping.ofDeclarations known (styles.append overrides).declarations).groups props) ∧
    ∀ appended, ofStyles schema (styles.append overrides) name = .ok appended →
      appended.resolve props = c.resolveWith props overrides := by
  have hw := resolveWith_of_ofStyles h props overrides
  refine ⟨fun known => ?_, fun appended ha => ?_⟩
  · rw [hw, Grouping.groups_ofDeclarations]
    rfl
  · rw [hw, resolve_of_ofStyles ha]
    rfl

/-- The overrides' target `icon` comes before the root, but after it among the defaults. -/
theorem resolveWith_eq_append_of_two_targets :
    let schema : Schema := ⟨some [("icon", .simple)], some [("on", .hasType .bool)]⟩
    let styles : Styles := .one ⟨[("::root, [on]::icon", .string "a"), ("[on]", .string "b")]⟩
    let overrides : Styles := .many [⟨[]⟩, ⟨[("[on=true]::icon, ::root", .string "c")]⟩]
    let props : Props := [("on", .bool true)]
    ∃ c appended, ofStyles schema styles "Box" = .ok c ∧
      ofStyles schema (styles.append overrides) "Box" = .ok appended ∧
      (∀ known, c.resolveWith props overrides = .ofGroups
        (Grouping.ofDeclarations known (styles.append overrides).declarations).groups props) ∧
      appended.resolve props = c.resolveWith props overrides ∧
      (c.resolveWith props overrides).toValue.text =
        "\x7b\"root\":\"a b c\",\"icon\":\"a c\"\x7d" := by
  intro schema styles overrides props
  have hc := ofStyles_of_isNone
    (show (schema.validate "Box" styles).isNone = true by decide +kernel)
  have ha := ofStyles_of_isNone
    (show (schema.validate "Box" (styles.append overrides)).isNone = true by decide +kernel)
  have h := resolveWith_eq_append schema "Box" styles overrides props hc
  exact ⟨_, _, hc, ha, h.1, h.2 _ ha, by decide +kernel⟩

/-- Overrides factor through the cascade. A target without a value in the overrides keeps its
style, and one without a default takes the overrides' style. Where both have one and the
overrides' values that hold are of one shape, the overrides' style goes onto the default; no
object among the overrides' values holds a name twice, which is so of all values read from a text.
Overrides of which no selector holds change nothing. -/
theorem resolveWith_factors (schema : Schema) (name : String) (styles overrides : Styles)
    (props : Props) {c : Component} (h : ofStyles schema styles name = .ok c) :
    let later := Rule.ofDeclarations overrides.declarations
    let defaults := c.resolve props
    let alone := Resolution.ofGroups
      (Grouping.ofDeclarations none overrides.declarations).groups props
    let both := c.resolveWith props overrides
    (∀ t, alone.get? t = none → both.get? t = defaults.get? t) ∧
    (∀ t, defaults.get? t = none → both.get? t = alone.get? t) ∧
    ((∀ d ∈ overrides.declarations, ∀ entry ∈ d.entries, entry.2.HasDistinctNames) →
      ∀ t d r, defaults.get? t = some d → alone.get? t = some r →
        (∃ shape, ∀ rule ∈ later, rule.selector.target = t →
          rule.selector.holds props = true → rule.value.shape = shape) →
        both.get? t = some (d.cascade r)) ∧
    ((∀ rule ∈ later, rule.selector.holds props = false) → both = defaults) := by
  intro later defaults alone both
  have hd : defaults =
      .ofGroups (Group.partition (Rule.ofDeclarations styles.declarations)) props :=
    resolve_of_ofStyles h props
  have ha : alone = .ofGroups (Group.partition later) props :=
    congrArg (Resolution.ofGroups · props) (Grouping.groups_ofDeclarations none _)
  have hb : both = .ofGroups
      (Group.partition (Rule.ofDeclarations styles.declarations ++ later)) props := by
    rw [show both = _ from resolveWith_of_ofStyles h props overrides, Rule.ofDeclarations,
      List.flatMap_append]
    rfl
  rw [hd, ha, hb]
  simp only [Resolution.get?_partition]
  refine ⟨fun t => Rule.style?_append_of_none, fun t => Rule.style?_of_none_append, ?_,
    Resolution.ofGroups_partition_append⟩
  rintro hn t d r hd hr ⟨shape, hs⟩
  rw [Rule.style?, Rule.holding_append, List.map_append]
  have hv : ∀ v ∈ (Rule.holding later props t).map Rule.value,
      v.shape = shape ∧ v.HasDistinctNames := by
    intro v hv
    obtain ⟨rule, hm, rfl⟩ := List.mem_map.mp hv
    obtain ⟨hm, hc⟩ := List.mem_filter.mp hm
    rw [Bool.and_eq_true, decide_eq_true_eq] at hc
    exact ⟨hs rule hm hc.1 hc.2, Rule.hasDistinctNames_of_mem hn hm⟩
  exact Value.cascadeAll?_append hd hr hv

/-- Two objects for the root, one of them from a bare property, go onto the default as one. -/
theorem resolveWith_factors_of_objects :
    let schema : Schema := ⟨none, some [("on", .hasType .bool)]⟩
    let styles : Styles := .one ⟨[("::root", .array []),
      ("[on]", .object [("margin", .null), ("color", .string "red")])]⟩
    let overrides : Styles := .one ⟨[("[on=true]", .object [("color", .string "blue")]),
      ("[off]", .string "a"), ("margin", .bool false)]⟩
    let props : Props := [("on", .bool true)]
    ∃ c d r, ofStyles schema styles "Box" = .ok c ∧ (c.resolve props).get? .root = some d ∧
      (Resolution.ofGroups (Grouping.ofDeclarations none overrides.declarations).groups
        props).get? .root = some r ∧
      (c.resolveWith props overrides).get? .root = some (d.cascade r) ∧
      (c.resolveWith props overrides).toValue.text =
        "\x7b\"root\":\x7b\"margin\":false,\"color\":\"blue\"\x7d\x7d" := by
  intro schema styles overrides props
  have hc := ofStyles_of_isNone
    (show (schema.validate "Box" styles).isNone = true by decide +kernel)
  obtain ⟨d, hd⟩ := Option.isSome_iff_exists.mp (show ((Component.mk schema "Box"
    (.ofDeclarations none styles.declarations)).resolve props |>.get? .root).isSome = true by
      decide +kernel)
  obtain ⟨r, hr⟩ := Option.isSome_iff_exists.mp (show ((Resolution.ofGroups
    (Grouping.ofDeclarations none overrides.declarations).groups props).get? .root).isSome = true by
      decide +kernel)
  have h := (resolveWith_factors schema "Box" styles overrides props hc).2.2.1 (by decide +kernel)
    .root d r hd hr ⟨.object, by decide +kernel⟩
  exact ⟨_, d, r, hc, hd, hr, h, by decide +kernel⟩

end Component

end PropStyling
