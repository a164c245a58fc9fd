import PropStyling.Proofs.Overrides
import PropStyling.Proofs.Validation

/-! # Only declared parts are styled

Validation looks at nothing but the list of undeclared names that grouping notes. That the
list is empty says of every rule that it is for the root or for a declared part, however
the rules are spread over keys and declarations. Groups and resolutions have no targets
but those of their rules. Overrides are grouped without the declared names; where a prop
held them and was validated, their rules are for declared targets as well.
-/
namespace PropStyling

def Target.DeclaredIn (subs : SubComponents) (t : Target) : Prop :=
  t = .root ∨ ∃ name ∈ subs.names, t = .named name

theorem Target.undeclared?_eq_none {subs : SubComponents} {t : Target} :
    t.undeclared? subs = none ↔ t.DeclaredIn subs := by
  unfold DeclaredIn
  cases t <;> simp [undeclared?]

theorem Grouping.undeclared_eq_nil {subs : SubComponents} {declarations : List Declaration} :
    (ofDeclarations (some subs) declarations).undeclared = [] ↔
      ∀ r ∈ Rule.ofDeclarations declarations, r.target.DeclaredIn subs := by
  rw [undeclared_ofDeclarations, Option.elim_some, List.eq_nil_iff_forall_not_mem]
  simp only [List.mem_eraseDups, ← List.eq_nil_iff_forall_not_mem, List.filterMap_eq_nil_iff,
    Target.undeclared?_eq_none]

theorem Resolution.exists_rule_of_mem {rules : List Rule} {props : Props} {t : Target}
    (h : t ∈ (ofGroups (Group.partition rules) props).styles.map Prod.fst) :
    ∃ r ∈ rules, r.target = t := by
  rw [map_fst_styles_partition] at h
  exact Rule.mem_targets.mp (List.mem_filter.mp h).1

theorem Styles.ofValue_of_falsy {v : Value} (h : v.isTruthy = false) : ofValue v = absent := by
  cases v with
  | array items => cases h
  | object fields => cases h
  | _ => rfl

namespace Schema

variable {s : Schema} {component : String} {styles : Styles}

theorem validate_absent : s.validate component .absent = none := by
  rw [validate_eq_none, diagnostics, targetDiagnostics, propDiagnostics]
  cases s.subComponents <;> cases s.validators <;> rfl

/-- A prop that holds a value is validated as the configuration that the value stands for. -/
theorem validateProp_of_lookup {props : Props} {prop : String} {v : Value}
    (h : List.lookup prop props = some v) :
    s.validateProp component props prop = s.validate component (.ofValue v) := by
  unfold validateProp
  rw [h]
  dsimp only
  split
  · rfl
  · next hv => rw [Styles.ofValue_of_falsy (Bool.eq_false_iff.mpr hv), validate_absent]

theorem undeclared_of_validate (h : s.validate component styles = none) :
    (Grouping.ofDeclarations s.subComponents styles.declarations).undeclared = [] := by
  rw [validate_eq_none, diagnostics, List.append_eq_nil_iff, List.append_eq_nil_iff] at h
  have ht := h.1.2
  unfold targetDiagnostics at ht
  cases hs : s.subComponents with
  | none => rw [Grouping.undeclared_ofDeclarations, Option.elim_none]
  | some subs =>
    rw [hs] at ht
    simpa using ht

theorem declared_of_validate {subs : SubComponents} (hs : s.subComponents = some subs)
    (h : s.validate component styles = none) :
    ∀ r ∈ Rule.ofDeclarations styles.declarations, r.target.DeclaredIn subs := by
  rw [← Grouping.undeclared_eq_nil, ← hs]
  exact undeclared_of_validate h

end Schema

namespace Component

/-- A component never styles an undeclared part by default. No undeclared name is noted for its
default styles, and where parts are declared, its groups and its resolved styles are for the root
or for declared parts. So are the styles resolved with overrides, if a prop held the value that
they stand for and was found valid. -/
theorem declared_of_ofStyles (schema : Schema) (styles : Styles) (name : String) {c : Component}
    (h : ofStyles schema styles name = .ok c) :
    c.defaults.undeclared = [] ∧ ∀ subs, schema.subComponents = some subs →
      (∀ t ∈ c.defaults.targets, t.DeclaredIn subs) ∧
      (∀ props, ∀ t ∈ (c.resolve props).styles.map Prod.fst, t.DeclaredIn subs) ∧
      ∀ (held : Props) (prop : String) (v : Value), List.lookup prop held = some v →
        c.validate held prop = none → ∀ props,
          ∀ t ∈ (c.resolveWith props (.ofValue v)).styles.map Prod.fst, t.DeclaredIn subs := by
  have hvalid := (ofStyles_eq_ok.mp h).1
  have hc := (ofStyles_eq_ok.mp h).2
  refine ⟨?_, fun subs hs => ?_⟩
  · rw [hc]
    exact Schema.undeclared_of_validate hvalid
  have hrules := Schema.declared_of_validate hs hvalid
  refine ⟨fun t ht => ?_, fun props t ht => ?_, fun held prop v hl hv props t ht => ?_⟩
  · rw [hc, Grouping.targets, Grouping.groups_ofDeclarations, Group.map_target_partition] at ht
    obtain ⟨r, hr, rfl⟩ := Rule.mem_targets.mp ht
    exact hrules r hr
  · rw [resolve_of_ofStyles h] at ht
    obtain ⟨r, hr, rfl⟩ := Resolution.exists_rule_of_mem ht
    exact hrules r hr
  · have hoverrides : schema.validate name (.ofValue v) = none := by
      rw [← Schema.validateProp_of_lookup hl]
      rw [hc] at hv
      exact hv
    rw [resolveWith_of_ofStyles h, Rule.ofDeclarations, List.flatMap_append] at ht
    obtain ⟨r, hr, rfl⟩ := Resolution.exists_rule_of_mem ht
    rcases List.mem_append.mp hr with hr | hr
    · exact hrules r hr
    · exact Schema.declared_of_validate hs hoverrides r hr

/-- Keys with several pieces, two parts and the root, and overrides from a list. -/
theorem declared_of_ofStyles_of_two_parts :
    let subs : SubComponents := [("icon", .simple), ("label", .composite)]
    let schema : Schema := ⟨some subs, none⟩
    let styles : Styles := .many [⟨[("[on]::icon, ::root", .string "a")]⟩,
      ⟨[("color", .string "red"), ("[on=true]::label", .null)]⟩]
    let v : Value := .array [.object [("::label, [on]::icon", .string "b")], .bool true]
    let held : Props := [("on", .bool false), ("styles", v)]
    ∃ c, ofStyles schema styles "Box" = .ok c ∧ c.defaults.undeclared = [] ∧
      (∀ t ∈ c.defaults.targets, t.DeclaredIn subs) ∧ c.validate held "styles" = none ∧
      (∀ props, ∀ t ∈ (c.resolveWith props (.ofValue v)).styles.map Prod.fst, t.DeclaredIn subs) ∧
      (c.resolveWith [("on", .bool true)] (.ofValue v)).styles.length = 3 := by
  intro subs schema styles v held
  have hc := ofStyles_of_isNone
    (show (schema.validate "Box" styles).isNone = true by decide +kernel)
  have h := declared_of_ofStyles schema styles "Box" hc
  have hparts := h.2 subs rfl
  have hv : schema.validateProp "Box" held "styles" = none :=
    Option.isNone_iff_eq_none.mp (by decide +kernel)
  exact ⟨_, hc, h.1, hparts.1, hv, hparts.2.2 held "styles" v rfl hv, by decide +kernel⟩

end Component

end PropStyling
