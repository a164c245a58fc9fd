import PropStyling.Proofs.Grouping
import PropStyling.Validation

/-! # What validation reports

The three passes see the same keys at different grain: whole keys, the pieces that can
be parsed, also those of malformed keys, and the keys whose pieces can all be parsed.
The problems are listed here straight from the keys, without groups: the malformed keys
as they come, the names of undeclared targets each once, and a rejection for each
condition whose value its validator does not accept. That list is what is reported, and
nothing is reported exactly when all three parts of it are empty.
-/
namespace PropStyling

namespace Key

def selectors (key : String) : List Selector :=
  (pieces key).filterMap fun piece => (Selector.parse piece).toOption

def conditions (key : String) : List Condition :=
  ((parse key).toOption.getD []).flatMap Selector.conditions

theorem mem_selectors {key : String} {s : Selector} :
    s ∈ selectors key ↔ ∃ piece ∈ pieces key, Selector.parse piece = .ok s := by
  simp only [selectors, List.mem_filterMap, Except.toOption_eq_some]

end Key

namespace Rule

theorem map_selector_ofEntry (entry : String × Value) :
    (ofEntry entry).map selector = Key.selectors entry.1 := by
  rw [ofEntry_eq, List.map_filterMap]
  simp only [Option.map_map, Function.comp_def, Option.map_id', Key.selectors]

/-- The rules of a configuration have the selectors of its keys. -/
theorem map_selector_ofDeclarations (styles : Styles) :
    (ofDeclarations styles.declarations).map selector = styles.keys.flatMap Key.selectors := by
  simp only [ofDeclarations, Styles.keys, Declaration.keys, List.map_flatMap, List.flatMap_assoc,
    List.flatMap_map, map_selector_ofEntry]

end Rule

namespace Schema

def undeclaredNames (subs : SubComponents) (styles : Styles) : List String :=
  ((styles.keys.flatMap Key.selectors).filterMap fun s => s.target.undeclared? subs).eraseDups

theorem mem_undeclaredNames {subs : SubComponents} {styles : Styles} {name : String} :
    name ∈ undeclaredNames subs styles ↔ name ∉ subs.names ∧ ∃ key ∈ styles.keys,
      ∃ piece ∈ Key.pieces key, ∃ s, Selector.parse piece = .ok s ∧ s.target = .named name := by
  rw [undeclaredNames, List.mem_eraseDups, List.mem_filterMap]
  have ht : ∀ t : Target, t.undeclared? subs = some name ↔ name ∉ subs.names ∧ t = .named name := by
    intro t
    cases t with
    | root => simp [Target.undeclared?]
    | named other =>
      rw [Target.undeclared?, Target.named.injEq]
      split
      · next ho => exact iff_of_false (Option.some_ne_none name).symm fun h => h.1 (h.2 ▸ ho)
      · next ho =>
        rw [Option.some.injEq]
        exact ⟨fun h => ⟨h ▸ ho, h⟩, And.right⟩
  simp only [ht, List.mem_flatMap, Key.mem_selectors]
  constructor
  · rintro ⟨s, ⟨key, hk, piece, hp, hs⟩, hn, hst⟩
    exact ⟨hn, key, hk, piece, hp, s, hs, hst⟩
  · rintro ⟨hn, key, hk, piece, hp, s, hs, hst⟩
    exact ⟨s, ⟨key, hk, piece, hp, hs⟩, hn, hst⟩

theorem undeclared_ofDeclarations (subs : SubComponents) (styles : Styles) :
    (Grouping.ofDeclarations (some subs) styles.declarations).undeclared =
      undeclaredNames subs styles := by
  rw [Grouping.undeclared_ofDeclarations, undeclaredNames, ← Rule.map_selector_ofDeclarations,
    List.filterMap_map]
  rfl

theorem targetDiagnostics_eq (s : Schema) (component : String) (styles : Styles) :
    s.targetDiagnostics component styles =
      if (s.subComponents.elim [] fun subs => undeclaredNames subs styles) = [] then [] else
        [.unknownTargets (s.subComponents.elim [] fun subs => undeclaredNames subs styles)
          component (s.subComponents.elim [] Fields.names)] := by
  rw [targetDiagnostics]
  cases s.subComponents with
  | none => rfl
  | some subs =>
    simp only [undeclared_ofDeclarations, Option.elim_some]
    by_cases hn : undeclaredNames subs styles = []
    · simp [hn]
    · simp [hn]

def rejections (validators : Validators) (component key : String) : List Diagnostic :=
  (Key.conditions key).filterMap fun c =>
    (List.lookup c.prop validators).bind fun validator =>
      (validator.reject? ⟨[(c.prop, c.expected.toValue)], c.prop, component, "prop"⟩).map
        fun r => .rejected key r.message

theorem keyDiagnostics_eq (validators : Validators) (component key : String) :
    keyDiagnostics validators component key = rejections validators component key := by
  rw [keyDiagnostics, rejections, Key.conditions]
  cases Key.parse key with
  | error e => rfl
  | ok selectors =>
    simp only [rejection?, Option.map_bind]
    rfl

theorem propDiagnostics_eq (s : Schema) (component : String) (styles : Styles) :
    s.propDiagnostics component styles = s.validators.elim [] fun validators =>
      styles.keys.flatMap (rejections validators component) := by
  rw [propDiagnostics]
  cases s.validators with
  | none => rfl
  | some validators =>
    exact congrArg (styles.keys.flatMap ·) (funext (keyDiagnostics_eq validators component))

theorem mem_rejections {validators : Validators} {component key : String} {d : Diagnostic} :
    d ∈ rejections validators component key ↔ ∃ selectors, Key.parse key = .ok selectors ∧
      ∃ sel ∈ selectors, ∃ c ∈ sel.conditions, ∃ validator,
        List.lookup c.prop validators = some validator ∧ ∃ r, validator.reject?
          ⟨[(c.prop, c.expected.toValue)], c.prop, component, "prop"⟩ = some r ∧
          d = .rejected key r.message := by
  rw [rejections, Key.conditions]
  cases Key.parse key with
  | error e => simp [Except.toOption]
  | ok selectors =>
    simp only [Except.toOption, Option.getD_some, List.mem_filterMap, List.mem_flatMap,
      Option.bind_eq_some_iff, Option.map_eq_some_iff, Except.ok.injEq, exists_eq_left']
    constructor
    · rintro ⟨c, ⟨sel, hs, hc⟩, validator, hv, r, hr, rfl⟩
      exact ⟨sel, hs, c, hc, validator, hv, r, hr, rfl⟩
    · rintro ⟨sel, hs, c, hc, validator, hv, r, hr, rfl⟩
      exact ⟨c, ⟨sel, hs, hc⟩, validator, hv, r, hr, rfl⟩

theorem validate_eq_some {s : Schema} {component : String} {styles : Styles} {report : Report} :
    s.validate component styles = some report ↔
      report.diagnostics = s.diagnostics component styles := by
  rw [validate, Report.ofList?]
  obtain ⟨diagnostics, hn⟩ := report
  split
  · next h => exact iff_of_false (Option.some_ne_none _).symm fun he => hn (he.trans h)
  · rw [Option.some.injEq, Report.mk.injEq, eq_comm]

theorem validate_eq_none {s : Schema} {component : String} {styles : Styles} :
    s.validate component styles = none ↔ s.diagnostics component styles = [] := by
  rw [validate, Report.ofList?]
  split
  · next h => exact iff_of_true rfl h
  · next h => exact iff_of_false (Option.some_ne_none _) h

theorem grammarDiagnostics_eq_nil {styles : Styles} :
    grammarDiagnostics styles = [] ↔ ∀ key ∈ styles.keys, Key.isValid key = true := by
  rw [grammarDiagnostics]
  split
  · next h => simpa [List.filter_eq_nil_iff] using h
  · next h => simpa [List.filter_eq_nil_iff] using h

/-- What is reported is the list of the malformed keys, the undeclared names and the rejected
conditions, each kind in its order and left out when there is none of it. There is no report
exactly when there are none at all, and no report is empty. -/
theorem validate_lists_problems (s : Schema) (component : String) (styles : Styles) :
    let malformed := styles.keys.filter fun key => !Key.isValid key
    let names := s.subComponents.elim [] fun subs => undeclaredNames subs styles
    let rejected := s.validators.elim [] fun validators =>
      styles.keys.flatMap (rejections validators component)
    (∀ report, s.validate component styles = some report ↔ report.diagnostics =
      (if malformed = [] then [] else [.malformed malformed]) ++
      (if names = [] then [] else
        [.unknownTargets names component (s.subComponents.elim [] Fields.names)]) ++
      rejected) ∧
    (s.validate component styles = none ↔ malformed = [] ∧ names = [] ∧ rejected = []) ∧
    (∀ report, s.validate component styles = some report → report.diagnostics ≠ []) ∧
    names.Nodup ∧
    (∀ subs ∈ s.subComponents, ∀ name, name ∈ names ↔ name ∉ subs.names ∧ ∃ key ∈ styles.keys,
      ∃ piece ∈ Key.pieces key, ∃ sel, Selector.parse piece = .ok sel ∧
        sel.target = .named name) ∧
    ∀ validators ∈ s.validators, ∀ d, d ∈ rejected ↔ ∃ key ∈ styles.keys, ∃ selectors,
      Key.parse key = .ok selectors ∧ ∃ sel ∈ selectors, ∃ c ∈ sel.conditions, ∃ validator,
        List.lookup c.prop validators = some validator ∧ ∃ r, validator.reject?
          ⟨[(c.prop, c.expected.toValue)], c.prop, component, "prop"⟩ = some r ∧
          d = .rejected key r.message := by
  intro malformed names rejected
  have hg : grammarDiagnostics styles =
      if malformed = [] then [] else [.malformed malformed] := by
    simp only [grammarDiagnostics, List.isEmpty_iff]
    rfl
  refine ⟨fun report => ?_, ?_, fun report _ => report.ne_nil, ?_, fun subs hs name => ?_,
    fun validators hv d => ?_⟩
  · rw [validate_eq_some, diagnostics, hg, targetDiagnostics_eq, propDiagnostics_eq]
  · rw [validate_eq_none, diagnostics, hg, targetDiagnostics_eq, propDiagnostics_eq,
      List.append_eq_nil_iff, List.append_eq_nil_iff, and_assoc]
    simp only [ite_eq_left_iff, List.cons_ne_nil, imp_false, not_not]
    rfl
  · simp only [names]
    cases s.subComponents with
    | none => exact List.nodup_nil
    | some subs => exact nodup_eraseDups _
  · simp only [names, Option.mem_def.mp hs, Option.elim_some]
    exact mem_undeclaredNames
  · simp only [rejected, Option.mem_def.mp hv, Option.elim_some, List.mem_flatMap, mem_rejections]

end Schema

end PropStyling
