import PropStyling.Proofs.Validation

/-! # Validating an appended configuration

The problems of one configuration appended to another are those of both, merged pass by
pass. The passes keep their problems in different ways: malformed keys and rejections are
listed as they come, so the lists are put one after the other, while an undeclared name
is listed where it comes first, so of the later names only the new ones are added. Each
part of a report can be read back from it, and the merge needs nothing but the two reports.
-/
namespace PropStyling

namespace Diagnostic

def malformedKeys : Diagnostic → List String
  | .malformed keys => keys
  | _ => []

def unknownNames : Diagnostic → List String
  | .unknownTargets names _ _ => names
  | _ => []

def rejections : Diagnostic → List Diagnostic
  | .rejected key message => [.rejected key message]
  | _ => []

def IsRejection (d : Diagnostic) : Prop :=
  ∃ key message, d = .rejected key message

def inOrder (component : String) (declared keys names : List String)
    (rejected : List Diagnostic) : List Diagnostic :=
  (if keys = [] then [] else [.malformed keys]) ++
    (if names = [] then [] else [.unknownTargets names component declared]) ++ rejected

/-- The problems of two configurations, pass by pass: the malformed keys of both, the unknown
names of the first and those of the second that are new, and the rejections of both. -/
def merge (component : String) (declared : List String) (first second : List Diagnostic) :
    List Diagnostic :=
  let names := first.flatMap unknownNames
  inOrder component declared (first.flatMap malformedKeys ++ second.flatMap malformedKeys)
    (names ++ (second.flatMap unknownNames).filter fun name => name ∉ names)
    (first.flatMap rejections ++ second.flatMap rejections)

variable {component : String} {declared keys names : List String} {rs : List Diagnostic}

theorem inOrder_eq_nil : inOrder component declared keys names rs = [] ↔
    keys = [] ∧ names = [] ∧ rs = [] := by
  simp [inOrder]

theorem flatMap_inOrder {α : Type} (f : Diagnostic → List α) :
    (inOrder component declared keys names rs).flatMap f =
      (if keys = [] then [] else f (.malformed keys)) ++
        (if names = [] then [] else f (.unknownTargets names component declared)) ++
          rs.flatMap f := by
  unfold inOrder
  rw [List.flatMap_append, List.flatMap_append]
  split <;> split <;> simp

theorem flatMap_eq_nil {f : Diagnostic → List String}
    (hf : ∀ key message, f (.rejected key message) = [])
    (h : ∀ d ∈ rs, d.IsRejection) : rs.flatMap f = [] := by
  apply List.flatMap_eq_nil_iff.mpr
  intro d hd
  obtain ⟨key, message, rfl⟩ := h d hd
  exact hf key message

theorem flatMap_rejections (h : ∀ d ∈ rs, d.IsRejection) :
    rs.flatMap rejections = rs := by
  induction rs with
  | nil => rfl
  | cons d rs ih =>
    obtain ⟨⟨key, message, rfl⟩, hrs⟩ := List.forall_mem_cons.mp h
    rw [List.flatMap_cons, ih hrs]
    rfl

/-- The parts of a report are those it was put together from. -/
theorem parts_inOrder (h : ∀ d ∈ rs, d.IsRejection) :
    let ds := inOrder component declared keys names rs
    ds.flatMap malformedKeys = keys ∧ ds.flatMap unknownNames = names ∧
      ds.flatMap rejections = rs := by
  intro ds
  refine ⟨?_, ?_, ?_⟩
  · rw [flatMap_inOrder, flatMap_eq_nil (fun _ _ => rfl) h]
    simp +contextual [malformedKeys]
  · rw [flatMap_inOrder, flatMap_eq_nil (fun _ _ => rfl) h]
    simp +contextual [unknownNames]
  · rw [flatMap_inOrder, flatMap_rejections h]
    simp [rejections]

end Diagnostic

theorem Styles.keys_append (earlier later : Styles) :
    (earlier.append later).keys = earlier.keys ++ later.keys := by
  simp [keys, append, declarations]

namespace Schema

variable (s : Schema) (component : String) (styles : Styles)

def malformedKeys : List String :=
  styles.keys.filter fun key => !Key.isValid key

def unknownNames : List String :=
  s.subComponents.elim [] fun subs => undeclaredNames subs styles

def rejected : List Diagnostic :=
  s.validators.elim [] fun validators => styles.keys.flatMap (rejections validators component)

theorem diagnostics_eq : s.diagnostics component styles =
    Diagnostic.inOrder component (s.subComponents.elim [] Fields.names)
      (malformedKeys styles) (s.unknownNames styles) (s.rejected component styles) := by
  rw [diagnostics, targetDiagnostics_eq, propDiagnostics_eq, grammarDiagnostics]
  simp only [List.isEmpty_iff]
  rfl

theorem isRejection_of_mem {d : Diagnostic} (h : d ∈ s.rejected component styles) :
    d.IsRejection := by
  unfold rejected at h
  cases hv : s.validators with
  | none => simp [hv] at h
  | some validators =>
    rw [hv] at h
    obtain ⟨key, -, hd⟩ := List.mem_flatMap.mp h
    obtain ⟨-, -, -, -, c, -, -, -, r, -, rfl⟩ := mem_rejections.mp hd
    exact ⟨key, r.message, rfl⟩

/-- The parts of a report are the problems of the three passes. -/
theorem parts_diagnostics : let ds := s.diagnostics component styles
    ds.flatMap Diagnostic.malformedKeys = malformedKeys styles ∧
      ds.flatMap Diagnostic.unknownNames = s.unknownNames styles ∧
      ds.flatMap Diagnostic.rejections = s.rejected component styles := by
  rw [diagnostics_eq]
  exact Diagnostic.parts_inOrder fun _ => s.isRejection_of_mem component styles

theorem elim_validate :
    (s.validate component styles).elim [] Report.diagnostics = s.diagnostics component styles := by
  cases h : s.validate component styles with
  | none => exact (validate_eq_none.mp h).symm
  | some report => exact validate_eq_some.mp h

variable (earlier later : Styles)

theorem malformedKeys_append : malformedKeys (earlier.append later) =
    malformedKeys earlier ++ malformedKeys later := by
  rw [malformedKeys, Styles.keys_append, List.filter_append]
  rfl

theorem unknownNames_append : s.unknownNames (earlier.append later) = s.unknownNames earlier ++
    (s.unknownNames later).filter fun name => name ∉ s.unknownNames earlier := by
  unfold unknownNames
  cases s.subComponents with
  | none => rfl
  | some subs =>
    simp only [Option.elim_some, undeclaredNames, Styles.keys_append, List.flatMap_append,
      List.filterMap_append]
    exact eraseDups_append_eq _ _

theorem rejected_append : s.rejected component (earlier.append later) =
    s.rejected component earlier ++ s.rejected component later := by
  unfold rejected
  cases s.validators with
  | none => rfl
  | some validators => simp only [Option.elim_some, Styles.keys_append, List.flatMap_append]

/-- Validation is compositional. An appended configuration is valid exactly when both parts are,
and its problems are those that the two reports list, merged pass by pass. -/
theorem validate_append :
    let found (styles : Styles) := (s.validate component styles).elim [] Report.diagnostics
    (s.validate component (earlier.append later) = none ↔
      s.validate component earlier = none ∧ s.validate component later = none) ∧
    found (earlier.append later) = Diagnostic.merge component
      (s.subComponents.elim [] Fields.names) (found earlier) (found later) := by
  intro found
  constructor
  · simp only [validate_eq_none, diagnostics_eq, Diagnostic.inOrder_eq_nil, malformedKeys_append,
      unknownNames_append, rejected_append, List.append_eq_nil_iff]
    constructor
    · rintro ⟨⟨hk, hk'⟩, ⟨hn, hn'⟩, hr, hr'⟩
      simp only [hn, List.not_mem_nil, not_false_eq_true, decide_true, List.filter_true] at hn'
      exact ⟨⟨hk, hn, hr⟩, hk', hn', hr'⟩
    · rintro ⟨⟨hk, hn, hr⟩, hk', hn', hr'⟩
      refine ⟨⟨hk, hk'⟩, ⟨hn, ?_⟩, hr, hr'⟩
      rw [hn']
      rfl
  · obtain ⟨hk, hn, hr⟩ := s.parts_diagnostics component earlier
    obtain ⟨hk', hn', hr'⟩ := s.parts_diagnostics component later
    simp only [found, elim_validate]
    rw [diagnostics_eq, malformedKeys_append, unknownNames_append, rejected_append,
      Diagnostic.merge, hk, hn, hr, hk', hn', hr']

end Schema

end PropStyling
