import PropStyling.Proofs.Grouping.Runs
import PropStyling.Proofs.Resolution
import PropStyling.Value.Printer

/-! # A resolution as one object

As one value a resolution has a field for each target, under the name of the target, and
the root goes by the name `root`. Targets with one name would fall together in it. They
never do: a grouping has one group for each target however it came about, every group gives
at most one style, and names tell targets apart because the parser reads a part called
`root` as the root.
-/
namespace PropStyling

theorem Target.name_ofName (name : String) : (ofName name).name = name := by
  rw [ofName]
  split
  · next h => exact h.symm
  · rfl

/-- The name of a printable target leads back to it. -/
theorem Target.Printable.name_eq_iff {t : Target} (h : t.Printable) {name : String} :
    t.name = name ↔ t = ofName name := by
  constructor
  · rintro rfl
    exact h.legible.2.symm
  · rintro rfl
    exact name_ofName name

namespace Resolution

def fields (r : Resolution) : Fields Value :=
  r.styles.map fun style => (style.1.name, style.2)

structure Named (r : Resolution) : Prop where
  nodup_targets : (r.styles.map Prod.fst).Nodup
  printable : ∀ t ∈ r.styles.map Prod.fst, t.Printable

theorem named_of_files {g : Grouping} {declarations : List Declaration}
    (h : g.Files (Rule.ofDeclarations declarations)) (props : Props) :
    (ofGroups g.groups props).Named where
  nodup_targets := by
    rw [h.groups_eq, map_fst_styles_partition]
    exact (Rule.nodup_targets _).filter _
  printable := by
    intro t ht
    rw [h.groups_eq, map_fst_styles_partition] at ht
    exact h.sound.printable t (h.targets_eq ▸ (List.mem_filter.mp ht).1)

namespace Named

variable {r : Resolution}

theorem nodup_names (h : r.Named) : r.fields.names.Nodup := by
  have hnames : r.fields.names = (r.styles.map Prod.fst).map Target.name := by
    simp [fields, Fields.names]
  rw [hnames]
  refine h.nodup_targets.map_on fun s hs t ht he => ?_
  rw [(h.printable s hs).name_eq_iff.mp he]
  exact ((h.printable t ht).name_eq_iff.mp rfl).symm

theorem toValue_eq (h : r.Named) : r.toValue = .object r.fields :=
  congrArg Value.object (Fields.ofList_of_nodup h.nodup_names)

theorem lookup_fields (h : r.Named) (name : String) :
    List.lookup name r.fields = r.get? (.ofName name) := by
  obtain ⟨styles⟩ := r
  have hp := h.printable
  simp only [fields, get?] at hp ⊢
  clear h
  induction styles with
  | nil => rfl
  | cons style styles ih =>
    rw [List.map_cons, List.forall_mem_cons] at hp
    rw [List.map_cons, List.lookup_cons, List.lookup_cons, ih hp.2]
    have hname : (name == style.1.name) = (Target.ofName name == style.1) := by
      rw [Bool.eq_iff_iff, beq_iff_eq, beq_iff_eq, eq_comm, hp.1.name_eq_iff, eq_comm]
    rw [hname]

end Named

/-- As one object a resolution loses nothing, however the grouping came about. No target has two
styles, and the object has a field for each style, in the same order, under the name of its target.
Under every name stands the style of the target of that name, if it has one; so there is a field
`root` if and only if the root has a style. -/
theorem toValue_keeps_styles {g : Grouping} (h : g.Reachable) (props : Props) :
    let r := ofGroups g.groups props
    (r.styles.map Prod.fst).Nodup ∧
    ∃ fields : Fields Value, r.toValue = .object fields ∧ fields.names.Nodup ∧
      fields = (r.styles.map fun style => (style.1.name, style.2)) ∧
      fields.length = r.styles.length ∧
      (∀ name, List.lookup name fields = r.get? (.ofName name)) ∧
      ((List.lookup "root" fields).isSome = true ↔ r.root?.isSome = true) := by
  intro r
  obtain ⟨declarations, hf⟩ := h.exists_files
  have hr : r.Named := named_of_files hf props
  have hroot : List.lookup "root" r.fields = r.root? := hr.lookup_fields "root"
  exact ⟨hr.nodup_targets, r.fields, hr.toValue_eq, hr.nodup_names, rfl, List.length_map _,
    hr.lookup_fields, by rw [hroot]⟩

/-- The root under two spellings, and a part whose first rule does not hold. -/
theorem toValue_keeps_styles_of_appended :
    let first := Grouping.ofDeclarations (some []) [⟨[("::icon", .string "a"),
      ("color", .string "red"), ("[off]::label", .null)]⟩]
    let later := Grouping.ofDeclarations none [⟨[("[on]::label", .string "c"),
      ("::root", .object [("size", .null)]), ("::icon", .string "b")]⟩]
    let r := ofGroups (first.append later).groups [("on", .bool true)]
    (first.append later).Reachable ∧
      (∃ fields : Fields Value, r.toValue = .object fields ∧
        fields.names = ["icon", "root", "label"] ∧ List.lookup "root" fields = r.root? ∧
        List.lookup "part" fields = none) ∧
      r.toValue.text = "\x7b\"icon\":\"a b\",\"root\":\x7b\"color\":\"red\",\"size\":null\x7d," ++
        "\"label\":\"c\"\x7d" := by
  intro first later r
  have hg : (first.append later).Reachable := .append (.ofDeclarations _ _) (.ofDeclarations _ _)
  obtain ⟨-, fields, hvalue, -, hfields, -, hlookup, -⟩ :=
    toValue_keeps_styles hg [("on", .bool true)]
  have hpart : r.contains (.named "part") = false := by decide +kernel
  refine ⟨hg, ⟨fields, hvalue, ?_, hlookup "root", ?_⟩, by decide +kernel⟩
  · rw [hfields]
    decide +kernel
  · exact (hlookup "part").trans (Option.not_isSome_iff_eq_none.mp (Bool.eq_false_iff.mp hpart))

end Resolution

end PropStyling
