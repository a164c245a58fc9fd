import PropStyling.Proofs.Key.Pieces
import PropStyling.Proofs.Resolution
import PropStyling.Proofs.Selector.FirstCutting

/-! # Shorthand entries

An entry with several pieces in its key is short for one entry for each piece, and an
entry for a bare style property is short for an object on the root. Written out at
length, at any place of a configuration, an entry makes the same rules, except that
each of them has the key it was written with. A resolution and the undeclared names are
read off what the rules say, and the keys are no part of that.
-/
namespace PropStyling

/-- The entries that an entry is short for. -/
inductive Declaration.Longhand : String × Value → List (String × Value) → Prop where
  | pieces (key : String) (value : Value) :
      Longhand (key, value) ((Key.pieces key).map fun piece => (piece, value))
  | property {key : String} (value : Value) (h : Selector.isProperty key = true) :
      Longhand (key, value)
        [("::root", .object [(String.ofList (Text.trim key.toList), value)])]

namespace Rule

def content (r : Rule) : Selector × Value :=
  (r.selector, r.value)

def contentOf? (value : Value) (piece : String) : Option (Selector × Value) :=
  (Selector.parse piece).toOption.map fun s =>
    (s, if Selector.isProperty piece then .object [(piece, value)] else value)

theorem map_content_ofEntry (entry : String × Value) :
    (ofEntry entry).map content = (Key.pieces entry.1).filterMap (contentOf? entry.2) := by
  rw [ofEntry_eq, List.map_filterMap]
  simp only [Option.map_map]
  rfl

theorem targets_eq (rules : List Rule) :
    targets rules = ((rules.map content).map fun c => c.1.target).eraseDups := by
  rw [List.map_map]
  rfl

theorem style?_eq (rules : List Rule) (props : Props) (t : Target) :
    style? rules props t = Value.cascadeAll? (((rules.map content).filter fun c =>
      c.1.target = t && c.1.holds props).map Prod.snd) := by
  rw [List.filter_map, List.map_map]
  rfl

end Rule

theorem Resolution.ofGroups_partition_of_content {rules others : List Rule}
    (h : rules.map Rule.content = others.map Rule.content) (props : Props) :
    ofGroups (Group.partition rules) props = ofGroups (Group.partition others) props := by
  have hs : (ofGroups (Group.partition rules) props).styles =
      (ofGroups (Group.partition others) props).styles := by
    simp only [styles_partition, Rule.targets_eq, Rule.style?_eq, h]
  exact congrArg Resolution.mk hs

theorem Grouping.undeclared_of_content {rules others : List Rule}
    (h : rules.map Rule.content = others.map Rule.content) (known : Option SubComponents) :
    (rules.foldl (file known) empty).undeclared =
      (others.foldl (file known) empty).undeclared := by
  have hn : ∀ rules : List Rule, (rules.filterMap fun r => known.bind r.target.undeclared?) =
      (rules.map Rule.content).filterMap fun c => known.bind c.1.target.undeclared? := by
    intro rules
    rw [List.filterMap_map]
    rfl
  rw [undeclared_foldl_file, undeclared_foldl_file, hn, hn, h]

namespace Rule

/-- An entry and the entries it is short for make rules that say the same. -/
theorem map_content_longhand {entry : String × Value} {entries : List (String × Value)}
    (h : Declaration.Longhand entry entries) :
    (entries.flatMap ofEntry).map content = (ofEntry entry).map content := by
  rw [List.map_flatMap]
  cases h with
  | pieces key value =>
    have hpiece : ∀ piece ∈ Key.pieces key,
        (ofEntry (piece, value)).map content = (contentOf? value piece).toList := by
      intro piece hp
      rw [map_content_ofEntry, Key.pieces_of_mem_pieces hp]
      cases hc : contentOf? value piece <;> simp [hc]
    rw [map_content_ofEntry, List.filterMap_eq_flatMap_toList, List.flatMap_map]
    exact List.flatMap_congr hpiece
  | @property key value hp =>
    have hname := (Selector.isProperty_trim key).trans hp
    have hpieces : Key.pieces "::root" = ["::root"] := by decide +kernel
    rw [List.flatMap_singleton, map_content_ofEntry, map_content_ofEntry, hpieces,
      Key.pieces_of_isProperty hp]
    generalize String.ofList (Text.trim key.toList) = name at hname ⊢
    have hroot : contentOf? (.object [(name, value)]) "::root" =
        some (.root, .object [(name, value)]) := rfl
    have hkey : contentOf? value name = some (.root, .object [(name, value)]) := by
      rw [contentOf?, Selector.parse_of_property hname, if_pos hname]
      rfl
    rw [List.filterMap_cons_some hroot, List.filterMap_cons_some hkey]
    rfl

theorem map_content_ofDeclarations_longhand {entry : String × Value}
    {entries : List (String × Value)} (h : Declaration.Longhand entry entries)
    (before after : List Declaration) (first last : List (String × Value)) :
    (ofDeclarations (before ++ ⟨first ++ entries ++ last⟩ :: after)).map content =
      (ofDeclarations (before ++ ⟨first ++ entry :: last⟩ :: after)).map content := by
  simp only [ofDeclarations, List.flatMap_append, List.flatMap_cons, List.map_append,
    map_content_longhand h, List.append_assoc]

end Rule

namespace Grouping

/-- Writing out an entry, wherever it stands, changes neither the names that are noted, whatever
names are declared, nor the resolution of any props. -/
theorem ofDeclarations_longhand (known : Option SubComponents) {entry : String × Value}
    {entries : List (String × Value)} (h : Declaration.Longhand entry entries)
    (before after : List Declaration) (first last : List (String × Value)) :
    let short := ofDeclarations known (before ++ ⟨first ++ entry :: last⟩ :: after)
    let long := ofDeclarations known (before ++ ⟨first ++ entries ++ last⟩ :: after)
    long.undeclared = short.undeclared ∧
      ∀ props, Resolution.ofGroups long.groups props = Resolution.ofGroups short.groups props := by
  intro short long
  have hc := Rule.map_content_ofDeclarations_longhand h before after first last
  refine ⟨undeclared_of_content hc known, fun props => ?_⟩
  rw [groups_ofDeclarations, groups_ofDeclarations]
  exact Resolution.ofGroups_partition_of_content hc props

/-- A key with a comma in a literal, and a bare property with blanks between entries for the
root. -/
theorem ofDeclarations_longhand_of_quotes_and_blanks :
    let known : Option SubComponents := some [("icon", .simple)]
    let resolve (declarations : List Declaration) : Resolution :=
      Resolution.ofGroups (ofDeclarations known declarations).groups [("label", .string "a,b")]
    let red : Value := .string "red"
    let split : List (String × Value) := [("::icon", red), ("[label=\"a,b\"]::part", red)]
    let style : Value := .object [("color", red)]
    resolve [⟨[("[label]", .null)] ++ split ++ [("::part", .null)]⟩] =
        resolve [⟨[("[label]", .null), ("::icon, [label=\"a,b\"]::part", red), ("::part", .null)]⟩] ∧
      (ofDeclarations known [⟨split⟩]).undeclared = ["part"] ∧
      resolve [⟨[("size", .null), ("::root", style), ("::root", .object [("size", red)])]⟩] =
        resolve [⟨[("size", .null), (" color ", red), ("::root", .object [("size", red)])]⟩] ∧
      (resolve [⟨[("size", .null), ("::root", style)]⟩]).styles.map Prod.fst = [.root] := by
  intro known resolve red split style
  have hsplit : Declaration.Longhand ("::icon, [label=\"a,b\"]::part", red) split := .pieces _ _
  have hstyle : Declaration.Longhand (" color ", red) [("::root", style)] :=
    .property red (by decide +kernel)
  exact ⟨(ofDeclarations_longhand known hsplit [] [] [("[label]", .null)] [("::part", .null)]).2 _,
    by decide +kernel,
    (ofDeclarations_longhand known hstyle [] [] [("size", .null)]
      [("::root", .object [("size", red)])]).2 _,
    by decide +kernel⟩

end Grouping

end PropStyling
