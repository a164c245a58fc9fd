import PropStyling.Proofs.Grouping

/-! # Appending groupings

Every grouping that is built by grouping configurations and appending the results files
the rules of one configuration, namely of all of them in order, and notes names that these
rules target, each once. Appending goes by whole groups and by names already noted, so it
agrees with grouping one rule after another only because no target has two groups and no
name is noted twice. What is left of a history is then its run of rules, and appending
inherits the laws of concatenation.
-/
namespace PropStyling

attribute [ext] Grouping

namespace Grouping

/-- Noting names in turn notes the new ones among them, each where it comes first. -/
theorem foldl_note_eraseDups (names later : List String) :
    later.foldl note names.eraseDups = (names ++ later).eraseDups := by
  induction later using List.reverseRecOn with
  | nil => rw [List.append_nil]; rfl
  | append_singleton later name ih =>
    rw [List.foldl_append, ih, ← List.append_assoc, eraseDups_append_singleton]
    simp only [List.foldl_cons, List.foldl_nil, note, List.mem_eraseDups]

theorem undeclared_append {g : Grouping} (h : g.undeclared.Nodup) (later : Grouping) :
    (g.append later).undeclared = (g.undeclared ++ later.undeclared).eraseDups := by
  rw [← foldl_note_eraseDups, eraseDups_of_nodup h]
  rfl

structure Files (g : Grouping) (rules : List Rule) : Prop where
  groups_eq : g.groups = Group.partition rules
  nodup_undeclared : g.undeclared.Nodup
  exists_rule : ∀ name ∈ g.undeclared, ∃ r ∈ rules, r.target = .named name

namespace Files

theorem empty : Grouping.empty.Files [] :=
  ⟨rfl, List.nodup_nil, nofun⟩

theorem ofDeclarations (known : Option SubComponents) (declarations : List Declaration) :
    (ofDeclarations known declarations).Files (Rule.ofDeclarations declarations) where
  groups_eq := groups_ofDeclarations known declarations
  nodup_undeclared := (ofDeclarations_partitions known declarations).2.2.2.2.1
  exists_rule := by
    intro name hn
    rw [undeclared_ofDeclarations] at hn
    cases known with
    | none => cases hn
    | some subs =>
      obtain ⟨r, hr, hu⟩ := List.mem_filterMap.mp (List.mem_eraseDups.mp hn)
      refine ⟨r, hr, ?_⟩
      cases ht : r.target with
      | root => rw [ht] at hu; cases hu
      | named other =>
        rw [ht, Target.undeclared?] at hu
        split at hu
        · cases hu
        · cases hu
          rfl

/-- Appending files the run of the one and then that of the other. -/
theorem append {g h : Grouping} {rules later : List Rule} (hg : g.Files rules)
    (hh : h.Files later) : (g.append h).Files (rules ++ later) where
  groups_eq := groups_append hg.groups_eq hh.groups_eq
  nodup_undeclared := by
    rw [undeclared_append hg.nodup_undeclared]
    exact nodup_eraseDups _
  exists_rule := by
    intro name hn
    rw [undeclared_append hg.nodup_undeclared, List.mem_eraseDups, List.mem_append] at hn
    rcases hn with hn | hn
    · obtain ⟨r, hr, ht⟩ := hg.exists_rule name hn
      exact ⟨r, List.mem_append_left later hr, ht⟩
    · obtain ⟨r, hr, ht⟩ := hh.exists_rule name hn
      exact ⟨r, List.mem_append_right rules hr, ht⟩

end Files

theorem append_assoc {first middle last : Grouping} {rules others later : List Rule}
    (hf : first.Files rules) (hm : middle.Files others) (hl : last.Files later) :
    (first.append middle).append last = first.append (middle.append last) := by
  apply Grouping.ext
  · rw [((hf.append hm).append hl).groups_eq, (hf.append (hm.append hl)).groups_eq,
      List.append_assoc]
  · rw [undeclared_append (hf.append hm).nodup_undeclared, undeclared_append hf.nodup_undeclared,
      undeclared_append hf.nodup_undeclared, undeclared_append hm.nodup_undeclared,
      eraseDups_eraseDups_append, eraseDups_append_eraseDups, List.append_assoc]

theorem empty_append {g : Grouping} {rules : List Rule} (h : g.Files rules) :
    empty.append g = g := by
  apply Grouping.ext
  · rw [(Files.empty.append h).groups_eq, List.nil_append, h.groups_eq]
  · rw [undeclared_append Files.empty.nodup_undeclared]
    exact eraseDups_of_nodup h.nodup_undeclared

theorem ofDeclarations_append (known : Option SubComponents)
    (declarations later : List Declaration) : ofDeclarations known (declarations ++ later) =
      (ofDeclarations known declarations).append (ofDeclarations known later) := by
  apply Grouping.ext
  · rw [groups_append_ofDeclarations, groups_ofDeclarations]
  · rw [undeclared_append (Files.ofDeclarations known declarations).nodup_undeclared,
      undeclared_ofDeclarations, undeclared_ofDeclarations, undeclared_ofDeclarations,
      Rule.ofDeclarations_append]
    cases known with
    | none => rfl
    | some subs =>
      simp only [Option.elim_some, List.filterMap_append, eraseDups_eraseDups_append,
        eraseDups_append_eraseDups]

/-- The groupings that come about by grouping configurations, under any declared names each, and
by appending. -/
inductive Reachable : Grouping → Prop where
  | empty : Reachable empty
  | ofDeclarations (known : Option SubComponents) (declarations : List Declaration) :
      Reachable (ofDeclarations known declarations)
  | append {earlier later : Grouping} (he : Reachable earlier) (hl : Reachable later) :
      Reachable (earlier.append later)

/-- However a grouping came about, it files the rules of one configuration. -/
theorem Reachable.exists_files {g : Grouping} (h : g.Reachable) :
    ∃ declarations, g.Files (Rule.ofDeclarations declarations) := by
  induction h with
  | empty => exact ⟨[], Files.empty⟩
  | ofDeclarations known declarations => exact ⟨declarations, .ofDeclarations known declarations⟩
  | append _ _ ihe ihl =>
    obtain ⟨declarations, hd⟩ := ihe
    obtain ⟨later, hl⟩ := ihl
    refine ⟨declarations ++ later, ?_⟩
    rw [Rule.ofDeclarations_append]
    exact hd.append hl

/-- Grouping a configuration followed by another is appending their groupings, in the groups and
in the names that are noted. On all groupings that come about by grouping and appending,
appending is associative and the empty grouping is its identity on both sides. -/
theorem append_laws :
    (∀ (known : Option SubComponents) (declarations later : List Declaration),
      ofDeclarations known (declarations ++ later) =
        (ofDeclarations known declarations).append (ofDeclarations known later)) ∧
    (∀ first middle last : Grouping, first.Reachable → middle.Reachable → last.Reachable →
      (first.append middle).append last = first.append (middle.append last)) ∧
    ∀ g : Grouping, g.Reachable → empty.append g = g ∧ g.append empty = g := by
  refine ⟨ofDeclarations_append, ?_, ?_⟩
  · intro first middle last hf hm hl
    obtain ⟨_, hf⟩ := hf.exists_files
    obtain ⟨_, hm⟩ := hm.exists_files
    obtain ⟨_, hl⟩ := hl.exists_files
    exact append_assoc hf hm hl
  · intro g hg
    obtain ⟨_, hg⟩ := hg.exists_files
    exact ⟨empty_append hg, rfl⟩

/-- Targets that come in different orders, and a name that is noted in the first part and in the
last. -/
theorem append_laws_of_interleaved :
    let first := ofDeclarations (some []) [⟨[("::icon, [on]::label", .null)]⟩]
    let middle := (ofDeclarations none [⟨[("::label", .null), ("color", .string "red")]⟩]).append
      (ofDeclarations (some [("icon", .simple)]) [⟨[("::part", .null), ("::icon", .null)]⟩])
    let last := ofDeclarations (some [("part", .simple)]) [⟨[("[on]", .null), ("::label", .null)]⟩]
    let whole := first.append (middle.append last)
    (first.append middle).append last = whole ∧ empty.append middle = middle ∧
      whole.targets = [.named "icon", .named "label", .root, .named "part"] ∧
      (whole.groups.map fun g => g.rules.length) = [2, 3, 2, 1] ∧
      whole.undeclared = ["icon", "label", "part"] := by
  intro first middle last whole
  have hm : middle.Reachable := .append (.ofDeclarations _ _) (.ofDeclarations _ _)
  exact ⟨append_laws.2.1 first middle last (.ofDeclarations _ _) hm (.ofDeclarations _ _),
    (append_laws.2.2 middle hm).1, by decide +kernel, by decide +kernel, by decide +kernel⟩

end Grouping

end PropStyling
