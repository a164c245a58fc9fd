import Mathlib.Algebra.Ring.Nat
import PropStyling.Proofs.Fields
import PropStyling.Proofs.Keyed

/-! # Grouping as a stable partition

Filing rules one after another gives a group for each target that occurs, in the
order of first occurrence, and each group holds exactly the rules of its target in
the order they came. Noting undeclared names does not touch the groups. The proof
carries this shape through a single filing step; it needs that no two groups share
a target, because filing stops at the first group it finds. Appending one grouping to
another therefore groups the one run of rules followed by the other. The names that are
noted depend only on the targets of the rules, each name where it comes first.
-/
namespace PropStyling
open scoped List

theorem Except.toOption_eq_some {ε α : Type} {e : Except ε α} {a : α} :
    e.toOption = some a ↔ e = .ok a := by
  cases e with
  | error _ => exact ⟨nofun, nofun⟩
  | ok b => exact ⟨fun h => congrArg Except.ok (Option.some.inj h), fun h => h ▸ rfl⟩

theorem SubComponents.contains_iff {subs : SubComponents} {name : String} :
    subs.contains name = true ↔ name ∈ subs.names :=
  Fields.lookup_isSome

def Target.undeclared? (subs : SubComponents) : Target → Option String
  | .root => none
  | .named name => if name ∈ subs.names then none else some name

namespace Rule

/-- The rule of a piece has the selector that the piece is parsed to. -/
theorem ofPiece?_eq (key : String) (value : Value) (piece : String) :
    ofPiece? key value piece = (Selector.parse piece).toOption.map fun s =>
      ⟨key, s, if Selector.isProperty piece then .object [(piece, value)] else value⟩ := by
  unfold ofPiece?
  cases Selector.parse piece with
  | error _ => rfl
  | ok s => rfl

theorem ofEntry_eq (entry : String × Value) :
    ofEntry entry = (Key.pieces entry.1).filterMap fun piece =>
      (Selector.parse piece).toOption.map fun s =>
        ⟨entry.1, s, if Selector.isProperty piece then .object [(piece, entry.2)] else entry.2⟩ := by
  unfold ofEntry
  congr 1
  funext piece
  exact ofPiece?_eq entry.1 entry.2 piece

/-- The rules of a configuration, its pieces in order and without those that are not parsed. -/
theorem ofDeclarations_eq (declarations : List Declaration) :
    ofDeclarations declarations = declarations.flatMap fun d => d.entries.flatMap fun entry =>
      (Key.pieces entry.1).filterMap fun piece => (Selector.parse piece).toOption.map fun s =>
        ⟨entry.1, s, if Selector.isProperty piece then .object [(piece, entry.2)]
          else entry.2⟩ := by
  rw [ofDeclarations, funext ofEntry_eq]

theorem mem_ofDeclarations {declarations : List Declaration} {r : Rule}
    (h : r ∈ ofDeclarations declarations) : ∃ d ∈ declarations, ∃ entry ∈ d.entries,
      ∃ piece ∈ Key.pieces entry.1, Selector.parse piece = .ok r.selector ∧ r.key = entry.1 ∧
        r.value = if Selector.isProperty piece then .object [(piece, entry.2)] else entry.2 := by
  obtain ⟨d, hd, h⟩ := List.mem_flatMap.mp h
  obtain ⟨entry, he, h⟩ := List.mem_flatMap.mp h
  obtain ⟨piece, hp, h⟩ := List.mem_filterMap.mp h
  rw [ofPiece?_eq] at h
  obtain ⟨s, hs, rfl⟩ := Option.map_eq_some_iff.mp h
  exact ⟨d, hd, entry, he, piece, hp, Except.toOption_eq_some.mp hs, rfl, rfl⟩

theorem ofDeclarations_append (declarations later : List Declaration) :
    ofDeclarations (declarations ++ later) = ofDeclarations declarations ++ ofDeclarations later :=
  List.flatMap_append

def targets (rules : List Rule) : List Target :=
  (rules.map target).eraseDups

def withTarget (rules : List Rule) (t : Target) : List Rule :=
  rules.filter fun r => r.target = t

theorem mem_targets {rules : List Rule} {t : Target} :
    t ∈ targets rules ↔ ∃ r ∈ rules, r.target = t := by
  simp [targets]

theorem nodup_targets (rules : List Rule) : (targets rules).Nodup :=
  nodup_eraseDups _

theorem targets_append_singleton (rules : List Rule) (r : Rule) :
    targets (rules ++ [r]) =
      if r.target ∈ targets rules then targets rules else targets rules ++ [r.target] := by
  simp only [targets, List.map_append, List.map_cons, List.map_nil, eraseDups_append_singleton,
    List.mem_eraseDups]

theorem withTarget_append_singleton (rules : List Rule) (r : Rule) (t : Target) :
    withTarget (rules ++ [r]) t =
      if t = r.target then withTarget rules t ++ [r] else withTarget rules t := by
  unfold withTarget
  by_cases h : t = r.target
  · simp [h]
  · simp [h, Ne.symm h]

theorem withTarget_eq_nil {rules : List Rule} {t : Target} :
    withTarget rules t = [] ↔ t ∉ targets rules := by
  simp [withTarget, mem_targets]

end Rule

namespace Group

def partition (rules : List Rule) : List Group :=
  (Rule.targets rules).map fun t => ⟨t, Rule.withTarget rules t⟩

theorem file_of_not_mem {t : Target} {ts : List Target} (f : Target → List Rule)
    (rules : List Rule) (h : t ∉ ts) :
    file t rules (ts.map fun u => ⟨u, f u⟩) = (ts.map fun u => ⟨u, f u⟩) ++ [⟨t, rules⟩] := by
  induction ts with
  | nil => rfl
  | cons u ts ih =>
    obtain ⟨hu, hts⟩ := not_or.mp (mt List.mem_cons.mpr h)
    simp only [List.map_cons, file, if_neg (Ne.symm hu), ih hts, List.cons_append]

theorem file_of_mem {t : Target} {ts : List Target} (f : Target → List Rule)
    (rules : List Rule) (hn : ts.Nodup) (h : t ∈ ts) :
    file t rules (ts.map fun u => ⟨u, f u⟩) =
      ts.map fun u => ⟨u, if u = t then f u ++ rules else f u⟩ := by
  induction ts with
  | nil => cases h
  | cons u ts ih =>
    obtain ⟨hu, hts⟩ := List.nodup_cons.mp hn
    simp only [List.map_cons, file]
    by_cases hut : u = t
    · subst hut
      rw [if_pos rfl, if_pos rfl]
      congr 1
      apply List.map_congr_left
      intro v hv
      rw [if_neg (ne_of_mem_of_not_mem hv hu)]
    · have ht : t ∈ ts := (List.mem_cons.mp h).resolve_left (Ne.symm hut)
      rw [if_neg hut, if_neg hut, ih hts ht]

/-- One filing step extends the partition by the rule that is filed. -/
theorem file_partition (rules : List Rule) (r : Rule) :
    file r.target [r] (partition rules) = partition (rules ++ [r]) := by
  unfold partition
  rw [Rule.targets_append_singleton]
  by_cases h : r.target ∈ Rule.targets rules
  · rw [if_pos h, file_of_mem _ _ (Rule.nodup_targets rules) h]
    simp only [Rule.withTarget_append_singleton]
  · rw [if_neg h, file_of_not_mem _ _ h, List.map_append]
    congr 1
    · apply List.map_congr_left
      intro t ht
      rw [Rule.withTarget_append_singleton, if_neg fun (he : t = r.target) => h (he ▸ ht)]
    · simp [Rule.withTarget_append_singleton, Rule.withTarget_eq_nil.mpr h]

theorem map_target_partition (rules : List Rule) :
    (partition rules).map target = Rule.targets rules := by
  simp [partition, Function.comp_def]

theorem mem_partition {rules : List Rule} {g : Group} : g ∈ partition rules ↔
    g.target ∈ Rule.targets rules ∧ g.rules = Rule.withTarget rules g.target := by
  constructor
  · intro h
    obtain ⟨t, ht, rfl⟩ := List.mem_map.mp h
    exact ⟨ht, rfl⟩
  · intro h
    exact List.mem_map.mpr ⟨g.target, h.1, by rw [← h.2]⟩

theorem find?_map (f : Target → List Rule) (t : Target) (ts : List Target) :
    (ts.map fun u => Group.mk u (f u)).find? (fun g => g.target = t) =
      if t ∈ ts then some ⟨t, f t⟩ else none := by
  induction ts with
  | nil => rfl
  | cons u ts ih =>
    rw [List.map_cons, List.find?_cons, ih]
    by_cases hu : u = t
    · simp [hu]
    · simp [hu, Ne.symm hu]

theorem nodup_keys_partition (rules : List Rule) :
    (((partition rules).map entry).map Prod.fst).Nodup := by
  have hk : ((partition rules).map entry).map Prod.fst = (partition rules).map target := by
    simp [entry, Function.comp_def]
  rw [hk, map_target_partition]
  exact Rule.nodup_targets rules

/-- Partitions are merged by partitioning the one run followed by the other. -/
theorem merge_partition (rules later : List Rule) :
    Keyed.merge (· ++ ·) ((partition rules).map entry) ((partition later).map entry) =
      (partition (rules ++ later)).map entry := by
  induction later using List.reverseRecOn with
  | nil => rw [List.append_nil]; rfl
  | append_singleton later r ih =>
    rw [← file_partition, map_entry_file, Keyed.merge_combine (nodup_keys_partition later), ih,
      ← map_entry_file, file_partition, List.append_assoc]

theorem flatMap_file_perm (t : Target) (added : List Rule) (groups : List Group) :
    (file t added groups).flatMap rules ~ groups.flatMap rules ++ added := by
  induction groups with
  | nil => simp [file]
  | cons g rest ih =>
    by_cases hg : g.target = t
    · simp only [file, if_pos hg, List.flatMap_cons, List.append_assoc]
      exact List.perm_append_comm.append_left g.rules
    · simp only [file, if_neg hg, List.flatMap_cons, List.append_assoc]
      exact ih.append_left g.rules

/-- No rule is lost and none is filed twice. -/
theorem flatMap_partition_perm (run : List Rule) : (partition run).flatMap rules ~ run := by
  induction run using List.reverseRecOn with
  | nil => exact .nil
  | append_singleton run r ih =>
    rw [← file_partition]
    exact (flatMap_file_perm _ _ _).trans (ih.append_right [r])

end Group

namespace Grouping

/-- Filing a run of rules gives its partition, whatever names are declared. -/
theorem groups_foldl_file (known : Option SubComponents) (rules : List Rule) :
    (rules.foldl (file known) empty).groups = Group.partition rules := by
  induction rules using List.reverseRecOn with
  | nil => rfl
  | append_singleton rules r ih =>
    rw [List.foldl_append, List.foldl_cons, List.foldl_nil, ← Group.file_partition, ← ih]
    rfl

theorem groups_ofDeclarations (known : Option SubComponents) (declarations : List Declaration) :
    (ofDeclarations known declarations).groups =
      Group.partition (Rule.ofDeclarations declarations) :=
  groups_foldl_file known _

/-- Appending groupings groups the one run of rules followed by the other. -/
theorem groups_append {g h : Grouping} {rules later : List Rule}
    (hg : g.groups = Group.partition rules) (hh : h.groups = Group.partition later) :
    (g.append h).groups = Group.partition (rules ++ later) := by
  apply Group.map_entry_injective
  rw [map_entry_append, hg, hh, Group.merge_partition]

theorem groups_append_ofDeclarations (known other : Option SubComponents)
    (declarations later : List Declaration) :
    ((ofDeclarations known declarations).append (ofDeclarations other later)).groups =
      Group.partition (Rule.ofDeclarations (declarations ++ later)) := by
  rw [Rule.ofDeclarations_append]
  exact groups_append (groups_ofDeclarations known declarations) (groups_ofDeclarations other later)

/-- The rules of a target are all those of the run that have it, if there are any. -/
theorem rules?_eq {g : Grouping} {rules : List Rule} (hg : g.groups = Group.partition rules)
    (t : Target) : g.rules? t =
      if Rule.withTarget rules t = [] then none else some (Rule.withTarget rules t) := by
  rw [rules?, hg, Group.partition, Group.find?_map]
  by_cases h : t ∈ Rule.targets rules
  · rw [if_pos h, if_neg (mt Rule.withTarget_eq_nil.mp (not_not_intro h))]
    rfl
  · rw [if_neg h, if_pos (Rule.withTarget_eq_nil.mpr h)]
    rfl

/-- A rule stands in the group of its target. -/
theorem exists_rules?_of_mem {g : Grouping} {rules : List Rule}
    (hg : g.groups = Group.partition rules) {r : Rule} (hr : r ∈ rules) :
    ∃ filed, g.rules? r.target = some filed ∧ r ∈ filed := by
  have hm : r ∈ Rule.withTarget rules r.target := List.mem_filter.mpr ⟨hr, decide_eq_true rfl⟩
  refine ⟨Rule.withTarget rules r.target, ?_, hm⟩
  rw [rules?_eq hg, if_neg (List.ne_nil_of_mem hm)]

theorem noteTarget_eq (known : Option SubComponents) (names : List String) (t : Target) :
    noteTarget known names t = (known.bind t.undeclared?).toList.foldl note names := by
  cases known with
  | none => cases t <;> rfl
  | some subs =>
    cases t with
    | root => rfl
    | named name =>
      simp only [noteTarget, SubComponents.contains_iff, Option.bind_some, Target.undeclared?]
      split <;> rfl

/-- The names that are noted are the undeclared ones of the rules, each where it comes first. -/
theorem undeclared_foldl_file (known : Option SubComponents) (rules : List Rule) :
    (rules.foldl (file known) empty).undeclared =
      (rules.filterMap fun r => known.bind r.target.undeclared?).eraseDups := by
  induction rules using List.reverseRecOn with
  | nil => rfl
  | append_singleton rules r ih =>
    rw [List.foldl_append, List.foldl_cons, List.foldl_nil, List.filterMap_append, file,
      noteTarget_eq, ih]
    cases h : known.bind r.target.undeclared? with
    | none => simp [h]
    | some name => simp [h, note, eraseDups_append_singleton]

theorem undeclared_ofDeclarations (known : Option SubComponents)
    (declarations : List Declaration) : (ofDeclarations known declarations).undeclared =
      known.elim [] fun subs => ((Rule.ofDeclarations declarations).filterMap fun r =>
        r.target.undeclared? subs).eraseDups := by
  rw [ofDeclarations, undeclared_foldl_file]
  cases known with
  | none => simp
  | some subs => rfl

/-- Grouping the rules of a configuration is an exact stable partition. Each target has one group,
in the order of the targets' first rules, with all rules of the target in their order. The names
that are not declared are noted once each in the order of their first rule, none when nothing is
declared, and what is declared does not touch the groups. -/
theorem ofDeclarations_partitions (known : Option SubComponents)
    (declarations : List Declaration) :
    let rules := declarations.flatMap fun d => d.entries.flatMap fun entry =>
      (Key.pieces entry.1).filterMap fun piece => (Selector.parse piece).toOption.map fun s =>
        Rule.mk entry.1 s (if Selector.isProperty piece then .object [(piece, entry.2)] else entry.2)
    let grouping := ofDeclarations known declarations
    (grouping.groups = (rules.map fun r => r.selector.target).eraseDups.map fun t =>
      ⟨t, rules.filter fun r => r.selector.target = t⟩) ∧
    grouping.targets.Nodup ∧
    (grouping.groups.map fun g => g.rules.length).sum = rules.length ∧
    (grouping.undeclared = known.elim [] fun subs =>
      (rules.filterMap fun r => r.selector.target.undeclared? subs).eraseDups) ∧
    grouping.undeclared.Nodup ∧
    ∀ other, (ofDeclarations other declarations).groups = grouping.groups := by
  intro rules grouping
  have hr : rules = Rule.ofDeclarations declarations := (Rule.ofDeclarations_eq declarations).symm
  have hg : grouping.groups = Group.partition rules := by
    rw [hr]
    exact groups_ofDeclarations known declarations
  have hu : grouping.undeclared = known.elim [] fun subs =>
      (rules.filterMap fun r => r.selector.target.undeclared? subs).eraseDups := by
    rw [hr]
    exact undeclared_ofDeclarations known declarations
  refine ⟨hg, ?_, ?_, hu, ?_, ?_⟩
  · rw [targets, hg, Group.map_target_partition]
    exact Rule.nodup_targets rules
  · rw [← List.length_flatMap, hg]
    exact (Group.flatMap_partition_perm rules).length_eq
  · rw [hu]
    cases known with
    | none => exact List.nodup_nil
    | some subs => exact nodup_eraseDups _
  · intro other
    rw [hg, hr]
    exact groups_ofDeclarations other declarations

end Grouping

end PropStyling
