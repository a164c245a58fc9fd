import PropStyling.Proofs.Grouping.Append
import PropStyling.Proofs.Selector.Parsed

/-! # Groupings over a whole run

A grouping that starts empty and is extended again and again files one run of rules, those
of all its steps, whatever names were declared at each of them. Looking up a target stops
at the first group it finds; that this gives every rule ever filed for the target rests on
there being one group for it. What a rule, a group or a noted name can look like was settled
when the rule's selector was parsed.
-/
namespace PropStyling

namespace Grouping

structure Sound (g : Grouping) : Prop where
  nodup_targets : g.targets.Nodup
  rules_ne_nil : ∀ group ∈ g.groups, group.rules ≠ []
  target_eq : ∀ group ∈ g.groups, ∀ r ∈ group.rules, r.selector.target = group.target
  printable : ∀ t ∈ g.targets, t.Printable
  ne_empty : ∀ group ∈ g.groups, ∀ r ∈ group.rules, ∀ k ∈ r.selector.conditions,
    k.prop ≠ "" ∧ k.expected ≠ .string ""
  nodup_undeclared : g.undeclared.Nodup
  named_mem : ∀ name ∈ g.undeclared, .named name ∈ g.targets

theorem Files.targets_eq {g : Grouping} {rules : List Rule} (h : g.Files rules) :
    g.targets = Rule.targets rules := by
  rw [targets, h.groups_eq, Group.map_target_partition]

/-- A grouping that files the rules of a configuration is sound. -/
theorem Files.sound {g : Grouping} {declarations : List Declaration}
    (h : g.Files (Rule.ofDeclarations declarations)) : g.Sound where
  nodup_targets := by
    rw [h.targets_eq]
    exact Rule.nodup_targets _
  rules_ne_nil := by
    intro group hg hn
    obtain ⟨ht, hr⟩ := Group.mem_partition.mp (h.groups_eq ▸ hg)
    exact Rule.withTarget_eq_nil.mp (hr.symm.trans hn) ht
  target_eq := by
    intro group hg r hr
    rw [(Group.mem_partition.mp (h.groups_eq ▸ hg)).2] at hr
    exact of_decide_eq_true (List.mem_filter.mp hr).2
  printable := by
    intro t ht
    rw [h.targets_eq] at ht
    obtain ⟨r, hr, rfl⟩ := Rule.mem_targets.mp ht
    obtain ⟨d, -, entry, -, piece, -, hp, -⟩ := Rule.mem_ofDeclarations hr
    exact Selector.printable_target_of_parse hp
  ne_empty := by
    intro group hg r hr
    rw [(Group.mem_partition.mp (h.groups_eq ▸ hg)).2] at hr
    obtain ⟨d, -, entry, -, piece, -, hp, -⟩ := Rule.mem_ofDeclarations (List.mem_filter.mp hr).1
    exact Selector.ne_empty_of_parse hp
  nodup_undeclared := h.nodup_undeclared
  named_mem := by
    intro name hn
    rw [h.targets_eq]
    exact Rule.mem_targets.mpr (h.exists_rule name hn)

/-- Groups each configuration under declared names of its own and appends it. -/
def run (steps : List (Option SubComponents × List Declaration)) : Grouping :=
  steps.foldl (fun g step => g.append (ofDeclarations step.1 step.2)) empty

theorem files_run (steps : List (Option SubComponents × List Declaration)) :
    (run steps).Files (Rule.ofDeclarations (steps.flatMap Prod.snd)) := by
  induction steps using List.reverseRecOn with
  | nil => exact Files.empty
  | append_singleton steps step ih =>
    rw [run, List.foldl_append, List.flatMap_append, List.flatMap_singleton,
      Rule.ofDeclarations_append]
    exact ih.append (.ofDeclarations step.1 step.2)

/-- After any number of steps, each under declared names of its own, a grouping is sound and
gives for every target all rules that were ever filed for it, in order. -/
theorem sound_run (steps : List (Option SubComponents × List Declaration)) :
    (run steps).Sound ∧ ∀ t, (run steps).rules? t =
      let filed := (Rule.ofDeclarations (steps.flatMap Prod.snd)).filter fun r => r.target = t
      if filed = [] then none else some filed :=
  ⟨(files_run steps).sound, rules?_eq (files_run steps).groups_eq⟩

end Grouping

end PropStyling
