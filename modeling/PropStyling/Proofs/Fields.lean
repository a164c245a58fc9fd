import Mathlib.Data.List.Forall2
import PropStyling.Fields
import PropStyling.Proofs.Repetition

/-! # Fields by name

Fields without a repeated name are determined by their names, in order, and by what each
name is looked up to; what is looked up does not depend on the order. Merging is described
by these two: the names of the later fields that are new come last, each where it comes
first, and a name is looked up in the later fields before the earlier ones. The union of
several lists of fields is what they merge to one after another.
-/
namespace PropStyling

section Tabulated

variable {K V : Type} (f : K → Option V)

theorem map_fst_filterMap (keys : List K) :
    (keys.filterMap fun k => (f k).map (k, ·)).map Prod.fst = keys.filter fun k => (f k).isSome := by
  induction keys with
  | nil => rfl
  | cons k keys ih =>
    cases h : f k with
    | none => simpa [h] using ih
    | some v => simpa [h] using ih

theorem lookup_filterMap [DecidableEq K] (k : K) (keys : List K) :
    List.lookup k (keys.filterMap fun j => (f j).map (j, ·)) = if k ∈ keys then f k else none := by
  induction keys with
  | nil => rfl
  | cons j keys ih =>
    by_cases hj : k = j
    · subst hj
      cases h : f k with
      | none => simp [h, ih]
      | some v => simp [h]
    · have hb : (k == j) = false := beq_eq_false_iff_ne.mpr hj
      cases h : f j with
      | none => simp [h, ih, hj]
      | some v => simp [h, ih, hj, hb, List.lookup_cons]

end Tabulated

namespace Fields

variable {α : Type} {name : String} {v : α} {fields later : Fields α}

theorem mem_of_lookup (h : List.lookup name fields = some v) : (name, v) ∈ fields := by
  obtain ⟨before, after, rfl, -⟩ := List.lookup_eq_some_iff.mp h
  exact List.mem_append_right before List.mem_cons_self

theorem lookup_eq_some_iff_mem (hn : fields.names.Nodup) :
    List.lookup name fields = some v ↔ (name, v) ∈ fields := by
  refine ⟨mem_of_lookup, fun h => ?_⟩
  obtain ⟨before, after, rfl⟩ := List.append_of_mem h
  refine List.lookup_eq_some_iff.mpr ⟨before, after, rfl, fun field hf => ?_⟩
  rw [names, List.map_append, List.map_cons] at hn
  have hne : field.1 ≠ name :=
    (List.nodup_append.mp hn).2.2 _ (List.mem_map_of_mem hf) _ List.mem_cons_self
  simpa using hne.symm

theorem lookup_isSome : (List.lookup name fields).isSome = true ↔ name ∈ fields.names := by
  rw [names]
  induction fields with
  | nil => simp
  | cons field rest ih =>
    by_cases h : name = field.1
    · simp [h]
    · have hb : (name == field.1) = false := beq_eq_false_iff_ne.mpr h
      rw [List.lookup_cons, hb, ih, List.map_cons, List.mem_cons, or_iff_right h]

theorem lookup_eq_none : List.lookup name fields = none ↔ name ∉ fields.names := by
  rw [← lookup_isSome, Option.not_isSome_iff_eq_none]

/-- Fields are read off their names when none is repeated. -/
theorem filterMap_lookup (hn : fields.names.Nodup) :
    fields.names.filterMap (fun name => (List.lookup name fields).map (name, ·)) = fields := by
  rw [names, List.filterMap_map]
  have hf : ∀ field ∈ fields,
      ((fun name => (List.lookup name fields).map (name, ·)) ∘ Prod.fst) field = some field := by
    intro field hm
    rw [Function.comp_apply, (lookup_eq_some_iff_mem hn).mpr hm, Option.map_some]
  rw [List.filterMap_congr hf, List.filterMap_some]

theorem ext_lookup {others : Fields α} (hn : fields.names.Nodup) (hs : fields.names = others.names)
    (h : ∀ name, List.lookup name fields = List.lookup name others) : fields = others := by
  have ho : others.names.Nodup := hs ▸ hn
  calc fields
      = fields.names.filterMap fun name => (List.lookup name fields).map (name, ·) :=
        (filterMap_lookup hn).symm
    _ = others.names.filterMap fun name => (List.lookup name others).map (name, ·) := by
        simp only [h, hs]
    _ = others := filterMap_lookup ho

theorem lookup_perm {others : Fields α} (h : fields.Perm others) (hn : fields.names.Nodup)
    (name : String) : List.lookup name fields = List.lookup name others := by
  have hn' : others.names.Nodup := (h.map Prod.fst).nodup_iff.mp hn
  apply Option.ext
  intro v
  rw [lookup_eq_some_iff_mem hn, lookup_eq_some_iff_mem hn', h.mem_iff]

theorem lookup_filter {names : List String} (h : name ∈ names) (fields : Fields α) :
    List.lookup name (fields.filter fun field => field.1 ∈ names) = List.lookup name fields := by
  induction fields with
  | nil => rfl
  | cons field fields ih =>
    by_cases hf : name = field.1
    · subst hf
      rw [List.filter_cons, if_pos (decide_eq_true h), List.lookup_cons, List.lookup_cons,
        beq_self_eq_true]
    · have hb : (name == field.1) = false := beq_eq_false_iff_ne.mpr hf
      rw [List.filter_cons]
      split
      · rw [List.lookup_cons, List.lookup_cons, hb, ih]
      · rw [List.lookup_cons, hb, ih]

theorem rel_lookup {R : α → α → Prop} {others : Fields α} (hn : fields.names = others.names)
    (h : List.Forall₂ R (fields.map Prod.snd) (others.map Prod.snd)) (name : String) :
    Option.Rel R (List.lookup name fields) (List.lookup name others) := by
  induction fields generalizing others with
  | nil =>
    rw [List.map_eq_nil_iff.mp hn.symm]
    exact .none
  | cons field fields ih =>
    cases others with
    | nil => cases hn
    | cons other others =>
      obtain ⟨hname, hnames⟩ := List.cons.inj hn
      obtain ⟨hv, hvs⟩ := List.forall₂_cons.mp h
      rw [List.lookup_cons, List.lookup_cons, hname]
      cases name == other.1 with
      | true => exact .some hv
      | false => exact ih hnames hvs

theorem mem_names_iff_of_rel {R : α → α → Prop} {others : Fields α}
    (h : Option.Rel R (List.lookup name fields) (List.lookup name others)) :
    name ∈ fields.names ↔ name ∈ others.names := by
  rw [← lookup_isSome, ← lookup_isSome]
  generalize List.lookup name fields = v, List.lookup name others = w at h
  cases h with
  | none => rfl
  | some h => rfl

/-! ### Merging -/

theorem merge_append_singleton (fields later : Fields α) (field : String × α) :
    fields.merge (later ++ [field]) = (fields.merge later).insert field.1 field.2 := by
  rw [merge, List.foldl_append]
  rfl

theorem names_merge (hn : fields.names.Nodup) (later : Fields α) :
    (fields.merge later).names = (fields.names ++ later.names).eraseDups := by
  induction later using List.reverseRecOn with
  | nil =>
    rw [show names ([] : Fields α) = [] from rfl, List.append_nil, eraseDups_of_nodup hn]
    rfl
  | append_singleton later field ih =>
    have hnames : names (later ++ [field]) = names later ++ [field.1] := List.map_append
    rw [merge_append_singleton, names_insert, ih, hnames, ← List.append_assoc,
      eraseDups_append_singleton]
    simp only [List.mem_eraseDups]

theorem lookup_merge (hn : later.names.Nodup) (name : String) (fields : Fields α) :
    List.lookup name (fields.merge later) =
      (List.lookup name later).or (List.lookup name fields) := by
  induction later generalizing fields with
  | nil => rfl
  | cons field later ih =>
    obtain ⟨hnot, hn⟩ := List.nodup_cons.mp hn
    rw [merge, List.foldl_cons, ← merge, ih hn, lookup_insert]
    by_cases h : name = field.1
    · rw [if_pos h, h, lookup_eq_none.mpr hnot, List.lookup_cons, beq_self_eq_true]
      rfl
    · rw [if_neg h, List.lookup_cons, beq_eq_false_iff_ne.mpr h]

/-- A list without repeated names is the list of fields that it makes. -/
theorem ofList_of_nodup (hn : fields.names.Nodup) : ofList fields = fields := by
  have hempty : (names ([] : Fields α)).Nodup := List.nodup_nil
  have hnames : (ofList fields).names = fields.names := by
    rw [ofList, names_merge hempty]
    exact eraseDups_of_nodup hn
  refine ext_lookup (hnames ▸ hn) hnames fun name => ?_
  rw [ofList, lookup_merge hn]
  exact Option.or_none

def union (objects : List (Fields α)) : Fields α :=
  (objects.flatMap names).eraseDups.filterMap fun name =>
    (objects.reverse.findSome? (List.lookup name)).map (name, ·)

theorem findSome?_lookup_isSome {objects : List (Fields α)} :
    (objects.reverse.findSome? (List.lookup name)).isSome = true ↔
      name ∈ (objects.flatMap names).eraseDups := by
  rw [List.findSome?_isSome_iff, List.mem_eraseDups, List.mem_flatMap]
  simp only [List.mem_reverse, lookup_isSome]

theorem names_union (objects : List (Fields α)) :
    (union objects).names = (objects.flatMap names).eraseDups := by
  rw [names, union, map_fst_filterMap, List.filter_eq_self]
  exact fun _ => findSome?_lookup_isSome.mpr

theorem lookup_union (name : String) (objects : List (Fields α)) :
    List.lookup name (union objects) = objects.reverse.findSome? (List.lookup name) := by
  rw [union, lookup_filterMap]
  split
  · rfl
  · next h => exact (Option.not_isSome_iff_eq_none.mp (mt findSome?_lookup_isSome.mp h)).symm

theorem nodup_names_union (objects : List (Fields α)) : (union objects).names.Nodup := by
  rw [names_union]
  exact nodup_eraseDups _

theorem union_singleton (hn : fields.names.Nodup) : union [fields] = fields := by
  refine ext_lookup (nodup_names_union _) ?_ fun name => ?_
  · rw [names_union, List.flatMap_singleton, eraseDups_of_nodup hn]
  · rw [lookup_union, List.reverse_singleton, List.findSome?_singleton]

/-- One object more is merged onto the union. -/
theorem merge_union (hn : later.names.Nodup) (objects : List (Fields α)) :
    (union objects).merge later = union (objects ++ [later]) := by
  have hnames : ((union objects).merge later).names = (union (objects ++ [later])).names := by
    rw [names_merge (nodup_names_union objects), names_union, names_union, List.flatMap_append,
      List.flatMap_singleton, eraseDups_eraseDups_append]
  refine ext_lookup (hnames ▸ nodup_names_union _) hnames fun name => ?_
  rw [lookup_merge hn, lookup_union, lookup_union, List.reverse_append, List.reverse_singleton,
    List.singleton_append, List.findSome?_cons]
  cases List.lookup name later <;> rfl

end Fields

end PropStyling
