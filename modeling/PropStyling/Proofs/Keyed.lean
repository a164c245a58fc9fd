import Mathlib.Data.List.Nodup
import PropStyling.Grouping

/-! # Combining under a key

Inserting a field and filing rules are one operation: a value is combined with the one
under its key, or comes last under a new key. Merging does so for each entry of a later
list in turn. When values combine associatively, an entry may be combined into the later
list before the merge or into the result after it, provided that no key occurs twice in
the later list; a second entry of a key would otherwise be reached by one way only.
Merging is then associative.
-/
namespace PropStyling

namespace Keyed

variable {K V : Type} [DecidableEq K]

def combine (op : V → V → V) (k : K) (v : V) : List (K × V) → List (K × V)
  | [] => [(k, v)]
  | e :: rest => if e.1 = k then (k, op e.2 v) :: rest else e :: combine op k v rest

def merge (op : V → V → V) (entries later : List (K × V)) : List (K × V) :=
  later.foldl (fun acc e => combine op e.1 e.2 acc) entries

variable {op : V → V → V} {j k : K} {v w : V} {entries later : List (K × V)}

theorem keys_combine : (combine op k v entries).map Prod.fst =
    if k ∈ entries.map Prod.fst then entries.map Prod.fst else entries.map Prod.fst ++ [k] := by
  induction entries with
  | nil => rfl
  | cons e rest ih =>
    by_cases he : e.1 = k
    · simp [combine, he]
    · have hk : k ≠ e.1 := Ne.symm he
      simp only [combine, if_neg he, List.map_cons, ih, List.mem_cons, hk, false_or]
      split <;> simp

theorem mem_keys_combine : j ∈ (combine op k v entries).map Prod.fst ↔
    j = k ∨ j ∈ entries.map Prod.fst := by
  rw [keys_combine]
  split
  · next hk => exact ⟨.inr, fun h => h.elim (fun hj => hj ▸ hk) id⟩
  · rw [List.mem_append, List.mem_singleton, or_comm]

theorem nodup_combine (h : (entries.map Prod.fst).Nodup) :
    ((combine op k v entries).map Prod.fst).Nodup := by
  rw [keys_combine]
  split
  · exact h
  · next hk => exact h.append (List.nodup_singleton k) (by simpa using hk)

theorem nodup_merge (h : (entries.map Prod.fst).Nodup) :
    ((merge op entries later).map Prod.fst).Nodup := by
  induction later generalizing entries with
  | nil => exact h
  | cons e later ih => exact ih (nodup_combine h)

/-- Two values under one key are combined in turn or at once. -/
theorem combine_combine [Std.Associative op] :
    combine op k w (combine op k v entries) = combine op k (op v w) entries := by
  induction entries with
  | nil => simp [combine]
  | cons e rest ih =>
    by_cases he : e.1 = k
    · have ha : op (op e.2 v) w = op e.2 (op v w) := Std.Associative.assoc ..
      simp [combine, he, ha]
    · simp [combine, he, ih]

/-- The order of two keys matters only when both are new. -/
theorem combine_comm (hjk : j ≠ k) (hk : k ∈ entries.map Prod.fst) :
    combine op j w (combine op k v entries) = combine op k v (combine op j w entries) := by
  induction entries with
  | nil => cases hk
  | cons e rest ih =>
    by_cases he : e.1 = k
    · have hej : e.1 ≠ j := fun h => hjk (h.symm.trans he)
      simp [combine, he, Ne.symm hjk]
    · have hr : k ∈ rest.map Prod.fst := (List.mem_cons.mp hk).resolve_left (Ne.symm he)
      by_cases hej : e.1 = j
      · simp [combine, hej, hjk]
      · simp [combine, he, hej, ih hr]

theorem merge_combine_of_not_mem (hk : k ∈ entries.map Prod.fst)
    (hn : k ∉ later.map Prod.fst) :
    merge op (combine op k v entries) later = combine op k v (merge op entries later) := by
  induction later generalizing entries with
  | nil => rfl
  | cons e later ih =>
    obtain ⟨hek, hn⟩ := not_or.mp (mt List.mem_cons.mpr hn)
    have hm : k ∈ (combine op e.1 e.2 entries).map Prod.fst := mem_keys_combine.mpr (.inr hk)
    calc merge op (combine op k v entries) (e :: later)
        = merge op (combine op k v (combine op e.1 e.2 entries)) later := by
          rw [merge, List.foldl_cons, combine_comm (Ne.symm hek) hk]
          rfl
      _ = combine op k v (merge op entries (e :: later)) := ih hm hn

/-- A value is combined into the later list before the merge or into the result after it. -/
theorem merge_combine [Std.Associative op] (hn : (later.map Prod.fst).Nodup) :
    merge op entries (combine op k v later) = combine op k v (merge op entries later) := by
  induction later generalizing entries with
  | nil => rfl
  | cons e later ih =>
    obtain ⟨hne, hn⟩ := List.nodup_cons.mp hn
    by_cases he : e.1 = k
    · have hm : k ∈ (combine op e.1 e.2 entries).map Prod.fst :=
        mem_keys_combine.mpr (.inl he.symm)
      calc merge op entries (combine op k v (e :: later))
          = merge op (combine op k v (combine op e.1 e.2 entries)) later := by
            rw [he, combine_combine, combine, if_pos he]
            rfl
        _ = combine op k v (merge op entries (e :: later)) :=
            merge_combine_of_not_mem hm (he ▸ hne)
    · rw [combine, if_neg he]
      exact ih hn

theorem merge_assoc [Std.Associative op] {xs ys : List (K × V)} (zs : List (K × V))
    (hn : (ys.map Prod.fst).Nodup) :
    merge op (merge op xs ys) zs = merge op xs (merge op ys zs) := by
  induction zs generalizing ys with
  | nil => rfl
  | cons e zs ih =>
    calc merge op (merge op xs ys) (e :: zs)
        = merge op (merge op xs (combine op e.1 e.2 ys)) zs := by
          rw [merge_combine hn]
          rfl
      _ = merge op xs (merge op ys (e :: zs)) := ih (nodup_combine hn)

end Keyed

instance laterWins {α : Type} : Std.Associative fun _ later : α => later := ⟨fun _ _ _ => rfl⟩

namespace Fields

variable {α : Type}

theorem insert_eq_combine (name : String) (value : α) (fields : Fields α) :
    fields.insert name value = Keyed.combine (fun _ later => later) name value fields := by
  induction fields with
  | nil => rfl
  | cons field rest ih => rw [insert, Keyed.combine, ih]

theorem merge_eq (fields later : Fields α) :
    fields.merge later = Keyed.merge (fun _ later => later) fields later := by
  simp only [merge, Keyed.merge, insert_eq_combine]

theorem mem_of_mem_insert {name : String} {value : α} {fields : Fields α} {field : String × α}
    (h : field ∈ fields.insert name value) : field = (name, value) ∨ field ∈ fields := by
  induction fields with
  | nil => exact .inl (List.mem_singleton.mp h)
  | cons first rest ih =>
    rw [insert] at h
    split at h
    · exact (List.mem_cons.mp h).imp_right (List.mem_cons_of_mem first)
    · rcases List.mem_cons.mp h with rfl | hr
      · exact .inr List.mem_cons_self
      · exact (ih hr).imp_right (List.mem_cons_of_mem first)

theorem nodup_names_insert {name : String} {value : α} {fields : Fields α}
    (h : fields.names.Nodup) : (fields.insert name value).names.Nodup := by
  rw [insert_eq_combine]
  exact Keyed.nodup_combine h

theorem nodup_names_merge {fields : Fields α} (later : Fields α) (h : fields.names.Nodup) :
    (fields.merge later).names.Nodup := by
  rw [merge_eq]
  exact Keyed.nodup_merge h

/-- Merging is associative as long as no name occurs twice in the middle. -/
theorem merge_assoc (first : Fields α) {middle : Fields α} (last : Fields α)
    (h : middle.names.Nodup) :
    (first.merge middle).merge last = first.merge (middle.merge last) := by
  simp only [merge_eq]
  exact Keyed.merge_assoc last h

end Fields

namespace Group

def entry (g : Group) : Target × List Rule := (g.target, g.rules)

theorem map_entry_injective : Function.Injective (List.map entry) :=
  List.map_injective_iff.mpr fun g h he => by
    cases g
    cases h
    cases he
    rfl

theorem map_entry_file (t : Target) (rules : List Rule) (groups : List Group) :
    (file t rules groups).map entry = Keyed.combine (· ++ ·) t rules (groups.map entry) := by
  induction groups with
  | nil => rfl
  | cons g rest ih =>
    by_cases hg : g.target = t
    · simp [file, Keyed.combine, entry, hg]
    · simp [file, Keyed.combine, entry, hg, ← ih]

end Group

/-- Appending a grouping merges its groups. -/
theorem Grouping.map_entry_append (earlier later : Grouping) :
    (earlier.append later).groups.map Group.entry =
      Keyed.merge (· ++ ·) (earlier.groups.map Group.entry) (later.groups.map Group.entry) := by
  obtain ⟨groups, names⟩ := earlier
  obtain ⟨laters, others⟩ := later
  simp only [append]
  induction laters generalizing groups with
  | nil => rfl
  | cons g laters ih =>
    rw [List.foldl_cons, ih, Group.map_entry_file]
    rfl

end PropStyling
