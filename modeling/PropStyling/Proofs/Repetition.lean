import Mathlib.Data.List.Induction
import Mathlib.Data.List.Nodup

/-! # Lists without repetitions

Erasing repetitions keeps each member where it comes first. Of what is appended only the
new members are added, so it does not matter whether the repetitions of the parts were
erased before.
-/
namespace PropStyling

variable {α : Type} [DecidableEq α]

theorem eraseDups_append_singleton (xs : List α) (x : α) :
    (xs ++ [x]).eraseDups = if x ∈ xs then xs.eraseDups else xs.eraseDups ++ [x] := by
  rw [List.eraseDups_append]
  by_cases hx : x ∈ xs
  · simp [List.removeAll, hx]
  · simp [List.removeAll, hx, List.eraseDups_cons]

theorem nodup_eraseDups (xs : List α) : xs.eraseDups.Nodup := by
  induction xs using List.reverseRecOn with
  | nil => exact List.nodup_nil
  | append_singleton xs x ih =>
    rw [eraseDups_append_singleton]
    by_cases hx : x ∈ xs
    · rwa [if_pos hx]
    · rw [if_neg hx]
      exact ih.append (List.nodup_singleton x) (by simpa using hx)

theorem eraseDups_of_nodup {xs : List α} (h : xs.Nodup) : xs.eraseDups = xs := by
  induction xs using List.reverseRecOn with
  | nil => rfl
  | append_singleton xs x ih =>
    obtain ⟨hxs, -, hx⟩ := List.nodup_append.mp h
    have hnot : x ∉ xs := fun hm => hx x hm x List.mem_cons_self rfl
    rw [eraseDups_append_singleton, if_neg hnot, ih hxs]

theorem eraseDups_filter (p : α → Bool) (xs : List α) :
    (xs.filter p).eraseDups = xs.eraseDups.filter p := by
  induction xs using List.reverseRecOn with
  | nil => rfl
  | append_singleton xs x ih =>
    rw [List.filter_append, eraseDups_append_singleton]
    by_cases hp : p x = true <;> by_cases hx : x ∈ xs <;>
      simp [hp, hx, ih, eraseDups_append_singleton]

/-- Of the later list, only what is new is added. -/
theorem eraseDups_append_eq (xs ys : List α) :
    (xs ++ ys).eraseDups = xs.eraseDups ++ ys.eraseDups.filter fun y => y ∉ xs.eraseDups := by
  rw [List.eraseDups_append, List.removeAll, eraseDups_filter]
  simp

theorem eraseDups_append_eraseDups (xs ys : List α) :
    (xs ++ ys.eraseDups).eraseDups = (xs ++ ys).eraseDups := by
  rw [eraseDups_append_eq, eraseDups_append_eq, eraseDups_of_nodup (nodup_eraseDups ys)]

theorem eraseDups_eraseDups_append (xs ys : List α) :
    (xs.eraseDups ++ ys).eraseDups = (xs ++ ys).eraseDups := by
  rw [eraseDups_append_eq, eraseDups_append_eq, eraseDups_of_nodup (nodup_eraseDups xs)]

end PropStyling
