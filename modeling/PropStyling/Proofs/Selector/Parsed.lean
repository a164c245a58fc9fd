import PropStyling.Proofs.Selector.Reprinting
import PropStyling.Proofs.Selector.RoundTrip

/-! # What a parsed selector can be

The grammar has no empty name and no empty content between quotes, so a parsed selector
names every prop that it tests and every text that it compares with is not empty. Its
target is the root or a part with a name that can be printed: the name `root` was read as
the root itself.
-/
namespace PropStyling

theorem Target.printable_ofName {name : List Char} (hn : name ≠ [])
    (ha : name.all Text.isTargetChar = true) : (ofName (String.ofList name)).Printable := by
  rw [ofName]
  split
  · trivial
  · next hr =>
    refine ⟨fun he => ?_, hr, ?_⟩
    · rw [← String.toList_eq_nil_iff, String.toList_ofList] at he
      exact hn he
    · intro c hc
      rw [String.toList_ofList] at hc
      simpa [Text.isTargetChar, and_assoc] using List.all_eq_true.mp ha c hc

theorem Cutting.printable_target (c : Cutting) : c.target.Printable := by
  cases hs : c.suffix with
  | none =>
    rw [target_of_none hs]
    trivial
  | some t =>
    obtain ⟨name, hn, ha, rfl⟩ := Pattern.mem_suffix.mp (c.mem_suffix t hs)
    rw [target_of_some hs]
    exact Target.printable_ofName hn ha

theorem Condition.Denoted.ne_empty {g : List Char} {k : Condition} (h : Denoted g k) :
    k.prop ≠ "" ∧ k.expected ≠ .string "" := by
  refine ⟨fun he => ?_, fun he => ?_⟩
  · exact (Pattern.mem_name.mp h.mem_name).1 (String.toList_eq_nil_iff.mpr he)
  · have hp := h.printable (by simp [he])
    rw [he] at hp
    exact hp rfl

namespace Selector

variable {text : String} {s : Selector}

theorem printable_target_of_parse (h : parse text = .ok s) : s.target.Printable := by
  rcases eq_root_or_exists_first h with rfl | ⟨c, -, hr⟩
  · trivial
  · exact hr.2 ▸ c.printable_target

theorem ne_empty_of_parse (h : parse text = .ok s) :
    ∀ k ∈ s.conditions, k.prop ≠ "" ∧ k.expected ≠ .string "" := by
  rcases eq_root_or_exists_first h with rfl | ⟨c, -, hr⟩
  · simp [root]
  · intro k hk
    obtain ⟨g, hg⟩ := Condition.exists_denoted hr.1 k hk
    exact hg.ne_empty

end Selector

end PropStyling
