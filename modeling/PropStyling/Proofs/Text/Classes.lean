import Mathlib
import PropStyling.Text.Classes

/-! # The characters of selectors apart

The classes that the grammar puts next to each other do not overlap: no name
character is blank, and neither blanks nor name characters are among the brackets,
quotes, backslashes and colons that give a selector its structure.
-/
namespace PropStyling.Text

/-- A character of a class differs from any character outside the class. -/
theorem ne_of_class {p : Char → Bool} {c d : Char} (hc : p c = true) (hd : p d = false) :
    c ≠ d := by
  rintro rfl
  exact Bool.false_ne_true (hd.symm.trans hc)

theorem all_imp {p q : Char → Bool} {s : List Char} (h : s.all p = true)
    (hpq : ∀ c, p c = true → q c = true) : s.all q = true :=
  List.all_eq_true.mpr fun c hc => hpq c (List.all_eq_true.mp h c hc)

theorem all_ne_of_class {p : Char → Bool} {s : List Char} {d : Char} (h : s.all p = true)
    (hd : p d = false) : s.all (· != d) = true :=
  all_imp h fun _ hc => bne_iff_ne.mpr (ne_of_class hc hd)

theorem isAlpha_iff (c : Char) : c.isAlpha = true ↔
    65 ≤ c.toNat ∧ c.toNat ≤ 90 ∨ 97 ≤ c.toNat ∧ c.toNat ≤ 122 := by
  have hu : c.isUpper = true ↔ 65 ≤ c.toNat ∧ c.toNat ≤ 90 := decide_eq_true_iff
  have hl : c.isLower = true ↔ 97 ≤ c.toNat ∧ c.toNat ≤ 122 :=
    Bool.and_eq_true_iff.trans (and_congr decide_eq_true_iff decide_eq_true_iff)
  rw [Char.isAlpha, Bool.or_eq_true, hu, hl]

/-- Letters up to case are the ASCII letters, the long s and the Kelvin sign. -/
theorem isLetter_iff (c : Char) :
    isLetter c = true ↔ c.isAlpha = true ∨ c = '\u017F' ∨ c = '\u212A' := by
  unfold isLetter fold
  by_cases hs : c = '\u017F'
  · subst hs; decide
  · by_cases hk : c = '\u212A'
    · subst hk; decide
    · rw [if_neg hs, if_neg hk, Char.isLower_toLower_eq_isAlpha]
      simp [hs, hk]

theorem isLetter_of_fold {c letter : Char} (h : fold c = letter) (hl : letter.isLower = true) :
    isLetter c = true := by
  rw [isLetter, h, hl]

theorem isLetter_of_isDigit {c : Char} (h : c.isDigit = true) : isLetter c = false := by
  have hc : 48 ≤ c.toNat ∧ c.toNat ≤ 57 := Char.isDigit_iff_toNat.mp h
  rw [Bool.eq_false_iff, ne_eq, isLetter_iff]
  rintro (ha | rfl | rfl)
  · rw [isAlpha_iff] at ha
    omega
  · revert hc
    decide
  · revert hc
    decide

theorem isPropertyChar_iff (c : Char) :
    isPropertyChar c = true ↔ c.isAlphanum = true ∨ c = '\u017F' ∨ c = '\u212A' := by
  simp only [isPropertyChar, Char.isAlphanum, Bool.or_eq_true, isLetter_iff]
  exact or_right_comm

theorem isPropertyChar_of_isAlphanum {c : Char} (h : c.isAlphanum = true) :
    isPropertyChar c = true :=
  (isPropertyChar_iff c).mpr (.inl h)

theorem isNameChar_of_isPropertyChar {c : Char} (h : isPropertyChar c = true) :
    isNameChar c = true := by
  rw [isNameChar, h, Bool.true_or]

theorem isNameChar_of_isLetter {c : Char} (h : isLetter c = true) : isNameChar c = true :=
  isNameChar_of_isPropertyChar (by rw [isPropertyChar, h, Bool.true_or])

theorem isNameChar_of_isDigit {c : Char} (h : c.isDigit = true) : isNameChar c = true :=
  isNameChar_of_isPropertyChar (by rw [isPropertyChar, h, Bool.or_true])

theorem isBlank_of_isAlphanum {c : Char} (h : c.isAlphanum = true) : isBlank c = false := by
  have hc : (65 ≤ c.toNat ∧ c.toNat ≤ 90 ∨ 97 ≤ c.toNat ∧ c.toNat ≤ 122) ∨
      48 ≤ c.toNat ∧ c.toNat ≤ 57 := by
    rw [Char.isAlphanum, Bool.or_eq_true, isAlpha_iff] at h
    exact h.imp_right Char.isDigit_iff_toNat.mp
  rw [Bool.eq_false_iff]
  intro hb
  simp [isBlank, inRanges, blankRanges] at hb
  omega

theorem isBlank_of_isNameChar {c : Char} (h : isNameChar c = true) : isBlank c = false := by
  rw [isNameChar, Bool.or_eq_true, isPropertyChar_iff] at h
  rcases h with (h | rfl | rfl) | h
  · exact isBlank_of_isAlphanum h
  · decide
  · decide
  · rw [eq_of_beq h]
    decide

def isInner (c : Char) : Bool :=
  c != '[' && c != ']' && c != '"' && c != '\\' && c != ':'

theorem isInner_of_class {p : Char → Bool} {c : Char} (hc : p c = true)
    (hd : ['[', ']', '"', '\\', ':'].any p = false) : isInner c = true := by
  have h : ∀ d ∈ ['[', ']', '"', '\\', ':'], c ≠ d := by
    intro d hm
    exact ne_of_class hc (Bool.eq_false_iff.mpr (List.any_eq_false.mp hd d hm))
  simpa [isInner, and_assoc] using h

theorem isInner_of_isBlank {c : Char} (h : isBlank c = true) : isInner c = true :=
  isInner_of_class h (by decide)

theorem isInner_of_isNameChar {c : Char} (h : isNameChar c = true) : isInner c = true :=
  isInner_of_class h (by decide)

end PropStyling.Text
