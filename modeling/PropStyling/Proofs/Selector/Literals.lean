import PropStyling.Proofs.Number.Nearest
import PropStyling.Proofs.Selector.Bracket

/-! # What literals stand for

Quotes stand for the text between them without the backslashes before its quotes, the words
for the two truth values, and digits for their integer or for the nearest double when the
integer has more than 64 bits. A literal stands for at most one value, the one that reading
it gives.
-/
namespace PropStyling

namespace Literal

/-- The value of a literal, apart from how it is read. The words are in ASCII letters. -/
inductive Denotes : List Char → Expected → Prop
  | isTrue {text : List Char} (h : text.map Char.toLower = "true".toList) :
      Denotes text (.bool true)
  | isFalse {text : List Char} (h : text.map Char.toLower = "false".toList) :
      Denotes text (.bool false)
  | integer {text : List Char} {n : Integer64} (hd : text ∈ Pattern.digits)
      (hn : (Nat.ofDigitChars 10 text 0 : ℤ) = n.val) : Denotes text (.number (.integer n))
  | float {text : List Char} {x : Binary64} (hd : text ∈ Pattern.digits)
      (hlong : 2 ^ 64 ≤ Nat.ofDigitChars 10 text 0)
      (hb : Nat.ofDigitChars 10 text 0 < Binary64.bound)
      (hx : x.IsNearest (Nat.ofDigitChars 10 text 0)) : Denotes text (.number (.float x))
  | quoted {text s : List Char} (hs : s ≠ [])
      (h : text = '"' :: s.flatMap (fun c => if c = '"' then ['\\', '"'] else [c]) ++ ['"']) :
      Denotes text (.string (String.ofList s))

end Literal

theorem Text.map_fold_of_map_toLower {s letters : List Char} (h : s.map Char.toLower = letters)
    (hl : letters.all Char.isLower = true) : s.map fold = letters := by
  rw [← h]
  apply List.map_congr_left
  intro c hc
  have hlow : c.toLower.isLower = true :=
    List.all_eq_true.mp hl _ (h ▸ List.mem_map_of_mem hc)
  have hs : c ≠ '\u017F' := by
    rintro rfl
    exact absurd hlow (by decide)
  have hk : c ≠ '\u212A' := by
    rintro rfl
    exact absurd hlow (by decide)
  rw [fold, if_neg hs, if_neg hk]

namespace Literal

def coerce? (text : List Char) : Option Expected :=
  (ofChars? text).bind expected?

theorem coerce?_chars {l : Literal} (h : l.WellFormed) : coerce? l.chars = l.expected? := by
  rw [coerce?, ofChars?_chars h, Option.bind_some]

theorem denotes_of_expected? {l : Literal} {e : Expected} (hl : l.WellFormed)
    (h : l.expected? = some e) : Denotes l.chars e := by
  cases l with
  | digits text =>
    rw [expected?] at h
    obtain ⟨m, hm, rfl⟩ := Option.map_eq_some_iff.mp h
    have hd : text ∈ Pattern.digits := Pattern.mem_digits.mpr hl
    rcases Number.ofInt?_natCast_eq_some_iff.mp hm with ⟨i, hi, rfl⟩ | ⟨x, hlong, hb, hx, rfl⟩
    · exact .integer hd hi
    · exact .float hd hlong hb hx
  | word text =>
    rw [expected?] at h
    split at h
    · next ht =>
      cases h
      exact .isTrue ht
    · split at h
      · next hf =>
        cases h
        exact .isFalse hf
      · cases h
  | quoted content =>
    cases h
    refine .quoted (Text.unescapeQuotes_ne_nil hl.1) ?_
    rw [← Text.escapeQuotes_eq_flatMap, Text.escapeQuotes_unescapeQuotes hl.2]
    rfl

namespace Denotes
variable {text : List Char} {e e' : Expected}

/-- A literal that stands for a value is read as it. -/
theorem exists_literal (h : Denotes text e) :
    ∃ l : Literal, l.WellFormed ∧ l.chars = text ∧ l.expected? = some e := by
  cases h with
  | isTrue h =>
    exact ⟨.word text, .inl (Text.map_fold_of_map_toLower h (by decide)), rfl, if_pos h⟩
  | isFalse h =>
    have ht : text.map Char.toLower ≠ trueWord := by
      rw [h]
      decide
    exact ⟨.word text, .inr (Text.map_fold_of_map_toLower h (by decide)), rfl,
      (if_neg ht).trans (if_pos h)⟩
  | @integer n hd hn =>
    have hm := Number.ofInt?_natCast_eq_some_iff.mpr (.inl ⟨n, hn, rfl⟩)
    exact ⟨.digits text, Pattern.mem_digits.mp hd, rfl, by rw [expected?, hm, Option.map_some]⟩
  | @float x hd hlong hb hx =>
    have hm := Number.ofInt?_natCast_eq_some_iff.mpr (.inr ⟨x, hlong, hb, hx, rfl⟩)
    exact ⟨.digits text, Pattern.mem_digits.mp hd, rfl, by rw [expected?, hm, Option.map_some]⟩
  | @quoted s hs h =>
    rw [← Text.escapeQuotes_eq_flatMap] at h
    refine ⟨.quoted (Text.escapeQuotes s), ⟨Text.escapeQuotes_ne_nil hs, ?_⟩, h.symm, ?_⟩
    · exact Text.quotesEscapedAfter_escapeQuotes false s
    · rw [expected?, Text.unescapeQuotes_escapeQuotes]

theorem iff_coerce? : Denotes text e ↔ coerce? text = some e := by
  constructor
  · intro h
    obtain ⟨l, hl, rfl, he⟩ := h.exists_literal
    rw [coerce?_chars hl, he]
  · intro h
    obtain ⟨l, hl, he⟩ := Option.bind_eq_some_iff.mp h
    obtain ⟨hwf, rfl⟩ := wellFormed_of_ofChars? hl
    exact denotes_of_expected? hwf he

theorem iff_expected? {l : Literal} (hl : l.WellFormed) :
    Denotes l.chars e ↔ l.expected? = some e := by
  rw [iff_coerce?, coerce?_chars hl]

theorem unique (h : Denotes text e) (h' : Denotes text e') : e = e' :=
  Option.some.inj ((iff_coerce?.mp h).symm.trans (iff_coerce?.mp h'))

end Denotes

/-- A literal stands for a value when it is quoted, a word in ASCII letters, or digits in range. -/
theorem exists_denotes_iff {text : List Char} (h : text ∈ Pattern.literal) :
    (∃ e, Denotes text e) ↔ text ∈ Pattern.quoted ∨ text.map Char.toLower = "true".toList ∨
      text.map Char.toLower = "false".toList ∨
      text ∈ Pattern.digits ∧ Nat.ofDigitChars 10 text 0 < Binary64.bound := by
  obtain ⟨l, hl, rfl⟩ := mem_literal_iff.mp h
  constructor
  · rintro ⟨e, he⟩
    cases he with
    | isTrue h => exact .inr (.inl h)
    | isFalse h => exact .inr (.inr (.inl h))
    | integer hd hn =>
      have hs := Number.ofInt?_natCast_eq_some_iff.mpr (.inl ⟨_, hn, rfl⟩)
      exact .inr (.inr (.inr ⟨hd, (Number.ofInt?_isSome_iff _).mp (hs ▸ rfl)⟩))
    | float hd hlong hb hx => exact .inr (.inr (.inr ⟨hd, hb⟩))
    | @quoted s hs h =>
      rw [← Text.escapeQuotes_eq_flatMap] at h
      exact .inl (Pattern.mem_quoted.mpr ⟨_, Text.escapeQuotes_ne_nil hs,
        Text.quotesEscapedAfter_escapeQuotes false s, h⟩)
  · rintro (hq | ht | hf | ⟨hd, hb⟩)
    · obtain ⟨content, hn, he, hc⟩ := Pattern.mem_quoted.mp hq
      have hw : (quoted content).WellFormed := ⟨hn, he⟩
      rw [hc]
      exact ⟨_, denotes_of_expected? hw rfl⟩
    · exact ⟨_, .isTrue ht⟩
    · exact ⟨_, .isFalse hf⟩
    · obtain ⟨m, hm⟩ := Option.isSome_iff_exists.mp ((Number.ofInt?_isSome_iff _).mpr hb)
      rcases Number.ofInt?_natCast_eq_some_iff.mp hm with ⟨i, hi, rfl⟩ | ⟨x, hlong, -, hx, rfl⟩
      · exact ⟨_, .integer hd hi⟩
      · exact ⟨_, .float hd hlong hb hx⟩

end Literal

end PropStyling
