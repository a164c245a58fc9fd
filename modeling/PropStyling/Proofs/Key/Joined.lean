import PropStyling.Proofs.Key.Brackets
import PropStyling.Proofs.Selector.RoundTrip

/-! # Keys made of printed selectors

Printed selectors with commas between them, and any blanks around the commas, are parsed
back in their order when no value and no name has a quote in it and no name has a comma.
Each printed selector then has an even number of quotes, so the commas between the selectors
separate and those inside the values do not, whatever else the values hold.
-/
namespace PropStyling

/-- A printable selector without quotes in its values and without quotes and commas in its name. -/
def Selector.Listable (s : Selector) : Prop :=
  s.Printable ∧ (∀ v ∈ s.strings, '"' ∉ v.toList) ∧
    ',' ∉ s.target.name.toList ∧ '"' ∉ s.target.name.toList

instance : DecidablePred Selector.Listable := fun s =>
  inferInstanceAs (Decidable (s.Printable ∧ (∀ v ∈ s.strings, '"' ∉ v.toList) ∧ _))

/-- The content of a printed bracket is the escaped text of its value, if that is a text. -/
theorem Condition.Denoted.content_eq {g : List Char} {k : Condition} (h : Denoted g k) :
    Bracket.content g = [] ∨
      ∃ v, k.expected = .string v ∧ Bracket.content g = Text.escapeQuotes v.toList := by
  cases h with
  | bare h =>
    left
    rw [Bracket.content, Bracket.ofChars?_of_captures h]
    rfl
  | @valued name literal e h he =>
    obtain ⟨l, hwf, rfl, hl⟩ := he.exists_literal
    rw [Bracket.content, Bracket.ofChars?_of_captures h, Option.bind_some,
      Literal.ofChars?_chars hwf]
    cases l with
    | digits text => exact .inl rfl
    | word text => exact .inl rfl
    | quoted content =>
      cases hl
      refine .inr ⟨_, rfl, ?_⟩
      rw [String.toList_ofList, Text.escapeQuotes_unescapeQuotes hwf.2]

namespace Key

structure Closed (text : List Char) : Prop where
  unseparated : unseparated 0 text = true
  even : text.count '"' % 2 = 0

theorem Closed.of_neutral {text : List Char} (h : text.all isNeutral = true) : Closed text where
  unseparated := unseparated_of_not_mem (not_mem_of_neutral h).1
  even := by rw [List.count_eq_zero.mpr (not_mem_of_neutral h).2]

theorem Closed.append {first rest : List Char} (hf : Closed first) (hr : Closed rest) :
    Closed (first ++ rest) where
  unseparated := by
    have hparity : (rest.count '"' + 0) % 2 = 0 % 2 := hr.even
    rw [unseparated_append, unseparated_congr hparity, hf.unseparated, hr.unseparated]
    rfl
  even := by
    have hfirst := hf.even
    have hrest := hr.even
    rw [List.count_append]
    omega

/-- Closed texts are the segments of the key that they are joined to. -/
theorem segments_intercalate {texts : List (List Char)} (hn : texts ≠ [])
    (h : ∀ t ∈ texts, Closed t) :
    segments ([','].intercalate texts) = texts ∧ ([','].intercalate texts).count '"' % 2 = 0 := by
  induction texts with
  | nil => exact absurd rfl hn
  | cons t texts ih =>
    rw [List.forall_mem_cons] at h
    have ht := segments_of_unseparated h.1.unseparated
    cases texts with
    | nil =>
      rw [List.intercalate_singleton]
      exact ⟨ht, h.1.even⟩
    | cons u texts =>
      obtain ⟨hsegments, heven⟩ := ih (List.cons_ne_nil u texts) h.2
      have hfirst := h.1.even
      rw [List.intercalate_cons_cons, List.append_assoc, List.singleton_append,
        segments_append_comma heven, ht, hsegments, List.count_append,
        List.count_cons_of_ne (by decide)]
      exact ⟨rfl, by omega⟩

/-- Without quotes in the values, the printed brackets are closed. -/
theorem closed_brackets {s : Selector} (h : s.Printable) (hq : ∀ v ∈ s.strings, '"' ∉ v.toList) :
    Closed (s.conditions.map Condition.chars).flatten := by
  have hmem : ∀ g ∈ s.conditions.map Condition.chars, g ∈ Pattern.bracket :=
    (s.printed h.legible).mem_bracket
  have hcontent : '"' ∉ (s.conditions.map Condition.chars).flatMap Bracket.content := by
    intro hm
    obtain ⟨g, hg, hm⟩ := List.mem_flatMap.mp hm
    obtain ⟨k, hk, rfl⟩ := List.mem_map.mp hg
    rcases (h.legible.conditions k hk).content_eq with hc | ⟨v, hv, hc⟩
    · rw [hc] at hm
      cases hm
    · have hv := hq v (Selector.mem_strings hk hv)
      rw [hc, Text.escapeQuotes_of_not_mem hv] at hm
      exact hv hm
  obtain ⟨hsame, hcount⟩ := unseparated_flatten hmem
  constructor
  · rw [hsame, unseparated_iff]
    intro before after he
    have hafter : '"' ∉ after := fun hm => hcontent (he ▸ by simp [hm])
    rw [List.count_eq_zero.mpr hafter]
  · rw [hcount, List.count_eq_zero.mpr hcontent]

theorem closed_chars {s : Selector} (h : s.Listable) : Closed s.chars := by
  have hname : s.target.chars.all isNeutral = true := by
    refine List.all_eq_true.mpr fun c hc => ?_
    rw [isNeutral, Bool.and_eq_true, bne_iff_ne, bne_iff_ne]
    constructor
    · rintro rfl
      exact h.2.2.1 (by simpa [Target.chars] using hc)
    · rintro rfl
      exact h.2.2.2 (by simpa [Target.chars] using hc)
  have hsuffix : Closed s.printedSuffix.toList.flatten := by
    rw [Selector.printedSuffix]
    split
    · exact .of_neutral rfl
    · exact .of_neutral (by simpa using hname)
  rw [Selector.chars_eq_flatten, List.flatten_append]
  exact (closed_brackets h.1 h.2.1).append hsuffix

def Padded (s : Selector) (text : List Char) : Prop :=
  ∃ before after : List Char, before.all Text.isBlank = true ∧ after.all Text.isBlank = true ∧
    text = before ++ s.chars ++ after

theorem closed_of_padded {s : Selector} {text : List Char} (h : s.Listable) (hp : Padded s text) :
    Closed text := by
  obtain ⟨before, after, hb, ha, rfl⟩ := hp
  have hblanks : ∀ {blanks : List Char}, blanks.all Text.isBlank = true → Closed blanks :=
    fun h => .of_neutral (neutral_blanks (Pattern.mem_blanks.mpr h))
  exact ((hblanks hb).append (closed_chars h)).append (hblanks ha)

theorem trim_of_padded {s : Selector} {text : List Char} (h : s.Printable) (hp : Padded s text) :
    String.ofList (Text.trim text) = s.text := by
  obtain ⟨before, after, hb, ha, rfl⟩ := hp
  have hbounded : Text.Bounded s.chars := by
    rw [← Selector.trim_text h.legible.suffix]
    exact Text.bounded_trim _
  rw [Text.trim_append hb ha hbounded, Selector.text]

variable {selectors : List Selector} {padded : List (List Char)}

theorem closed_of_forall₂_padded (hs : ∀ s ∈ selectors, s.Listable)
    (hp : List.Forall₂ Padded selectors padded) : ∀ t ∈ padded, Closed t := by
  induction hp with
  | nil => simp
  | cons h _ ih =>
    rw [List.forall_mem_cons] at hs
    exact List.forall_mem_cons.mpr ⟨closed_of_padded hs.1 h, ih hs.2⟩

theorem map_trim_of_forall₂_padded (hs : ∀ s ∈ selectors, s.Listable)
    (hp : List.Forall₂ Padded selectors padded) :
    (padded.map fun t => String.ofList (Text.trim t)) = selectors.map Selector.text := by
  induction hp with
  | nil => rfl
  | cons h _ ih =>
    rw [List.forall_mem_cons] at hs
    rw [List.map_cons, List.map_cons, trim_of_padded hs.1.1 h, ih hs.2]

/-- The pieces of a key of padded selectors are their printed texts. -/
theorem pieces_intercalate (hn : selectors ≠ []) (hs : ∀ s ∈ selectors, s.Listable)
    (hp : List.Forall₂ Padded selectors padded) :
    pieces (String.ofList ([','].intercalate padded)) = selectors.map Selector.text := by
  have hne : padded ≠ [] := by
    rintro rfl
    exact hn (List.forall₂_nil_right_iff.mp hp)
  rw [pieces, String.toList_ofList,
    (segments_intercalate hne (closed_of_forall₂_padded hs hp)).1, map_trim_of_forall₂_padded hs hp]

/-- Printed selectors, joined by commas with any blanks around them, are parsed back in order. -/
theorem parse_intercalate (hn : selectors ≠ []) (hs : ∀ s ∈ selectors, s.Listable)
    (hp : List.Forall₂ Padded selectors padded) :
    isValid (String.ofList ([','].intercalate padded)) = true ∧
      parse (String.ofList ([','].intercalate padded)) = .ok selectors := by
  have hpieces := pieces_intercalate hn hs hp
  have hparse : ∀ s ∈ selectors, Selector.parse s.text = .ok s := fun s hm =>
    Selector.parse_text_of_first (hs s hm).1.legible
      (Selector.first_printed_of_no_quote (hs s hm).1 (hs s hm).2.1)
  constructor
  · rw [isValid, hpieces, List.all_eq_true]
    intro piece hm
    obtain ⟨s, hmem, rfl⟩ := List.mem_map.mp hm
    exact Selector.isValid_of_parse (hparse s hmem)
  · rw [parse_eq_ok_iff, hpieces, List.forall₂_map_left_iff]
    exact List.forall₂_same.mpr hparse

/-- Commas, brackets, colons and a last backslash in a value do not cut a key. -/
theorem parse_intercalate_of_three :
    let first : Selector := ⟨[⟨"a", .string "x,] ::m\\"⟩, ⟨"b_1", .number (.integer
      ⟨18446744073709551615, by decide, by decide⟩)⟩], .named "n]"⟩
    let second : Selector := ⟨[⟨"c", .bool false⟩, ⟨"d", .truthy⟩], .root⟩
    let padded := [[] ++ first.chars ++ [' '], ['\u00A0', '\n'] ++ second.chars ++ [],
      [] ++ Selector.root.chars ++ []]
    let key := "[a=\"x,] ::m\\\"][b_1=18446744073709551615]::n] ,\u00A0\n[c=false][d],::root"
    (∀ s ∈ [first, second, .root], s.Listable) ∧
      List.Forall₂ Padded [first, second, .root] padded ∧
      String.ofList ([','].intercalate padded) = key ∧
      isValid key = true ∧ parse key = .ok [first, second, .root] := by
  intro first second padded key
  have hs : ∀ s ∈ [first, second, .root], s.Listable := by decide +kernel
  have hp : List.Forall₂ Padded [first, second, .root] padded :=
    .cons ⟨[], [' '], by decide, by decide, rfl⟩
      (.cons ⟨['\u00A0', '\n'], [], by decide, by decide, rfl⟩
        (.cons ⟨[], [], by decide, by decide, rfl⟩ .nil))
  have hk : String.ofList ([','].intercalate padded) = key := by decide +kernel
  have h := parse_intercalate (List.cons_ne_nil first _) hs hp
  rw [hk] at h
  exact ⟨hs, hp, hk, h⟩

end Key

end PropStyling
