import PropStyling.Proofs.Selector.Printing
import PropStyling.Proofs.Selector.Respelling

/-! # Printing what was parsed

Printing a parsed selector respells each of its brackets without blanks and with the
same quoted content. What is printed is parsed back to the same selector except in two
cases: an integer literal that stands for a float is printed with a point or an
exponent, which the grammar has no literal for, and without a name after the brackets
the printed text may have a cut with a suffix that comes before the brackets themselves.
-/
namespace PropStyling
open Pattern

/-- Only a quoted literal stands for a text. -/
theorem Literal.eq_quoted_of_expected? {l : Literal} {v : String}
    (h : l.expected? = some (.string v)) :
    ∃ content, l = .quoted content ∧ v = String.ofList (Text.unescapeQuotes content) := by
  cases l with
  | digits text =>
    rw [expected?] at h
    obtain ⟨n, -, hn⟩ := Option.map_eq_some_iff.mp h
    cases hn
  | word text =>
    rw [expected?] at h
    split at h
    · cases h
    · split at h <;> cases h
  | quoted content =>
    cases h
    exact ⟨content, rfl, rfl⟩

/-- Only digits stand for a number. -/
theorem Literal.all_isDigit_of_expected? {l : Literal} {n : Number} (hl : l.WellFormed)
    (h : l.expected? = some (.number n)) : l.chars.all Char.isDigit = true := by
  cases l with
  | digits text => exact hl.2
  | word text =>
    rw [expected?] at h
    split at h
    · cases h
    · split at h <;> cases h
  | quoted content => cases h

theorem Pattern.Captures.subset {s n literal : List Char} (h : Captures s n (some literal)) :
    literal ⊆ s := by
  cases h with
  | @valued before _ after between _ last hb hn ha hw hl hz =>
    intro c hc
    simp [hc]

/-- What a literal stands for is printable unless it is a float. -/
theorem Literal.printable_of_expected? {l : Literal} {e : Expected} (hl : l.WellFormed)
    (he : l.expected? = some e) (hf : ∀ x, e ≠ .number (.float x)) : e.Printable := by
  cases l with
  | digits text =>
    rw [expected?] at he
    obtain ⟨n, hn, rfl⟩ := Option.map_eq_some_iff.mp he
    cases n with
    | float x => exact absurd rfl (hf x)
    | integer i =>
      rw [Number.ofInt?] at hn
      split at hn
      · next j hj =>
        rw [Integer64.ofInt?] at hj
        split at hj
        · cases hj
          cases hn
          exact Int.natCast_nonneg _
        · cases hj
      · obtain ⟨x, -, hx⟩ := Option.map_eq_some_iff.mp hn
        cases hx
  | word text =>
    rw [expected?] at he
    split at he
    · cases he
      trivial
    · split at he
      · cases he
        trivial
      · cases he
  | quoted content =>
    cases he
    intro hs
    have hn := Text.unescapeQuotes_ne_nil hl.1
    rw [← String.toList_eq_nil_iff, String.toList_ofList] at hs
    exact hn hs

namespace Condition.Denoted

variable {g : List Char} {k : Condition}

theorem mem_name (h : Denoted g k) : k.prop.toList ∈ name := by
  have hcap : ∀ {g n : List Char} {literal : Option (List Char)}, Captures g n literal →
      n ∈ name := by
    intro g n literal h
    cases h with
    | bare hb hn ha => exact hn
    | valued hb hn ha hw hl hz => exact hn
  cases h with
  | bare h => rw [String.toList_ofList]; exact hcap h
  | valued h he => rw [String.toList_ofList]; exact hcap h

theorem printable (h : Denoted g k) (hf : ∀ x, k.expected ≠ .number (.float x)) :
    k.expected.Printable := by
  cases h with
  | bare h => trivial
  | @valued n literal e h he =>
    obtain ⟨l, hwf, -, hl⟩ := he.exists_literal
    exact Literal.printable_of_expected? hwf hl hf

/-- A condition on a text is denoted by a bracket with a quoted literal. -/
theorem exists_quoted (h : Denoted g k) {v : String} (hv : k.expected = .string v) :
    ∃ content, Captures g k.prop.toList (some (Literal.quoted content).chars) ∧
      v = String.ofList (Text.unescapeQuotes content) := by
  cases h with
  | bare h => cases hv
  | @valued n literal e h he =>
    cases hv
    obtain ⟨l, -, rfl, hl⟩ := he.exists_literal
    obtain ⟨content, rfl, hc⟩ := Literal.eq_quoted_of_expected? hl
    rw [String.toList_ofList]
    exact ⟨content, h, hc⟩

/-- A bracket is another spelling of the condition that it denotes. -/
theorem respelled (h : Denoted g k) : Respelled k.chars g := by
  have hb := h.mem_bracket
  have hp := h.mem_name
  cases shape_of_mem hb with
  | @plain inner hi =>
    have hs : ∀ v, k.expected ≠ .string v := by
      intro v hv
      obtain ⟨content, hc, -⟩ := h.exists_quoted hv
      have hq : '"' ∈ '[' :: (inner ++ [']']) := hc.subset List.mem_cons_self
      have ht := (List.mem_cons.mp hq).resolve_left (by decide)
      exact not_mem_of_all (all_isTail hi) (by decide) ht
    obtain ⟨inner', hi', hc⟩ := chars_plain hp hs
    rw [hc]
    exact .plain hi' hi hb
  | @quoted opening content last ho hc hq hl =>
    obtain ⟨before, hbefore, n, hn, after, ha, between, hw, hopening⟩ := id ho
    have hwf : (Literal.quoted content).WellFormed := ⟨hc, hq⟩
    have hm : (Literal.quoted content).chars ∈ literal :=
      Literal.mem_literal_iff.mpr ⟨.quoted content, hwf, rfl⟩
    have hcap := Captures.valued hbefore hn ha hw hm hl
    have hg : '[' :: (before ++ (n ++ (after ++ '=' :: (between ++
        ((Literal.quoted content).chars ++ (last ++ [']'])))))) =
        '[' :: (opening ++ '"' :: (content ++ '"' :: (last ++ [']']))) := by
      simp [hopening, Literal.chars]
    rw [hg] at hcap
    obtain rfl := h.unique (.valued hcap ((Literal.Denotes.iff_expected? hwf).mpr rfl))
    obtain ⟨ho', hchars⟩ := chars_quoted hp rfl
    rw [String.toList_ofList, String.toList_ofList, Text.escapeQuotes_unescapeQuotes hq] at hchars
    rw [String.toList_ofList] at ho'
    rw [hchars]
    exact .quoted ho' ho hc hq hl

end Condition.Denoted

/-- The literal of a bracket stands alone after the first equals sign. -/
theorem Pattern.Captures.exists_blanks {prop t n literal : List Char} (hp : prop ∈ name)
    (h : Captures ('[' :: (prop ++ '=' :: (t ++ [']']))) n (some literal)) :
    ∃ between ∈ blanks, ∃ last ∈ blanks, t = between ++ (literal ++ last) := by
  generalize hg : '[' :: (prop ++ '=' :: (t ++ [']'])) = g at h
  cases h with
  | @valued before _ after between _ last hb hn ha hw hm hz =>
    have hfront : (before ++ (n ++ after)).all (· != '=') = true := by
      rw [List.all_append, List.all_append, Text.all_ne_of_class (mem_blanks.mp hb) (by decide),
        Text.all_ne_of_class (Pattern.mem_name.mp hn).2 (by decide),
        Text.all_ne_of_class (mem_blanks.mp ha) (by decide)]
      rfl
    have hname : prop.all (· != '=') = true :=
      Text.all_ne_of_class (Pattern.mem_name.mp hp).2 (by decide)
    have he : prop ++ '=' :: (t ++ [']']) =
        before ++ (n ++ after) ++ '=' :: (between ++ (literal ++ last) ++ [']']) := by
      simpa using hg
    obtain ⟨-, -, he⟩ := append_cons_inj hname hfront (by decide) (by decide) he
    exact ⟨between, hw, last, hz, List.append_cancel_right he⟩

/-- A float is not denoted by its own text. -/
theorem Condition.Denoted.ne_float {k : Condition} (h : Denoted k.chars k) (x : Binary64) :
    k.expected ≠ .number (.float x) := by
  intro hx
  have hp := h.mem_name
  have hc := chars_of_ne_truthy (k := k) (by rw [hx]; exact Expected.noConfusion)
  obtain ⟨prop, e⟩ := k
  cases hx
  generalize chars ⟨prop, .number (.float x)⟩ = g at h hc
  cases h with
  | @valued n literal _ h he =>
    obtain ⟨l, hwf, rfl, hle⟩ := he.exists_literal
    have hd := Literal.all_isDigit_of_expected? hwf hle
    obtain ⟨between, hw, last, hz, ht⟩ := Captures.exists_blanks hp (hc ▸ h)
    have hx : x.chars = between ++ (l.chars ++ last) := ht
    have hnot : ∀ c ∈ x.chars, Text.isBlank c = true ∨ c.isDigit = true := by
      intro c hc
      rw [hx, List.mem_append, List.mem_append] at hc
      rcases hc with hc | hc | hc
      · exact .inl (List.all_eq_true.mp (mem_blanks.mp hw) c hc)
      · exact .inr (List.all_eq_true.mp hd c hc)
      · exact .inl (List.all_eq_true.mp (mem_blanks.mp hz) c hc)
    rcases x.point_or_letter_mem_chars with hp | hp
    · exact absurd (hnot _ hp) (by decide)
    · exact absurd (hnot _ hp) (by decide)

/-- A text that starts with a bracket and with another spelling of it starts with the same one. -/
theorem Pattern.Respelled.eq_of_append {g g' rest rest' : List Char} (h : Respelled g g')
    (he : g' ++ rest' = g ++ rest) : g' = g := by
  cases h with
  | @plain inner inner' hi hi' hb =>
    have he : inner' ++ ']' :: rest' = inner ++ ']' :: rest := by simpa using he
    rw [(append_cons_inj hi' hi (by decide) (by decide) he).1]
  | @quoted opening opening' content last ho ho' hc hq hl =>
    have he : opening' ++ '"' :: (content ++ '"' :: (last ++ ']' :: rest')) =
        opening ++ '"' :: (content ++ '"' :: ([] ++ ']' :: rest)) := by simpa using he
    obtain ⟨rfl, -, htail⟩ :=
      append_cons_inj ho'.all_isInner ho.all_isInner (by decide) (by decide) he
    have hlast := (List.cons.inj (List.append_cancel_left htail)).2
    rw [(append_cons_inj (all_isInner_blanks hl) rfl (by decide) (by decide) hlast).1]
    rfl

theorem Pattern.eq_of_respelled {gs gs' : List (List Char)} {rest rest' : List Char}
    (h : List.Forall₂ Respelled gs gs') (he : gs'.flatten ++ rest' = gs.flatten ++ rest) :
    gs' = gs := by
  induction h with
  | nil => rfl
  | @cons g g' gs gs' hg _ ih =>
    rw [List.flatten_cons, List.flatten_cons, List.append_assoc, List.append_assoc] at he
    obtain rfl := hg.eq_of_append he
    rw [ih (List.append_cancel_left he)]

theorem Condition.exists_denoted {gs : List (List Char)} {ks : List Condition}
    (h : List.Forall₂ Denoted gs ks) : ∀ k ∈ ks, ∃ g, Denoted g k := by
  induction h with
  | nil => simp
  | cons hk _ ih => exact List.forall_mem_cons.mpr ⟨⟨_, hk⟩, ih⟩

/-- The target of a cutting is printed as its suffix, or stands for the root. -/
theorem Cutting.target_facts (c : Cutting) : c.target.chars ∈ Pattern.suffix ∧
    Target.ofName c.target.name = c.target ∧
    (c.target = .root ∨ c.suffix = some c.target.chars) := by
  have hroot : Target.chars .root ∈ Pattern.suffix :=
    Pattern.mem_suffix.mpr ⟨['r', 'o', 'o', 't'], by decide, by decide, rfl⟩
  cases hs : c.suffix with
  | none =>
    rw [target_of_none hs]
    exact ⟨hroot, rfl, .inl rfl⟩
  | some t =>
    obtain ⟨n, hn, ha, rfl⟩ := Pattern.mem_suffix.mp (c.mem_suffix t hs)
    rw [target_of_some hs, List.drop_succ_cons, List.drop_succ_cons, List.drop_zero]
    by_cases hr : String.ofList n = "root"
    · rw [Target.ofName, if_pos hr]
      exact ⟨hroot, rfl, .inl rfl⟩
    · have hname : Target.ofName (String.ofList n) = .named (String.ofList n) := if_neg hr
      have hchars : Target.chars (.named (String.ofList n)) = ':' :: ':' :: n := by
        rw [Target.chars, Target.name, String.toList_ofList]
      rw [hname, hchars]
      exact ⟨Pattern.mem_suffix.mpr ⟨n, hn, ha, rfl⟩, hname, .inr rfl⟩

namespace Selector

variable {s : Selector} {c : Cutting}

theorem respelled_of_reads (h : c.Reads s) :
    List.Forall₂ Respelled (s.conditions.map Condition.chars) c.brackets :=
  List.forall₂_map_left_iff.mpr (h.1.flip.imp fun _ _ hk => hk.respelled)

theorem suffix_of_reads (h : c.Reads s) : s.target.chars ∈ Pattern.suffix :=
  h.2 ▸ c.target_facts.1

/-- A selector that was read off a cutting is legible as soon as its values are no floats. -/
theorem legible_of_reads (h : c.Reads s)
    (hf : ∀ k ∈ s.conditions, ∀ x, k.expected ≠ .number (.float x)) : s.Legible where
  conditions k hk := by
    obtain ⟨g, hg⟩ := Condition.exists_denoted h.1 k hk
    exact Condition.denoted_chars hg.mem_name (hg.printable (hf k hk))
  suffix := suffix_of_reads h
  target := h.2 ▸ c.target_facts.2.1

/-- A cutting of the printed text that reads the selector is the one that it is printed with. -/
theorem eq_printed_of_reads (h : c.Reads s) (ht : c.text = s.chars) :
    ∃ hl : s.Legible, c = s.printed hl := by
  have he : c.brackets.flatten ++ c.suffix.getD [] =
      (s.conditions.map Condition.chars).flatten ++ s.printedSuffix.toList.flatten := by
    rw [← Cutting.text_eq, ht, chars_eq_flatten, List.flatten_append]
  have hb : c.brackets = s.conditions.map Condition.chars :=
    eq_of_respelled (respelled_of_reads h) he
  have hk : ∀ k ∈ s.conditions, Condition.Denoted k.chars k := by
    have hall := h.1
    rw [hb, List.forall₂_map_left_iff, List.forall₂_same] at hall
    exact hall
  have hl : s.Legible := legible_of_reads h fun k hm x => (hk k hm).ne_float x
  exact ⟨hl, Cutting.eq_of_brackets (ht.trans (text_printed hl).symm) hb⟩

theorem lengths_printed_of_root (h : s.Legible) (ht : s.target = .root) (hk : s.conditions ≠ []) :
    (s.printed h).lengths = s.conditions.map fun k => k.chars.length := by
  have hs : (s.printed h).segments = s.conditions.map Condition.chars := by
    show s.conditions.map Condition.chars ++ s.printedSuffix.toList = _
    rw [printedSuffix_of_root ht hk]
    exact List.append_nil _
  rw [Cutting.lengths, hs, List.map_map]
  rfl

/-- A cutting that names a part is still the first one when it is printed. -/
theorem first_printed_of_first {n : String} (h : s.Legible) (ht : s.target = .named n)
    (hc : c.First c.text) (hr : c.Reads s) : (s.printed h).First s.chars := by
  rw [← text_printed h]
  have hs : c.suffix = some s.target.chars := by
    rcases c.target_facts.2.2 with hroot | hs
    · rw [← hr.2, ht] at hroot
      cases hroot
    · rw [hs, hr.2]
  exact hc.respelled hs (printedSuffix_of_named ht) (respelled_of_reads hr)

theorem legible_root : root.Legible where
  conditions := by simp [root]
  suffix := Cutting.nil.target_facts.1
  target := rfl

/-- The printed brackets come before every cutting of the printed text that has a suffix. -/
def BracketsFirst (s : Selector) : Prop :=
  ∀ c : Cutting, c.text = s.chars → c.suffix ≠ none →
    List.Lex (· < ·) (s.conditions.map fun k => k.chars.length) c.lengths

theorem bracketsFirst_of_unconditional (hk : s.conditions = []) : s.BracketsFirst := by
  intro c _ hs
  obtain ⟨t, ht⟩ := Option.ne_none_iff_exists'.mp hs
  have hne : c.lengths ≠ [] := by simp [Cutting.lengths, Cutting.segments, ht]
  obtain ⟨n, ns, hl⟩ := List.exists_cons_of_ne_nil hne
  rw [hk, hl]
  exact .nil

theorem bracketsFirst_of_first (h : s.Legible) (ht : s.target = .root)
    (hf : (s.printed h).First s.chars) : s.BracketsFirst := by
  by_cases hk : s.conditions = []
  · exact bracketsFirst_of_unconditional hk
  · intro d hd hs
    rcases hf.2 d hd with rfl | hb
    · exact absurd (printedSuffix_of_root ht hk) hs
    · rwa [Cutting.Before, lengths_printed_of_root h ht hk] at hb

theorem first_printed_of_bracketsFirst (h : s.Legible) (ht : s.target = .root)
    (hf : s.BracketsFirst) : (s.printed h).First s.chars := by
  by_cases hk : s.conditions = []
  · exact first_printed_of_unconditional h hk
  · refine ⟨text_printed h, ?_⟩
    intro d hd
    cases hs : d.suffix with
    | none =>
      refine .inl (Cutting.eq_of_text (hd.trans (text_printed h).symm) ?_)
      rw [hs]
      exact congrArg Option.isSome (printedSuffix_of_root ht hk).symm
    | some t =>
      refine .inr ?_
      rw [Cutting.Before, lengths_printed_of_root h ht hk]
      exact hf d hd (by rw [hs]; exact Option.some_ne_none t)

/-- Reading back what is printed fails for floats and where a suffix is cut off earlier. -/
theorem parse_text_iff_of_reads (hc : c.First c.text) (hr : c.Reads s) : parse s.text = .ok s ↔
    (∀ k ∈ s.conditions, ∀ x, k.expected ≠ .number (.float x)) ∧
      (s.target = .root → s.BracketsFirst) := by
  constructor
  · intro h
    rcases eq_root_or_exists_first h with rfl | ⟨d, hd, hrd⟩
    · exact ⟨by simp [root], fun _ => bracketsFirst_of_unconditional rfl⟩
    · rw [trim_text (suffix_of_reads hr)] at hd
      obtain ⟨hl, rfl⟩ := eq_printed_of_reads hrd hd.1
      constructor
      · intro k hk x
        exact (hl.conditions k hk).ne_float x
      · intro ht
        exact bracketsFirst_of_first hl ht hd
  · rintro ⟨hf, hroot⟩
    have hl := legible_of_reads hr hf
    apply parse_text_of_first hl
    cases ht : s.target with
    | named n => exact first_printed_of_first hl ht hc hr
    | root => exact first_printed_of_bracketsFirst hl ht (hroot ht)

/-- What is printed for a parsed selector is parsed back exactly when no condition expects a float
and, where no name is printed, no cutting with a suffix comes before the printed brackets. -/
theorem parse_text_iff_of_parse {t : String} (h : parse t = .ok s) : parse s.text = .ok s ↔
    (∀ k ∈ s.conditions, ∀ x, k.expected ≠ .number (.float x)) ∧
      (s.target = .root → s.BracketsFirst) := by
  rcases eq_root_or_exists_first h with rfl | ⟨c, hc, hr⟩
  · refine parse_text_iff_of_reads (c := root.printed legible_root) ?_ (reads_printed legible_root)
    exact text_printed legible_root ▸ first_printed_of_unconditional legible_root rfl
  · exact parse_text_iff_of_reads (hc.1 ▸ hc) hr

/-- A value with the text of a suffix is parsed behind a blank, but not from the printed text. -/
theorem parse_text_iff_of_blank :
    let s : Selector := ⟨[⟨"a", .string "x\"]::n"⟩], .root⟩
    parse "[a=\"x\\\"]::n\" ]" = .ok s ∧ (parse s.text = .ok s ↔
      (∀ k ∈ s.conditions, ∀ x, k.expected ≠ .number (.float x)) ∧
        (s.target = .root → s.BracketsFirst)) ∧
    parse s.text = .ok ⟨[⟨"a", .string "x\\"⟩], .named "n\"]"⟩ :=
  have hp : parse "[a=\"x\\\"]::n\" ]" = .ok ⟨[⟨"a", .string "x\"]::n"⟩], .root⟩ := by
    decide +kernel
  ⟨hp, parse_text_iff_of_parse hp, by decide +kernel⟩

/-- Digits beyond the 64-bit integers are parsed as a float, which has no literal. -/
theorem not_forall_parse_text : ¬ ∀ (t : String) (s : Selector),
    parse t = .ok s → parse s.text = .ok s := by
  intro h
  have hx : parse "[n=18446744073709551616]" = .ok ⟨[⟨"n", .number (.float ⟨false, 2 ^ 52, 12,
      by decide, by decide, by decide, .inl (by decide)⟩)⟩], .root⟩ := by decide +kernel
  exact absurd (h _ _ hx) (by decide +kernel)

end Selector

end PropStyling
