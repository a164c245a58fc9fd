import PropStyling.Proofs.Selector.Pattern
import PropStyling.Proofs.Text.Blank
import PropStyling.Proofs.Text.Classes
import PropStyling.Proofs.Text.Quoted
import PropStyling.Selector.Bracket

/-! # Brackets and the grammar

A text of the bracket pattern captures a name and, after an equals sign, a literal.
Reading a bracket from its two ends finds exactly what the pattern captures, so a
bracket determines its name and its literal.
-/
namespace PropStyling

namespace Pattern
open scoped Computability

variable {p : Char → Bool} {s : List Char}

theorem mem_star_one : s ∈ (one p)∗ ↔ s.all p = true := by
  induction s with
  | nil => exact iff_of_true (Language.nil_mem_kstar _) rfl
  | cons c t ih => rw [cons_mem_star, ih, List.all_cons, Bool.and_eq_true]

theorem mem_plus_one : s ∈ plus (one p) ↔ s ≠ [] ∧ s.all p = true := by
  cases s with
  | nil => exact iff_of_false nil_mem_plus.mp fun h => h.1 rfl
  | cons c t =>
    rw [cons_mem_plus, mem_star_one, ← Bool.and_eq_true, ← List.all_cons]
    exact (and_iff_right (List.cons_ne_nil c t)).symm

theorem mem_blanks : s ∈ blanks ↔ s.all Text.isBlank = true := mem_star_one

theorem mem_name : s ∈ name ↔ s ≠ [] ∧ s.all Text.isNameChar = true := mem_plus_one

theorem mem_digits : s ∈ digits ↔ s ≠ [] ∧ s.all Char.isDigit = true := mem_plus_one

theorem mem_word {letters : List Char} : s ∈ word letters ↔ s.map Text.fold = letters := by
  induction letters generalizing s with
  | nil => rw [word, Language.mem_one, List.map_eq_nil_iff]
  | cons letter rest ih =>
    cases s with
    | nil => rw [word, nil_mem_one_mul]; simp
    | cons c t => rw [word, cons_mem_one_mul, ih, List.map_cons, List.cons.injEq, beq_iff_eq]

theorem cons_mem_quotedUnit_star {c : Char} {t : List Char} : c :: t ∈ quotedUnit∗ ↔
    c ≠ '"' ∧ t ∈ quotedUnit∗ ∨ c = '\\' ∧ t ∈ char '"' * quotedUnit∗ := by
  conv_lhs => rw [← Language.one_add_self_mul_kstar_eq_kstar]
  rw [Language.mem_add, cons_mem_quotedUnit_mul, Language.mem_one,
    or_iff_right (List.cons_ne_nil c t)]

theorem quotesEscapedAfter_iff_mem (backslash : Bool) :
    Text.quotesEscapedAfter backslash s = true ↔
      s ∈ quotedUnit∗ ∨ backslash = true ∧ s ∈ char '"' * quotedUnit∗ := by
  induction s generalizing backslash with
  | nil => exact iff_of_true rfl (.inl (Language.nil_mem_kstar _))
  | cons c t ih =>
    rw [Text.quotesEscapedAfter, Bool.and_eq_true, ih, cons_mem_quotedUnit_star, cons_mem_char_mul]
    by_cases hc : c = '"'
    · subst hc
      simp
    · simp [hc]

theorem mem_plus_quotedUnit : s ∈ plus quotedUnit ↔ s ≠ [] ∧ Text.quotesEscaped s = true := by
  have h : Text.quotesEscaped s = true ↔ s ∈ quotedUnit∗ := by
    rw [Text.quotesEscaped, quotesEscapedAfter_iff_mem]
    simp
  rw [h, plus]
  cases s with
  | nil => exact iff_of_false nil_mem_quotedUnit_mul.mp fun h => h.1 rfl
  | cons c t =>
    rw [cons_mem_quotedUnit_mul, cons_mem_quotedUnit_star]
    exact (and_iff_right (List.cons_ne_nil c t)).symm

theorem mem_mul_char {l : Language Char} {c : Char} :
    s ∈ l * char c ↔ ∃ first ∈ l, s = first ++ [c] := by
  rw [Language.mem_mul]
  constructor
  · rintro ⟨first, hf, _, ⟨d, hd, rfl⟩, rfl⟩
    exact ⟨first, hf, by rw [eq_of_beq hd]⟩
  · rintro ⟨first, hf, rfl⟩
    exact ⟨first, hf, [c], ⟨c, beq_self_eq_true c, rfl⟩, rfl⟩

theorem mem_quoted : s ∈ quoted ↔
    ∃ content, content ≠ [] ∧ Text.quotesEscaped content = true ∧ s = '"' :: content ++ ['"'] := by
  rw [quoted, mul_assoc]
  constructor
  · intro h
    cases s with
    | nil => exact (nil_mem_char_mul.mp h).elim
    | cons c t =>
      rw [cons_mem_char_mul, mem_mul_char] at h
      obtain ⟨rfl, content, hc, rfl⟩ := h
      obtain ⟨hn, he⟩ := mem_plus_quotedUnit.mp hc
      exact ⟨content, hn, he, rfl⟩
  · rintro ⟨content, hn, he, rfl⟩
    rw [List.cons_append, cons_mem_char_mul, mem_mul_char]
    exact ⟨rfl, content, mem_plus_quotedUnit.mpr ⟨hn, he⟩, rfl⟩

theorem mem_literal : s ∈ literal ↔
    ((s ∈ digits ∨ s ∈ word trueWord) ∨ s ∈ word falseWord) ∨ s ∈ quoted := Iff.rfl

end Pattern

namespace Literal

def WellFormed : Literal → Prop
  | digits text => text ≠ [] ∧ text.all Char.isDigit = true
  | word text => text.map Text.fold = trueWord ∨ text.map Text.fold = falseWord
  | quoted content => content ≠ [] ∧ Text.quotesEscaped content = true

theorem ofChars?_of_head {s : List Char} (h : s.head? ≠ some '"') : ofChars? s = ofPlain? s := by
  cases s with
  | nil => rfl
  | cons c t =>
    have hc : c ≠ '"' := fun he => h (congrArg some he)
    simp [ofChars?, hc]

theorem ofQuoted?_eq_some {s : List Char} {l : Literal} : ofQuoted? s = some l ↔
    ∃ content, content ≠ [] ∧ Text.quotesEscaped content = true ∧ s = content ++ ['"'] ∧
      l = .quoted content := by
  rw [ofQuoted?]
  constructor
  · intro h
    split at h
    · next hq =>
      obtain ⟨first, rfl⟩ := List.getLast?_eq_some_iff.mp hq.1
      rw [List.dropLast_concat] at hq h
      cases h
      exact ⟨first, hq.2.1, hq.2.2, rfl, rfl⟩
    · cases h
  · rintro ⟨content, hn, he, rfl, rfl⟩
    simp [hn, he]

theorem ofPlain?_wellFormed {s : List Char} {l : Literal} (h : ofPlain? s = some l) :
    l.WellFormed ∧ l.chars = s := by
  rw [ofPlain?] at h
  split at h
  · next hd =>
    cases h
    exact ⟨hd, rfl⟩
  · split at h
    · next hw =>
      cases h
      exact ⟨hw, rfl⟩
    · cases h

/-- What is read is well formed and is spelled by the text. -/
theorem wellFormed_of_ofChars? {s : List Char} {l : Literal} (h : ofChars? s = some l) :
    l.WellFormed ∧ l.chars = s := by
  by_cases hs : s.head? = some '"'
  · obtain ⟨t, rfl⟩ := List.head?_eq_some_iff.mp hs
    obtain ⟨content, hn, he, rfl, rfl⟩ := ofQuoted?_eq_some.mp h
    exact ⟨⟨hn, he⟩, rfl⟩
  · rw [ofChars?_of_head hs] at h
    exact ofPlain?_wellFormed h

/-- The first character of a word is a letter. -/
theorem isLetter_head_of_word {s : List Char}
    (h : s.map Text.fold = trueWord ∨ s.map Text.fold = falseWord) :
    ∃ c t, s = c :: t ∧ Text.isLetter c = true := by
  cases s with
  | nil => simp [trueWord, falseWord] at h
  | cons c t =>
    refine ⟨c, t, rfl, ?_⟩
    rw [List.map_cons, trueWord, falseWord, List.cons.injEq, List.cons.injEq] at h
    rcases h with ⟨hc, -⟩ | ⟨hc, -⟩
    · exact Text.isLetter_of_fold hc (by decide)
    · exact Text.isLetter_of_fold hc (by decide)

/-- A well-formed literal is read back from its spelling. -/
theorem ofChars?_chars {l : Literal} (h : l.WellFormed) : ofChars? l.chars = some l := by
  cases l with
  | digits text =>
    have hq : text.head? ≠ some '"' := by
      intro he
      obtain ⟨t, rfl⟩ := List.head?_eq_some_iff.mp he
      exact absurd h.2 (by simp [Char.isDigit])
    rw [chars, ofChars?_of_head hq, ofPlain?]
    exact if_pos h
  | word text =>
    obtain ⟨c, t, rfl, hc⟩ := isLetter_head_of_word h
    have hq : (c :: t).head? ≠ some '"' := fun he =>
      Text.ne_of_class hc (by decide) (Option.some.inj he)
    have hd : ¬ (c :: t ≠ [] ∧ (c :: t).all Char.isDigit = true) := by
      rintro ⟨-, hd⟩
      rw [List.all_cons, Bool.and_eq_true] at hd
      exact Bool.false_ne_true ((Text.isLetter_of_isDigit hd.1).symm.trans hc)
    rw [chars, ofChars?_of_head hq, ofPlain?, if_neg hd]
    exact if_pos h
  | quoted content => exact ofQuoted?_eq_some.mpr ⟨content, h.1, h.2, rfl, rfl⟩

theorem mem_literal_iff {s : List Char} :
    s ∈ Pattern.literal ↔ ∃ l : Literal, l.WellFormed ∧ l.chars = s := by
  rw [Pattern.mem_literal, Pattern.mem_digits, Pattern.mem_word, Pattern.mem_word,
    Pattern.mem_quoted, or_assoc (a := s ≠ [] ∧ _)]
  constructor
  · rintro ((hd | hw) | ⟨content, hn, he, rfl⟩)
    · exact ⟨.digits s, hd, rfl⟩
    · exact ⟨.word s, hw, rfl⟩
    · exact ⟨.quoted content, ⟨hn, he⟩, rfl⟩
  · rintro ⟨l, hl, rfl⟩
    cases l with
    | digits text => exact .inl (.inl hl)
    | word text => exact .inl (.inr hl)
    | quoted content => exact .inr ⟨content, hl.1, hl.2, rfl⟩

end Literal

namespace Pattern

/-- A text matches the bracket pattern with the given name and literal captured. -/
inductive Captures : List Char → List Char → Option (List Char) → Prop
  | bare {before name after : List Char} (hb : before ∈ blanks) (hn : name ∈ Pattern.name)
      (ha : after ∈ blanks) : Captures ('[' :: (before ++ (name ++ (after ++ [']'])))) name none
  | valued {before name after between literal last : List Char} (hb : before ∈ blanks)
      (hn : name ∈ Pattern.name) (ha : after ∈ blanks) (hw : between ∈ blanks)
      (hl : literal ∈ Pattern.literal) (hz : last ∈ blanks) :
      Captures
        ('[' :: (before ++ (name ++ (after ++ '=' :: (between ++ (literal ++ (last ++ [']'])))))))
        name (some literal)

theorem mem_bracket {s : List Char} :
    s ∈ bracket ↔ ∃ name literal, Captures s name literal := by
  rw [← mul_one bracket, bracket_mul]
  constructor
  · intro h
    cases s with
    | nil => exact (nil_mem_char_mul.mp h).elim
    | cons c t =>
      obtain ⟨rfl, before, hb, _, ⟨name, hn, _, ⟨after, ha, _, hr, rfl⟩, rfl⟩, rfl⟩ :=
        cons_mem_char_mul.mp h
      rcases hr with hr | hr
      · rw [mul_one] at hr
        obtain ⟨d, hd, rfl⟩ := hr
        rw [eq_of_beq hd]
        exact ⟨name, none, .bare hb hn ha⟩
      · obtain ⟨_, ⟨d, hd, rfl⟩, _, ⟨between, hw, _, ⟨literal, hl, _, ⟨last, hz, _, he, rfl⟩, rfl⟩,
          rfl⟩, rfl⟩ := hr
        rw [mul_one] at he
        obtain ⟨e, he, rfl⟩ := he
        rw [eq_of_beq hd, eq_of_beq he]
        exact ⟨name, some literal, .valued hb hn ha hw hl hz⟩
  · rintro ⟨name, literal, h⟩
    have hclose : [']'] ∈ char ']' * 1 := cons_mem_char_mul.mpr ⟨rfl, rfl⟩
    cases h with
    | bare hb hn ha =>
      refine cons_mem_char_mul.mpr ⟨rfl, _, hb, _, ⟨_, hn, _, ⟨_, ha, _, ?_, rfl⟩, rfl⟩, rfl⟩
      exact .inl hclose
    | valued hb hn ha hw hl hz =>
      refine cons_mem_char_mul.mpr ⟨rfl, _, hb, _, ⟨_, hn, _, ⟨_, ha, _, ?_, rfl⟩, rfl⟩, rfl⟩
      refine .inr (cons_mem_char_mul.mpr ⟨rfl, _, hw, _, ⟨_, hl, _, ?_, rfl⟩, rfl⟩)
      exact ⟨_, hz, _, hclose, rfl⟩

end Pattern

theorem Literal.chars_ne_nil {l : Literal} (h : l.WellFormed) : l.chars ≠ [] := by
  cases l with
  | digits text => exact h.1
  | word text =>
    obtain ⟨c, t, rfl, -⟩ := isLetter_head_of_word h
    exact List.cons_ne_nil c t
  | quoted content => exact List.cons_ne_nil _ _

theorem Literal.isLetter_of_mem_word {s : List Char}
    (h : s.map Text.fold = trueWord ∨ s.map Text.fold = falseWord) {c : Char} (hc : c ∈ s) :
    Text.isLetter c = true := by
  have hm : Text.fold c ∈ s.map Text.fold := List.mem_map_of_mem hc
  have hl : (trueWord ++ falseWord).all Char.isLower = true := by decide
  refine Text.isLetter_of_fold rfl (List.all_eq_true.mp hl _ (List.mem_append.mpr ?_))
  rcases h with h | h
  · exact .inl (h ▸ hm)
  · exact .inr (h ▸ hm)

theorem Literal.bounded {l : Literal} (h : l.WellFormed) : Text.Bounded l.chars := by
  cases l with
  | digits text =>
    apply Text.bounded_of_all
    intro c hc
    exact Text.isBlank_of_isNameChar (Text.isNameChar_of_isDigit (List.all_eq_true.mp h.2 c hc))
  | word text =>
    apply Text.bounded_of_all
    intro c hc
    exact Text.isBlank_of_isNameChar (Text.isNameChar_of_isLetter (isLetter_of_mem_word h hc))
  | quoted content =>
    have hq : Text.Bounded ['"'] := Text.bounded_singleton (by decide)
    exact hq.append (List.cons_ne_nil _ _) (List.cons_ne_nil _ _) hq

namespace Bracket

theorem takeWhile_append_of_head {p : Char → Bool} {first rest : List Char}
    (hf : first.all p = true) (hr : ∀ c ∈ rest.head?, p c = false) :
    (first ++ rest).takeWhile p = first := by
  rw [List.takeWhile_append_of_pos (List.all_eq_true.mp hf)]
  cases rest with
  | nil => exact List.append_nil first
  | cons c rest => rw [List.takeWhile_cons, hr c rfl, if_neg Bool.false_ne_true, List.append_nil]

theorem dropWhile_append_of_head {p : Char → Bool} {first rest : List Char}
    (hf : first.all p = true) (hr : ∀ c ∈ rest.head?, p c = false) :
    (first ++ rest).dropWhile p = rest := by
  rw [List.dropWhile_append_of_pos (List.all_eq_true.mp hf)]
  cases rest with
  | nil => rfl
  | cons c rest => rw [List.dropWhile_cons, hr c rfl, if_neg Bool.false_ne_true]

theorem isNameChar_head_append {after rest : List Char} (ha : after.all Text.isBlank = true)
    (hr : ∀ c ∈ rest.head?, Text.isNameChar c = false) :
    ∀ c ∈ (after ++ rest).head?, Text.isNameChar c = false := by
  cases after with
  | nil => exact hr
  | cons d after =>
    intro c hc
    cases hc
    rw [List.all_cons, Bool.and_eq_true] at ha
    by_contra hn
    rw [Bool.not_eq_false] at hn
    exact Bool.false_ne_true ((Text.isBlank_of_isNameChar hn).symm.trans ha.1)

theorem ofInner?_bare {name : List Char} (hn : name ∈ Pattern.name) :
    ofInner? name = some ⟨name, none⟩ := by
  obtain ⟨hne, hall⟩ := Pattern.mem_name.mp hn
  have ht : (name ++ []).takeWhile Text.isNameChar = name :=
    takeWhile_append_of_head hall (by simp)
  have hd : (name ++ []).dropWhile Text.isNameChar = [] :=
    dropWhile_append_of_head hall (by simp)
  rw [List.append_nil] at ht hd
  rw [ofInner?]
  simp only [ht, hd, if_neg hne]
  rfl

theorem ofInner?_valued {name after between : List Char} {l : Literal}
    (hn : name ∈ Pattern.name) (ha : after ∈ Pattern.blanks) (hw : between ∈ Pattern.blanks)
    (hl : l.WellFormed) : ofInner? (name ++ (after ++ '=' :: (between ++ l.chars))) =
      some ⟨name, some l⟩ := by
  obtain ⟨hne, hall⟩ := Pattern.mem_name.mp hn
  have hh : ∀ c ∈ (after ++ '=' :: (between ++ l.chars)).head?, Text.isNameChar c = false :=
    isNameChar_head_append (Pattern.mem_blanks.mp ha) (by rintro c ⟨⟩; decide)
  have he : ∀ c ∈ ('=' :: (between ++ l.chars)).head?, Text.isBlank c = false := by
    rintro c ⟨⟩
    decide
  rw [ofInner?]
  simp only [takeWhile_append_of_head hall hh, dropWhile_append_of_head hall hh,
    dropWhile_append_of_head (Pattern.mem_blanks.mp ha) he, if_neg hne]
  rw [dropWhile_append_of_head (Pattern.mem_blanks.mp hw) (Literal.bounded hl).1,
    Literal.ofChars?_chars hl]
  rfl

theorem bounded_name {name : List Char} (hn : name ∈ Pattern.name) : Text.Bounded name := by
  refine Text.bounded_of_all fun c hc => Text.isBlank_of_isNameChar ?_
  exact List.all_eq_true.mp (Pattern.mem_name.mp hn).2 c hc

theorem ofChars?_wrap {before inner after : List Char} (hb : before ∈ Pattern.blanks)
    (ha : after ∈ Pattern.blanks) (h : Text.Bounded inner) :
    ofChars? ('[' :: (before ++ (inner ++ (after ++ [']'])))) = ofInner? inner := by
  have he : before ++ (inner ++ (after ++ [']'])) = before ++ inner ++ after ++ [']'] := by
    simp only [List.append_assoc]
  rw [he, ofChars?, if_pos List.getLast?_concat, List.dropLast_concat,
    Text.trim_append (Pattern.mem_blanks.mp hb) (Pattern.mem_blanks.mp ha) h]

/-- What the pattern captures is what reading finds. -/
theorem ofChars?_of_captures {s name : List Char} {literal : Option (List Char)}
    (h : Pattern.Captures s name literal) :
    ofChars? s = some ⟨name, literal.bind Literal.ofChars?⟩ := by
  cases h with
  | bare hb hn ha => rw [ofChars?_wrap hb ha (bounded_name hn), ofInner?_bare hn]; rfl
  | @valued before name after between literal last hb hn ha hw hm hz =>
    obtain ⟨l, hl, rfl⟩ := Literal.mem_literal_iff.mp hm
    have hi : Text.Bounded (name ++ (after ++ '=' :: (between ++ l.chars))) := by
      have hb : Text.Bounded (name ++ ((after ++ '=' :: between) ++ l.chars)) :=
        (bounded_name hn).append (Pattern.mem_name.mp hn).1 (Literal.chars_ne_nil hl)
          (Literal.bounded hl)
      simpa using hb
    have he := ofChars?_wrap hb hz hi
    simp only [List.append_assoc, List.cons_append] at he
    rw [he, ofInner?_valued hn ha hw hl, Option.bind_some, Literal.ofChars?_chars hl]

theorem ofInner?_eq_some {inner : List Char} {b : Bracket} (h : ofInner? inner = some b) :
    b.prop ∈ Pattern.name ∧ ∃ after ∈ Pattern.blanks,
      (b.literal = none ∧ inner = b.prop ++ after) ∨
      ∃ between ∈ Pattern.blanks, ∃ l : Literal, l.WellFormed ∧ b.literal = some l ∧
        inner = b.prop ++ (after ++ '=' :: (between ++ l.chars)) := by
  have hi := List.takeWhile_append_dropWhile (p := Text.isNameChar) (l := inner)
  have hr := List.takeWhile_append_dropWhile (p := Text.isBlank)
    (l := inner.dropWhile Text.isNameChar)
  have hall : (inner.takeWhile Text.isNameChar).all Text.isNameChar = true := List.all_takeWhile
  have hblank : ((inner.dropWhile Text.isNameChar).takeWhile Text.isBlank) ∈ Pattern.blanks :=
    Pattern.mem_blanks.mpr List.all_takeWhile
  rw [ofInner?] at h
  split at h
  · cases h
  · next hne =>
    have hn := Pattern.mem_name.mpr ⟨hne, hall⟩
    split at h
    · next he =>
      cases h
      rw [he, List.append_nil] at hr
      exact ⟨hn, _, hblank, .inl ⟨rfl, by rw [hr, hi]⟩⟩
    · next value he =>
      obtain ⟨l, hl, rfl⟩ := Option.map_eq_some_iff.mp h
      obtain ⟨hwf, hc⟩ := Literal.wellFormed_of_ofChars? hl
      have hv := List.takeWhile_append_dropWhile (p := Text.isBlank) (l := value)
      refine ⟨hn, _, hblank, .inr ⟨value.takeWhile Text.isBlank,
        Pattern.mem_blanks.mpr List.all_takeWhile, l, hwf, rfl, ?_⟩⟩
      rw [hc, hv, ← he, hr, hi]
    · cases h

/-- What reading finds is what the pattern captures, spelled out. -/
theorem captures_of_ofChars? {s : List Char} {b : Bracket} (h : ofChars? s = some b) :
    Pattern.Captures s (b.prop) (b.literal.map Literal.chars) ∧
      ∀ l ∈ b.literal, l.WellFormed := by
  rw [ofChars?.eq_def] at h
  split at h
  · next rest =>
    split at h
    · next hl =>
      obtain ⟨body, rfl⟩ := List.getLast?_eq_some_iff.mp hl
      rw [List.dropLast_concat] at h
      obtain ⟨before, last, hb, hz, hbody⟩ := Text.exists_trim body
      have hb := Pattern.mem_blanks.mpr hb
      have hz := Pattern.mem_blanks.mpr hz
      obtain ⟨hn, after, ha, ⟨hlit, hin⟩ | ⟨between, hw, l, hwf, hlit, hin⟩⟩ := ofInner?_eq_some h
      · rw [hbody, hin, hlit]
        refine ⟨?_, by simp⟩
        have he := Pattern.Captures.bare hb hn
          (Pattern.blanks_mul_blanks ▸ Language.append_mem_mul ha hz)
        simpa using he
      · rw [hbody, hin, hlit]
        refine ⟨?_, by simpa using hwf⟩
        have hm : l.chars ∈ Pattern.literal := Literal.mem_literal_iff.mpr ⟨l, hwf, rfl⟩
        have he := Pattern.Captures.valued hb hn ha hw hm hz
        simpa using he
    · cases h
  · cases h

/-- Reading succeeds on exactly the texts of the pattern. -/
theorem ofChars?_isSome {s : List Char} : (ofChars? s).isSome = true ↔ s ∈ Pattern.bracket := by
  rw [Pattern.mem_bracket]
  constructor
  · intro h
    obtain ⟨b, hb⟩ := Option.isSome_iff_exists.mp h
    exact ⟨_, _, (captures_of_ofChars? hb).1⟩
  · rintro ⟨name, literal, h⟩
    rw [ofChars?_of_captures h]
    rfl

end Bracket

end PropStyling
