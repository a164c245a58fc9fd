import PropStyling.Proofs.Selector.Pattern
import PropStyling.Proofs.Text.Classes
import PropStyling.Selector.Recognizer

/-! # The recogniser and the grammar

Each stage of the recogniser stands for the language of the texts that may still
follow. One character leads from a stage to exactly the stages whose languages make
up the derivative of its language, and a stage is final when the empty text may
follow. So the recogniser accepts the selectors of the grammar and nothing else.
-/
namespace PropStyling

namespace Stage
open Pattern
open scoped Computability

def language : Stage → Language Char
  | start => selector
  | property => (one Text.isPropertyChar)∗
  | opened => blanks * (Pattern.name * Pattern.afterName afterBracket)
  | name => (one Text.isNameChar)∗ * Pattern.afterName afterBracket
  | named => Pattern.afterName afterBracket
  | equals => blanks * (literal * closing afterBracket)
  | digits => (one Char.isDigit)∗ * closing afterBracket
  | word left => Pattern.word left * closing afterBracket
  | quote => plus quotedUnit * (char '"' * closing afterBracket)
  | quoted backslash => unquoting backslash afterBracket
  | valued => closing afterBracket
  | closed => afterBracket
  | colon => char ':' * plus (one Text.isTargetChar)
  | colons => plus (one Text.isTargetChar)
  | target => (one Text.isTargetChar)∗

variable {c : Char} {t : List Char}

theorem suffix_eq : suffix = char ':' * (char ':' * plus (one Text.isTargetChar)) := by
  rw [suffix, mul_assoc]

theorem cons_mem_afterName : c :: t ∈ Pattern.afterName afterBracket ↔
    Text.isBlank c = true ∧ t ∈ Pattern.afterName afterBracket ∨
      c = ']' ∧ t ∈ afterBracket ∨ c = '=' ∧
        t ∈ blanks * (literal * closing afterBracket) := by
  conv_lhs => rw [Pattern.afterName, blanks, cons_mem_star_mul]
  rw [Language.mem_add, cons_mem_char_mul, cons_mem_char_mul]
  rfl

theorem cons_mem_word_mul {letter : Char} {rest : List Char} {l : Language Char} :
    c :: t ∈ Pattern.word (letter :: rest) * l ↔
      Text.fold c = letter ∧ t ∈ Pattern.word rest * l := by
  rw [Pattern.word, mul_assoc, cons_mem_one_mul, beq_iff_eq]

theorem cons_mem_literal_mul {l : Language Char} : c :: t ∈ literal * l ↔
    ((c.isDigit = true ∧ t ∈ (one Char.isDigit)∗ * l ∨
      Text.fold c = 't' ∧ t ∈ Pattern.word ['r', 'u', 'e'] * l) ∨
      Text.fold c = 'f' ∧ t ∈ Pattern.word ['a', 'l', 's', 'e'] * l) ∨
      c = '"' ∧ t ∈ plus quotedUnit * (char '"' * l) := by
  simp only [literal, add_mul, Language.mem_add, Pattern.digits, cons_mem_plus_mul,
    cons_mem_word_mul, Pattern.quoted, mul_assoc, cons_mem_char_mul]

theorem nil_mem_literal_mul {l : Language Char} : [] ∈ literal * l ↔ False := by
  simp only [literal, add_mul, Language.mem_add, Pattern.digits, nil_mem_plus_mul,
    Pattern.word, Pattern.quoted, mul_assoc, nil_mem_one_mul, nil_mem_char_mul, or_self]

theorem cons_mem_afterBracket : c :: t ∈ afterBracket ↔
    c = '[' ∧ t ∈ language opened ∨ c = ':' ∧ t ∈ language colon := by
  conv_lhs => rw [afterBracket_eq]
  rw [Language.mem_add, Language.mem_add, cons_mem_bracket_mul, suffix_eq, cons_mem_char_mul,
    Language.mem_one, or_iff_left (List.cons_ne_nil c t)]
  rfl

theorem nil_notMem_afterName : [] ∉ Pattern.afterName afterBracket := by
  rw [Pattern.afterName, blanks, nil_mem_star_mul, Language.mem_add, nil_mem_char_mul,
    nil_mem_char_mul, or_self]
  exact id

theorem nil_notMem_selector : [] ∉ selector := by
  rw [selector_eq, Language.mem_add, Language.mem_add, nil_mem_bracket_mul, suffix_eq,
    nil_mem_char_mul, Pattern.property, nil_mem_plus, or_self, or_self]
  exact id

theorem nil_mem_afterBracket : [] ∈ afterBracket := by
  rw [afterBracket_eq, Language.mem_add, Language.mem_add]
  exact .inr (.inr rfl)

/-- A stage is final when nothing more has to follow. -/
theorem nil_mem_language (stage : Stage) : [] ∈ stage.language ↔ stage.isFinal = true := by
  cases stage with
  | start => exact iff_of_false nil_notMem_selector Bool.false_ne_true
  | property => exact iff_of_true (Language.nil_mem_kstar _) rfl
  | opened =>
    simp only [language, isFinal, blanks, Pattern.name, nil_mem_star_mul, nil_mem_plus_mul,
      Bool.false_eq_true]
  | name =>
    simp only [language, isFinal, nil_mem_star_mul, nil_notMem_afterName, Bool.false_eq_true]
  | named => exact iff_of_false nil_notMem_afterName Bool.false_ne_true
  | equals =>
    simp only [language, isFinal, blanks, nil_mem_star_mul, nil_mem_literal_mul,
      Bool.false_eq_true]
  | digits =>
    simp only [language, isFinal, nil_mem_star_mul, nil_mem_closing, Bool.false_eq_true]
  | word left =>
    cases left with
    | nil =>
      simp only [language, isFinal, Pattern.word, one_mul, nil_mem_closing, Bool.false_eq_true]
    | cons letter rest =>
      simp only [language, isFinal, Pattern.word, mul_assoc, nil_mem_one_mul, Bool.false_eq_true]
  | quote => exact iff_of_false nil_mem_content.mp Bool.false_ne_true
  | quoted backslash => exact iff_of_false nil_mem_unquoting.mp Bool.false_ne_true
  | valued => exact iff_of_false nil_mem_closing.mp Bool.false_ne_true
  | closed => exact iff_of_true nil_mem_afterBracket rfl
  | colon => simp only [language, isFinal, nil_mem_char_mul, Bool.false_eq_true]
  | colons => simp only [language, isFinal, nil_mem_plus, Bool.false_eq_true]
  | target => exact iff_of_true (Language.nil_mem_kstar _) rfl

def Reads (stages : List Stage) (t : List Char) : Prop :=
  ∃ stage ∈ stages, t ∈ stage.language

@[simp] theorem reads_nil : ¬ Reads [] t := by
  simp [Reads]

@[simp] theorem reads_singleton {stage : Stage} : Reads [stage] t ↔ t ∈ stage.language := by
  simp [Reads]

@[simp] theorem reads_pair {stage other : Stage} :
    Reads [stage, other] t ↔ t ∈ stage.language ∨ t ∈ other.language := by
  simp [Reads]

theorem reads_afterLiteral : Reads (afterLiteral c) t ↔ c :: t ∈ closing afterBracket := by
  rw [cons_mem_closing, afterLiteral]
  by_cases hb : Text.isBlank c = true
  · have hc : c ≠ ']' := Text.ne_of_class hb (by decide)
    simp [hb, hc, language]
  · by_cases hc : c = ']'
    · subst hc
      simp [hb, language]
    · simp [hb, hc]

theorem reads_next_named :
    Reads (named.next c) t ↔ c :: t ∈ Pattern.afterName afterBracket := by
  rw [cons_mem_afterName, next]
  by_cases hb : Text.isBlank c = true
  · have he : c ≠ '=' := Text.ne_of_class hb (by decide)
    have hc : c ≠ ']' := Text.ne_of_class hb (by decide)
    simp [hb, he, hc, language]
  · by_cases he : c = '='
    · subst he
      simp [hb, language]
    · by_cases hc : c = ']'
      · subst hc
        simp [hb, language]
      · simp [hb, he, hc]

/-- One character leads to the stages of the derivative. -/
theorem reads_next (stage : Stage) : Reads (stage.next c) t ↔ c :: t ∈ stage.language := by
  cases stage with
  | start =>
    rw [language, selector_eq, Language.mem_add, Language.mem_add, cons_mem_bracket_mul,
      suffix_eq, cons_mem_char_mul, Pattern.property, cons_mem_plus, next]
    by_cases ho : c = '['
    · have hp : Text.isPropertyChar '[' = false := by decide
      subst ho
      simp [hp, language]
    · by_cases hc : c = ':'
      · have hp : Text.isPropertyChar ':' = false := by decide
        subst hc
        simp [hp, language]
      · by_cases hp : Text.isPropertyChar c = true <;> simp [ho, hc, hp, language]
  | property =>
    by_cases hc : Text.isPropertyChar c = true <;> simp [language, next, cons_mem_star, hc]
  | opened =>
    rw [language, blanks, cons_mem_star_mul, Pattern.name, cons_mem_plus_mul, next]
    by_cases hb : Text.isBlank c = true
    · have hn : Text.isNameChar c ≠ true := fun h =>
        Bool.false_ne_true ((Text.isBlank_of_isNameChar h).symm.trans hb)
      simp [hb, hn, language, blanks, Pattern.name]
    · by_cases hn : Text.isNameChar c = true <;> simp [hb, hn, language]
  | name =>
    rw [language, cons_mem_star_mul, ← reads_next_named]
    by_cases hn : Text.isNameChar c = true
    · have hb := Text.isBlank_of_isNameChar hn
      have he : c ≠ '=' := Text.ne_of_class hn (by decide)
      have hc : c ≠ ']' := Text.ne_of_class hn (by decide)
      simp [next, hn, hb, he, hc, language]
    · simp [next, hn]
  | named => exact reads_next_named
  | equals =>
    rw [language, blanks, cons_mem_star_mul, cons_mem_literal_mul, next]
    have hletter : ∀ {letter : Char}, letter.isLower = true → Text.fold c = letter →
        Text.isBlank c ≠ true ∧ c.isDigit ≠ true := by
      intro letter hl hf
      have h := Text.isLetter_of_fold hf hl
      have hb := Text.isBlank_of_isNameChar (Text.isNameChar_of_isLetter h)
      refine ⟨ne_true_of_eq_false hb, fun hd => ?_⟩
      exact Bool.false_ne_true ((Text.isLetter_of_isDigit hd).symm.trans h)
    by_cases hb : Text.isBlank c = true
    · have hd : c.isDigit ≠ true := fun h => ne_true_of_eq_false
        (Text.isBlank_of_isNameChar (Text.isNameChar_of_isDigit h)) hb
      have hq : c ≠ '"' := Text.ne_of_class hb (by decide)
      have ht : Text.fold c ≠ 't' := fun h => (hletter (by decide) h).1 hb
      have hf : Text.fold c ≠ 'f' := fun h => (hletter (by decide) h).1 hb
      simp [hb, hd, hq, ht, hf, language, blanks]
    · by_cases hd : c.isDigit = true
      · have hq : c ≠ '"' := Text.ne_of_class hd (by decide)
        have ht : Text.fold c ≠ 't' := fun h => (hletter (by decide) h).2 hd
        have hf : Text.fold c ≠ 'f' := fun h => (hletter (by decide) h).2 hd
        simp [hb, hd, hq, ht, hf, language]
      · by_cases hq : c = '"'
        · have ht : Text.fold '"' ≠ 't' := by decide
          have hf : Text.fold '"' ≠ 'f' := by decide
          subst hq
          simp [hb, hd, ht, hf, language]
        · by_cases ht : Text.fold c = 't'
          · simp [hb, hd, hq, ht, language]
          · by_cases hf : Text.fold c = 'f' <;> simp [hb, hd, hq, ht, hf, language]
  | digits =>
    rw [language, cons_mem_star_mul, ← reads_afterLiteral, next]
    by_cases hd : c.isDigit = true
    · have hb := Text.isBlank_of_isNameChar (Text.isNameChar_of_isDigit hd)
      have hc : c ≠ ']' := Text.ne_of_class hd (by decide)
      simp [hd, hb, hc, afterLiteral, language]
    · simp [hd]
  | word left =>
    cases left with
    | nil =>
      rw [next, reads_afterLiteral, language, Pattern.word, one_mul]
    | cons letter rest =>
      by_cases hc : Text.fold c = letter <;> simp [language, next, cons_mem_word_mul, hc]
  | quote =>
    rw [language, cons_mem_content, next]
    by_cases hq : c = '"' <;> simp [hq, language]
  | quoted backslash =>
    rw [language, cons_mem_unquoting, next]
    by_cases hq : c = '"'
    · subst hq
      cases backslash <;> simp [language, or_comm]
    · simp [hq, language]
  | valued => rw [next, reads_afterLiteral, language]
  | closed =>
    rw [language, cons_mem_afterBracket, next]
    by_cases ho : c = '['
    · subst ho
      simp
    · by_cases hc : c = ':' <;> simp [ho, hc]
  | colon => by_cases hc : c = ':' <;> simp [language, next, cons_mem_char_mul, hc]
  | colons =>
    by_cases hc : Text.isTargetChar c = true <;> simp [language, next, cons_mem_plus, hc]
  | target =>
    by_cases hc : Text.isTargetChar c = true <;> simp [language, next, cons_mem_star, hc]

/-- A stage accepts the texts of its language. -/
theorem accepts_iff (stage : Stage) (t : List Char) :
    stage.accepts t = true ↔ t ∈ stage.language := by
  induction t generalizing stage with
  | nil => rw [nil_mem_language, accepts]
  | cons c t ih =>
    rw [accepts, List.any_eq_true, ← reads_next, Reads]
    simp only [ih]

end Stage

namespace Selector

/-- The recogniser accepts exactly the selectors of the grammar. -/
theorem isValid_iff_mem (text : String) :
    isValid text = true ↔ Text.trim text.toList ∈ Pattern.selector :=
  Stage.accepts_iff .start _

end Selector

end PropStyling
