import Mathlib.Computability.Language
import PropStyling.Text.Classes

/-! # The grammar of selectors as regular languages

A bracket, a suffix and a whole selector are regular languages over characters,
put together from single characters by concatenation, alternation and repetition.
In a quoted literal a backslash may be read by itself or together with a quote
after it; the languages leave that choice open. Membership of a text is decided
one character at a time by the derivative of a language.
-/
namespace PropStyling.Pattern
open scoped Computability

variable {p : Char → Bool} {c : Char} {t : List Char} {l : Language Char}

def one (p : Char → Bool) : Language Char := {s | ∃ c, p c = true ∧ s = [c]}

def char (c : Char) : Language Char := one (· == c)

def plus (l : Language Char) : Language Char := l * l∗

/-- The spellings of a lower-case word up to case. -/
def word : List Char → Language Char
  | [] => 1
  | letter :: rest => one (Text.fold · == letter) * word rest

def blanks : Language Char := (one Text.isBlank)∗
def digits : Language Char := plus (one Char.isDigit)

/-- A character inside quotes, or a quote with a backslash before it. -/
def quotedUnit : Language Char := one (· != '"') + char '\\' * char '"'

def quoted : Language Char := char '"' * plus quotedUnit * char '"'

def literal : Language Char :=
  digits + word ['t', 'r', 'u', 'e'] + word ['f', 'a', 'l', 's', 'e'] + quoted

def name : Language Char := plus (one Text.isNameChar)

def bracket : Language Char :=
  char '[' * blanks * name * blanks *
    (1 + blanks * char '=' * blanks * literal * blanks) * blanks * char ']'

def suffix : Language Char := char ':' * char ':' * plus (one Text.isTargetChar)

def property : Language Char := plus (one Text.isPropertyChar)

def selector : Language Char := plus bracket + bracket∗ * suffix + property

section Derivatives

theorem cons_mem_one_mul : c :: t ∈ one p * l ↔ p c = true ∧ t ∈ l := by
  rw [Language.mem_mul]
  constructor
  · rintro ⟨s, ⟨d, hd, rfl⟩, r, hr, he⟩
    obtain ⟨rfl, rfl⟩ := List.cons.inj he
    exact ⟨hd, hr⟩
  · rintro ⟨hc, ht⟩
    exact ⟨[c], ⟨c, hc, rfl⟩, t, ht, rfl⟩

theorem nil_mem_one_mul : [] ∈ one p * l ↔ False := by
  rw [Language.mem_mul, iff_false]
  rintro ⟨s, ⟨d, -, rfl⟩, r, -, he⟩
  exact List.cons_ne_nil _ _ he

theorem cons_mem_char_mul {d : Char} : c :: t ∈ char d * l ↔ c = d ∧ t ∈ l := by
  rw [char, cons_mem_one_mul, beq_iff_eq]

theorem nil_mem_char_mul {d : Char} : [] ∈ char d * l ↔ False := nil_mem_one_mul

theorem star_mul (m l : Language Char) : m∗ * l = l + m * (m∗ * l) := by
  conv_lhs => rw [← Language.one_add_self_mul_kstar_eq_kstar]
  rw [add_mul, one_mul, mul_assoc]

theorem plus_mul (m l : Language Char) : plus m * l = m * (m∗ * l) := by
  rw [plus, mul_assoc]

theorem cons_mem_star_mul :
    c :: t ∈ (one p)∗ * l ↔ p c = true ∧ t ∈ (one p)∗ * l ∨ c :: t ∈ l := by
  conv_lhs => rw [star_mul]
  rw [Language.mem_add, cons_mem_one_mul, or_comm]

theorem nil_mem_star_mul : [] ∈ (one p)∗ * l ↔ [] ∈ l := by
  rw [star_mul, Language.mem_add, nil_mem_one_mul, or_false]

theorem cons_mem_plus_mul : c :: t ∈ plus (one p) * l ↔ p c = true ∧ t ∈ (one p)∗ * l := by
  rw [plus_mul, cons_mem_one_mul]

theorem nil_mem_plus_mul : [] ∈ plus (one p) * l ↔ False := by
  rw [plus_mul, nil_mem_one_mul]

theorem cons_mem_star : c :: t ∈ (one p)∗ ↔ p c = true ∧ t ∈ (one p)∗ := by
  rw [← mul_one (one p)∗, cons_mem_star_mul, Language.mem_one, or_iff_left (List.cons_ne_nil c t)]

theorem cons_mem_plus : c :: t ∈ plus (one p) ↔ p c = true ∧ t ∈ (one p)∗ := by
  rw [plus, cons_mem_one_mul]

theorem nil_mem_plus : [] ∈ plus (one p) ↔ False := nil_mem_one_mul

theorem quotedUnit_mul (l : Language Char) :
    quotedUnit * l = one (· != '"') * l + char '\\' * (char '"' * l) := by
  rw [quotedUnit, add_mul, mul_assoc]

theorem cons_mem_quotedUnit_mul :
    c :: t ∈ quotedUnit * l ↔ c ≠ '"' ∧ t ∈ l ∨ c = '\\' ∧ t ∈ char '"' * l := by
  rw [quotedUnit_mul, Language.mem_add, cons_mem_one_mul, cons_mem_char_mul, bne_iff_ne]

theorem nil_mem_quotedUnit_mul : [] ∈ quotedUnit * l ↔ False := by
  rw [quotedUnit_mul, Language.mem_add, nil_mem_one_mul, nil_mem_char_mul, or_self]

theorem blanks_mul_blanks : blanks * blanks = blanks := kstar_mul_kstar _

theorem blanks_mul_blanks_mul (l : Language Char) : blanks * (blanks * l) = blanks * l := by
  rw [← mul_assoc, blanks_mul_blanks]

def afterName (l : Language Char) : Language Char :=
  blanks * (char ']' * l + char '=' * (blanks * (literal * (blanks * (char ']' * l)))))

def closing (l : Language Char) : Language Char := blanks * (char ']' * l)

def within (l : Language Char) : Language Char := quotedUnit∗ * (char '"' * closing l)

def unquoting (backslash : Bool) (l : Language Char) : Language Char :=
  within l + if backslash then char '"' * within l else 0

theorem cons_mem_closing :
    c :: t ∈ closing l ↔ Text.isBlank c = true ∧ t ∈ closing l ∨ c = ']' ∧ t ∈ l := by
  rw [closing, blanks, cons_mem_star_mul, cons_mem_char_mul]

theorem nil_mem_closing : [] ∈ closing l ↔ False := by
  rw [closing, blanks, nil_mem_star_mul, nil_mem_char_mul]

theorem cons_mem_within : c :: t ∈ within l ↔
    (c ≠ '"' ∧ t ∈ within l ∨ c = '\\' ∧ t ∈ char '"' * within l) ∨
      c = '"' ∧ t ∈ closing l := by
  conv_lhs => rw [within, star_mul]
  rw [← within, Language.mem_add, cons_mem_quotedUnit_mul, cons_mem_char_mul, or_comm]

theorem mem_unquoting {backslash : Bool} : t ∈ unquoting backslash l ↔
    t ∈ within l ∨ backslash = true ∧ t ∈ char '"' * within l := by
  rw [unquoting, Language.mem_add]
  cases backslash with
  | false => exact or_congr_right (by simp)
  | true => exact or_congr_right (by simp)

theorem unquoting_false : unquoting false l = within l := add_zero _

theorem cons_mem_unquoting {backslash : Bool} : c :: t ∈ unquoting backslash l ↔
    c = '"' ∧ (t ∈ closing l ∨ backslash = true ∧ t ∈ unquoting false l) ∨
      c ≠ '"' ∧ t ∈ unquoting (c == '\\') l := by
  rw [mem_unquoting, cons_mem_within, cons_mem_char_mul, unquoting_false, mem_unquoting]
  by_cases hq : c = '"'
  · subst hq
    simp
  · simp [hq]

theorem nil_mem_unquoting {backslash : Bool} : [] ∈ unquoting backslash l ↔ False := by
  rw [mem_unquoting, within, star_mul, Language.mem_add, nil_mem_char_mul, nil_mem_quotedUnit_mul,
    nil_mem_char_mul, and_false, or_self, or_self]

/-- A quoted content does not start with a quote. -/
theorem cons_mem_content : c :: t ∈ plus quotedUnit * (char '"' * closing l) ↔
    c ≠ '"' ∧ t ∈ unquoting (c == '\\') l := by
  rw [plus_mul, ← within, cons_mem_quotedUnit_mul, mem_unquoting]
  by_cases hq : c = '"'
  · subst hq
    simp
  · simp [hq]

theorem nil_mem_content : [] ∈ plus quotedUnit * (char '"' * closing l) ↔ False := by
  rw [plus_mul, nil_mem_quotedUnit_mul]

theorem bracket_mul (l : Language Char) :
    bracket * l = char '[' * (blanks * (name * afterName l)) := by
  simp only [bracket, afterName, mul_assoc, add_mul, mul_add, one_mul, blanks_mul_blanks_mul]

theorem cons_mem_bracket_mul :
    c :: t ∈ bracket * l ↔ c = '[' ∧ t ∈ blanks * (name * afterName l) := by
  rw [bracket_mul, cons_mem_char_mul]

theorem nil_mem_bracket_mul : [] ∈ bracket * l ↔ False := by
  rw [bracket_mul, nil_mem_char_mul]

end Derivatives

def afterBracket : Language Char := bracket∗ * (1 + suffix)

theorem afterBracket_eq : afterBracket = bracket * afterBracket + (suffix + 1) := by
  conv_lhs => rw [afterBracket, star_mul]
  rw [← afterBracket, add_comm, add_comm 1 suffix]

theorem selector_eq : selector = bracket * afterBracket + (suffix + property) := by
  have h : bracket∗ * suffix = suffix + bracket * (bracket∗ * suffix) := star_mul _ _
  rw [selector, plus, h, afterBracket, mul_add, mul_add, mul_one, add_comm suffix, ← add_assoc,
    add_assoc]

end PropStyling.Pattern
