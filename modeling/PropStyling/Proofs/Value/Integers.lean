import Mathlib.Tactic.Linarith
import PropStyling.Proofs.Number.Apart
import PropStyling.Proofs.Selector.Printing
import PropStyling.Proofs.Value.Equality
import PropStyling.Selector.Matching

/-! # Loose equality of integers

Numbers are compared as their nearest doubles, and two doubles are the same exactly when
they denote the same rational number. So two integers are loosely equal when they are
rounded to the same 53 significant bits, and not only when they are equal. A condition
that is written with digits in range asks for the integer of these digits and is met by
every integer that is rounded together with it.
-/
namespace PropStyling
open Pattern

namespace Binary64
variable {x y : Binary64}

/-- Two doubles are the same exactly when they denote the same number. -/
theorem same_iff_toRat : x.same y = true ↔ x.toRat = y.toRat := by
  rw [same_iff, ← and_assoc, ← magnitude_inj, ← magnitude_eq_zero]
  constructor
  · rintro ⟨hm, hs | hz⟩
    · rw [toRat, toRat, hm, hs]
    · rw [toRat_of_magnitude_zero hz, toRat_of_magnitude_zero (hm ▸ hz)]
  · intro h
    have hm : x.magnitude = y.magnitude := by rw [← abs_toRat, ← abs_toRat, h]
    refine ⟨hm, or_iff_not_imp_left.mpr fun hs => ?_⟩
    have hflip : x.toRat = -y.toRat := by
      rw [toRat, toRat, hm, Bool.eq_not.mpr hs]
      cases y.negative <;> simp
    have hz : y.toRat = 0 := by linarith
    rw [hm, ← abs_toRat, hz, abs_zero]

end Binary64

theorem Value.number_looselyEqual_number {m n : Number} :
    (number m).looselyEqual (number n) = true ↔ m.toBinary64.toRat = n.toBinary64.toRat :=
  Binary64.same_iff_toRat

theorem Value.integer_looselyEqual_integer {m n : Integer64} :
    (number (.integer m)).looselyEqual (number (.integer n)) = true ↔ m.rounded = n.rounded := by
  rw [number_looselyEqual_number, Number.toBinary64, Number.toBinary64, m.toRat_toBinary64,
    n.toRat_toBinary64, Int.cast_inj]

namespace Integer64
variable {m n : Integer64}

theorem rounded_eq_val (h : Binary64.rounded n.val.natAbs = n.val.natAbs) : n.rounded = n.val := by
  rw [rounded, h, Int.sign_mul_natAbs]

theorem ext_val (h : m.val = n.val) : m = n := by
  cases m
  cases n
  cases h
  rfl

theorem eq_of_rounded_eq (hn : Binary64.Apart n.val.natAbs) (h : m.rounded = n.rounded) :
    m = n := by
  have hkept := Binary64.rounded_of_apart hn
  have habs : Binary64.rounded m.val.natAbs = n.val.natAbs := by
    rw [← natAbs_rounded, h, natAbs_rounded, hkept]
  have hm := Binary64.eq_of_rounded_eq_of_apart hn habs
  apply ext_val
  rw [← rounded_eq_val hkept, ← h, rounded_eq_val (habs.trans hm.symm)]

theorem exists_rounded_eq (hn : ¬ Binary64.Apart n.val.natAbs) :
    ∃ m : Integer64, m ≠ n ∧ m.rounded = n.rounded := by
  have hle := n.le_val
  have hlt := n.val_lt
  obtain ⟨k, hne, hr, h64, h63⟩ := Binary64.exists_rounded_eq hn (by omega)
  rcases le_total 0 n.val with h | h
  · let m : Integer64 := ⟨k, by omega, by omega⟩
    have hm : m.val.natAbs = k := Int.natAbs_natCast k
    refine ⟨m, fun he => hne (by rw [← hm, he]), ?_⟩
    rw [rounded_of_nonneg h, rounded_of_nonneg (n := m) (Int.natCast_nonneg k), hm, hr]
  · let m : Integer64 := ⟨-k, by omega, by omega⟩
    have hm : m.val.natAbs = k := by rw [Int.natAbs_neg, Int.natAbs_natCast]
    refine ⟨m, fun he => hne (by rw [← hm, he]), ?_⟩
    rw [rounded_of_nonpos h, rounded_of_nonpos (n := m) (show -(k : ℤ) ≤ 0 by omega), hm, hr]

/-- An integer is told from all others by its nearest double exactly when it is apart. -/
theorem forall_rounded_eq_iff :
    (∀ m : Integer64, m.rounded = n.rounded ↔ m = n) ↔ Binary64.Apart n.val.natAbs := by
  constructor
  · intro h
    by_contra hn
    obtain ⟨m, hne, hr⟩ := exists_rounded_eq hn
    exact hne ((h m).mp hr)
  · intro hn m
    exact ⟨eq_of_rounded_eq hn, fun he => he ▸ rfl⟩

end Integer64

theorem Pattern.Captures.quote_not_mem {g name digits : List Char}
    (h : Captures g name (some digits)) (hd : digits ∈ Pattern.digits) : '"' ∉ g := by
  cases h with
  | valued hb hn ha hw hl hz =>
    have hblank : ∀ {s : List Char}, s ∈ blanks → '"' ∉ s := fun hs =>
      not_mem_of_all (mem_blanks.mp hs) (by decide)
    have hname := not_mem_of_all (mem_name.mp hn).2 (c := '"') (by decide)
    have hdigits := not_mem_of_all (mem_digits.mp hd).2 (c := '"') (by decide)
    simp [hblank hb, hblank ha, hblank hw, hblank hz, hname, hdigits]

/-- A bracket without quotes is parsed as its condition alone. -/
theorem Selector.parse_bracket {g : List Char} {k : Condition} (h : Condition.Denoted g k)
    (hq : '"' ∉ g) : parse (String.ofList g) = .ok ⟨[k], .root⟩ := by
  let c : Cutting := Cutting.cons g h.mem_bracket Cutting.nil
  have hc : c.text = g := List.append_nil g
  have hfirst : c.First c.text := by
    refine Cutting.first_of_starts fun g' hg start rest hs he => ?_
    obtain rfl := List.mem_singleton.mp hg
    by_contra hne
    -- A bracket that another one starts with is cut inside a quoted literal.
    obtain ⟨_, _, _, _, _, -, -, -, -, -, -, hr, -⟩ := bracket_of_start hs h.mem_bracket he hne
    exact hq (by rw [he, hr]; simp)
  obtain ⟨middle, hm⟩ := exists_of_mem_bracket h.mem_bracket
  have ht : Text.trim (String.ofList g).toList = g := by
    rw [String.toList_ofList]
    exact Text.trim_eq_self (hm ▸ .brackets middle)
  rw [hc, ← ht] at hfirst
  refine ((parse_of_first hfirst ?_).1 _).mpr ⟨.cons h .nil, rfl⟩
  rw [ht, hm]
  exact List.cons_ne_nil _ _

theorem Selector.holds_integer {prop : String} {n v : Integer64} {props : Props}
    (h : List.lookup prop props = some (.number (.integer v))) :
    holds ⟨[⟨prop, .number (.integer n)⟩], .root⟩ props = true ↔ v.rounded = n.rounded := by
  rw [← Value.integer_looselyEqual_integer, holds, List.all_cons, List.all_nil, Bool.and_true,
    Condition.holds, h]
  rfl

namespace Value

/-- Two integers are loosely equal when they are rounded to the same 53 significant bits. This is
equality with an integer exactly when that integer is apart. A condition written with its digits
is met by the integers that are rounded together with it, and by that integer only exactly when it
is apart. -/
theorem looselyEqual_integers (n : Integer64) :
    (∀ m : Integer64,
      (number (.integer m)).looselyEqual (number (.integer n)) = true ↔ m.rounded = n.rounded) ∧
    ((∀ m : Integer64,
      (number (.integer m)).looselyEqual (number (.integer n)) = true ↔ m = n) ↔
        Binary64.Apart n.val.natAbs) ∧
    ∀ text name digits : List Char, Captures text name (some digits) →
      digits ∈ Pattern.digits → (Nat.ofDigitChars 10 digits 0 : ℤ) = n.val →
      ∃ s : Selector, Selector.parse (String.ofList text) = .ok s ∧
        (∀ (props : Props) (v : Integer64),
          List.lookup (String.ofList name) props = some (number (.integer v)) →
            (s.holds props = true ↔ v.rounded = n.rounded)) ∧
        ((∀ (props : Props) (v : Integer64),
          List.lookup (String.ofList name) props = some (number (.integer v)) →
            (s.holds props = true ↔ v = n)) ↔ Binary64.Apart n.val.natAbs) := by
  refine ⟨fun m => integer_looselyEqual_integer, ?_, ?_⟩
  · rw [← Integer64.forall_rounded_eq_iff]
    exact forall_congr' fun m => iff_congr integer_looselyEqual_integer Iff.rfl
  · intro text name digits hc hd hn
    have hk := Condition.Denoted.valued hc (.integer hd hn)
    refine ⟨_, Selector.parse_bracket hk (hc.quote_not_mem hd), ?_, ?_⟩
    · intro props v hv
      exact Selector.holds_integer hv
    · rw [← Integer64.forall_rounded_eq_iff]
      constructor
      · intro h m
        have hm : List.lookup (String.ofList name) [(String.ofList name, number (.integer m))] =
            some (number (.integer m)) := by simp
        exact (Selector.holds_integer hm).symm.trans (h _ m hm)
      · intro h props v hv
        exact (Selector.holds_integer hv).trans (h v)

/-- Of three integers after `2 ^ 53` a condition on the second is met by the first, and the third
is apart. -/
theorem looselyEqual_integers_of_merged :
    let first : Integer64 := ⟨9007199254740992, by decide, by decide⟩
    let second : Integer64 := ⟨9007199254740993, by decide, by decide⟩
    let third : Integer64 := ⟨9007199254740994, by decide, by decide⟩
    let text := "[ p = 09007199254740993 ]".toList
    let digits := "09007199254740993".toList
    Captures text ['p'] (some digits) ∧ digits ∈ Pattern.digits ∧
      (Nat.ofDigitChars 10 digits 0 : ℤ) = second.val ∧
      (number (.integer first)).looselyEqual (number (.integer second)) = true ∧
      (∀ m : Integer64, (number (.integer m)).looselyEqual (number (.integer third)) = true ↔
        m = third) ∧
      ∃ s : Selector, Selector.parse (String.ofList text) = .ok s ∧
        s.holds [("p", number (.integer first))] = true ∧
        s.holds [("p", number (.integer third))] = false := by
  intro first second third text digits
  have hread : Bracket.ofChars? text = some ⟨['p'], some (.digits digits)⟩ := by decide +kernel
  have hcaptures : Captures text ['p'] (some digits) := (Bracket.captures_of_ofChars? hread).1
  have hdigits : digits ∈ Pattern.digits := Pattern.mem_digits.mpr (by decide +kernel)
  have hvalue : (Nat.ofDigitChars 10 digits 0 : ℤ) = second.val := by decide +kernel
  obtain ⟨hiff, -, hcondition⟩ := looselyEqual_integers second
  obtain ⟨s, hs, hholds, -⟩ := hcondition text ['p'] digits hcaptures hdigits hvalue
  refine ⟨hcaptures, hdigits, hvalue, (hiff first).mpr (by decide +kernel),
    (looselyEqual_integers third).2.1.mpr (by decide +kernel), s, hs, ?_, ?_⟩
  · exact (hholds _ first rfl).mpr (by decide +kernel)
  · rw [Bool.eq_false_iff, Ne, hholds _ third rfl]
    decide +kernel

/-- Two integers that differ may be loosely equal. -/
theorem not_forall_looselyEqual_iff_eq : ¬ ∀ m n : Integer64,
    (number (.integer m)).looselyEqual (number (.integer n)) = true ↔ m = n := by
  intro h
  have he := (h ⟨9007199254740992, by decide, by decide⟩
    ⟨9007199254740993, by decide, by decide⟩).mp (by decide +kernel)
  exact absurd he (by decide)

end Value

end PropStyling
