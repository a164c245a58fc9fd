import Mathlib.Data.List.Forall2
import PropStyling.Proofs.Fields
import PropStyling.Value.Basic

/-! # Structural and loose equality

Each kind of value has a rule that says which values are the same as one of that kind,
and beyond these rules nothing unfolds the comparison. Both equalities are transitive.
For objects this needs no assumption on names: a field of the first object is compared
with a field of the second, which is in turn a field that is compared with one of the
third. Only numbers are compared more loosely at the outside of a value than inside it,
and a number is never equal to a value of another kind.
-/
namespace PropStyling

namespace Binary64

variable {x y z : Binary64}

theorem same_iff : x.same y = true ↔ x.mantissa = y.mantissa ∧ x.exponent = y.exponent ∧
    (x.negative = y.negative ∨ x.mantissa = 0) := by
  simp [same, isZero, and_assoc]

theorem same_refl (x : Binary64) : x.same x = true :=
  same_iff.mpr ⟨rfl, rfl, .inl rfl⟩

theorem same_trans (hxy : x.same y = true) (hyz : y.same z = true) : x.same z = true := by
  obtain ⟨hm, he, hs⟩ := same_iff.mp hxy
  obtain ⟨hm', he', hs'⟩ := same_iff.mp hyz
  refine same_iff.mpr ⟨hm.trans hm', he.trans he', ?_⟩
  rcases hs with hs | hz
  · rcases hs' with hs' | hz
    · exact .inl (hs.trans hs')
    · exact .inr (hm.trans hz)
  · exact .inr hz

theorem same_symm (h : x.same y = true) : y.same x = true := by
  obtain ⟨hm, he, hs⟩ := same_iff.mp h
  exact same_iff.mpr ⟨hm.symm, he.symm, hs.imp Eq.symm hm.symm.trans⟩

theorem same_congr (h : x.same y = true) (z : Binary64) : x.same z = y.same z :=
  Bool.eq_iff_iff.mpr ⟨same_trans (same_symm h), same_trans h⟩

theorem isZero_of_same (h : x.same y = true) : x.isZero = y.isZero := by
  rw [isZero, isZero, (same_iff.mp h).1]

end Binary64

theorem Number.same_trans {l m n : Number} (hlm : l.same m = true) (hmn : m.same n = true) :
    l.same n = true := by
  cases l with
  | integer i =>
    cases m with
    | integer j => rwa [show i = j from of_decide_eq_true hlm]
    | float y => cases hlm
  | float x =>
    cases m with
    | integer j => cases hlm
    | float y =>
      cases n with
      | integer k => cases hmn
      | float z => exact Binary64.same_trans hlm hmn

namespace Value

/-- Induction on a value through the items of its lists and the fields of its objects. -/
@[induction_eliminator]
theorem induction {P : Value → Prop} (null : P .null) (bool : ∀ b, P (.bool b))
    (number : ∀ n, P (.number n)) (string : ∀ s, P (.string s))
    (array : ∀ items, (∀ v ∈ items, P v) → P (.array items))
    (object : ∀ fields, (∀ field ∈ fields, P field.2) → P (.object fields)) (v : Value) : P v :=
  @Value.rec P (fun items => ∀ v ∈ items, P v) (fun fields => ∀ field ∈ fields, P field.2)
    (fun field => P field.2) null bool number string array object nofun
    (fun _ _ hv hvs => List.forall_mem_cons.mpr ⟨hv, hvs⟩) nofun
    (fun _ _ hf hfs => List.forall_mem_cons.mpr ⟨hf, hfs⟩) (fun _ _ h => h) v

-- Local: outside this file the rules below are all that opens the comparison.
attribute [local simp] same sameItems sameFields looselyEqual

theorem sameItems_iff {as bs : List Value} :
    sameItems as bs = true ↔ List.Forall₂ (fun a b => a.same b = true) as bs := by
  induction as generalizing bs with
  | nil => cases bs <;> simp
  | cons a as ih => cases bs <;> simp [ih]

theorem sameFields_iff {as bs : Fields Value} : sameFields as bs = true ↔
    ∀ field ∈ as, ∃ b, List.lookup field.1 bs = some b ∧ field.2.same b = true := by
  induction as with
  | nil => simp
  | cons field as ih =>
    rw [sameFields, Bool.and_eq_true, ih, List.forall_mem_cons]
    cases List.lookup field.1 bs <;> simp

section Rules
variable {v : Value}

theorem null_same : null.same v = true ↔ v = null := by
  cases v <;> simp

theorem bool_same {b : Bool} : (bool b).same v = true ↔ v = bool b := by
  cases v <;> simp [@eq_comm _ b]

theorem string_same {s : String} : (string s).same v = true ↔ v = string s := by
  cases v <;> simp [@eq_comm _ s]

theorem number_same {m : Number} :
    (number m).same v = true ↔ ∃ n, v = number n ∧ m.same n = true := by
  cases v <;> simp

theorem array_same {as : List Value} : (array as).same v = true ↔
    ∃ bs, v = array bs ∧ List.Forall₂ (fun a b => a.same b = true) as bs := by
  cases v <;> simp [sameItems_iff]

theorem object_same {as : Fields Value} : (object as).same v = true ↔
    ∃ bs : Fields Value, v = object bs ∧ as.length = bs.length ∧
      ∀ field ∈ as, ∃ b, List.lookup field.1 bs = some b ∧ field.2.same b = true := by
  cases v <;> simp [sameFields_iff]

end Rules

theorem forall₂_same_trans {as bs cs : List Value}
    (ih : ∀ a ∈ as, ∀ {b c : Value}, a.same b = true → b.same c = true → a.same c = true)
    (hab : List.Forall₂ (fun a b => a.same b = true) as bs)
    (hbc : List.Forall₂ (fun b c => b.same c = true) bs cs) :
    List.Forall₂ (fun a c => a.same c = true) as cs := by
  induction hab generalizing cs with
  | nil => exact hbc
  | cons h _ ihs =>
    cases hbc with
    | cons h' hs' =>
      rw [List.forall_mem_cons] at ih
      exact .cons (ih.1 h h') (ihs ih.2 hs')

theorem same_trans {a b c : Value} (hab : a.same b = true) (hbc : b.same c = true) :
    a.same c = true := by
  induction a generalizing b c with
  | null => rwa [null_same.mp hab] at hbc
  | bool p => rwa [bool_same.mp hab] at hbc
  | string s => rwa [string_same.mp hab] at hbc
  | number l =>
    obtain ⟨m, rfl, hlm⟩ := number_same.mp hab
    obtain ⟨n, rfl, hmn⟩ := number_same.mp hbc
    exact Number.same_trans hlm hmn
  | array as ih =>
    obtain ⟨bs, rfl, has⟩ := array_same.mp hab
    obtain ⟨cs, rfl, hbs⟩ := array_same.mp hbc
    exact array_same.mpr ⟨cs, rfl, forall₂_same_trans ih has hbs⟩
  | object as ih =>
    obtain ⟨bs, rfl, hl, has⟩ := object_same.mp hab
    obtain ⟨cs, rfl, hl', hbs⟩ := object_same.mp hbc
    refine object_same.mpr ⟨cs, rfl, hl.trans hl', ?_⟩
    intro field hf
    obtain ⟨b, hb, hs⟩ := has field hf
    obtain ⟨c, hc, hs'⟩ := hbs (field.1, b) (Fields.mem_of_lookup hb)
    exact ⟨c, hc, ih field hf hs hs'⟩

/-! ### Loose equality -/

theorem number_looselyEqual {m : Number} {v : Value} : (number m).looselyEqual v = true ↔
    ∃ n, v = number n ∧ m.toBinary64.same n.toBinary64 = true := by
  cases v <;> simp

/-- For a value that is not a number the two equalities agree. -/
theorem looselyEqual_eq_same {a : Value} (ha : ∀ n, a ≠ number n) (b : Value) :
    a.looselyEqual b = a.same b := by
  cases a with
  | number n => exact absurd rfl (ha n)
  | _ => rfl

theorem exists_number_of_looselyEqual {a : Value} {n : Number}
    (h : a.looselyEqual (number n) = true) : ∃ m, a = number m := by
  cases a with
  | number m => exact ⟨m, rfl⟩
  | _ => cases h

theorem looselyEqual_trans {a b c : Value} (hab : a.looselyEqual b = true)
    (hbc : b.looselyEqual c = true) : a.looselyEqual c = true := by
  by_cases ha : ∃ l, a = number l
  · obtain ⟨l, rfl⟩ := ha
    obtain ⟨m, rfl, hlm⟩ := number_looselyEqual.mp hab
    obtain ⟨n, rfl, hmn⟩ := number_looselyEqual.mp hbc
    exact Binary64.same_trans hlm hmn
  · have hb : ∀ m, b ≠ number m := by
      rintro m rfl
      exact ha (exists_number_of_looselyEqual hab)
    rw [looselyEqual_eq_same (not_exists.mp ha)] at hab ⊢
    rw [looselyEqual_eq_same hb] at hbc
    exact same_trans hab hbc

/-- Loosely equal values are the same value, two numbers, two lists or two objects. -/
theorem looselyEqual_cases {a b : Value} (h : a.looselyEqual b = true) : a = b ∨
    (∃ m n, a = number m ∧ b = number n ∧ m.toBinary64.same n.toBinary64 = true) ∨
    (∃ as bs, a = array as ∧ b = array bs) ∨ ∃ as bs, a = object as ∧ b = object bs := by
  cases a with
  | null => exact .inl (null_same.mp h).symm
  | bool p => exact .inl (bool_same.mp h).symm
  | string s => exact .inl (string_same.mp h).symm
  | number m =>
    obtain ⟨n, hb, hs⟩ := number_looselyEqual.mp h
    exact .inr (.inl ⟨m, n, rfl, hb, hs⟩)
  | array as =>
    obtain ⟨bs, hb, -⟩ := array_same.mp h
    exact .inr (.inr (.inl ⟨as, bs, rfl, hb⟩))
  | object as =>
    obtain ⟨bs, hb, -⟩ := object_same.mp h
    exact .inr (.inr (.inr ⟨as, bs, rfl, hb⟩))

theorem kindName_of_looselyEqual {a b : Value} (h : a.looselyEqual b = true) :
    a.kindName = b.kindName := by
  obtain rfl | ⟨m, n, rfl, rfl, -⟩ | ⟨as, bs, rfl, rfl⟩ | ⟨as, bs, rfl, rfl⟩ :=
    looselyEqual_cases h <;> rfl

end Value

end PropStyling
