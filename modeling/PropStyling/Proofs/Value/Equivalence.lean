import Mathlib.Data.List.Perm.Subperm
import PropStyling.Proofs.Value.Equality
import PropStyling.Proofs.Value.Reading

/-! # Equality as an equivalence

On values without repeated names both equalities are reflexive and symmetric. Objects are
compared from one side only, each field of the first with the field of its name in the
second; that nothing of the second is left over follows by counting, because both have the
same number of names and none is repeated. Two such objects are the same when every name
is looked up to same values in both or is missing in both, which no longer tells the sides
apart.
-/
namespace PropStyling

theorem Number.same_refl (n : Number) : n.same n = true := by
  cases n with
  | integer i => exact beq_self_eq_true i
  | float x => exact Binary64.same_refl x

theorem Number.same_symm {m n : Number} (h : m.same n = true) : n.same m = true := by
  cases m with
  | integer i =>
    cases n with
    | integer j => exact beq_iff_eq.mpr (beq_iff_eq.mp h).symm
    | float y => cases h
  | float x =>
    cases n with
    | integer j => cases h
    | float y => exact Binary64.same_symm h

/-- Numbers that are the same have the same magnitude. -/
theorem Number.toBinary64_same {m n : Number} (h : m.same n = true) :
    m.toBinary64.same n.toBinary64 = true := by
  cases m with
  | integer i =>
    cases n with
    | integer j =>
      rw [show i = j from beq_iff_eq.mp h]
      exact Binary64.same_refl _
    | float y => cases h
  | float x =>
    cases n with
    | integer j => cases h
    | float y => exact h

namespace Value

theorem looselyEqual_of_same {a b : Value} (h : a.same b = true) : a.looselyEqual b = true := by
  by_cases ha : ∃ m, a = number m
  · obtain ⟨m, rfl⟩ := ha
    obtain ⟨n, rfl, hmn⟩ := number_same.mp h
    exact number_looselyEqual.mpr ⟨n, rfl, Number.toBinary64_same hmn⟩
  · rwa [looselyEqual_eq_same (not_exists.mp ha)]

theorem isTruthy_of_looselyEqual {a b : Value} (h : a.looselyEqual b = true) :
    a.isTruthy = b.isTruthy := by
  obtain rfl | ⟨m, n, rfl, rfl, hs⟩ | ⟨as, bs, rfl, rfl⟩ | ⟨as, bs, rfl, rfl⟩ :=
    looselyEqual_cases h
  · rfl
  · exact congrArg not (Binary64.isZero_of_same hs)
  · rfl
  · rfl

section Objects

variable {as bs : Fields Value}

theorem rel_flip {R S : Value → Value → Prop} {v w : Option Value} (h : Option.Rel R v w)
    (hRS : ∀ a, v = some a → ∀ b, w = some b → R a b → S b a) : Option.Rel S w v := by
  cases h with
  | none => exact .none
  | some h => exact .some (hRS _ rfl _ rfl h)

/-- Objects without repeated names are the same when each name has same values in both or is in
neither. -/
theorem object_same_iff_lookup (ha : as.names.Nodup) (hb : bs.names.Nodup) :
    (object as).same (object bs) = true ↔ ∀ name,
      Option.Rel (fun a b => a.same b = true) (List.lookup name as) (List.lookup name bs) := by
  constructor
  · intro h
    obtain ⟨_, hobject, hl, hfields⟩ := object_same.mp h
    cases hobject
    have hsub : as.names ⊆ bs.names := by
      intro name hm
      obtain ⟨a, hlookup⟩ := Option.isSome_iff_exists.mp (Fields.lookup_isSome.mpr hm)
      obtain ⟨b, hlookup', -⟩ := hfields (name, a) (Fields.mem_of_lookup hlookup)
      exact Fields.lookup_isSome.mp (hlookup' ▸ rfl)
    -- As many names, none of them repeated, so the second object has no other.
    have hperm : as.names.Perm bs.names :=
      (ha.subperm hsub).perm_of_length_le (by simp [Fields.names, hl])
    intro name
    cases hlookup : List.lookup name as with
    | some a =>
      obtain ⟨b, hlookup', hs⟩ := hfields (name, a) (Fields.mem_of_lookup hlookup)
      rw [hlookup']
      exact .some hs
    | none =>
      rw [Fields.lookup_eq_none, hperm.mem_iff] at hlookup
      rw [Fields.lookup_eq_none.mpr hlookup]
      exact .none
  · intro h
    have hperm : as.names.Perm bs.names :=
      (List.perm_ext_iff_of_nodup ha hb).mpr fun name => Fields.mem_names_iff_of_rel (h name)
    refine object_same.mpr ⟨bs, rfl, by simpa [Fields.names] using hperm.length_eq, ?_⟩
    intro field hf
    have hrel := h field.1
    rw [(Fields.lookup_eq_some_iff_mem ha).mpr hf] at hrel
    generalize List.lookup field.1 bs = w at hrel
    cases hrel with
    | some hs => exact ⟨_, rfl, hs⟩

end Objects

theorem same_refl {v : Value} (h : v.Distinct) : v.same v = true := by
  induction h with
  | null => rfl
  | bool b => exact bool_same.mpr rfl
  | number n => exact number_same.mpr ⟨n, rfl, n.same_refl⟩
  | string s => exact string_same.mpr rfl
  | @array items _ ih => exact array_same.mpr ⟨items, rfl, List.forall₂_same.mpr ih⟩
  | @object fields hn _ ih =>
    refine (object_same_iff_lookup hn hn).mpr fun name => ?_
    cases hlookup : List.lookup name fields with
    | none => exact .none
    | some v => exact .some (ih (name, v) (Fields.mem_of_lookup hlookup))

theorem forall₂_same_symm {as bs : List Value}
    (ih : ∀ a ∈ as, ∀ {b : Value}, a.Distinct → b.Distinct → a.same b = true → b.same a = true)
    (ha : ∀ a ∈ as, a.Distinct) (hb : ∀ b ∈ bs, b.Distinct)
    (h : List.Forall₂ (fun a b => a.same b = true) as bs) :
    List.Forall₂ (fun b a => b.same a = true) bs as := by
  induction h with
  | nil => exact .nil
  | cons hs _ ihs =>
    rw [List.forall_mem_cons] at ih ha hb
    exact .cons (ih.1 ha.1 hb.1 hs) (ihs ih.2 ha.2 hb.2)

theorem same_symm {a b : Value} (ha : a.Distinct) (hb : b.Distinct) (h : a.same b = true) :
    b.same a = true := by
  induction a generalizing b with
  | null =>
    obtain rfl := null_same.mp h
    exact h
  | bool p =>
    obtain rfl := bool_same.mp h
    exact h
  | string s =>
    obtain rfl := string_same.mp h
    exact h
  | number m =>
    obtain ⟨n, rfl, hmn⟩ := number_same.mp h
    exact number_same.mpr ⟨m, rfl, Number.same_symm hmn⟩
  | array as ih =>
    obtain ⟨bs, rfl, hs⟩ := array_same.mp h
    cases ha with
    | array ha =>
      cases hb with
      | array hb => exact array_same.mpr ⟨as, rfl, forall₂_same_symm ih ha hb hs⟩
  | object as ih =>
    obtain ⟨bs, rfl, -⟩ := object_same.mp h
    cases ha with
    | object hna ha =>
      cases hb with
      | object hnb hb =>
        rw [object_same_iff_lookup hna hnb] at h
        refine (object_same_iff_lookup hnb hna).mpr fun name => ?_
        refine rel_flip (h name) fun a hlookup b hlookup' hs => ?_
        have hma := Fields.mem_of_lookup hlookup
        have hmb := Fields.mem_of_lookup hlookup'
        exact ih _ hma (ha _ hma) (hb _ hmb) hs

theorem looselyEqual_symm {a b : Value} (ha : a.Distinct) (hb : b.Distinct)
    (h : a.looselyEqual b = true) : b.looselyEqual a = true := by
  by_cases hn : ∃ m, a = number m
  · obtain ⟨m, rfl⟩ := hn
    obtain ⟨n, rfl, hmn⟩ := number_looselyEqual.mp h
    exact number_looselyEqual.mpr ⟨m, rfl, Binary64.same_symm hmn⟩
  · rw [looselyEqual_eq_same (not_exists.mp hn)] at h
    exact looselyEqual_of_same (same_symm ha hb h)

/-- Loose equality is an equivalence of the values without repeated names. It contains structural
equality, and loosely equal values are truthy together. -/
theorem looselyEqual_equivalence :
    (Equivalence fun a b : {v : Value // v.Distinct} => a.val.looselyEqual b.val = true) ∧
    (∀ a b : Value, a.same b = true → a.looselyEqual b = true) ∧
    ∀ a b : Value, a.looselyEqual b = true → a.isTruthy = b.isTruthy :=
  ⟨⟨fun v => looselyEqual_of_same (same_refl v.property),
      fun {a b} => looselyEqual_symm a.property b.property, looselyEqual_trans⟩,
    fun _ _ => looselyEqual_of_same, fun _ _ => isTruthy_of_looselyEqual⟩

/-- Objects in two orders with the two zeros, and an integer next to a float. -/
theorem looselyEqual_equivalence_of_spellings :
    let zero (negative : Bool) : Value := .number (.float (.zero negative))
    let items : Value := .array [.object [("a", .null)], .bool true]
    let first : Value := .object [("n", zero false), ("m", items)]
    let second : Value := .object [("m", items), ("n", zero true)]
    let integer : Value := .number (.integer ⟨0, by decide, by decide⟩)
    first.Distinct ∧ second.Distinct ∧ first.same second = true ∧
      second.looselyEqual first = true ∧ first.isTruthy = second.isTruthy ∧
      (zero true).looselyEqual integer = true ∧ (zero true).same integer = false ∧
      (Value.array [zero true]).looselyEqual (.array [integer]) = false := by
  intro zero items first second integer
  have hz : ∀ negative, (zero negative).Distinct := fun _ => .number _
  have hi : items.Distinct := .array <| by
    rw [List.forall_mem_cons, List.forall_mem_singleton]
    exact ⟨.object (by decide) (List.forall_mem_singleton.mpr .null), .bool true⟩
  have hf : first.Distinct := .object (by decide) <| by
    rw [List.forall_mem_cons, List.forall_mem_singleton]
    exact ⟨hz false, hi⟩
  have hs : second.Distinct := .object (by decide) <| by
    rw [List.forall_mem_cons, List.forall_mem_singleton]
    exact ⟨hi, hz true⟩
  have hsame : first.same second = true := by decide +kernel
  obtain ⟨hequiv, hcontains, htruthy⟩ := looselyEqual_equivalence
  have hloose := hcontains first second hsame
  have hinteger : Distinct integer := .number _
  have hzero : integer.looselyEqual (zero true) = true := by decide +kernel
  exact ⟨hf, hs, hsame, hequiv.symm (x := ⟨first, hf⟩) (y := ⟨second, hs⟩) hloose,
    htruthy first second hloose,
    hequiv.symm (x := ⟨integer, hinteger⟩) (y := ⟨zero true, hz true⟩) hzero,
    by decide +kernel, by decide +kernel⟩

end Value

end PropStyling
