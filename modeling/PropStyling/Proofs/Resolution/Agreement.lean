import PropStyling.Proofs.Resolution
import PropStyling.Proofs.Value.Equality

/-! # What a resolution sees of the props

A resolution sees only the props that its conditions name, and of their values only
whether they are truthy and which truth values, numbers and texts they loosely equal.
Lists and objects are truthy and equal none of these, so what they hold is never seen.
Props that agree loosely on the named props therefore resolve to the same styles. Props
that are not named, the order of props and the spelling of numbers play no part.
-/
namespace PropStyling
open scoped List

/-- Two values that differ at most in how numbers are spelled, at any depth. -/
inductive Value.Respelled : Value → Value → Prop where
  | refl (v : Value) : Respelled v v
  | number {m n : Number} (h : m.toBinary64.same n.toBinary64 = true) :
      Respelled (.number m) (.number n)
  | array {as bs : List Value} (h : List.Forall₂ Respelled as bs) :
      Respelled (.array as) (.array bs)
  | object {as bs : Fields Value} (hn : as.names = bs.names)
      (h : List.Forall₂ Respelled (as.map Prod.snd) (bs.map Prod.snd)) :
      Respelled (.object as) (.object bs)

namespace Expected

variable {v w : Value}

theorem accepts_number {m n : Number} (h : m.toBinary64.same n.toBinary64 = true) (e : Expected) :
    e.accepts (.number m) = e.accepts (.number n) := by
  cases e with
  | truthy => exact congrArg not (Binary64.isZero_of_same h)
  | number k => exact Binary64.same_congr h k.toBinary64
  | bool b => rfl
  | string s => rfl

theorem accepts_array (as bs : List Value) (e : Expected) :
    e.accepts (.array as) = e.accepts (.array bs) := by
  cases e <;> rfl

theorem accepts_object (as bs : Fields Value) (e : Expected) :
    e.accepts (.object as) = e.accepts (.object bs) := by
  cases e <;> rfl

/-- No expectation tells loosely equal values apart. -/
theorem accepts_of_looselyEqual (h : v.looselyEqual w = true) (e : Expected) :
    e.accepts v = e.accepts w := by
  obtain rfl | ⟨m, n, rfl, rfl, hs⟩ | ⟨as, bs, rfl, rfl⟩ | ⟨as, bs, rfl, rfl⟩ :=
    Value.looselyEqual_cases h
  · rfl
  · exact accepts_number hs e
  · exact accepts_array as bs e
  · exact accepts_object as bs e

/-- Two spellings of a value may differ loosely inside a list, but no expectation looks there. -/
theorem accepts_of_respelled (h : v.Respelled w) (e : Expected) : e.accepts v = e.accepts w := by
  cases h with
  | refl v => rfl
  | number h => exact accepts_number h e
  | array h => exact accepts_array _ _ e
  | object hn h => exact accepts_object _ _ e

end Expected

namespace Condition

variable {c : Condition} {p q : Props}

theorem holds_of_lookup (h : List.lookup c.prop p = List.lookup c.prop q) :
    c.holds p = c.holds q := by
  rw [holds, holds, h]

theorem holds_of_rel {R : Value → Value → Prop}
    (hR : ∀ {v w}, R v w → ∀ e : Expected, e.accepts v = e.accepts w)
    (h : Option.Rel R (List.lookup c.prop p) (List.lookup c.prop q)) : c.holds p = c.holds q := by
  unfold holds
  generalize List.lookup c.prop p = v, List.lookup c.prop q = w at h
  cases h with
  | none => rfl
  | some h => exact hR h c.expected

end Condition

def Group.props (groups : List Group) : List String :=
  groups.flatMap fun g => g.rules.flatMap fun r => r.selector.conditions.map Condition.prop

namespace Resolution

/-- A resolution looks at the props through conditions on the named props only. -/
theorem ofGroups_congr {groups : List Group} {p q : Props}
    (h : ∀ c : Condition, c.prop ∈ Group.props groups → c.holds p = c.holds q) :
    ofGroups groups p = ofGroups groups q := by
  have hs : ∀ g ∈ groups, ∀ r ∈ g.rules, r.selector.holds p = r.selector.holds q := by
    intro g hg r hr
    rw [Bool.eq_iff_iff, Selector.holds, Selector.holds, List.all_eq_true, List.all_eq_true]
    refine forall₂_congr fun c hc => ?_
    rw [h c (List.mem_flatMap.mpr ⟨g, hg, List.mem_flatMap.mpr ⟨r, hr, List.mem_map_of_mem hc⟩⟩)]
  have hg : ∀ g ∈ groups, g.resolve? p = g.resolve? q := by
    intro g hg
    rw [Group.resolve?, Group.resolve?, List.filter_congr (hs g hg)]
  rw [ofGroups, ofGroups, List.filterMap_congr hg]

/-- Props that agree on the named props, each of them missing in both or with loosely equal values
in both, resolve to the same styles. So props that are not named may be left out, props may be put
in another order, and numbers may be spelled otherwise at any depth. -/
theorem ofGroups_eq_of_agree (groups : List Group) :
    (∀ p q : Props, (∀ name ∈ Group.props groups, Option.Rel (fun v w => v.looselyEqual w = true)
      (List.lookup name p) (List.lookup name q)) → ofGroups groups p = ofGroups groups q) ∧
    (∀ p : Props, ofGroups groups (p.filter fun field => field.1 ∈ Group.props groups) =
      ofGroups groups p) ∧
    (∀ p q : Props, p.names.Nodup → p ~ q → ofGroups groups p = ofGroups groups q) ∧
    ∀ p q : Props, (Value.object p).Respelled (.object q) →
      ofGroups groups p = ofGroups groups q := by
  refine ⟨fun p q h => ?_, fun p => ?_, fun p q hn hp => ?_, fun p q h => ?_⟩
  · exact ofGroups_congr fun c hc =>
      Condition.holds_of_rel Expected.accepts_of_looselyEqual (h c.prop hc)
  · exact ofGroups_congr fun c hc => Condition.holds_of_lookup (Fields.lookup_filter hc p)
  · exact ofGroups_congr fun c _ => Condition.holds_of_lookup (Fields.lookup_perm hp hn c.prop)
  · cases h with
    | refl => rfl
    | object hn hf =>
      exact ofGroups_congr fun c _ =>
        Condition.holds_of_rel Expected.accepts_of_respelled (Fields.rel_lookup hn hf c.prop)

/-- One as an integer and as a float, an object in two orders, props in two orders, and a prop that
is not named. -/
theorem ofGroups_eq_of_agree_of_spellings :
    let integer : Number := .integer ⟨1, by decide, by decide⟩
    let float : Number := .float ⟨false, 0x10000000000000, -52, by decide, by decide, by decide,
      .inl (by decide)⟩
    let conditions : List Condition := [⟨"size", .number integer⟩, ⟨"data", .truthy⟩]
    let groups : List Group := [⟨.named "icon", [⟨"", ⟨conditions, .named "icon"⟩, .null⟩]⟩]
    let data : String × Value := ("data", .object [("a", .null), ("b", .bool true)])
    let p : Props := [("size", .number integer), data]
    let q : Props := [("more", .null), ("data", .object [("b", .bool true), ("a", .null)]),
      ("size", .number float)]
    ofGroups groups p = ofGroups groups q ∧ (ofGroups groups q).styles.length = 1 ∧
      ofGroups groups q = ofGroups groups q.reverse ∧
      ofGroups groups p = ofGroups groups [("size", .number float), data] := by
  intro integer float conditions groups data p q
  have hprops : Group.props groups = ["size", "data"] := rfl
  have hagree : ∀ name ∈ Group.props groups, Option.Rel (fun v w => v.looselyEqual w = true)
      (List.lookup name p) (List.lookup name q) := by
    rw [hprops, List.forall_mem_cons, List.forall_mem_singleton]
    exact ⟨.some (by decide +kernel), .some (by decide +kernel)⟩
  have hrespelled : (Value.object p).Respelled (.object [("size", .number float), data]) :=
    .object rfl (.cons (.number (by decide +kernel)) (.cons (.refl _) .nil))
  exact ⟨(ofGroups_eq_of_agree groups).1 p q hagree, by decide +kernel,
    (ofGroups_eq_of_agree groups).2.2.1 q q.reverse (by decide) q.reverse_perm.symm,
    (ofGroups_eq_of_agree groups).2.2.2 p _ hrespelled⟩

end Resolution

end PropStyling
