import PropStyling.Proofs.Value.Cascade
import PropStyling.Sheet

/-! # Values that are read

A name that comes again in an object of a text replaces the value it had. So no object
of a value that was read holds a name twice, however deep it stands, and this is what
merging needs of the values of a configuration. The reader keeps it token by token, for
the value just read and for the lists and objects that are still open.
-/
namespace PropStyling

namespace Value

/-- No object in the value holds a name twice. -/
inductive Distinct : Value → Prop where
  | null : Distinct .null
  | bool (b : Bool) : Distinct (.bool b)
  | number (n : Number) : Distinct (.number n)
  | string (s : String) : Distinct (.string s)
  | array {items : List Value} (hi : ∀ v ∈ items, Distinct v) : Distinct (.array items)
  | object {fields : Fields Value} (hn : fields.names.Nodup)
      (hf : ∀ field ∈ fields, Distinct field.2) : Distinct (.object fields)

theorem Distinct.hasDistinctNames {v : Value} (h : v.Distinct) : v.HasDistinctNames := by
  cases h with
  | object hn hf => exact hn
  | _ => exact trivial

end Value

theorem Value.Distinct.insert {fields : Fields Value} {name : String} {v : Value}
    (h : (Value.object fields).Distinct) (hv : v.Distinct) :
    (Value.object (fields.insert name v)).Distinct := by
  cases h with
  | object hn hf =>
    refine .object (Fields.nodup_names_insert hn) fun field hm => ?_
    rcases Fields.mem_of_mem_insert hm with rfl | hm
    · exact hv
    · exact hf field hm

def Frame.toValue : Frame → Value
  | .array read => .array read.reverse
  | .object fields _ => .object fields

theorem Frame.distinct_cons {read : List Value} {v : Value} (hv : v.Distinct)
    (h : (array read).toValue.Distinct) : (array (v :: read)).toValue.Distinct := by
  cases h with
  | array hi =>
    refine .array fun w hw => ?_
    rcases List.mem_cons.mp (List.mem_reverse.mp hw) with rfl | hr
    · exact hv
    · exact hi w (List.mem_reverse.mpr hr)

namespace Reader

def values : Reader → List Value
  | .value frames | .itemOrEnd frames | .fieldOrEnd frames => frames.map Frame.toValue
  | .field fields frames | .colon fields _ frames => .object fields :: frames.map Frame.toValue
  | .next read frames => read :: frames.map Frame.toValue

theorem distinct_startValue? {limit : Nat} {frames : List Frame} {token : Token} {r : Reader}
    (h : ∀ v ∈ frames.map Frame.toValue, v.Distinct) (hr : startValue? limit frames token = some r) :
    ∀ v ∈ r.values, v.Distinct := by
  have hnext : ∀ v : Value, v.Distinct → ∀ w ∈ (next v frames).values, w.Distinct :=
    fun v hv => List.forall_mem_cons.mpr ⟨hv, h⟩
  cases token with
  | null =>
    cases hr
    exact hnext _ .null
  | bool b =>
    cases hr
    exact hnext _ (.bool b)
  | number n =>
    cases hr
    exact hnext _ (.number n)
  | string s =>
    cases hr
    exact hnext _ (.string s)
  | openArray =>
    obtain ⟨-, hr⟩ := Option.ite_none_right_eq_some.mp hr
    cases hr
    exact h
  | openObject =>
    obtain ⟨-, hr⟩ := Option.ite_none_right_eq_some.mp hr
    cases hr
    exact h
  | _ => cases hr

theorem distinct_step? {limit : Nat} {r s : Reader} {token : Token}
    (h : ∀ v ∈ r.values, v.Distinct) (hs : r.step? limit token = some s) :
    ∀ v ∈ s.values, v.Distinct := by
  cases r with
  | value frames => exact distinct_startValue? h hs
  | itemOrEnd frames =>
    have hopen : ∀ v ∈ (Frame.array [] :: frames).map Frame.toValue, v.Distinct :=
      List.forall_mem_cons.mpr ⟨.array fun _ hv => absurd hv List.not_mem_nil, h⟩
    cases token with
    | closeArray =>
      cases hs
      exact hopen
    | _ =>
      simp only [step?] at hs
      exact distinct_startValue? hopen hs
  | fieldOrEnd frames =>
    have hopen : ∀ v ∈ Value.object [] :: frames.map Frame.toValue, v.Distinct :=
      List.forall_mem_cons.mpr
        ⟨.object List.nodup_nil fun _ hf => absurd hf List.not_mem_nil, h⟩
    cases token with
    | closeObject =>
      cases hs
      exact hopen
    | string name =>
      cases hs
      exact hopen
    | _ => cases hs
  | field fields frames =>
    cases token with
    | string name =>
      cases hs
      exact h
    | _ => cases hs
  | colon fields name frames =>
    cases token with
    | colon =>
      cases hs
      exact h
    | _ => cases hs
  | next v frames =>
    cases frames with
    | nil => cases token <;> cases hs
    | cons frame frames =>
      obtain ⟨hv, hopen⟩ := List.forall_mem_cons.mp h
      obtain ⟨hf, hframes⟩ := List.forall_mem_cons.mp hopen
      cases frame with
      | array read =>
        have hread : ∀ w ∈ (Frame.array (v :: read)).toValue :: frames.map Frame.toValue,
            w.Distinct := List.forall_mem_cons.mpr ⟨Frame.distinct_cons hv hf, hframes⟩
        cases token with
        | comma =>
          cases hs
          exact hread
        | closeArray =>
          cases hs
          exact hread
        | _ => cases hs
      | object fields name =>
        have hread : ∀ w ∈ Value.object (fields.insert name v) :: frames.map Frame.toValue,
            w.Distinct := List.forall_mem_cons.mpr ⟨hf.insert hv, hframes⟩
        cases token with
        | comma =>
          cases hs
          exact hread
        | closeObject =>
          cases hs
          exact hread
        | _ => cases hs

theorem distinct_foldlM {limit : Nat} {tokens : List Token} {r s : Reader}
    (h : ∀ v ∈ r.values, v.Distinct) (hs : tokens.foldlM (step? limit) r = some s) :
    ∀ v ∈ s.values, v.Distinct := by
  induction tokens generalizing r with
  | nil =>
    cases hs
    exact h
  | cons token tokens ih =>
    rw [List.foldlM_cons] at hs
    obtain ⟨next, hn, hs⟩ := Option.bind_eq_some_iff.mp hs
    exact ih (distinct_step? h hn) hs

end Reader

/-- A value that was read holds no name twice in any of its objects. -/
theorem Value.distinct_of_ofText? {limit : Nat} {text : String} {v : Value}
    (h : ofText? limit text = some v) : v.Distinct := by
  obtain ⟨tokens, -, h⟩ := Option.bind_eq_some_iff.mp h
  obtain ⟨r, hr, h⟩ := Option.bind_eq_some_iff.mp h
  have hd : ∀ v ∈ r.values, v.Distinct :=
    Reader.distinct_foldlM (fun _ hv => absurd hv List.not_mem_nil) hr
  cases r with
  | next read frames =>
    cases frames with
    | nil =>
      cases h
      exact hd v List.mem_cons_self
    | cons frame frames => cases h
  | _ => cases h

theorem Styles.distinct_of_mem_ofValue {v : Value} (h : v.Distinct) {d : Declaration}
    (hd : d ∈ (ofValue v).declarations) {entry : String × Value} (he : entry ∈ d.entries) :
    entry.2.Distinct := by
  cases h with
  | object hn hf =>
    cases List.mem_singleton.mp hd
    exact hf entry he
  | array hi =>
    obtain ⟨item, hm, hitem⟩ := List.mem_filterMap.mp hd
    cases hi item hm with
    | object hn hf =>
      cases hitem
      exact hf entry he
    | _ => cases hitem
  | _ => cases hd

/-- The values of a configuration that was read are such as merging needs them. -/
theorem Styles.hasDistinctNames_of_ofText {text : String} {styles : Styles}
    (h : ofText text = .ok styles) :
    ∀ d ∈ styles.declarations, ∀ entry ∈ d.entries, entry.2.HasDistinctNames := by
  intro d hd entry he
  rw [ofText] at h
  split at h
  · next v hv =>
    cases h
    exact (distinct_of_mem_ofValue (Value.distinct_of_ofText? hv) hd he).hasDistinctNames
  · cases h

end PropStyling
