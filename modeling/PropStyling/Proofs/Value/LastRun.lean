import Mathlib.Data.List.DropRight
import PropStyling.Proofs.Fields
import PropStyling.Proofs.Value.Cascade
import PropStyling.Value.Printer

/-! # Cascades of mixed shapes

A value of another shape ends what was cascaded before it, so of a list of values only the
last ones of one shape count. For these there is a closed form: the union of the objects,
the texts that are not empty with spaces between them, or the lists one after another. One
value more of the same shape extends the run by one, and the cascade of the closed form
with it is the closed form of the longer run.
-/
namespace PropStyling

def joinTexts (texts : List String) : String :=
  " ".intercalate (texts.filter fun text => !text.isEmpty)

theorem isEmpty_intercalate {text : String} (texts : List String) (h : text.isEmpty = false) :
    (" ".intercalate (text :: texts)).isEmpty = false := by
  cases texts with
  | nil => rwa [String.intercalate_singleton]
  | cons next texts => simp [String.intercalate_cons_cons]

theorem isEmpty_joinTexts {texts : List String}
    (h : (texts.filter fun text => !text.isEmpty) ≠ []) : (joinTexts texts).isEmpty = false := by
  obtain ⟨text, rest, hf⟩ := List.exists_cons_of_ne_nil h
  have hm : text ∈ texts.filter fun text => !text.isEmpty := by
    rw [hf]
    exact List.mem_cons_self
  rw [joinTexts, hf]
  exact isEmpty_intercalate rest (by simpa using (List.mem_filter.mp hm).2)

theorem joinTexts_append_of_isEmpty {text : String} (h : text.isEmpty = true)
    (texts : List String) : joinTexts (texts ++ [text]) = joinTexts texts := by
  simp [joinTexts, h]

/-- A text more is joined to those before it. -/
theorem joinClasses_joinTexts (texts : List String) (text : String) :
    joinClasses (joinTexts texts) text = joinTexts (texts ++ [text]) := by
  by_cases ht : text.isEmpty = true
  · rw [joinTexts_append_of_isEmpty ht, joinClasses, if_pos ht]
    split
    · next h => rw [String.isEmpty_iff.mp h, String.isEmpty_iff.mp ht]
    · rfl
  · have hlast : ([text].filter fun text => !text.isEmpty) = [text] := by simp [ht]
    by_cases hf : (texts.filter fun text => !text.isEmpty) = []
    · simp [joinClasses, joinTexts, hf, hlast]
    · rw [joinClasses, isEmpty_joinTexts hf, if_neg Bool.false_ne_true, if_neg ht, joinTexts,
        joinTexts, List.filter_append, hlast,
        String.intercalate_append_of_ne_nil hf (List.cons_ne_nil text []),
        String.intercalate_singleton]

namespace Value

def fields? : Value → Option (Fields Value)
  | .object fields => some fields
  | _ => none

def string? : Value → Option String
  | .string text => some text
  | _ => none

def items? : Value → Option (List Value)
  | .array items => some items
  | _ => none

/-- What a run of values comes to that all have the shape of the last. -/
def merged (run : List Value) (last : Value) : Value :=
  match last with
  | .object _ => .object (Fields.union (run.filterMap fields?))
  | .string _ => .string (joinTexts (run.filterMap string?))
  | .array _ => .array (run.filterMap items?).flatten
  | v => v

theorem shape_merged (run : List Value) (last : Value) : (merged run last).shape = last.shape := by
  cases last <;> rfl

theorem merged_singleton {v : Value} (h : v.HasDistinctNames) : merged [v] v = v := by
  cases v with
  | object fields => exact congrArg object (Fields.union_singleton h)
  | string text => exact congrArg string (joinClasses_joinTexts [] text).symm
  | array items => exact congrArg array (List.flatten_singleton ..)
  | _ => rfl

/-- The closed form of a run takes one value more of its shape. -/
theorem merged_cascade {last v : Value} (hs : last.shape = v.shape) (h : v.HasDistinctNames)
    (run : List Value) : (merged run last).cascade v = merged (run ++ [v]) v := by
  cases v with
  | object fields =>
    cases last with
    | object _ =>
      rw [merged, merged, cascade, Fields.merge_union h, List.filterMap_append]
      rfl
    | _ => cases hs
  | string text =>
    cases last with
    | string _ =>
      rw [merged, merged, cascade, joinClasses_joinTexts, List.filterMap_append]
      rfl
    | _ => cases hs
  | array items =>
    cases last with
    | array _ =>
      rw [merged, merged, cascade, List.filterMap_append, List.flatten_append]
      simp [items?]
    | _ => cases hs
  | _ => exact cascade_of_other rfl

theorem cascade_of_shape_ne {earlier later : Value} (h : earlier.shape ≠ later.shape) :
    earlier.cascade later = later := by
  cases earlier <;> cases later <;> first | rfl | exact absurd rfl h

def lastRun (shape : Shape) (values : List Value) : List Value :=
  values.rtakeWhile fun v => v.shape = shape

theorem lastRun_append_singleton (v : Value) (values : List Value) :
    lastRun v.shape (values ++ [v]) = lastRun v.shape values ++ [v] := by
  simp [lastRun]

theorem lastRun_eq_nil {shape : Shape} {values : List Value} (hn : values ≠ [])
    (h : (values.getLast hn).shape ≠ shape) : lastRun shape values = [] := by
  rw [lastRun, List.rtakeWhile_eq_nil_iff]
  intro _
  simpa using h

theorem lastRun_suffix (shape : Shape) (values : List Value) : lastRun shape values <:+ values :=
  List.rtakeWhile_suffix _ _

theorem shape_of_mem_lastRun {shape : Shape} {values : List Value} {v : Value}
    (h : v ∈ lastRun shape values) : v.shape = shape := by
  have hp := List.mem_rtakeWhile_imp h
  simpa using hp

/-- No later part of a list reaches further back and has one shape. -/
theorem suffix_lastRun {shape : Shape} {values run : List Value} (hr : run <:+ values)
    (h : ∀ v ∈ run, v.shape = shape) : run <:+ lastRun shape values := by
  obtain ⟨before, rfl⟩ := hr
  have hall : ∀ v ∈ run.reverse, decide (v.shape = shape) = true := by simpa using h
  rw [lastRun, List.rtakeWhile, List.reverse_append, List.takeWhile_append_of_pos hall,
    List.reverse_append, List.reverse_reverse]
  exact List.suffix_append _ _

/-- The cascade of some values is the closed form of the last of them that have one shape. -/
theorem foldl_cascade_lastRun {first last : Value} {later : List Value}
    (h : ∀ v ∈ first :: later, v.HasDistinctNames)
    (hlast : (first :: later).getLast (List.cons_ne_nil first later) = last) :
    later.foldl cascade first = merged (lastRun last.shape (first :: later)) last := by
  induction later using List.reverseRecOn generalizing last with
  | nil =>
    cases hlast
    have hrun : lastRun first.shape [first] = [first] := lastRun_append_singleton first []
    rw [List.getLast_singleton, hrun, merged_singleton (h first List.mem_cons_self)]
    rfl
  | append_singleton later v ih =>
    have hv : v = last := by simpa using hlast
    subst hv
    rw [← List.cons_append, List.forall_mem_append, List.forall_mem_singleton] at h
    rw [List.foldl_append, ih h.1 rfl, ← List.cons_append, lastRun_append_singleton]
    generalize hbefore : (first :: later).getLast _ = before
    by_cases hs : before.shape = v.shape
    · rw [hs]
      exact merged_cascade hs h.2 _
    · have hrun : lastRun v.shape (first :: later) = [] :=
        lastRun_eq_nil (List.cons_ne_nil first later) (hbefore ▸ hs)
      rw [hrun, List.nil_append, merged_singleton h.2]
      exact cascade_of_shape_ne ((shape_merged _ before).trans_ne hs)

/-- The last values of one shape are what a cascade comes to. If the last value is null, a truth
value or a number, it is this value. Otherwise the longest end of the list whose values all have
the shape of the last is merged: objects to their union, texts to those that are not empty with
spaces between them, lists to their concatenation. No object holds a name twice. -/
theorem foldl_cascade_eq_merged (first : Value) (later : List Value)
    (h : ∀ v ∈ first :: later, v.HasDistinctNames) :
    let values := first :: later
    let last := values.getLast (List.cons_ne_nil first later)
    ∃ run, run <:+ values ∧ (∀ v ∈ run, v.shape = last.shape) ∧
      (∀ other, other <:+ values → (∀ v ∈ other, v.shape = last.shape) → other <:+ run) ∧
      later.foldl cascade first = merged run last := by
  intro values last
  exact ⟨lastRun last.shape values, lastRun_suffix _ _, fun _ => shape_of_mem_lastRun,
    fun _ => suffix_lastRun, foldl_cascade_lastRun h rfl⟩

/-- A text between objects: the two objects after it are merged, the one before it is lost. -/
theorem foldl_cascade_eq_merged_of_objects :
    let first : Value := .object [("a", .bool true), ("d", .null)]
    let objects : List Value := [.object [("b", .null), ("a", .array [])],
      .object [("c", .string ""), ("b", .bool false)]]
    let later := .string "x" :: objects
    (∀ v ∈ first :: later, v.HasDistinctNames) ∧
      later.foldl cascade first = merged objects (.object [("c", .string ""), ("b", .bool false)]) ∧
      (later.foldl cascade first).text = "\x7b\"b\":false,\"a\":[],\"c\":\"\"\x7d" := by
  intro first objects later
  have hd : ∀ v ∈ first :: later, v.HasDistinctNames := by decide
  obtain ⟨run, hsuffix, hshape, hlongest, hrun⟩ := foldl_cascade_eq_merged first later hd
  have htext : .string "x" ∉ run := by
    intro hm
    cases hshape _ hm
  have hobjects : run = objects := by
    rcases List.suffix_cons_iff.mp hsuffix with rfl | hsuffix
    · exact absurd (List.mem_cons_of_mem first List.mem_cons_self) htext
    · rcases List.suffix_cons_iff.mp hsuffix with rfl | hsuffix
      · exact absurd List.mem_cons_self htext
      · exact hsuffix.eq_of_length_le
          (hlongest objects ⟨[first, .string "x"], rfl⟩ (by decide)).length_le
  exact ⟨hd, hobjects ▸ hrun, by decide +kernel⟩

end Value

end PropStyling
