import PropStyling.Text.Blank

/-! # Trimming

A text is its trimmed text between two runs of blanks. Conversely the text between
two runs of blanks is the trimmed one as soon as it neither starts nor ends with a
blank.
-/
namespace PropStyling.Text

def Bounded (text : List Char) : Prop :=
  (∀ c ∈ text.head?, isBlank c = false) ∧ ∀ c ∈ text.getLast?, isBlank c = false

theorem bounded_of_all {text : List Char} (h : ∀ c ∈ text, isBlank c = false) : Bounded text :=
  ⟨fun c hc => h c (List.mem_of_head? hc), fun c hc => h c (List.mem_of_getLast? hc)⟩

theorem bounded_singleton {c : Char} (h : isBlank c = false) : Bounded [c] :=
  bounded_of_all (List.forall_mem_singleton.mpr h)

theorem Bounded.append {first middle last : List Char} (hf : first ≠ []) (hl : last ≠ [])
    (hbf : Bounded first) (hbl : Bounded last) : Bounded (first ++ (middle ++ last)) := by
  obtain ⟨c, first, rfl⟩ := List.exists_cons_of_ne_nil hf
  constructor
  · exact hbf.1
  · have he : (c :: first ++ (middle ++ last)).getLast? = last.getLast? := by
      rw [← List.append_assoc, List.getLast?_append, List.getLast?_eq_some_getLast hl,
        Option.some_or]
    rw [he]
    exact hbl.2

theorem Bounded.brackets (middle : List Char) : Bounded ('[' :: (middle ++ [']'])) := by
  have ho : Bounded ['['] := bounded_singleton (by decide)
  have hc : Bounded [']'] := bounded_singleton (by decide)
  exact ho.append (List.cons_ne_nil _ _) (List.cons_ne_nil _ _) hc

theorem bounded_flatten {parts : List (List Char)} (h : ∀ p ∈ parts, p ≠ [] ∧ Bounded p) :
    Bounded parts.flatten := by
  induction parts with
  | nil => exact bounded_of_all (by simp)
  | cons p parts ih =>
    rw [List.forall_mem_cons] at h
    cases parts with
    | nil => simpa using h.1.2
    | cons q parts =>
      have hne : (q :: parts).flatten ≠ [] := by simp [(h.2 q List.mem_cons_self).1]
      have hb : Bounded (p ++ ([] ++ (q :: parts).flatten)) := h.1.2.append h.1.1 hne (ih h.2)
      exact hb

theorem dropWhile_isBlank_eq_self {text : List Char} (h : ∀ c ∈ text.head?, isBlank c = false) :
    text.dropWhile isBlank = text := by
  cases text with
  | nil => rfl
  | cons c rest => rw [List.dropWhile_cons, h c rfl, if_neg Bool.false_ne_true]

theorem dropWhile_isBlank_append {before text : List Char} (hb : before.all isBlank = true)
    (h : ∀ c ∈ text.head?, isBlank c = false) :
    (before ++ text).dropWhile isBlank = text := by
  rw [List.dropWhile_append_of_pos (List.all_eq_true.mp hb), dropWhile_isBlank_eq_self h]

theorem trim_append {before text after : List Char} (hb : before.all isBlank = true)
    (ha : after.all isBlank = true) (h : Bounded text) : trim (before ++ text ++ after) = text := by
  have hr : ∀ c ∈ text.reverse.head?, isBlank c = false := by
    rw [List.head?_reverse]
    exact h.2
  have hra : after.reverse.all isBlank = true := by rwa [List.all_reverse]
  unfold trim
  cases text with
  | nil =>
    have hall : (before ++ after).all isBlank = true := by
      rw [List.all_append, hb, ha, Bool.true_and]
    rw [List.append_nil, ← List.append_nil (before ++ after),
      dropWhile_isBlank_append hall (by simp)]
    rfl
  | cons c rest =>
    have hd : (before ++ (c :: rest ++ after)).dropWhile isBlank = c :: rest ++ after :=
      dropWhile_isBlank_append hb h.1
    rw [List.append_assoc, hd, List.reverse_append, dropWhile_isBlank_append hra hr,
      List.reverse_reverse]

theorem trim_eq_self {text : List Char} (h : Bounded text) : trim text = text := by
  have he : trim ([] ++ text ++ []) = text := trim_append rfl rfl h
  rwa [List.nil_append, List.append_nil] at he

theorem exists_trim (text : List Char) : ∃ before after : List Char,
    before.all isBlank = true ∧ after.all isBlank = true ∧ text = before ++ trim text ++ after := by
  refine ⟨text.takeWhile isBlank,
    ((text.dropWhile isBlank).reverse.takeWhile isBlank).reverse, List.all_takeWhile, ?_, ?_⟩
  · rw [List.all_reverse]
    exact List.all_takeWhile
  · rw [trim, List.append_assoc, ← List.reverse_append, List.takeWhile_append_dropWhile,
      List.reverse_reverse, List.takeWhile_append_dropWhile]

theorem bounded_trim (text : List Char) : Bounded (trim text) := by
  have hdrop : ∀ s : List Char, ∀ c ∈ (s.dropWhile isBlank).head?, isBlank c = false := by
    intro s c hc
    have hh := List.head?_dropWhile_not isBlank s
    rw [Option.mem_def.mp hc] at hh
    exact hh
  have hprefix : trim text ++ ((text.dropWhile isBlank).reverse.takeWhile isBlank).reverse =
      text.dropWhile isBlank := by
    rw [trim, ← List.reverse_append, List.takeWhile_append_dropWhile, List.reverse_reverse]
  constructor
  · intro c hc
    apply hdrop text
    rw [← hprefix, List.head?_append, Option.mem_def.mp hc]
    rfl
  · intro c hc
    rw [trim, List.getLast?_reverse] at hc
    exact hdrop _ c hc

theorem trim_trim (text : List Char) : trim (trim text) = trim text :=
  trim_eq_self (bounded_trim text)

end PropStyling.Text
