import Mathlib.Data.List.Forall2
import PropStyling.Key
import PropStyling.Proofs.Text.Blank

/-! # Pieces of a key

Whether a comma separates depends on the quotes after it in the whole key, yet a piece on
its own is never cut again. The quotes after the end of a piece are even in number, since
a separating comma or the end of the key stands there, so a comma inside the piece has an
odd number of them after it in the piece if and only if it has in the key. Blanks around
a piece hold neither commas nor quotes.
-/
namespace PropStyling

theorem Text.count_blanks {blanks : List Char} (h : blanks.all isBlank = true) :
    blanks.count '"' = 0 := by
  apply List.count_eq_zero.mpr
  intro hm
  exact absurd (List.all_eq_true.mp h _ hm) (by decide)

theorem Selector.isProperty_trim (key : String) :
    isProperty (String.ofList (Text.trim key.toList)) = isProperty key := by
  rw [isProperty, isProperty, String.toList_ofList, Text.trim_trim]

theorem Selector.isValid_trim (key : String) :
    isValid (String.ofList (Text.trim key.toList)) = isValid key := by
  rw [isValid, isValid, String.toList_ofList, Text.trim_trim]

theorem Selector.parse_trim (key : String) :
    parse (String.ofList (Text.trim key.toList)) = parse key := by
  rw [parse, parse, String.toList_ofList, Text.trim_trim]

namespace Key

/-- Whether no comma of a text separates, where `quotes` more quotes follow the text. -/
def unseparated (quotes : Nat) : List Char → Bool
  | [] => true
  | c :: rest => (c != ',' || (rest.count '"' + quotes) % 2 == 1) && unseparated quotes rest

theorem unseparated_append {quotes : Nat} {first rest : List Char} :
    unseparated quotes (first ++ rest) =
      (unseparated (rest.count '"' + quotes) first && unseparated quotes rest) := by
  induction first with
  | nil => rfl
  | cons c first ih =>
    rw [List.cons_append, unseparated, unseparated, ih, List.count_append, Nat.add_assoc,
      Bool.and_assoc]

theorem unseparated_of_not_mem {quotes : Nat} {text : List Char} (h : ',' ∉ text) :
    unseparated quotes text = true := by
  induction text with
  | nil => rfl
  | cons c rest ih =>
    obtain ⟨hc, hr⟩ := not_or.mp (mt List.mem_cons.mpr h)
    rw [unseparated, ih hr, bne_iff_ne.mpr (Ne.symm hc)]
    rfl

/-- No comma of a text separates when an odd number of quotes follows each. -/
theorem unseparated_iff {quotes : Nat} {text : List Char} : unseparated quotes text = true ↔
    ∀ before after, text = before ++ ',' :: after → (after.count '"' + quotes) % 2 = 1 := by
  constructor
  · rintro h before after rfl
    rw [unseparated_append, Bool.and_eq_true, unseparated, Bool.and_eq_true] at h
    simpa using h.2.1
  · intro h
    induction text with
    | nil => rfl
    | cons c rest ih =>
      rw [unseparated, Bool.and_eq_true]
      constructor
      · by_cases hc : c = ','
        · have hq : (rest.count '"' + quotes) % 2 = 1 := h [] rest (by rw [hc]; rfl)
          rw [hq, beq_self_eq_true, Bool.or_true]
        · rw [bne_iff_ne.mpr hc, Bool.true_or]
      · exact ih fun before after he => h (c :: before) after (by rw [he]; rfl)

/-- Only the parity of the quotes that follow matters. -/
theorem unseparated_congr {quotes other : Nat} (h : quotes % 2 = other % 2) (text : List Char) :
    unseparated quotes text = unseparated other text := by
  induction text with
  | nil => rfl
  | cons c rest ih =>
    have hq : (rest.count '"' + quotes) % 2 = (rest.count '"' + other) % 2 := by omega
    rw [unseparated, unseparated, ih, hq]

/-- Characters without a separating comma are passed at once. -/
theorem split_append {first rest : List Char} (h : unseparated (rest.count '"') first = true)
    (seen : List Char) : split ((first ++ rest).count '"') seen (first ++ rest) =
      split (rest.count '"') (first.reverse ++ seen) rest := by
  induction first generalizing seen with
  | nil => rfl
  | cons c first ih =>
    rw [unseparated, Bool.and_eq_true] at h
    rw [List.cons_append, split, List.reverse_cons, List.append_assoc]
    by_cases hq : c = '"'
    · rw [if_pos hq, hq, List.count_cons_self, Nat.add_sub_cancel, ih h.2]
      rfl
    · have hcomma : ¬ (c = ',' ∧ (first ++ rest).count '"' % 2 = 0) := by
        rintro ⟨rfl, he⟩
        rw [List.count_append] at he
        simp [he] at h
      rw [if_neg hq, List.count_cons_of_ne hq, if_neg hcomma, ih h.2]
      rfl

theorem segments_of_unseparated {text : List Char} (h : unseparated 0 text = true) :
    segments text = [text] := by
  have hs := @split_append text [] h []
  rw [List.append_nil, List.append_nil] at hs
  rw [segments, hs, split, List.reverse_reverse]

theorem split_ne_nil (quotes : Nat) (seen text : List Char) : split quotes seen text ≠ [] := by
  fun_induction split quotes seen text with
  | case1 => exact List.cons_ne_nil _ _
  | case2 _ _ _ ih => exact ih
  | case3 => exact List.cons_ne_nil _ _
  | case4 _ _ _ _ _ _ ih => exact ih

/-- The segments with commas between them give back the text. -/
theorem intercalate_split (quotes : Nat) (seen text : List Char) :
    [','].intercalate (split quotes seen text) = seen.reverse ++ text := by
  fun_induction split quotes seen text with
  | case1 seen => rw [List.intercalate_singleton, List.append_nil]
  | case2 quotes seen rest ih => simpa using ih
  | case3 quotes seen c rest hq hc ih =>
    obtain ⟨s, ss, hs⟩ := List.exists_cons_of_ne_nil (split_ne_nil quotes [] rest)
    rw [hs] at ih ⊢
    rw [List.intercalate_cons_cons, ih, hc.1]
    simp
  | case4 quotes seen c rest hq hc ih => simpa using ih

theorem intercalate_segments (text : List Char) : [','].intercalate (segments text) = text :=
  intercalate_split _ [] text

/-- A comma with an even number of quotes after it separates what comes before it and after it. -/
theorem split_append_comma {after : List Char} (h : after.count '"' % 2 = 0)
    (seen first : List Char) :
    split ((first ++ ',' :: after).count '"') seen (first ++ ',' :: after) =
      split (first.count '"') seen first ++ segments after := by
  induction first generalizing seen with
  | nil =>
    have hc : (',' :: after).count '"' = after.count '"' := List.count_cons_of_ne (by decide)
    rw [List.nil_append, hc, split, split, if_neg (by decide), if_pos ⟨rfl, h⟩]
    rfl
  | cons c first ih =>
    rw [List.cons_append, split, split]
    by_cases hq : c = '"'
    · rw [if_pos hq, if_pos hq, hq, List.count_cons_self, List.count_cons_self,
        Nat.add_sub_cancel, Nat.add_sub_cancel, ih]
    · have hcount : (first ++ ',' :: after).count '"' % 2 = first.count '"' % 2 := by
        rw [List.count_append, List.count_cons_of_ne (by decide)]
        omega
      rw [if_neg hq, if_neg hq, List.count_cons_of_ne hq, List.count_cons_of_ne hq, hcount, ih, ih]
      split <;> rfl

theorem segments_append_comma {first after : List Char} (h : after.count '"' % 2 = 0) :
    segments (first ++ ',' :: after) = segments first ++ segments after :=
  split_append_comma h [] first

theorem unseparated_concat {quotes : Nat} {text : List Char} {c : Char}
    (h : unseparated ([c].count '"' + quotes) text = true) (hc : c = ',' → quotes % 2 = 1) :
    unseparated quotes (text ++ [c]) = true := by
  rw [unseparated_append, h, Bool.true_and, unseparated, unseparated, Bool.and_true]
  by_cases he : c = ','
  · simp [hc he]
  · rw [bne_iff_ne.mpr he, Bool.true_or]

/-- No segment has a comma that separates in the segment alone. The characters passed have none
that separates in the key. -/
theorem unseparated_of_mem_split {seen text : List Char}
    (h : unseparated (text.count '"') seen.reverse = true) :
    ∀ s ∈ split (text.count '"') seen text, unseparated 0 s = true := by
  induction text generalizing seen with
  | nil => exact List.forall_mem_singleton.mpr h
  | cons c rest ih =>
    have hcount : (c :: rest).count '"' = [c].count '"' + rest.count '"' := by
      rw [← List.count_append, List.singleton_append]
    have hpass (hc : c = ',' → rest.count '"' % 2 = 1) :
        ∀ s ∈ split (rest.count '"') (c :: seen) rest, unseparated 0 s = true := by
      apply ih
      rw [List.reverse_cons]
      exact unseparated_concat (hcount ▸ h) hc
    rw [split]
    by_cases hq : c = '"'
    · have hrest : (c :: rest).count '"' - 1 = rest.count '"' := by
        rw [hq, List.count_cons_self, Nat.add_sub_cancel]
      rw [if_pos hq, hrest]
      exact hpass fun hc => absurd (hq.symm.trans hc) (by decide)
    · rw [List.count_cons_of_ne hq] at h ⊢
      rw [if_neg hq]
      split
      · next hc =>
        refine List.forall_mem_cons.mpr ⟨?_, ih rfl⟩
        rwa [unseparated_congr (show _ % 2 = 0 % 2 from hc.2)] at h
      · next hc => exact hpass fun he => Nat.mod_two_ne_zero.mp fun h0 => hc ⟨he, h0⟩

theorem unseparated_of_mem_segments {text s : List Char} (h : s ∈ segments text) :
    unseparated 0 s = true :=
  unseparated_of_mem_split rfl s h

/-- A text with one segment has no comma that separates. -/
theorem unseparated_of_length {text : List Char} (h : (segments text).length = 1) :
    unseparated 0 text = true := by
  obtain ⟨s, hs⟩ := List.length_eq_one_iff.mp h
  have he := intercalate_segments text
  rw [hs, List.intercalate_singleton] at he
  apply unseparated_of_mem_segments
  rw [hs, he]
  exact List.mem_singleton_self text

/-- Blanks around a text hold no comma and no quote. -/
theorem unseparated_trim (s : List Char) : unseparated 0 (Text.trim s) = unseparated 0 s := by
  obtain ⟨before, after, hb, ha, hs⟩ := Text.exists_trim s
  have hcomma : ∀ {blanks : List Char}, blanks.all Text.isBlank = true → ',' ∉ blanks :=
    fun h hm => absurd (List.all_eq_true.mp h _ hm) (by decide)
  conv_rhs => rw [hs, unseparated_append, unseparated_append]
  rw [Text.count_blanks ha, unseparated_of_not_mem (hcomma hb), unseparated_of_not_mem (hcomma ha),
    Bool.true_and, Bool.and_true]

/-- A piece of a key is its own only piece. -/
theorem pieces_of_mem_pieces {key piece : String} (h : piece ∈ pieces key) :
    pieces piece = [piece] := by
  obtain ⟨s, hs, rfl⟩ := List.mem_map.mp h
  rw [pieces, String.toList_ofList,
    segments_of_unseparated ((unseparated_trim s).trans (unseparated_of_mem_segments hs)),
    List.map_singleton, Text.trim_trim]

/-- A key is its own only piece, outer blanks aside, when no comma of it separates. -/
theorem pieces_eq_singleton_iff_unseparated {key : String} :
    pieces key = [String.ofList (Text.trim key.toList)] ↔ unseparated 0 key.toList = true := by
  constructor
  · intro h
    have hl := congrArg List.length h
    rw [pieces, List.length_map] at hl
    exact unseparated_of_length hl
  · intro h
    rw [pieces, segments_of_unseparated h, List.map_singleton]

/-- A bare style property is the only piece of its key. -/
theorem pieces_of_isProperty {key : String} (h : Selector.isProperty key = true) :
    pieces key = [String.ofList (Text.trim key.toList)] := by
  obtain ⟨before, after, hb, ha, hk⟩ := Text.exists_trim key.toList
  rw [Selector.isProperty, Bool.and_eq_true] at h
  have hcomma : ',' ∉ key.toList := by
    rw [hk, List.mem_append, List.mem_append]
    rintro ((hm | hm) | hm)
    · exact absurd (List.all_eq_true.mp hb _ hm) (by decide)
    · exact absurd (List.all_eq_true.mp h.2 _ hm) (by decide)
    · exact absurd (List.all_eq_true.mp ha _ hm) (by decide)
  exact pieces_eq_singleton_iff_unseparated.mpr (unseparated_of_not_mem hcomma)

/-- A list is read without a fault when each of its members is. -/
theorem mapM_eq_ok_iff {α β ε : Type} {f : α → Except ε β} {as : List α} {bs : List β} :
    as.mapM f = .ok bs ↔ List.Forall₂ (fun a b => f a = .ok b) as bs := by
  induction as generalizing bs with
  | nil =>
    rw [List.mapM_nil, List.forall₂_nil_left_iff]
    exact ⟨fun h => (Except.ok.inj h).symm, fun h => h ▸ rfl⟩
  | cons a as ih =>
    rw [List.mapM_cons, List.forall₂_cons_left_iff]
    constructor
    · intro h
      cases ha : f a with
      | error e =>
        rw [ha] at h
        cases h
      | ok b =>
        cases hs : as.mapM f with
        | error e =>
          rw [ha, hs] at h
          cases h
        | ok rest =>
          rw [ha, hs] at h
          cases h
          exact ⟨b, rest, rfl, ih.mp hs, rfl⟩
    · rintro ⟨b, rest, hb, hr, rfl⟩
      rw [hb, ih.mpr hr]
      rfl

theorem parse_eq_ok_iff {key : String} {ss : List Selector} : parse key = .ok ss ↔
    List.Forall₂ (fun piece s => Selector.parse piece = .ok s) (pieces key) ss :=
  mapM_eq_ok_iff

end Key

end PropStyling
