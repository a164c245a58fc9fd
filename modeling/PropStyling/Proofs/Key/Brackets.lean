import PropStyling.Proofs.Key.Pieces
import PropStyling.Proofs.Selector.FirstCutting

/-! # Commas in brackets

The commas of a bracket stand in its quoted content. Outside the contents the quotes come in
pairs, one that opens a literal and one that closes it, so whether a comma separates depends
on the escaped quotes after it alone, those of its own content and of all later ones. A key
of brackets is kept together when they are even in number after each comma, and is cut
inside a literal otherwise, although each quote there is escaped.
-/
namespace PropStyling

def Bracket.content (g : List Char) : List Char :=
  match ofChars? g with
  | some ⟨_, some (.quoted content)⟩ => content
  | _ => []

def Cutting.quotedText (c : Cutting) : List Char :=
  c.brackets.flatMap Bracket.content

/-- The quotes after each comma of the quoted contents are even in number. -/
def Cutting.KeepsCommas (c : Cutting) : Prop :=
  ∀ before after, c.quotedText = before ++ ',' :: after → Even (after.count '"')

/-- Brackets that can be read are cut where they meet. -/
theorem Cutting.exists_of_brackets {gs : List (List Char)}
    (h : ∀ g ∈ gs, (Bracket.ofChars? g).isSome = true) :
    ∃ c : Cutting, c.text = gs.flatten ∧ c.suffix = none := by
  have hg : ∀ g ∈ gs, g ∈ Pattern.bracket := fun g hg => Bracket.ofChars?_isSome.mp (h g hg)
  exact ⟨⟨gs, none, hg, by simp⟩, by rw [text_eq]; simp, rfl⟩

namespace Key

def isNeutral (c : Char) : Bool :=
  c != ',' && c != '"'

theorem not_mem_of_neutral {s : List Char} (h : s.all isNeutral = true) : ',' ∉ s ∧ '"' ∉ s :=
  ⟨Pattern.not_mem_of_all h (by decide), Pattern.not_mem_of_all h (by decide)⟩

theorem isNeutral_of_class {p : Char → Bool} {s : List Char} (h : s.all p = true)
    (hp : p ',' = false ∧ p '"' = false) : s.all isNeutral = true := by
  refine Text.all_imp h fun c hc => ?_
  rw [isNeutral, bne_iff_ne.mpr (Text.ne_of_class hc hp.1),
    bne_iff_ne.mpr (Text.ne_of_class hc hp.2)]
  rfl

theorem neutral_blanks {s : List Char} (h : s ∈ Pattern.blanks) : s.all isNeutral = true :=
  isNeutral_of_class (Pattern.mem_blanks.mp h) (by decide)

theorem neutral_name {s : List Char} (h : s ∈ Pattern.name) : s.all isNeutral = true :=
  isNeutral_of_class (Pattern.mem_name.mp h).2 (by decide)

theorem neutral_plain {l : Literal} (h : l.WellFormed) (hq : ∀ content, l ≠ .quoted content) :
    l.chars.all isNeutral = true := by
  cases l with
  | digits text => exact isNeutral_of_class h.2 (by decide)
  | word text =>
    have hl : text.all Text.isLetter = true :=
      List.all_eq_true.mpr fun c hc => Literal.isLetter_of_mem_word h hc
    exact isNeutral_of_class hl (by decide)
  | quoted content => exact absurd rfl (hq content)

/-- What a bracket is made of for a key: neutral characters, or a content between quotes. -/
inductive Layout : List Char → List Char → Prop
  | neutral {g : List Char} (h : g.all isNeutral = true) : Layout g []
  | quoted {before content after : List Char} (hb : before.all isNeutral = true)
      (ha : after.all isNeutral = true) :
      Layout (before ++ '"' :: (content ++ '"' :: after)) content

theorem layout_of_mem {g : List Char} (h : g ∈ Pattern.bracket) : Layout g (Bracket.content g) := by
  obtain ⟨name, literal, h⟩ := Pattern.mem_bracket.mp h
  have hread := Bracket.ofChars?_of_captures h
  have hmarks : isNeutral '[' = true ∧ isNeutral ']' = true ∧ isNeutral '=' = true := by decide
  cases h with
  | bare hb hn ha =>
    rw [Bracket.content, hread]
    refine .neutral ?_
    simp [neutral_blanks hb, neutral_name hn, neutral_blanks ha, hmarks]
  | @valued before name after between literal last hb hn ha hw hm hz =>
    obtain ⟨l, hl, rfl⟩ := Literal.mem_literal_iff.mp hm
    rw [Option.bind_some, Literal.ofChars?_chars hl] at hread
    rw [Bracket.content, hread]
    by_cases hq : ∃ content, l = .quoted content
    · obtain ⟨content, rfl⟩ := hq
      have hopening :
          ('[' :: (before ++ (name ++ (after ++ '=' :: between)))).all isNeutral = true := by
        simp [neutral_blanks hb, neutral_name hn, neutral_blanks ha, neutral_blanks hw, hmarks]
      have hclosing : (last ++ [']']).all isNeutral = true := by
        simp [neutral_blanks hz, hmarks]
      have hlayout := @Layout.quoted _ content _ hopening hclosing
      simpa [Literal.chars] using hlayout
    · have hnot : ∀ content, l ≠ .quoted content := fun content he => hq ⟨content, he⟩
      have hlayout : Layout
          ('[' :: (before ++ (name ++ (after ++ '=' :: (between ++ (l.chars ++ (last ++ [']'])))))))
          [] := by
        refine .neutral ?_
        simp [neutral_blanks hb, neutral_name hn, neutral_blanks ha, neutral_blanks hw,
          neutral_plain hl hnot, neutral_blanks hz, hmarks]
      cases l with
      | digits text => exact hlayout
      | word text => exact hlayout
      | quoted content => exact absurd rfl (hnot content)

section
variable {g content : List Char}

/-- The two quotes around a content do not change the parity. -/
theorem Layout.count_mod_two (h : Layout g content) :
    g.count '"' % 2 = content.count '"' % 2 := by
  cases h with
  | neutral h =>
    rw [List.count_eq_zero.mpr (not_mem_of_neutral h).2]
    rfl
  | quoted hb ha =>
    rw [List.count_append, List.count_cons_self, List.count_append, List.count_cons_self,
      List.count_eq_zero.mpr (not_mem_of_neutral hb).2,
      List.count_eq_zero.mpr (not_mem_of_neutral ha).2]
    omega

/-- One quote more, the closing one, follows the commas of a content. -/
theorem Layout.unseparated_eq (h : Layout g content) (quotes : ℕ) :
    unseparated quotes g = unseparated (quotes + 1) content := by
  cases h with
  | neutral h => rw [unseparated_of_not_mem (not_mem_of_neutral h).1, unseparated]
  | @quoted before _ after hb ha =>
    have hfirst :
        unseparated (('"' :: (content ++ '"' :: after)).count '"' + quotes) before = true :=
      unseparated_of_not_mem (not_mem_of_neutral hb).1
    have hlast : unseparated quotes ('"' :: after) = true :=
      unseparated_of_not_mem (by simp [(not_mem_of_neutral ha).1])
    have hcount : ('"' :: after).count '"' + quotes = quotes + 1 := by
      rw [List.count_cons_self, List.count_eq_zero.mpr (not_mem_of_neutral ha).2]
      omega
    rw [unseparated_append, hfirst, Bool.true_and, unseparated, unseparated_append, hlast, hcount]
    simp

end

/-- A list of brackets keeps together when their contents do before one more quote. -/
theorem unseparated_flatten {gs : List (List Char)} (h : ∀ g ∈ gs, g ∈ Pattern.bracket) :
    unseparated 0 gs.flatten = unseparated 1 (gs.flatMap Bracket.content) ∧
      gs.flatten.count '"' % 2 = (gs.flatMap Bracket.content).count '"' % 2 := by
  induction gs with
  | nil => exact ⟨rfl, rfl⟩
  | cons g gs ih =>
    rw [List.forall_mem_cons] at h
    obtain ⟨hsame, hcount⟩ := ih h.2
    have hlayout := layout_of_mem h.1
    have hparity : (gs.flatten.count '"' + 0 + 1) % 2 =
        ((gs.flatMap Bracket.content).count '"' + 1) % 2 := by omega
    rw [List.flatten_cons, List.flatMap_cons, unseparated_append, unseparated_append,
      hlayout.unseparated_eq, unseparated_congr hparity, hsame, List.count_append,
      List.count_append]
    have hg := hlayout.count_mod_two
    exact ⟨rfl, by omega⟩

/-- The commas of a cutting without a suffix separate nothing when they are kept. -/
theorem unseparated_text_iff {c : Cutting} (hs : c.suffix = none) :
    unseparated 0 c.text = true ↔ c.KeepsCommas := by
  rw [Cutting.text_eq, hs, Option.getD_none, List.append_nil,
    (unseparated_flatten c.mem_bracket).1, unseparated_iff]
  refine forall₃_congr fun before after _ => ?_
  rw [Nat.even_iff]
  omega

/-- A selector of brackets alone is its own only piece exactly when its commas are kept. The key
is then valid and is parsed as the selector is. A parsed selector whose commas are not kept is not
what the key is parsed as. -/
theorem pieces_of_brackets (text : String) {c : Cutting} (hv : Selector.isValid text = true)
    (hc : c.text = Text.trim text.toList) (hs : c.suffix = none) :
    (pieces text = [String.ofList (Text.trim text.toList)] ↔ c.KeepsCommas) ∧
    (c.KeepsCommas → isValid text = true ∧
      parse text = (Selector.parse text).map fun s => [s]) ∧
    ∀ s, Selector.parse text = .ok s → (parse text = .ok [s] ↔ c.KeepsCommas) := by
  have hpieces : pieces text = [String.ofList (Text.trim text.toList)] ↔ c.KeepsCommas := by
    rw [pieces_eq_singleton_iff_unseparated, ← unseparated_trim, ← hc, unseparated_text_iff hs]
  have hparse : c.KeepsCommas → parse text = (Selector.parse text).map fun s => [s] := by
    intro hk
    rw [parse, hpieces.mpr hk, List.mapM_cons, List.mapM_nil, Selector.parse_trim]
    cases Selector.parse text with
    | error e => rfl
    | ok s => rfl
  refine ⟨hpieces, fun hk => ⟨?_, hparse hk⟩, fun s hs => ⟨fun hp => ?_, fun hk => ?_⟩⟩
  · rw [isValid, hpieces.mpr hk, List.all_cons, List.all_nil, Bool.and_true,
      Selector.isValid_trim, hv]
  · have hl := (parse_eq_ok_iff.mp hp).length_eq
    rw [pieces, List.length_map] at hl
    exact hpieces.mp (pieces_eq_singleton_iff_unseparated.mpr (unseparated_of_length hl))
  · rw [hparse hk, hs]
    rfl

/-- Two escaped quotes after a comma leave it where it is. -/
theorem pieces_of_brackets_of_two_quotes :
    let text := " [a=\"\\\"p,\\\"\\\"q\"][b=\",]\"]"
    let s : Selector := ⟨[⟨"a", .string "\"p,\"\"q"⟩, ⟨"b", .string ",]"⟩], .root⟩
    ∃ c : Cutting, Selector.isValid text = true ∧ c.text = Text.trim text.toList ∧
      c.suffix = none ∧ c.KeepsCommas ∧ pieces text = [String.ofList (Text.trim text.toList)] ∧
      isValid text = true ∧ parse text = .ok [s] := by
  intro text s
  obtain ⟨c, hc, hs⟩ := @Cutting.exists_of_brackets
    ["[a=\"\\\"p,\\\"\\\"q\"]".toList, "[b=\",]\"]".toList] (by decide +kernel)
  have ht : c.text = Text.trim text.toList := hc.trans (by decide +kernel)
  have hv : Selector.isValid text = true := by decide +kernel
  have hk : c.KeepsCommas := (unseparated_text_iff hs).mp (by rw [ht]; decide +kernel)
  obtain ⟨hpieces, hagree, hparse⟩ := pieces_of_brackets text hv ht hs
  exact ⟨c, hv, ht, hs, hk, hpieces.mpr hk, (hagree hk).1,
    (hparse s (by decide +kernel)).mpr hk⟩

/-- A comma before one escaped quote separates. -/
theorem not_forall_pieces_of_brackets :
    ¬ ∀ (text : String) (c : Cutting), Selector.isValid text = true →
      c.text = Text.trim text.toList → c.suffix = none →
      pieces text = [String.ofList (Text.trim text.toList)] := by
  intro h
  obtain ⟨c, hc, hs⟩ := @Cutting.exists_of_brackets ["[a=\"x,\\\"y\"]".toList] (by decide +kernel)
  have hp := h "[a=\"x,\\\"y\"]" c (by decide +kernel) (hc.trans (by decide +kernel)) hs
  revert hp
  decide +kernel

end Key

end PropStyling
