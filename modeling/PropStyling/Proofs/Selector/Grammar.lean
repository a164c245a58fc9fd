import PropStyling.Proofs.Selector.Cutting
import PropStyling.Proofs.Selector.Recognition

/-! # Selectors in plain terms

The texts of selectors described by their parts, without patterns: which characters make up
a name or a word, where blanks may stand, and which quotes may stand inside a quoted
literal. The recogniser accepts exactly these texts, outer blanks aside. It follows that
the choices of the pattern, above all whether a backslash belongs to the quote after it,
admit no other text and lose none.
-/
namespace PropStyling

/-- At least one repetition is a repetition of a list that is not empty. -/
theorem Pattern.mem_plus {l : Language Char} {s : List Char} :
    s ∈ plus l ↔ ∃ gs : List (List Char), gs ≠ [] ∧ (∀ g ∈ gs, g ∈ l) ∧ s = gs.flatten := by
  rw [plus, Language.mem_mul]
  constructor
  · rintro ⟨g, hg, _, ht, rfl⟩
    obtain ⟨gs, rfl, hgs⟩ := Language.mem_kstar.mp ht
    exact ⟨g :: gs, List.cons_ne_nil g gs, List.forall_mem_cons.mpr ⟨hg, hgs⟩, rfl⟩
  · rintro ⟨gs, hn, hg, rfl⟩
    obtain ⟨g, gs, rfl⟩ := List.exists_cons_of_ne_nil hn
    rw [List.forall_mem_cons] at hg
    exact ⟨g, hg.1, _, Language.mem_kstar.mpr ⟨gs, rfl, hg.2⟩, rfl⟩

namespace Grammar

/-- ASCII letters and digits, the long s and the Kelvin sign. -/
def IsPlain (c : Char) : Prop :=
  c.isAlphanum = true ∨ c = '\u017F' ∨ c = '\u212A'

def AllBlank (text : List Char) : Prop :=
  ∀ c ∈ text, Text.isBlank c = true

def Spells (letter c : Char) : Prop :=
  c = letter ∨ c = letter.toUpper ∨ letter = 's' ∧ c = '\u017F'

def QuotesEscaped (content : List Char) : Prop :=
  ∀ before after, content = before ++ '"' :: after → before.getLast? = some '\\'

inductive IsLiteral : List Char → Prop
  | digits {text : List Char} (hn : text ≠ []) (hd : ∀ c ∈ text, c.isDigit = true) :
      IsLiteral text
  | word {word text : List Char} (hw : word = trueWord ∨ word = falseWord)
      (hs : List.Forall₂ Spells word text) : IsLiteral text
  | quoted {content : List Char} (hn : content ≠ []) (hq : QuotesEscaped content) :
      IsLiteral ('"' :: content ++ ['"'])

def IsPropName (text : List Char) : Prop :=
  text ≠ [] ∧ ∀ c ∈ text, IsPlain c ∨ c = '_'

inductive IsGroup : List Char → Prop
  | bare {before name after : List Char} (hb : AllBlank before) (hn : IsPropName name)
      (ha : AllBlank after) : IsGroup ('[' :: before ++ name ++ after ++ [']'])
  | valued {before name after between literal last : List Char} (hb : AllBlank before)
      (hn : IsPropName name) (ha : AllBlank after) (hw : AllBlank between)
      (hl : IsLiteral literal) (hz : AllBlank last) :
      IsGroup ('[' :: before ++ name ++ after ++ '=' :: between ++ literal ++ last ++ [']'])

def IsPartName (text : List Char) : Prop :=
  text ≠ [] ∧ ∀ c ∈ text, Text.isBlank c = false ∧ c ≠ ':' ∧ c ≠ '='

/-- Groups, groups and the name of a part, or a bare style property. -/
inductive IsSelector : List Char → Prop
  | groups {gs : List (List Char)} (hn : gs ≠ []) (hg : ∀ g ∈ gs, IsGroup g) :
      IsSelector gs.flatten
  | part {gs : List (List Char)} {name : List Char} (hg : ∀ g ∈ gs, IsGroup g)
      (hn : IsPartName name) : IsSelector (gs.flatten ++ ':' :: ':' :: name)
  | property {name : List Char} (hn : name ≠ []) (hp : ∀ c ∈ name, IsPlain c) : IsSelector name

variable {s : List Char}

theorem allBlank_iff_mem : AllBlank s ↔ s ∈ Pattern.blanks := by
  rw [Pattern.mem_blanks, List.all_eq_true]
  rfl

theorem allPlain_iff : (∀ c ∈ s, IsPlain c) ↔ s.all Text.isPropertyChar = true := by
  rw [List.all_eq_true]
  exact forall₂_congr fun c _ => (Text.isPropertyChar_iff c).symm

theorem isPropName_iff_mem : IsPropName s ↔ s ∈ Pattern.name := by
  rw [Pattern.mem_name, List.all_eq_true]
  refine and_congr_right fun _ => forall₂_congr fun c _ => ?_
  rw [Text.isNameChar, Bool.or_eq_true, Text.isPropertyChar_iff, beq_iff_eq]
  rfl

theorem isPartName_iff : IsPartName s ↔ s ≠ [] ∧ s.all Text.isTargetChar = true := by
  rw [List.all_eq_true]
  refine and_congr_right fun _ => forall₂_congr fun c _ => ?_
  simp [Text.isTargetChar, and_assoc]

/-- A lower-case letter is what both of its cases are lowered to. -/
theorem toLower_eq_iff {letter c : Char} (h : letter.isLower = true) :
    c.toLower = letter ↔ c = letter ∨ c = letter.toUpper := by
  have hl : letter.toLower = letter :=
    Char.toLower_eq_of_not_isUpper (Char.not_isUpper_of_isLower h)
  constructor
  · intro he
    by_cases hu : c.isUpper = true
    · have hc : c.toUpper = c := Char.toUpper_eq_of_not_isLower (Char.not_isLower_of_isUpper hu)
      exact .inr (by rw [← he, Char.toUpper_toLower_eq_toUpper, hc])
    · exact .inl ((Char.toLower_eq_of_not_isUpper hu).symm.trans he)
  · rintro (rfl | rfl)
    · exact hl
    · rw [Char.toLower_toUpper_eq_toLower, hl]

/-- The characters that fold to a letter spell it. -/
theorem fold_eq_iff {letter c : Char} (h : letter.isLower = true) (hk : letter ≠ 'k') :
    Text.fold c = letter ↔ Spells letter c := by
  have halpha : letter.isAlpha = true ∧ letter.toUpper.isAlpha = true := by
    rw [Char.isAlpha_toUpper_eq_isAlpha, Char.isAlpha, h, Bool.or_true]
    exact ⟨rfl, rfl⟩
  have hne : ∀ {d : Char}, d.isAlpha = false → d ≠ letter ∧ d ≠ letter.toUpper := by
    intro d hd
    exact ⟨(Text.ne_of_class halpha.1 hd).symm, (Text.ne_of_class halpha.2 hd).symm⟩
  rw [Text.fold, Spells]
  by_cases hs : c = '\u017F'
  · subst hs
    have hd := hne (show Char.isAlpha '\u017F' = false by decide)
    simp [hd.1, hd.2, eq_comm]
  · by_cases hK : c = '\u212A'
    · subst hK
      have hd := hne (show Char.isAlpha '\u212A' = false by decide)
      simp [hd.1, hd.2, hk.symm]
    · simp [hs, hK, toLower_eq_iff h]

theorem forall₂_spells_iff {word : List Char} (h : word.all Char.isLower = true)
    (hk : 'k' ∉ word) : List.Forall₂ Spells word s ↔ s.map Text.fold = word := by
  induction word generalizing s with
  | nil => rw [List.forall₂_nil_left_iff, List.map_eq_nil_iff]
  | cons letter word ih =>
    rw [List.all_cons, Bool.and_eq_true] at h
    rw [List.mem_cons, not_or] at hk
    cases s with
    | nil => simp
    | cons c t =>
      rw [List.forall₂_cons, ih h.2 hk.2, ← fold_eq_iff h.1 (Ne.symm hk.1), List.map_cons,
        List.cons.injEq]

theorem quotesEscapedAfter_iff {backslash : Bool} : Text.quotesEscapedAfter backslash s = true ↔
    ∀ before after, s = before ++ '"' :: after → Text.backslashAfter backslash before = true := by
  constructor
  · rintro h before after rfl
    rw [Text.quotesEscapedAfter_append, Bool.and_eq_true, Text.quotesEscapedAfter,
      Bool.and_eq_true] at h
    simpa using h.2.1
  · intro h
    induction s generalizing backslash with
    | nil => rfl
    | cons c t ih =>
      rw [Text.quotesEscapedAfter, Bool.and_eq_true]
      constructor
      · by_cases hc : c = '"'
        · have hb : backslash = true := h [] t (by rw [hc]; rfl)
          rw [hb, Bool.or_true]
        · rw [bne_iff_ne.mpr hc, Bool.true_or]
      · exact ih fun before after he => h (c :: before) after (by rw [he]; rfl)

/-- A backslash stands at the end of a text when it is its last character. -/
theorem backslashAfter_iff : Text.backslashAfter false s = true ↔ s.getLast? = some '\\' := by
  rcases List.eq_nil_or_concat s with rfl | ⟨t, c, rfl⟩
  · simp
  · simp [List.concat_eq_append]

theorem quotesEscaped_iff : QuotesEscaped s ↔ Text.quotesEscaped s = true := by
  rw [Text.quotesEscaped, quotesEscapedAfter_iff]
  simp only [backslashAfter_iff, QuotesEscaped]

theorem isLiteral_iff_mem : IsLiteral s ↔ s ∈ Pattern.literal := by
  have hword : ∀ {word : List Char}, word = trueWord ∨ word = falseWord →
      (List.Forall₂ Spells word s ↔ s ∈ Pattern.word word) := by
    intro word hw
    rw [Pattern.mem_word]
    rcases hw with rfl | rfl
    · exact forall₂_spells_iff (by decide) (by decide)
    · exact forall₂_spells_iff (by decide) (by decide)
  rw [Pattern.mem_literal]
  constructor
  · rintro (⟨hn, hd⟩ | ⟨hw, hs⟩ | ⟨hn, hq⟩)
    · exact .inl (.inl (.inl (Pattern.mem_digits.mpr ⟨hn, List.all_eq_true.mpr hd⟩)))
    · have hm := (hword hw).mp hs
      rcases hw with rfl | rfl
      · exact .inl (.inl (.inr hm))
      · exact .inl (.inr hm)
    · exact .inr (Pattern.mem_quoted.mpr ⟨_, hn, quotesEscaped_iff.mp hq, rfl⟩)
  · rintro (((hd | ht) | hf) | hq)
    · obtain ⟨hn, hd⟩ := Pattern.mem_digits.mp hd
      exact .digits hn (List.all_eq_true.mp hd)
    · exact .word (.inl rfl) ((hword (.inl rfl)).mpr ht)
    · exact .word (.inr rfl) ((hword (.inr rfl)).mpr hf)
    · obtain ⟨content, hn, he, rfl⟩ := Pattern.mem_quoted.mp hq
      exact .quoted hn (quotesEscaped_iff.mpr he)

theorem isGroup_iff_mem : IsGroup s ↔ s ∈ Pattern.bracket := by
  rw [Pattern.mem_bracket]
  constructor
  · rintro (⟨hb, hn, ha⟩ | ⟨hb, hn, ha, hw, hl, hz⟩)
    · have hc := Pattern.Captures.bare (allBlank_iff_mem.mp hb) (isPropName_iff_mem.mp hn)
        (allBlank_iff_mem.mp ha)
      exact ⟨_, _, by simpa using hc⟩
    · have hc := Pattern.Captures.valued (allBlank_iff_mem.mp hb) (isPropName_iff_mem.mp hn)
        (allBlank_iff_mem.mp ha) (allBlank_iff_mem.mp hw) (isLiteral_iff_mem.mp hl)
        (allBlank_iff_mem.mp hz)
      exact ⟨_, _, by simpa using hc⟩
  · rintro ⟨name, literal, ⟨hb, hn, ha⟩ | ⟨hb, hn, ha, hw, hl, hz⟩⟩
    · have hg := IsGroup.bare (allBlank_iff_mem.mpr hb) (isPropName_iff_mem.mpr hn)
        (allBlank_iff_mem.mpr ha)
      simpa using hg
    · have hg := IsGroup.valued (allBlank_iff_mem.mpr hb) (isPropName_iff_mem.mpr hn)
        (allBlank_iff_mem.mpr ha) (allBlank_iff_mem.mpr hw) (isLiteral_iff_mem.mpr hl)
        (allBlank_iff_mem.mpr hz)
      simpa using hg

theorem isSelector_iff_mem : IsSelector s ↔ s ∈ Pattern.selector := by
  have hall : ∀ {gs : List (List Char)}, (∀ g ∈ gs, IsGroup g) ↔ ∀ g ∈ gs, g ∈ Pattern.bracket :=
    forall₂_congr fun _ _ => isGroup_iff_mem
  rw [Pattern.selector, Language.mem_add, Language.mem_add]
  constructor
  · rintro (⟨hn, hg⟩ | ⟨hg, hn⟩ | ⟨hn, hp⟩)
    · exact .inl (.inl (Pattern.mem_plus.mpr ⟨_, hn, hall.mp hg, rfl⟩))
    · refine .inl (.inr (Language.append_mem_mul ?_ ?_))
      · exact Language.mem_kstar.mpr ⟨_, rfl, hall.mp hg⟩
      · obtain ⟨hne, hc⟩ := isPartName_iff.mp hn
        exact Pattern.mem_suffix.mpr ⟨_, hne, hc, rfl⟩
    · exact .inr (Pattern.mem_plus_one.mpr ⟨hn, allPlain_iff.mp hp⟩)
  · rintro ((hs | ⟨first, hf, t, ht, rfl⟩) | hp)
    · obtain ⟨gs, hn, hg, rfl⟩ := Pattern.mem_plus.mp hs
      exact .groups hn (hall.mpr hg)
    · obtain ⟨gs, rfl, hg⟩ := Language.mem_kstar.mp hf
      obtain ⟨name, hne, hc, rfl⟩ := Pattern.mem_suffix.mp ht
      exact .part (hall.mpr hg) (isPartName_iff.mpr ⟨hne, hc⟩)
    · obtain ⟨hn, hp⟩ := Pattern.mem_plus_one.mp hp
      exact .property hn (allPlain_iff.mpr hp)

end Grammar

/-- The recogniser accepts a text if and only if it is, outer blanks aside, a selector in plain
terms. -/
theorem Selector.isValid_iff_isSelector (text : String) :
    isValid text = true ↔ Grammar.IsSelector (Text.trim text.toList) := by
  rw [isValid_iff_mem, Grammar.isSelector_iff_mem]

end PropStyling
