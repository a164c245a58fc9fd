import PropStyling.Proofs.Overrides
import PropStyling.Proofs.Selector.FirstCutting
import PropStyling.Proofs.Validation

/-! # Accepted configurations

Validation accepts keys by their grammar, while rules are made of the pieces that can be
parsed. The two agree except on literals that the grammar admits and that stand for no
value: the word `false` spelled with a long s, and digits beyond the range of numbers. A
piece whose first cutting has such a literal is accepted and makes no rule. Every other
piece of an accepted configuration has its rule in the group of its target.
-/
namespace PropStyling

theorem Text.map_toLower_of_map_fold {s letters : List Char} (h : s.map fold = letters)
    (hs : '\u017F' ∉ s) (hk : 'k' ∉ letters) : s.map Char.toLower = letters := by
  rw [← h]
  apply List.map_congr_left
  intro c hc
  have hcs : c ≠ '\u017F' := fun he => hs (he ▸ hc)
  have hck : c ≠ '\u212A' := by
    rintro rfl
    exact hk (h ▸ List.mem_map.mpr ⟨_, hc, by decide⟩)
  rw [fold, if_neg hcs, if_neg hck]

namespace Literal

def Valueless (text : List Char) : Prop :=
  '\u017F' ∈ text ∧ text ∈ Pattern.word falseWord ∨
    text ∈ Pattern.digits ∧ Binary64.bound ≤ Nat.ofDigitChars 10 text 0

theorem long_s_not_mem_of_map_toLower {s letters : List Char} (h : s.map Char.toLower = letters)
    (hl : letters.all Char.isLower = true) : '\u017F' ∉ s := by
  intro hs
  have hm : Char.toLower '\u017F' ∈ letters := h ▸ List.mem_map_of_mem hs
  exact absurd (List.all_eq_true.mp hl _ hm) (by decide)

theorem word_expected?_eq_none_iff {text : List Char} (h : (word text).WellFormed) :
    (word text).expected? = none ↔ '\u017F' ∈ text ∧ text ∈ Pattern.word falseWord := by
  have hnone : (word text).expected? = none ↔
      text.map Char.toLower ≠ trueWord ∧ text.map Char.toLower ≠ falseWord := by
    rw [expected?]
    split
    · next ht => exact iff_of_false (Option.some_ne_none _) fun hn => hn.1 ht
    · next ht =>
      split
      · next hf => exact iff_of_false (Option.some_ne_none _) fun hn => hn.2 hf
      · next hf => exact iff_of_true rfl ⟨ht, hf⟩
  rw [hnone, Pattern.mem_word]
  constructor
  · rintro ⟨ht, hf⟩
    rcases h with h | h
    · refine absurd (Text.map_toLower_of_map_fold h (fun hs => ?_) (by decide)) ht
      have hm : Text.fold '\u017F' ∈ trueWord := h ▸ List.mem_map_of_mem hs
      exact absurd hm (by decide)
    · refine ⟨?_, h⟩
      by_contra hs
      exact hf (Text.map_toLower_of_map_fold h hs (by decide))
  · rintro ⟨hs, -⟩
    exact ⟨fun ht => long_s_not_mem_of_map_toLower ht (by decide) hs,
      fun hf => long_s_not_mem_of_map_toLower hf (by decide) hs⟩

/-- The literals of the grammar without a value are the two kinds of valueless ones. -/
theorem not_denotes_iff {text : List Char} (h : text ∈ Pattern.literal) :
    (∀ e, ¬ Denotes text e) ↔ Valueless text := by
  obtain ⟨l, hl, rfl⟩ := mem_literal_iff.mp h
  have hnone : (∀ e, ¬ Denotes l.chars e) ↔ l.expected? = none := by
    rw [Option.eq_none_iff_forall_ne_some]
    exact forall_congr' fun e => not_congr (Denotes.iff_expected? hl)
  rw [hnone, Valueless]
  cases l with
  | digits text =>
    have hd : text ∈ Pattern.digits := Pattern.mem_digits.mpr hl
    have hs : '\u017F' ∉ text := fun hs =>
      absurd (List.all_eq_true.mp hl.2 _ hs) (by decide)
    rw [← Option.not_isSome_iff_eq_none, expected?, Option.isSome_map, Number.ofInt?_isSome_iff,
      Nat.not_lt]
    simp [chars, hs, hd]
  | word text =>
    have hd : text ∉ Pattern.digits := by
      intro hd
      obtain ⟨c, t, rfl, hc⟩ := isLetter_head_of_word hl
      have hc' := List.all_eq_true.mp (Pattern.mem_digits.mp hd).2 c List.mem_cons_self
      exact Bool.false_ne_true ((Text.isLetter_of_isDigit hc').symm.trans hc)
    rw [word_expected?_eq_none_iff hl]
    simp [chars, hd]
  | quoted content =>
    refine iff_of_false (Option.some_ne_none _) ?_
    rintro (⟨-, hw⟩ | ⟨hd, -⟩)
    · exact absurd (List.cons.inj (Pattern.mem_word.mp hw)).1 (by decide)
    · have hq := List.all_eq_true.mp (Pattern.mem_digits.mp hd).2 '"' List.mem_cons_self
      exact absurd hq (by decide)

end Literal

theorem Pattern.Captures.mem_literal {g name literal : List Char}
    (h : Captures g name (some literal)) : literal ∈ Pattern.literal := by
  cases h with
  | valued hb hn ha hw hl hz => exact hl

namespace Selector

/-- Some literal in the first cutting of a text stands for no value. -/
def HasValueless (text : String) : Prop :=
  ∃ c : Cutting, c.First (Text.trim text.toList) ∧ ∃ g ∈ c.brackets, ∃ name literal,
    Pattern.Captures g name (some literal) ∧ Literal.Valueless literal

theorem hasValueless_iff {text : String} {c : Cutting} (h : c.First (Text.trim text.toList)) :
    HasValueless text ↔ c.Unreadable := by
  constructor
  · rintro ⟨d, hd, g, hg, name, literal, hc, hl⟩
    obtain rfl := hd.unique h
    exact ⟨g, hg, name, literal, hc, (Literal.not_denotes_iff hc.mem_literal).mpr hl⟩
  · rintro ⟨g, hg, name, literal, hc, hl⟩
    exact ⟨c, h, g, hg, name, literal, hc, (Literal.not_denotes_iff hc.mem_literal).mp hl⟩

theorem not_hasValueless_of_isProperty {text : String} (h : isProperty text = true) :
    ¬ HasValueless text := by
  rintro ⟨c, hc, -⟩
  rw [isProperty, Bool.and_eq_true, Bool.not_eq_true', List.isEmpty_eq_false_iff, ← hc.1] at h
  exact Bool.false_ne_true ((Cutting.mem_selector h.1).2.symm.trans h.2)

/-- A selector of the grammar can be parsed unless one of its literals stands for no value. -/
theorem exists_parse_iff {text : String} (hv : isValid text = true) :
    (∃ s, parse text = .ok s) ↔ ¬ HasValueless text := by
  cases hp : isProperty text with
  | true => exact iff_of_true ⟨root, parse_of_property hp⟩ (not_hasValueless_of_isProperty hp)
  | false =>
    obtain ⟨c, hc, hn⟩ := exists_first hv hp
    rw [hasValueless_iff hc, ← (parse_of_first hc hn).2.1]
    cases parse text with
    | error e => simp
    | ok s => simp

end Selector

namespace Rule

theorem ofPiece?_of_parse {key piece : String} {value : Value} {s : Selector}
    (h : Selector.parse piece = .ok s) : ofPiece? key value piece =
      some ⟨key, s, if Selector.isProperty piece then .object [(piece, value)] else value⟩ := by
  rw [ofPiece?, h]

/-- There is one rule for each piece that can be parsed. -/
theorem length_ofDeclarations (styles : Styles) : (ofDeclarations styles.declarations).length =
    (styles.keys.flatMap Key.pieces).countP fun piece => (Selector.parse piece).toOption.isSome := by
  have hs : styles.keys.flatMap Key.selectors = (styles.keys.flatMap Key.pieces).filterMap
      fun piece => (Selector.parse piece).toOption := by
    rw [List.filterMap_flatMap]
    rfl
  rw [← List.length_map, map_selector_ofDeclarations, hs, List.length_filterMap_eq_countP]

end Rule

namespace Component

variable {schema : Schema} {styles : Styles} {name : String} {c : Component}

theorem isValid_of_ofStyles (h : ofStyles schema styles name = .ok c) {key piece : String}
    (hk : key ∈ styles.keys) (hp : piece ∈ Key.pieces key) : Selector.isValid piece = true := by
  have hn := Schema.validate_eq_none.mp (ofStyles_eq_ok.mp h).1
  rw [Schema.diagnostics, List.append_eq_nil_iff, List.append_eq_nil_iff] at hn
  exact List.all_eq_true.mp (Schema.grammarDiagnostics_eq_nil.mp hn.1.1 key hk) piece hp

/-- What a component keeps of an accepted configuration. A piece can be parsed unless it has a
literal without a value, every piece that can be parsed has its rule in the group of its target,
the rules are as many as these pieces, and as many as all pieces exactly when no piece has such
a literal. -/
theorem rules_of_ofStyles (schema : Schema) (styles : Styles) (name : String) {c : Component}
    (h : ofStyles schema styles name = .ok c) :
    let pieces := styles.keys.flatMap Key.pieces
    let size := (c.defaults.groups.flatMap Group.rules).length
    (∀ d ∈ styles.declarations, ∀ entry ∈ d.entries, ∀ piece ∈ Key.pieces entry.1,
      ((∃ s, Selector.parse piece = .ok s) ↔ ¬ Selector.HasValueless piece) ∧
      ∀ s, Selector.parse piece = .ok s → ∃ rules, c.defaults.rules? s.target = some rules ∧
        ⟨entry.1, s, if Selector.isProperty piece then .object [(piece, entry.2)]
          else entry.2⟩ ∈ rules) ∧
    (size = pieces.countP fun piece => (Selector.parse piece).toOption.isSome) ∧
    (size = pieces.length ↔ ∀ piece ∈ pieces, ¬ Selector.HasValueless piece) := by
  intro pieces size
  have hg : c.defaults.groups = Group.partition (Rule.ofDeclarations styles.declarations) := by
    rw [(ofStyles_eq_ok.mp h).2]
    exact Grouping.groups_ofDeclarations _ _
  have hsize : size = pieces.countP fun piece => (Selector.parse piece).toOption.isSome := by
    rw [← Rule.length_ofDeclarations, ← (Group.flatMap_partition_perm _).length_eq, ← hg]
  have hparse : ∀ {key piece : String}, key ∈ styles.keys → piece ∈ Key.pieces key →
      ((∃ s, Selector.parse piece = .ok s) ↔ ¬ Selector.HasValueless piece) :=
    fun hk hp => Selector.exists_parse_iff (isValid_of_ofStyles h hk hp)
  refine ⟨fun d hd entry he piece hp => ⟨hparse ?_ hp, fun s hs => ?_⟩, hsize, ?_⟩
  · exact List.mem_flatMap.mpr ⟨d, hd, List.mem_map_of_mem he⟩
  · refine Grouping.exists_rules?_of_mem hg (r := ⟨entry.1, s, _⟩) ?_
    exact List.mem_flatMap.mpr ⟨d, hd, List.mem_flatMap.mpr ⟨entry, he,
      List.mem_filterMap.mpr ⟨piece, hp, Rule.ofPiece?_of_parse hs⟩⟩⟩
  · rw [hsize, List.countP_eq_length]
    refine forall₂_congr fun piece hm => ?_
    obtain ⟨key, hk, hp⟩ := List.mem_flatMap.mp hm
    simp only [← hparse hk hp, Option.isSome_iff_exists, Except.toOption_eq_some]

/-- Of the two pieces of an accepted key one makes no rule. -/
theorem rules_of_ofStyles_of_long_s :
    let styles : Styles := .one ⟨[("[a=fal\u017Fe], [b]::icon", .string "x")]⟩
    ∃ c, ofStyles .empty styles "Box" = .ok c ∧ Selector.HasValueless "[a=fal\u017Fe]" ∧
      ¬ Selector.HasValueless "[b]::icon" ∧
      (c.defaults.groups.flatMap Group.rules).length = 1 ∧
      (styles.keys.flatMap Key.pieces).length = 2 := by
  intro styles
  have hc := ofStyles_of_isNone
    (show (Schema.empty.validate "Box" styles).isNone = true by decide +kernel)
  have h := rules_of_ofStyles .empty styles "Box" hc
  have hp := h.1 _ List.mem_cons_self _ List.mem_cons_self
  have hnone : (Selector.parse "[a=fal\u017Fe]").toOption = none := by decide +kernel
  refine ⟨_, hc, ?_, ?_, h.2.1.trans (by decide +kernel), by decide +kernel⟩
  · by_contra hn
    obtain ⟨s, hs⟩ := (hp "[a=fal\u017Fe]" (by decide +kernel)).1.mpr hn
    exact Option.some_ne_none s ((Except.toOption_eq_some.mpr hs).symm.trans hnone)
  · exact (hp "[b]::icon" (by decide +kernel)).1.mp
      ⟨⟨[⟨"b", .truthy⟩], .named "icon"⟩, by decide +kernel⟩

/-- A key of an accepted configuration may have a piece that cannot be parsed. -/
theorem not_forall_parse_of_ofStyles :
    ¬ ∀ (schema : Schema) (styles : Styles) (name : String) (c : Component),
      ofStyles schema styles name = .ok c → ∀ key ∈ styles.keys, ∀ piece ∈ Key.pieces key,
        ∃ s, Selector.parse piece = .ok s := by
  intro h
  have hc := ofStyles_of_isNone (show (Schema.empty.validate "Box"
    (.one ⟨[("[a=fal\u017Fe]", .string "x")]⟩)).isNone = true by decide +kernel)
  obtain ⟨s, hs⟩ := h _ _ _ _ hc "[a=fal\u017Fe]" List.mem_cons_self "[a=fal\u017Fe]"
    (by decide +kernel)
  have hn : (Selector.parse "[a=fal\u017Fe]").toOption = none := by decide +kernel
  exact Option.some_ne_none s ((Except.toOption_eq_some.mpr hs).symm.trans hn)

end Component

end PropStyling
