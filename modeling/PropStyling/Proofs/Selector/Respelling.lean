import PropStyling.Proofs.Selector.FirstCutting

/-! # Respelled brackets

Two spellings of a bracket are both plain, or hold the same quoted content, after which
the first one ends at once and the second one may have blanks. Wherever the first
spelling can be cut inside, so can the second. So if the brackets of a text before a
suffix are cut first, this is also true once they are respelled without the blanks.
-/
namespace PropStyling.Pattern
open scoped Computability

theorem mem_star_iff {l : Language Char} {t : List Char} : t ∈ l∗ ↔ t = [] ∨ t ∈ l * l∗ := by
  conv_lhs => rw [← Language.one_add_self_mul_kstar_eq_kstar]
  rw [Language.mem_add, Language.mem_one]

theorem ne_of_isInner {c : Char} (h : Text.isInner c = true) : c ≠ '"' ∧ c ≠ '\\' :=
  ⟨Text.ne_of_class h (by decide), Text.ne_of_class h (by decide)⟩

theorem cons_mem_within_of_ne {l : Language Char} {c : Char} {t : List Char}
    (hc : c ≠ '"' ∧ c ≠ '\\') : c :: t ∈ within l ↔ t ∈ within l := by
  rw [cons_mem_within]
  simp [hc.1, hc.2]

/-- Inner characters leave a quoted content as it was. -/
theorem append_mem_within {l : Language Char} {s t : List Char} (hs : s.all Text.isInner = true) :
    s ++ t ∈ within l ↔ t ∈ within l := by
  induction s with
  | nil => rfl
  | cons c s ih =>
    rw [List.all_cons, Bool.and_eq_true] at hs
    rw [List.cons_append, cons_mem_within_of_ne (ne_of_isInner hs.1), ih hs.2]

theorem plain_mem_within {l : Language Char} {inner t : List Char}
    (hi : inner.all Text.isInner = true) :
    '[' :: (inner ++ [']']) ++ t ∈ within l ↔ t ∈ within l := by
  rw [List.cons_append, List.append_assoc, cons_mem_within_of_ne (by decide), append_mem_within hi,
    List.singleton_append, cons_mem_within_of_ne (by decide)]

/-- After an opening the content of a bracket follows. -/
theorem opening_mem_iff {l : Language Char} {opening t : List Char} (ho : Opening opening) :
    '[' :: (opening ++ '"' :: t) ∈ bracket * l ↔
      t ∈ plus quotedUnit * (char '"' * closing l) := by
  constructor
  · rintro ⟨g, hg, rest, hr, he⟩
    cases shape_of_mem hg with
    | @plain inner hi =>
      have he : inner ++ ']' :: rest = opening ++ '"' :: t := by simpa using he
      exact absurd (append_cons_inj hi ho.all_isInner (by decide) (by decide) he).2.1 (by decide)
    | @quoted opening' content last ho' hc hq hl =>
      have he : opening' ++ '"' :: (content ++ '"' :: (last ++ ']' :: rest)) =
          opening ++ '"' :: t := by simpa using he
      obtain ⟨-, -, rfl⟩ :=
        append_cons_inj ho'.all_isInner ho.all_isInner (by decide) (by decide) he
      refine ⟨content, mem_plus_quotedUnit.mpr ⟨hc, hq⟩, _, cons_mem_char_mul.mpr ⟨rfl, ?_⟩, rfl⟩
      exact ⟨last, hl, _, cons_mem_char_mul.mpr ⟨rfl, hr⟩, rfl⟩
  · rintro ⟨content, hc, _, ⟨_, ⟨d, hd, rfl⟩, _, ⟨last, hl, _, ⟨_, ⟨e, he, rfl⟩, rest, hr, rfl⟩,
      rfl⟩, rfl⟩, rfl⟩
    obtain ⟨hn, hq⟩ := mem_plus_quotedUnit.mp hc
    refine ⟨_, quoted_mem_bracket ho hn hq hl, rest, hr, ?_⟩
    rw [eq_of_beq hd, eq_of_beq he]
    simp

theorem content_iff_within {l : Language Char} {t : List Char} (h : t.head? ≠ some '"') :
    t ∈ plus quotedUnit * (char '"' * closing l) ↔ t ∈ within l := by
  cases t with
  | nil => rw [nil_mem_content, ← unquoting_false, nil_mem_unquoting]
  | cons c t =>
    have hc : c ≠ '"' := fun he => h (congrArg some he)
    rw [cons_mem_content, ← unquoting_false, cons_mem_unquoting, and_iff_right hc]
    simp [hc]

/-- A plain bracket at the start of a run of brackets is one of them. -/
theorem plain_mem_star {inner t : List Char} (hi : inner.all Text.isInner = true)
    (h : '[' :: (inner ++ ']' :: t) ∈ bracket∗) : t ∈ bracket∗ := by
  obtain ⟨g, hg, rest, hr, he⟩ := (mem_star_iff.mp h).resolve_left (List.cons_ne_nil _ _)
  cases shape_of_mem hg with
  | @plain inner' hi' =>
    have he : inner' ++ ']' :: rest = inner ++ ']' :: t := by simpa using he
    obtain ⟨-, -, rfl⟩ := append_cons_inj hi' hi (by decide) (by decide) he
    exact hr
  | @quoted opening content last ho hc hq hl =>
    have he : opening ++ '"' :: (content ++ '"' :: (last ++ ']' :: rest)) =
        inner ++ ']' :: t := by simpa using he
    exact absurd (append_cons_inj ho.all_isInner hi (by decide) (by decide) he).2.1 (by decide)

/-- A run of brackets with a quote in it starts with a whole bracket before the quote, or the
quote is the first of a bracket, or it stands in the content of one. -/
theorem star_of_quote {first rest : List Char} (h : first ++ '"' :: rest ∈ bracket∗) :
    (∃ g first', g ∈ bracket ∧ first = g ++ first' ∧ first' ++ '"' :: rest ∈ bracket∗) ∨
      ∃ opening, Opening opening ∧
        (first = '[' :: opening ∨ ∃ content, first = '[' :: (opening ++ '"' :: content)) := by
  obtain ⟨g, hg, tail, ht, he⟩ := (mem_star_iff.mp h).resolve_left (by simp)
  rcases append_cons_cases he with ⟨a, ha, hr⟩ | ⟨a, ha, -⟩
  · exact .inl ⟨g, a, hg, ha, hr ▸ ht⟩
  · right
    cases shape_of_mem hg with
    | @plain inner hi =>
      have hm : '"' ∈ '[' :: (inner ++ [']']) := ha ▸ List.mem_append_right first List.mem_cons_self
      have ht := (List.mem_cons.mp hm).resolve_left (by decide)
      exact absurd ht (not_mem_of_all (all_isTail hi) (by decide))
    | @quoted opening content last ho hc hq hl =>
      have hopen : ('[' :: opening).all (· != '"') = true := by
        rw [List.all_cons, Text.all_ne_of_class ho.all_isInner (by decide)]
        rfl
      obtain ⟨middle, rfl, hm⟩ := exists_append_of_all hopen (by decide) ha
      refine ⟨opening, ho, ?_⟩
      cases middle with
      | nil => exact .inl (List.append_nil _)
      | cons d middle =>
        obtain ⟨rfl, -⟩ := List.cons.inj hm
        exact .inr ⟨middle, rfl⟩

/-- Cuts of the first text, at its start or inside a content, are also cuts of the second. -/
structure Transfers (p q : List Char) : Prop where
  star : p ∈ bracket∗ → q ∈ bracket∗
  within : p ∈ within bracket∗ → q ∈ within bracket∗

theorem Transfers.refl (t : List Char) : Transfers t t := ⟨id, id⟩

section

variable {p q last : List Char}

theorem Transfers.closing (h : Transfers p q) (hl : last ∈ blanks)
    (hp : ']' :: p ∈ closing bracket∗) : last ++ ']' :: q ∈ Pattern.closing bracket∗ := by
  rcases cons_mem_closing.mp hp with ⟨hb, -⟩ | ⟨-, hp⟩
  · exact absurd hb (by decide)
  · exact ⟨last, hl, _, cons_mem_char_mul.mpr ⟨rfl, h.star hp⟩, rfl⟩

theorem Transfers.within_blanks (h : Transfers p q) (hl : last ∈ blanks)
    (hp : ']' :: p ∈ Pattern.within bracket∗) : last ++ ']' :: q ∈ Pattern.within bracket∗ := by
  rw [cons_mem_within_of_ne (by decide)] at hp
  rw [append_mem_within (all_isInner_blanks hl), cons_mem_within_of_ne (by decide)]
  exact h.within hp

theorem head?_blanks_append (hl : last ∈ blanks) : (last ++ ']' :: q).head? ≠ some '"' := by
  cases last with
  | nil => simp
  | cons c last =>
    have hc := all_isInner_blanks hl
    rw [List.all_cons, Bool.and_eq_true] at hc
    exact fun he => (ne_of_isInner hc.1).1 (Option.some.inj he)

/-- The closing quote of a respelled bracket may be read as its last quote, as an escaped quote or
as an opening one, and the blanks after it are read along. -/
theorem Transfers.append_quote (h : Transfers p q) (hl : last ∈ blanks) (r : List Char) :
    (r ++ '"' :: ']' :: p ∈ bracket∗ → r ++ '"' :: (last ++ ']' :: q) ∈ bracket∗) ∧
    (r ++ '"' :: ']' :: p ∈ Pattern.closing bracket∗ →
      r ++ '"' :: (last ++ ']' :: q) ∈ Pattern.closing bracket∗) ∧
    ∀ backslash, r ++ '"' :: ']' :: p ∈ unquoting backslash bracket∗ →
      r ++ '"' :: (last ++ ']' :: q) ∈ unquoting backslash bracket∗ := by
  induction hn : r.length using Nat.strong_induction_on generalizing r with
  | _ n ih =>
    have ih : ∀ r' : List Char, r'.length < r.length → _ := fun r' hr => ih _ (hn ▸ hr) r' rfl
    refine ⟨fun hs => ?_, fun hs => ?_, fun backslash hs => ?_⟩
    · rcases star_of_quote hs with ⟨g, r', hg, rfl, hs'⟩ | ⟨opening, ho, rfl | ⟨content, rfl⟩⟩
      · obtain ⟨middle, rfl⟩ := exists_of_mem_bracket hg
        have hr := (ih r' (by simp; omega)).1 hs'
        exact mem_star_iff.mpr (.inr ⟨_, hg, _, hr, by simp⟩)
      · have hc := (mem_star_iff.mp hs).resolve_left (List.cons_ne_nil _ _)
        rw [List.cons_append, opening_mem_iff ho, content_iff_within (by simp)] at hc
        refine mem_star_iff.mpr (.inr ?_)
        rw [List.cons_append, opening_mem_iff ho, content_iff_within (head?_blanks_append hl)]
        exact h.within_blanks hl hc
      · have he : ∀ t : List Char, '[' :: (opening ++ '"' :: content) ++ t =
            '[' :: (opening ++ '"' :: (content ++ t)) := by simp
        have hc := (mem_star_iff.mp hs).resolve_left (List.cons_ne_nil _ _)
        rw [he, opening_mem_iff ho] at hc
        refine mem_star_iff.mpr (.inr ?_)
        rw [he, opening_mem_iff ho]
        cases content with
        | nil => exact absurd rfl (cons_mem_content.mp hc).1
        | cons c content =>
          obtain ⟨hq, hw⟩ := cons_mem_content.mp hc
          exact cons_mem_content.mpr ⟨hq, (ih content (by simp; omega)).2.2 _ hw⟩
    · cases r with
      | nil =>
        rcases cons_mem_closing.mp hs with ⟨hb, -⟩ | ⟨hc, -⟩
        · exact absurd hb (by decide)
        · exact absurd hc (by decide)
      | cons c r =>
        have hr := ih r (Nat.lt_succ_self _)
        rcases cons_mem_closing.mp hs with ⟨hb, hs⟩ | ⟨hc, hs⟩
        · exact cons_mem_closing.mpr (.inl ⟨hb, hr.2.1 hs⟩)
        · exact cons_mem_closing.mpr (.inr ⟨hc, hr.1 hs⟩)
    · cases r with
      | nil =>
        rcases cons_mem_unquoting.mp hs with ⟨-, hc | ⟨hb, hw⟩⟩ | ⟨hq, -⟩
        · exact cons_mem_unquoting.mpr (.inl ⟨rfl, .inl (h.closing hl hc)⟩)
        · rw [unquoting_false] at hw
          refine cons_mem_unquoting.mpr (.inl ⟨rfl, .inr ⟨hb, ?_⟩⟩)
          rw [unquoting_false]
          exact h.within_blanks hl hw
        · exact absurd rfl hq
      | cons c r =>
        have hr := ih r (Nat.lt_succ_self _)
        rcases cons_mem_unquoting.mp hs with ⟨hq, hc | ⟨hb, hw⟩⟩ | ⟨hq, hw⟩
        · exact cons_mem_unquoting.mpr (.inl ⟨hq, .inl (hr.2.1 hc)⟩)
        · exact cons_mem_unquoting.mpr (.inl ⟨hq, .inr ⟨hb, hr.2.2 _ hw⟩⟩)
        · exact cons_mem_unquoting.mpr (.inr ⟨hq, hr.2.2 _ hw⟩)

end

/-- A bracket spelled without blanks at the end of its content, and another spelling of it. -/
inductive Respelled : List Char → List Char → Prop
  | plain {inner inner' : List Char} (hi : inner.all Text.isInner = true)
      (hi' : inner'.all Text.isInner = true) (hb : '[' :: (inner' ++ [']']) ∈ bracket) :
      Respelled ('[' :: (inner ++ [']'])) ('[' :: (inner' ++ [']']))
  | quoted {opening opening' content last : List Char} (ho : Opening opening)
      (ho' : Opening opening') (hc : content ≠ []) (hq : Text.quotesEscaped content = true)
      (hl : last ∈ blanks) :
      Respelled ('[' :: (opening ++ '"' :: (content ++ '"' :: [']'])))
        ('[' :: (opening' ++ '"' :: (content ++ '"' :: (last ++ [']']))))

/-- A respelled bracket in front keeps what can be cut. -/
theorem Transfers.append {g g' p q : List Char} (hg : Respelled g g') (h : Transfers p q) :
    Transfers (g ++ p) (g' ++ q) := by
  cases hg with
  | @plain inner inner' hi hi' hb =>
    constructor
    · intro hp
      have hp : '[' :: (inner ++ ']' :: p) ∈ bracket∗ := by simpa using hp
      exact mem_star_iff.mpr (.inr ⟨_, hb, _, h.star (plain_mem_star hi hp), rfl⟩)
    · intro hp
      rw [plain_mem_within hi] at hp
      rw [plain_mem_within hi']
      exact h.within hp
  | @quoted opening opening' content last ho ho' hc hq hl =>
    have hr := h.append_quote hl
    have hleft : '[' :: (opening ++ '"' :: (content ++ '"' :: [']'])) ++ p =
        '[' :: (opening ++ '"' :: (content ++ '"' :: ']' :: p)) := by simp
    have hright : '[' :: (opening' ++ '"' :: (content ++ '"' :: (last ++ [']']))) ++ q =
        '[' :: (opening' ++ '"' :: (content ++ '"' :: (last ++ ']' :: q))) := by simp
    rw [hleft, hright]
    constructor
    · intro hp
      have hs := (hr ('[' :: (opening ++ '"' :: content))).1 (by simpa using hp)
      have hs : '[' :: (opening ++ '"' :: (content ++ '"' :: (last ++ ']' :: q))) ∈ bracket∗ := by
        simpa using hs
      have hm := (mem_star_iff.mp hs).resolve_left (List.cons_ne_nil _ _)
      rw [opening_mem_iff ho, ← opening_mem_iff ho'] at hm
      exact mem_star_iff.mpr (.inr hm)
    · intro hp
      rw [cons_mem_within_of_ne (by decide), append_mem_within ho.all_isInner, cons_mem_within]
        at hp
      rw [cons_mem_within_of_ne (by decide), append_mem_within ho'.all_isInner, cons_mem_within]
      have hcl := (hp.resolve_left (by simp)).2
      exact .inr ⟨rfl, (hr content).2.1 hcl⟩

theorem transfers_of_respelled {gs gs' : List (List Char)} (h : List.Forall₂ Respelled gs gs')
    (t : List Char) : Transfers (gs.flatten ++ t) (gs'.flatten ++ t) := by
  induction h with
  | nil => exact .refl t
  | cons hg _ ih =>
    rw [List.flatten_cons, List.flatten_cons, List.append_assoc, List.append_assoc]
    exact ih.append hg

theorem Respelled.mem_bracket {g g' : List Char} (h : Respelled g g') : g' ∈ bracket := by
  cases h with
  | plain hi hi' hb => exact hb
  | quoted ho ho' hc hq hl => exact quoted_mem_bracket ho' hc hq hl

/-- Where the first spelling of a bracket can be ended earlier, so can the second. -/
theorem Respelled.exists_start {g g' start rest p q : List Char} (h : Respelled g g')
    (hg : g ∈ bracket) (hs : start ∈ bracket) (he : g = start ++ rest) (hne : rest ≠ [])
    (ht : Transfers p q) (hr : rest ++ p ∈ bracket∗) :
    ∃ start' rest', start' ∈ bracket ∧ rest' ≠ [] ∧ g' = start' ++ rest' ∧
      rest' ++ q ∈ bracket∗ := by
  obtain ⟨opening, content, last, content', last', ho, hl, hl', hc, hq, rfl, rfl, -⟩ :=
    bracket_of_start hs hg he hne
  cases h with
  | @plain inner inner' hi hi' hb =>
    have he : inner ++ ']' :: [] = opening ++ '"' :: (content ++ '"' :: (last ++ ']' ::
        (content' ++ '"' :: (last' ++ [']'])))) := by simpa using he
    exact absurd (append_cons_inj hi ho.all_isInner (by decide) (by decide) he).2.1 (by decide)
  | @quoted opening₁ opening₂ full last₂ ho₁ ho₂ hc₁ hq₁ hl₂ =>
    have he : opening₁ ++ '"' :: (full ++ '"' :: [']']) = opening ++ '"' :: (content ++ '"' ::
        (last ++ ']' :: content') ++ '"' :: (last' ++ [']'])) := by simpa using he
    obtain ⟨-, -, htail⟩ :=
      append_cons_inj ho₁.all_isInner ho.all_isInner (by decide) (by decide) he
    obtain ⟨rfl, -, hend⟩ := append_cons_inj_right (by decide)
      (all_isTail (all_isInner_blanks hl')) (by decide) (by decide) htail
    have hnil : last' = [] := by simpa using hend
    subst hnil
    have hq' := (ht.append_quote hl₂ content').1 (by simpa using hr)
    refine ⟨'[' :: (opening₂ ++ '"' :: (content ++ '"' :: (last ++ [']']))),
      content' ++ '"' :: (last₂ ++ [']']), quoted_mem_bracket ho₂ hc hq hl, by simp, by simp, ?_⟩
    simpa using hq'

end PropStyling.Pattern

namespace PropStyling.Cutting
open Pattern
open scoped Computability

variable {gs gs' : List (List Char)} {t : List Char}

theorem text_mem_star {c : Cutting} (h : c.suffix = none) : c.text ∈ bracket∗ := by
  rw [text_eq, h, Option.getD_none, List.append_nil]
  exact Language.mem_kstar.mpr ⟨c.brackets, rfl, c.mem_bracket⟩

theorem exists_of_mem_star (h : t ∈ bracket∗) : ∃ c : Cutting, c.text = t := by
  obtain ⟨gs, rfl, hg⟩ := Language.mem_kstar.mp h
  exact ⟨⟨gs, none, hg, by simp⟩, by simp [text_eq]⟩

/-- A cutting without a suffix comes after the brackets before one, or gives a cutting that comes
before their other spellings. -/
theorem before_or_exists_before (hr : List.Forall₂ Respelled gs gs')
    (hg : ∀ g ∈ gs, g ∈ bracket) (ht : t ∈ Pattern.suffix) (e : Cutting)
    (he : e.text = gs.flatten ++ t) (hn : e.suffix = none) :
    List.Lex (· < ·) ((gs ++ [t]).map List.length) e.lengths ∨
      ∃ e' : Cutting, e'.text = gs'.flatten ++ t ∧
        List.Lex (· < ·) e'.lengths ((gs' ++ [t]).map List.length) := by
  induction hr generalizing e with
  | nil =>
    obtain ⟨name, -, -, rfl⟩ := Pattern.mem_suffix.mp ht
    obtain ⟨_, rfl⟩ := eq_suffix_of_text he (by decide)
    cases hn
  | @cons g g' gs gs' hgg hr ih =>
    rw [List.forall_mem_cons] at hg
    obtain ⟨middle, hm⟩ := exists_of_mem_bracket hg.1
    obtain ⟨b, hb, e, rfl⟩ := eq_cons_of_text (he.trans (by rw [hm]; rfl))
    have happ : b ++ e.text = g ++ (gs.flatten ++ t) := by simpa using he
    rcases append_cases happ with ⟨rfl, het⟩ | ⟨a, hne, ha, hea⟩ | ⟨a, hne, ha, -⟩
    · rcases ih hg.2 e het hn with hlex | ⟨e', he', hlex⟩
      · exact .inl (.cons hlex)
      · refine .inr ⟨cons g' hgg.mem_bracket e', by simp [he'], .cons hlex⟩
    · have hstar : a ++ (gs.flatten ++ t) ∈ bracket∗ := hea ▸ text_mem_star hn
      obtain ⟨b', a', hb', hne', hg', hstar'⟩ := hgg.exists_start hg.1 hb ha hne
        (transfers_of_respelled hr t) hstar
      obtain ⟨e', he'⟩ := exists_of_mem_star hstar'
      refine .inr ⟨cons b' hb' e', by simp [he', hg'], .rel ?_⟩
      rw [hg', List.length_append]
      exact Nat.lt_add_of_pos_right (List.length_pos_iff.mpr hne')
    · refine .inl (.rel ?_)
      rw [ha, List.length_append]
      exact Nat.lt_add_of_pos_right (List.length_pos_iff.mpr hne)

/-- Brackets before a suffix that are cut first stay so when they are respelled. -/
theorem First.respelled {c d : Cutting} (h : c.First c.text) (hc : c.suffix = some t)
    (hd : d.suffix = some t) (hr : List.Forall₂ Respelled d.brackets c.brackets) :
    d.First d.text := by
  have ht : t ∈ Pattern.suffix := c.mem_suffix t hc
  have hlengths : ∀ {c : Cutting}, c.suffix = some t →
      (c.brackets ++ [t]).map List.length = c.lengths := by
    intro c hc
    rw [lengths, segments, hc]
    rfl
  have htext : ∀ {c : Cutting}, c.suffix = some t → c.text = c.brackets.flatten ++ t := by
    intro c hc
    rw [text_eq, hc]
    rfl
  refine ⟨rfl, fun e he => ?_⟩
  cases hs : e.suffix with
  | some u => exact .inl (eq_of_text he (by rw [hs, hd]; rfl))
  | none =>
    rcases before_or_exists_before hr d.mem_bracket ht e (he.trans (htext hd)) hs with
      hlex | ⟨e', he', hlex⟩
    · rw [hlengths hd] at hlex
      exact .inr hlex
    · rw [hlengths hc] at hlex
      rcases h.2 e' (he'.trans (htext hc).symm) with rfl | hb
      · exact absurd hlex (List.lt_irrefl _)
      · exact absurd hlex (List.lt_asymm hb)

end PropStyling.Cutting
