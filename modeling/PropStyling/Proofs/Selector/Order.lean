import PropStyling.Proofs.Selector.FirstCutting

/-! # Cutting in any order

A text is cut by trying each of its closing brackets as the end of the first bracket, from
the left. Here the order is a parameter. A text without a double colon has no suffix to be
cut off, so it has at most one cutting, and at most one closing bracket leads to it: every
order finds the same selector or the same fault. With a double colon the order matters.
-/
namespace PropStyling

def closings (text : List Char) : List ℕ :=
  text.findIdxs (· == ']')

theorem mem_closings {text : List Char} {e : ℕ} : e ∈ closings text ↔ text[e]? = some ']' := by
  simp [closings, List.getElem?_eq_some_iff]

/-- The order of a search does not matter when only one candidate can succeed. -/
theorem findSome?_eq_of_unique {α β : Type} {f : α → Option β} {l m : List α}
    (hm : ∀ a, a ∈ l ↔ a ∈ m) (hu : ∀ a ∈ l, ∀ b ∈ l, f a ≠ none → f b ≠ none → a = b) :
    l.findSome? f = m.findSome? f := by
  cases hl : l.findSome? f with
  | none =>
    rw [List.findSome?_eq_none_iff] at hl
    exact (List.findSome?_eq_none_iff.mpr fun a ha => hl a ((hm a).mpr ha)).symm
  | some r =>
    obtain ⟨a, ha, har⟩ := List.exists_of_findSome?_eq_some hl
    cases hr : m.findSome? f with
    | none => exact absurd (List.findSome?_eq_none_iff.mp hr a ((hm a).mp ha)) (by simp [har])
    | some r' =>
      obtain ⟨b, hb, hbr⟩ := List.exists_of_findSome?_eq_some hr
      have hab := hu a ha b ((hm b).mpr hb) (by simp [har]) (by simp [hbr])
      rw [← har, ← hbr, hab]

/-- A text without a double colon has no cutting with a suffix. -/
theorem Cutting.suffix_eq_none {c : Cutting} (h : ¬ [':', ':'] <:+: c.text) : c.suffix = none := by
  cases hs : c.suffix with
  | none => rfl
  | some t =>
    obtain ⟨name, -, -, rfl⟩ := Pattern.mem_suffix.mp (c.mem_suffix t hs)
    exact absurd ⟨c.brackets.flatten, name, by rw [text_eq, hs]; simp⟩ h

namespace Selector

/-- Ends the first bracket of a text at a position, where `after` is the outcome for the text
after it. Nothing is found when the bracket is none or the text after it cannot be cut. -/
def endAt? (e : ℕ) (text : List Char) (after : Except InvalidSelector (Option Selector)) :
    Option (Except InvalidSelector (Option Selector)) :=
  match Bracket.ofChars? (text.take (e + 1)), after with
  | none, _ => none
  | some _, .error fault => some (.error fault)
  | some _, .ok none => none
  | some bracket, .ok (some s) =>
    some ((bracket.condition text).map fun first => some (s.withFirst first))

def cutBy (order : List Char → List ℕ) : List Char → Except InvalidSelector (Option Selector)
  | [] => .ok (some root)
  | c :: rest =>
    if [':', ':'] <+: c :: rest then .ok (ofSuffix? (c :: rest))
    else ((order (c :: rest)).findSome? fun e =>
      endAt? e (c :: rest) (cutBy order (rest.drop e))).getD (.ok none)
termination_by text => text.length
decreasing_by
  rw [List.length_drop, List.length_cons]
  omega

variable {order other : List Char → List ℕ} {text : List Char}

theorem mem_bracket_of_endAt? {e : ℕ} {after r : Except InvalidSelector (Option Selector)}
    (h : endAt? e text after = some r) :
    text.take (e + 1) ∈ Pattern.bracket ∧ after ≠ .ok none := by
  rw [← Bracket.ofChars?_isSome]
  unfold endAt? at h
  split at h
  · cases h
  · next hb => exact ⟨by rw [hb]; rfl, by simp⟩
  · cases h
  · next hb => exact ⟨by rw [hb]; rfl, by simp⟩

/-- Whatever is found in some order is found in a cutting. -/
theorem exists_cutting_of_cutBy (h : cutBy order text ≠ .ok none) :
    ∃ c : Cutting, c.text = text := by
  fun_induction cutBy order text with
  | case1 => exact ⟨.nil, rfl⟩
  | case2 c rest hs =>
    rcases ofSuffix?_eq (t := c :: rest) with ⟨-, hn⟩ | ⟨ht, -⟩
    · rw [hn] at h
      exact absurd rfl h
    · exact ⟨.ofSuffix _ ht, Cutting.text_ofSuffix ht⟩
  | case3 c rest hs ih =>
    cases hf : (order (c :: rest)).findSome? fun e =>
        endAt? e (c :: rest) (cutBy order (rest.drop e)) with
    | none =>
      rw [hf] at h
      exact absurd rfl h
    | some r =>
      obtain ⟨e, -, he⟩ := List.exists_of_findSome?_eq_some hf
      obtain ⟨hg, hafter⟩ := mem_bracket_of_endAt? he
      obtain ⟨d, hd⟩ := ih e hafter
      exact ⟨.cons _ hg d, by rw [Cutting.text_cons, hd, List.take_succ_cons]; simp⟩

def TriesClosings (order : List Char → List ℕ) : Prop :=
  ∀ text e, e ∈ order text ↔ e ∈ closings text

/-- Without a double colon, at most one closing bracket ends the first bracket of a cutting. -/
theorem end_unique {c : Char} {rest : List Char} {e f : ℕ} (hd : ¬ [':', ':'] <:+: c :: rest)
    (he : e ∈ closings (c :: rest)) (hf : f ∈ closings (c :: rest))
    (hte : endAt? e (c :: rest) (cutBy order (rest.drop e)) ≠ none)
    (htf : endAt? f (c :: rest) (cutBy order (rest.drop f)) ≠ none) : e = f := by
  have hcut : ∀ {e : ℕ}, endAt? e (c :: rest) (cutBy order (rest.drop e)) ≠ none →
      ∃ hg d, (Cutting.cons ((c :: rest).take (e + 1)) hg d).text = c :: rest := by
    intro e h
    obtain ⟨r, hr⟩ := Option.ne_none_iff_exists'.mp h
    obtain ⟨hg, hafter⟩ := mem_bracket_of_endAt? hr
    obtain ⟨d, hd⟩ := exists_cutting_of_cutBy hafter
    exact ⟨hg, d, by rw [Cutting.text_cons, hd, List.take_succ_cons]; simp⟩
  have hlen : ∀ {e : ℕ}, e ∈ closings (c :: rest) → ((c :: rest).take (e + 1)).length = e + 1 := by
    intro e h
    obtain ⟨hl, -⟩ := List.getElem?_eq_some_iff.mp (mem_closings.mp h)
    rw [List.length_take]
    omega
  obtain ⟨hg, d, ht⟩ := hcut hte
  obtain ⟨hg', d', ht'⟩ := hcut htf
  have hs := Cutting.suffix_eq_none (ht ▸ hd)
  have hs' := Cutting.suffix_eq_none (ht' ▸ hd)
  have hsame := Cutting.eq_of_text (ht.trans ht'.symm) (by rw [hs, hs'])
  have hbrackets := congrArg Cutting.brackets hsame
  have hfirst := congrArg List.length (List.cons.inj hbrackets).1
  rw [hlen he, hlen hf] at hfirst
  exact Nat.succ.inj hfirst

/-- Without a double colon, two orders find the same. -/
theorem cutBy_eq_cutBy (ho : TriesClosings order) (ho' : TriesClosings other)
    (hd : ¬ [':', ':'] <:+: text) : cutBy order text = cutBy other text := by
  fun_induction cutBy order text with
  | case1 => rw [cutBy]
  | case2 c rest hs => exact absurd hs.isInfix hd
  | case3 c rest hs ih =>
    have hrest : ∀ e, cutBy order (rest.drop e) = cutBy other (rest.drop e) := by
      intro e
      have hi : rest.drop e <:+: c :: rest :=
        ((List.drop_suffix e rest).trans (List.suffix_cons c rest)).isInfix
      exact ih e fun h => hd (h.trans hi)
    have hm : ∀ e, e ∈ order (c :: rest) ↔ e ∈ other (c :: rest) := fun e =>
      (ho _ e).trans (ho' _ e).symm
    have hu := findSome?_eq_of_unique hm
      (f := fun e => endAt? e (c :: rest) (cutBy order (rest.drop e))) fun e he f hf =>
      end_unique hd ((ho _ e).mp he) ((ho _ f).mp hf)
    rw [hu, cutBy, if_neg hs]
    simp only [hrest]

/-- The ends ahead are tried from the left. -/
theorem cut_eq_findSome?
    (hcut : ∀ e, cut [] (text.drop (e + 1)) = cutBy closings (text.drop (e + 1)))
    {seen ahead : List Char} (ht : text = seen.reverse ++ ahead)
    (hs : seen ≠ [] ∨ ahead.head? = some '[') :
    cut seen ahead = ((ahead.findIdxs (· == ']') seen.length).findSome? fun e =>
      endAt? e text (cutBy closings (text.drop (e + 1)))).getD (.ok none) := by
  induction ahead generalizing seen with
  | nil =>
    have hne : seen ≠ [] := hs.resolve_right (by simp)
    rw [cut, List.isEmpty_eq_false_iff.mpr hne]
    rfl
  | cons c rest ih =>
    have hgo : (seen.isEmpty && c != '[') = false := by simpa [or_iff_not_imp_left] using hs
    have hnext := @ih (c :: seen) (by simpa using ht) (.inl (List.cons_ne_nil c seen))
    rw [List.length_cons] at hnext
    rw [cut, hgo, if_neg Bool.false_ne_true, List.findIdxs_cons]
    by_cases hc : c = ']'
    · have htake : text.take (seen.length + 1) = seen.reverse ++ [c] := by
        rw [ht, ← List.length_reverse, List.take_length_add_append]
        rfl
      have hdrop : text.drop (seen.length + 1) = rest := by
        rw [ht, ← List.length_reverse, List.drop_length_add_append]
        rfl
      rw [if_pos hc, if_pos (beq_iff_eq.mpr hc), List.findSome?_cons, ← hcut, hdrop]
      cases hb : Bracket.ofChars? (seen.reverse ++ [c]) with
      | none =>
        have he : endAt? seen.length text (cut [] rest) = none := by simp only [endAt?, htake, hb]
        rw [he]
        exact hnext
      | some b =>
        cases hr : cut [] rest with
        | error fault => simp only [endAt?, htake, hb, Option.getD_some]
        | ok o =>
          cases o with
          | none =>
            have he : endAt? seen.length text (.ok none) = none := by simp only [endAt?, htake, hb]
            rw [he]
            exact hnext
          | some s => simp only [endAt?, htake, hb, ← ht, Option.getD_some]
    · rw [if_neg hc, if_neg (by simpa using hc)]
      exact hnext

theorem endAt?_of_ne {c : Char} {rest : List Char} {e : ℕ} (hc : c ≠ '[')
    (after : Except InvalidSelector (Option Selector)) : endAt? e (c :: rest) after = none := by
  cases h : endAt? e (c :: rest) after with
  | none => rfl
  | some r =>
    obtain ⟨middle, hm⟩ := Pattern.exists_of_mem_bracket (mem_bracket_of_endAt? h).1
    exact absurd (List.cons.inj hm).1 hc

theorem ofSuffix?_of_not_colons (h : ¬ [':', ':'] <+: text) : ofSuffix? text = none := by
  rcases ofSuffix?_eq (t := text) with ⟨-, hn⟩ | ⟨ht, -⟩
  · exact hn
  · obtain ⟨name, -, -, rfl⟩ := Pattern.mem_suffix.mp ht
    exact absurd ⟨name, rfl⟩ h

/-- The ends of a bracket are tried from the left. -/
theorem cut_eq_cutBy (text : List Char) : cut [] text = cutBy closings text := by
  fun_induction cutBy closings text with
  | case1 => rfl
  | case2 c rest hs =>
    have hc : c ≠ '[' := by
      rintro rfl
      exact absurd (List.cons_prefix_cons.mp hs).1 (by decide)
    rw [cut, if_pos (by simpa using hc)]
  | case3 c rest hs ih =>
    by_cases hc : c = '['
    · subst hc
      exact @cut_eq_findSome? ('[' :: rest) ih [] _ rfl (.inr rfl)
    · have hnone : ∀ e, endAt? e (c :: rest) (cutBy closings (rest.drop e)) = none := fun e =>
        endAt?_of_ne hc _
      rw [cut, if_pos (by simpa using hc), ofSuffix?_of_not_colons hs]
      simp only [hnone]
      rw [List.findSome?_eq_none_iff.mpr fun _ _ => rfl]
      rfl

/-- Brackets are cut without ambiguity. A text has at most one cutting into brackets alone and at
most one with a suffix, and as a bracket it captures one name and one literal. Without a double
colon, every order of trying the closing brackets has the outcome of the search from the left. -/
theorem cut_unambiguous (text : List Char) :
    (∀ c d : Cutting, c.text = text → d.text = text → c.suffix.isSome = d.suffix.isSome → c = d) ∧
    (∀ name name' literal literal', Pattern.Captures text name literal →
      Pattern.Captures text name' literal' → name = name' ∧ literal = literal') ∧
    cut [] text = cutBy closings text ∧
    (¬ [':', ':'] <:+: text → ∀ order, TriesClosings order → cutBy order text = cut [] text) := by
  refine ⟨fun c d hc hd hs => ?_, fun _ _ _ _ h h' => h.unique h', cut_eq_cutBy text, ?_⟩
  · exact Cutting.eq_of_text (hc.trans hd.symm) hs
  · intro hd order ho
    rw [cut_eq_cutBy, cutBy_eq_cutBy ho (fun _ _ => Iff.rfl) hd]

/-- From the right, a literal with brackets and quotes in it is found as from the left. -/
theorem cut_unambiguous_of_reversed :
    let text := "[a=\"x\\\"][b=\\\"y\"]".toList
    let order := fun t => (closings t).reverse
    TriesClosings order ∧ ¬ [':', ':'] <:+: text ∧ cutBy order text = cut [] text ∧
      (cut [] text).toOption = some (some ⟨[⟨"a", .string "x\"][b=\"y"⟩], .root⟩) := by
  intro text order
  have ho : TriesClosings order := fun _ _ => List.mem_reverse
  have hd : ¬ [':', ':'] <:+: text := by decide +kernel
  exact ⟨ho, hd, (cut_unambiguous text).2.2.2 hd order ho, by decide +kernel⟩

/-- With a double colon, the last closing bracket may end the first bracket of another cutting. -/
theorem exists_cutBy_ne : ∃ text order, TriesClosings order ∧ cutBy order text ≠ cut [] text := by
  refine ⟨"[a=\"x\\\"]::n\"]".toList, fun t => (closings t).reverse,
    fun _ _ => List.mem_reverse, ?_⟩
  intro h
  have ho := congrArg Except.toOption h
  revert ho
  decide +kernel

end Selector

end PropStyling
