import PropStyling.Proofs.Key.Pieces

/-! # Separating commas

A key is cut in one pass that counts the double quotes still ahead. Without a pass, a comma
separates when an even number of double quotes follows it, and the segments are what lies
before, between and after the separating commas. The counter holds the number of quotes of
the rest, so there is one left whenever a quote is read. Two keys with a comma between them
are cut as each of them is when the second has an even number of quotes: neither its quotes
nor the comma then change what separates in the first.
-/
namespace PropStyling.Key

/-- The positions of the commas that have an even number of double quotes after them. -/
def separators (text : List Char) : List Nat :=
  (List.range text.length).filter fun i =>
    text[i]? = some ',' ∧ (text.drop (i + 1)).count '"' % 2 = 0

def cutAt (positions : List Nat) (text : List Char) : List (List Char) :=
  List.zipWith (fun start stop => (text.take stop).drop start)
    (0 :: positions.map (· + 1)) (positions ++ [text.length])

theorem separators_cons (c : Char) (rest : List Char) :
    separators (c :: rest) = (if c = ',' ∧ rest.count '"' % 2 = 0 then [0] else []) ++
      (separators rest).map (· + 1) := by
  rw [separators, List.length_cons, List.range_succ_eq_map, List.filter_cons, List.filter_map]
  by_cases h : c = ',' ∧ rest.count '"' % 2 = 0
  · simp [h, separators, Function.comp_def]
  · simp [h, separators, Function.comp_def]

/-- One character more in front moves the positions on. -/
theorem slices_cons (c : Char) (starts stops : List Nat) (rest : List Char) :
    List.zipWith (fun start stop => ((c :: rest).take stop).drop start)
        (starts.map (· + 1)) (stops.map (· + 1)) =
      List.zipWith (fun start stop => (rest.take stop).drop start) starts stops := by
  rw [List.zipWith_map]
  rfl

theorem stops_cons (c : Char) (positions : List Nat) (rest : List Char) :
    positions.map (· + 1) ++ [(c :: rest).length] = (positions ++ [rest.length]).map (· + 1) := by
  simp

theorem cutAt_cons_zero (c : Char) (positions : List Nat) (rest : List Char) :
    cutAt (0 :: positions.map (· + 1)) (c :: rest) = [] :: cutAt positions rest := by
  rw [cutAt, List.cons_append, stops_cons, List.zipWith_cons_cons, slices_cons]
  rfl

theorem cutAt_cons_succ (c : Char) (positions : List Nat) (rest : List Char) :
    cutAt (positions.map (· + 1)) (c :: rest) = (cutAt positions rest).modifyHead (c :: ·) := by
  obtain ⟨stop, stops, hs⟩ := List.exists_cons_of_ne_nil
    (List.append_ne_nil_of_right_ne_nil positions (List.cons_ne_nil rest.length []))
  rw [cutAt, cutAt, stops_cons, hs, List.map_cons, List.zipWith_cons_cons, slices_cons,
    List.zipWith_cons_cons, List.modifyHead_cons]
  rfl

/-- What was passed before stands in front of the first segment. -/
theorem split_eq_modifyHead (quotes : Nat) (seen text : List Char) :
    split quotes seen text = (split quotes [] text).modifyHead (seen.reverse ++ ·) := by
  induction text generalizing quotes seen with
  | nil => simp [split]
  | cons c rest ih =>
    have hpass : ∀ quotes, split quotes (c :: seen) rest =
        (split quotes [c] rest).modifyHead (seen.reverse ++ ·) := by
      intro quotes
      rw [ih quotes (c :: seen), ih quotes [c], List.modifyHead_modifyHead]
      simp [Function.comp_def]
    rw [split, split]
    split
    · exact hpass _
    · split
      · simp
      · exact hpass _

theorem segments_cons_of_not {c : Char} {rest : List Char}
    (h : ¬ (c = ',' ∧ rest.count '"' % 2 = 0)) :
    segments (c :: rest) = (segments rest).modifyHead (c :: ·) := by
  have hpass : unseparated (rest.count '"') [c] = true := by
    by_cases hc : c = ','
    · have hodd : rest.count '"' % 2 = 1 := Nat.mod_two_ne_zero.mp fun he => h ⟨hc, he⟩
      simp [unseparated, hodd]
    · simp [unseparated, hc]
  have hs := split_append hpass []
  rw [List.singleton_append] at hs
  rw [segments, hs, split_eq_modifyHead]
  rfl

/-- The segments of a key are what its separating commas leave. -/
theorem segments_eq_cutAt (text : List Char) : segments text = cutAt (separators text) text := by
  induction text with
  | nil => rfl
  | cons c rest ih =>
    rw [separators_cons]
    by_cases h : c = ',' ∧ rest.count '"' % 2 = 0
    · have hs : segments (',' :: rest) = [[]] ++ segments rest :=
        @segments_append_comma [] rest h.2
      rw [if_pos h, List.singleton_append, cutAt_cons_zero, h.1, hs, ih]
      rfl
    · rw [if_neg h, List.nil_append, cutAt_cons_succ, segments_cons_of_not h, ih]

/-- As `split`, but there is no result when a quote is read while the counter is zero. -/
def splitCounted? (quotes : Nat) (seen : List Char) : List Char → Option (List (List Char))
  | [] => some [seen.reverse]
  | c :: rest =>
    if c = '"' then
      if quotes = 0 then none else splitCounted? (quotes - 1) (c :: seen) rest
    else if c = ',' ∧ quotes % 2 = 0 then
      (splitCounted? quotes [] rest).map (seen.reverse :: ·)
    else splitCounted? quotes (c :: seen) rest

/-- The counter is the number of quotes ahead, so none is read while it is zero. -/
theorem splitCounted?_eq (seen text : List Char) :
    splitCounted? (text.count '"') seen text = some (split (text.count '"') seen text) := by
  induction text generalizing seen with
  | nil => rfl
  | cons c rest ih =>
    rw [splitCounted?, split]
    by_cases hq : c = '"'
    · rw [if_pos hq, if_pos hq, hq, List.count_cons_self, Nat.add_sub_cancel,
        if_neg (Nat.succ_ne_zero _), ih]
    · rw [if_neg hq, if_neg hq, List.count_cons_of_ne hq]
      split
      · rw [ih]
        rfl
      · rw [ih]

theorem toList_joined (key later : String) :
    (key ++ "," ++ later).toList = key.toList ++ ',' :: later.toList := by
  simp

theorem pieces_joined (key : String) {later : String} (h : later.toList.count '"' % 2 = 0) :
    pieces (key ++ "," ++ later) = pieces key ++ pieces later := by
  rw [pieces, toList_joined, segments_append_comma h, List.map_append, pieces, pieces]

/-- The pieces of a key are the trimmed texts that are left when it is cut at the commas with an
even number of double quotes after them and nowhere else; untrimmed, and with commas between them,
they give back the key, and the counter of quotes never has to go below zero. A comma before a key
with an even number of quotes separates two keys, whose pieces are read and checked apart. A piece
is not cut again. -/
theorem pieces_eq_cutAt (key : String) :
    let text := key.toList
    let parts := cutAt (separators text) text
    (pieces key = parts.map fun part => String.ofList (Text.trim part)) ∧
    [','].intercalate parts = text ∧
    splitCounted? (text.count '"') [] text = some parts ∧
    (∀ later : String, later.toList.count '"' % 2 = 0 →
      pieces (key ++ "," ++ later) = pieces key ++ pieces later ∧
      isValid (key ++ "," ++ later) = (isValid key && isValid later)) ∧
    ∀ piece ∈ pieces key, pieces piece = [piece] := by
  intro text parts
  have hparts : segments text = parts := segments_eq_cutAt text
  refine ⟨?_, ?_, ?_, fun later h => ⟨pieces_joined key h, ?_⟩, fun _ => pieces_of_mem_pieces⟩
  · rw [pieces, hparts]
  · rw [← hparts, intercalate_segments]
  · rw [splitCounted?_eq, ← hparts, segments]
  · rw [isValid, pieces_joined key h, List.all_append, isValid, isValid]

/-- A quote that is never closed keeps the commas before it, and the comma after it separates. -/
theorem pieces_eq_cutAt_of_unbalanced :
    let key := "é,\u3000[a] ,b\" ,c"
    let later := " [d=\"x,y\"],"
    separators key.toList = [11] ∧ pieces key = ["é,\u3000[a] ,b\"", "c"] ∧
      later.toList.count '"' % 2 = 0 ∧
      pieces (key ++ "," ++ later) = ["é,\u3000[a] ,b\"", "c", "[d=\"x,y\"]", ""] ∧
      isValid (key ++ "," ++ later) = false ∧
      pieces "é,\u3000[a] ,b\"" = ["é,\u3000[a] ,b\""] := by
  intro key later
  have hkey : pieces key = ["é,\u3000[a] ,b\"", "c"] := by decide +kernel
  have hpieces : pieces later = ["[d=\"x,y\"]", ""] := by decide +kernel
  have hvalid : isValid key = false := by decide +kernel
  have heven : later.toList.count '"' % 2 = 0 := by decide +kernel
  obtain ⟨-, -, -, hjoined, hpiece⟩ := pieces_eq_cutAt key
  obtain ⟨hboth, hboth'⟩ := hjoined later heven
  refine ⟨by decide +kernel, hkey, heven, ?_, ?_, hpiece _ (hkey ▸ List.mem_cons_self)⟩
  · rw [hboth, hkey, hpieces]
    rfl
  · rw [hboth', hvalid, Bool.false_and]

end PropStyling.Key
