import DiceNotation.Proofs.Notation.Balanced
import DiceNotation.Proofs.Notation.FactorSigns

/-!
# Blanks around signs

A text in which blanks are written around all signs of multiplications and divisions has the same
calls as the text without these blanks, with the blanks in their arguments and in the text around
them. It has the same words if each word with a sign in it was a sign that stood alone; in any case
each of its own words with a sign is one.
-/

namespace DiceNotation.Notation

open Text (isBlank isNameChar AllBlank extendFirst)

/-- The text with a blank before and after each sign of a multiplication or a division. -/
def spread : List Char → List Char
  | [] => []
  | c :: text => if isFactorSign c then ' ' :: c :: ' ' :: spread text else c :: spread text

/-- The notation with a blank before and after each sign of a multiplication or a division. -/
def spaced (source : String) : String :=
  String.ofList (spread source.toList)

/-- A sign has blanks around it. -/
theorem spread_cons_sign {c : Char} (hc : isFactorSign c = true) (text : List Char) :
    spread (c :: text) = ' ' :: c :: ' ' :: spread text := by
  rw [spread, if_pos hc]

/-- Other characters stay as they are. -/
theorem spread_cons_of_not {c : Char} (hc : isFactorSign c = false) (text : List Char) :
    spread (c :: text) = c :: spread text := by
  rw [spread, if_neg (by simp [hc])]

/-- Blanks are put into two texts side by side as into each. -/
theorem spread_append (first second : List Char) :
    spread (first ++ second) = spread first ++ spread second := by
  induction first with
  | nil => rfl
  | cons c first ih =>
    cases hc : isFactorSign c with
    | false => simp only [List.cons_append, spread_cons_of_not hc, ih]
    | true => simp only [List.cons_append, spread_cons_sign hc, ih]

/-- The blanks are the same from behind. -/
theorem spread_reverse (text : List Char) : spread text.reverse = (spread text).reverse := by
  induction text with
  | nil => rfl
  | cons c text ih =>
    rw [List.reverse_cons, spread_append, ih]
    cases hc : isFactorSign c with
    | false => simp [spread, hc]
    | true => simp [spread, hc]

/-- A text without signs stays as it is. -/
theorem spread_eq_self {text : List Char} (h : factorSigns text = 0) : spread text = text := by
  rw [factorSigns_eq_zero_iff] at h
  induction text with
  | nil => rfl
  | cons c text ih =>
    obtain ⟨hc, hrest⟩ := List.forall_mem_cons.mp h
    rw [spread_cons_of_not hc, ih hrest]

/-- Blanks around signs are no signs. -/
theorem factorSigns_spread (text : List Char) : factorSigns (spread text) = factorSigns text := by
  induction text with
  | nil => rfl
  | cons c text ih =>
    cases hc : isFactorSign c with
    | false => rw [spread_cons_of_not hc, factorSigns_cons, ih, ← factorSigns_cons]
    | true =>
      have hblank (rest : List Char) : factorSigns (' ' :: rest) = factorSigns rest :=
        factorSigns_cons_of_not (by decide) rest
      rw [spread_cons_sign hc, hblank, factorSigns_cons, hblank, ih, ← factorSigns_cons]

/-- A text with blanks around its signs is blank exactly if the text is. -/
theorem allBlank_spread_iff {text : List Char} : AllBlank (spread text) ↔ AllBlank text := by
  induction text with
  | nil => rfl
  | cons c text ih =>
    unfold AllBlank at ih ⊢
    cases hc : isFactorSign c with
    | false => rw [spread_cons_of_not hc, List.forall_mem_cons, List.forall_mem_cons, ih]
    | true =>
      have hblank : isBlank c ≠ true := fun hblank =>
        absurd (hc.symm.trans (isFactorSign_of_isBlank hblank)) (by decide)
      simp [spread_cons_sign hc, hblank]

/-- A sign is no parenthesis, no comma, no dollar sign and no character of a name. -/
theorem ne_of_isFactorSign {c : Char} (hc : isFactorSign c = true) :
    c ≠ '(' ∧ c ≠ ')' ∧ c ≠ ',' ∧ c ≠ '$' ∧ isNameChar c = false := by
  rcases isFactorSign_iff.mp hc with rfl | rfl <;> decide

/-- The name at the end of a text is the same with blanks around the signs. -/
theorem nameBefore_spread (reversed : List Char) :
    nameBefore (spread reversed) = nameBefore reversed := by
  unfold nameBefore
  induction reversed with
  | nil => rfl
  | cons c reversed ih =>
    cases hc : isFactorSign c with
    | false => rw [spread_cons_of_not hc, List.takeWhile_cons, List.takeWhile_cons, ih]
    | true =>
      have hname := (ne_of_isFactorSign hc).2.2.2.2
      rw [spread_cons_sign hc, List.takeWhile_cons_of_neg (by decide),
        List.takeWhile_cons_of_neg (by simp [hname])]

/-- Blanks are put into what precedes the name at the end of a text. -/
theorem beforeName_spread (reversed : List Char) :
    beforeName (spread reversed) = spread (beforeName reversed) := by
  unfold beforeName
  induction reversed with
  | nil => rfl
  | cons c reversed ih =>
    cases hc : isFactorSign c with
    | false =>
      rw [spread_cons_of_not hc, List.dropWhile_cons, List.dropWhile_cons, ih]
      split
      · rfl
      · rw [spread_cons_of_not hc]
    | true =>
      have hname := (ne_of_isFactorSign hc).2.2.2.2
      rw [spread_cons_sign hc, List.dropWhile_cons_of_neg (by decide),
        List.dropWhile_cons_of_neg (by simp [hname]), spread_cons_sign hc]

private theorem head?_spread_eq_dollar_iff (text : List Char) :
    (spread text).head? = some '$' ↔ text.head? = some '$' := by
  cases text with
  | nil => exact Iff.rfl
  | cons c text =>
    cases hc : isFactorSign c with
    | false => rw [spread_cons_of_not hc, List.head?_cons, List.head?_cons]
    | true =>
      have hdollar := (ne_of_isFactorSign hc).2.2.2.1
      simp [spread_cons_sign hc, hdollar]

/-- Blanks around signs do not decide whether a call is opened. -/
theorem opensCall_spread (reversed : List Char) :
    opensCall (spread reversed) = opensCall reversed := by
  unfold opensCall
  rw [nameBefore_spread, beforeName_spread]
  simp only [ne_eq, head?_spread_eq_dollar_iff]

private theorem opening?_cons_of_ne {c : Char} (hc : c ≠ '(') (reversed rest : List Char) :
    opening? reversed (c :: rest) = opening? (c :: reversed) rest := by
  rw [opening?, if_neg (fun h => hc h.1)]

/-- The leftmost opening of a call is the same with blanks around the signs. -/
theorem opening?_spread (reversed text : List Char) :
    opening? (spread reversed) (spread text) =
      (opening? reversed text).map fun found => (spread found.1, found.2.1, spread found.2.2) := by
  induction text generalizing reversed with
  | nil => rfl
  | cons c text ih =>
    cases hc : isFactorSign c with
    | true =>
      have hopen := (ne_of_isFactorSign hc).1
      rw [spread_cons_sign hc, opening?_cons_of_ne (by decide), opening?_cons_of_ne hopen,
        opening?_cons_of_ne (by decide), ← spread_cons_sign hc, ih, opening?_cons_of_ne hopen]
    | false =>
      rw [spread_cons_of_not hc, opening?, opening?, opensCall_spread]
      split
      · simp [nameBefore_spread, beforeName_spread, spread_reverse]
      · rw [← spread_cons_of_not hc, ih]

/-- The closing parenthesis is the same with blanks around the signs. -/
theorem closing?_spread (depth : Nat) (text : List Char) :
    closing? depth (spread text) =
      (closing? depth text).map fun parts => (spread parts.1, spread parts.2) := by
  induction text generalizing depth with
  | nil => rfl
  | cons c text ih =>
    cases hc : isFactorSign c with
    | true =>
      obtain ⟨hopen, hclose, -⟩ := ne_of_isFactorSign hc
      rw [spread_cons_sign hc, closing?_cons_of_ne (by decide) (by decide),
        closing?_cons_of_ne hopen hclose, closing?_cons_of_ne (by decide) (by decide), ih,
        closing?_cons_of_ne hopen hclose]
      simp [Option.map_map, Function.comp_def, spread_cons_sign hc]
    | false =>
      rw [spread_cons_of_not hc, closing?_cons, closing?_cons]
      split
      · rfl
      · rw [ih, Option.map_map, Option.map_map]
        simp only [Function.comp_def, spread_cons_of_not hc]

private theorem extendFirst_spread (c : Char) (texts : List (List Char)) :
    (extendFirst c texts).map spread = (spread [c]).foldr extendFirst (texts.map spread) := by
  cases hc : isFactorSign c with
  | false => cases texts <;> simp [extendFirst, spread, hc]
  | true => cases texts <;> simp [extendFirst, spread, hc]

/-- The arguments are cut at the same commas with blanks around the signs. -/
theorem cutArguments_spread (depth : Nat) (text : List Char) :
    cutArguments depth (spread text) = (cutArguments depth text).map spread := by
  induction text generalizing depth with
  | nil => rfl
  | cons c text ih =>
    cases hc : isFactorSign c with
    | true =>
      obtain ⟨hopen, hclose, hcomma, -⟩ := ne_of_isFactorSign hc
      have hblank (rest : List Char) :
          cutArguments depth (' ' :: rest) = extendFirst ' ' (cutArguments depth rest) :=
        cutArguments_cons_of_ne (by decide) (by decide) (by simp) rest
      have hsign (rest : List Char) :
          cutArguments depth (c :: rest) = extendFirst c (cutArguments depth rest) :=
        cutArguments_cons_of_ne hopen hclose (by simp [hcomma]) rest
      rw [spread_cons_sign hc, hblank, hsign, hblank, ih, hsign, extendFirst_spread,
        spread_cons_sign hc]
      rfl
    | false =>
      rw [spread_cons_of_not hc, cutArguments, cutArguments]
      split
      · rw [ih]
        rfl
      · dsimp only
        rw [ih, extendFirst_spread, spread_cons_of_not hc]
        rfl

/-- The call, with blanks around the signs in its arguments and in the text around it. -/
def CallSite.spread (site : CallSite) : CallSite :=
  { site with
    before := Notation.spread site.before
    arguments := Notation.spread site.arguments
    after := Notation.spread site.after }

/-- A call that is not closed is not closed with blanks around the signs. -/
theorem leftmostCall_spread_of_error {text : List Char} {error : NotationError}
    (h : leftmostCall text = .error error) :
    ∃ error', leftmostCall (spread text) = .error error' := by
  obtain ⟨before, name, rest, hopen, hclose⟩ := leftmostCall_eq_error.mp ⟨error, h⟩
  have hsearch : opening? [] (spread text) = _ := opening?_spread [] text
  rw [hopen, Option.map_some] at hsearch
  refine leftmostCall_eq_error.mpr ⟨_, _, _, hsearch, ?_⟩
  rw [closing?_spread, hclose, Option.map_none]

/-- A text without a call has none with blanks around its signs. -/
theorem leftmostCall_spread_of_none {text : List Char} (h : leftmostCall text = .ok none) :
    leftmostCall (spread text) = .ok none := by
  have hsearch : opening? [] (spread text) = _ := opening?_spread [] text
  rw [leftmostCall_eq_none.mp h, Option.map_none] at hsearch
  exact leftmostCall_eq_none.mpr hsearch

/-- The leftmost call is the same with blanks around the signs. -/
theorem leftmostCall_spread_of_some {text : List Char} {site : CallSite}
    (h : leftmostCall text = .ok (some site)) :
    leftmostCall (spread text) = .ok (some site.spread) := by
  obtain ⟨rest, hopen, hclose⟩ := leftmostCall_eq_some.mp h
  have hsearch : opening? [] (spread text) = _ := opening?_spread [] text
  rw [hopen, Option.map_some] at hsearch
  refine leftmostCall_eq_some.mpr ⟨spread rest, hsearch, ?_⟩
  rw [closing?_spread, hclose, Option.map_some]
  rfl

/-- The arguments of a call, with blanks around the signs in it. -/
def spreadArguments (arguments : List (List Char)) : List (List Char) :=
  arguments.map fun argument => Text.trim (spread argument)

/-- Blanks are put into the first argument and into the others. -/
theorem spreadArguments_cons (argument : List Char) (rest : List (List Char)) :
    spreadArguments (argument :: rest) =
      Text.trim (spread argument) :: spreadArguments rest :=
  rfl

private theorem trim_spread (text : List Char) :
    Text.trim (spread (Text.trim text)) = Text.trim (spread text) := by
  obtain ⟨before, after, hbefore, hafter, htext⟩ := Text.exists_eq_append_trim text
  conv_rhs => rw [htext, spread_append, spread_append]
  rw [Text.trim_append_blanks (allBlank_spread_iff.mpr hafter),
    Text.trim_blanks_append (allBlank_spread_iff.mpr hbefore)]

/-- Blanks around the signs of an argument text are put into each of its arguments. -/
theorem argumentTexts_spread (text : List Char) :
    argumentTexts (spread text) = spreadArguments (argumentTexts text) := by
  have hempty (piece : List Char) : Text.trim (spread piece) = [] ↔ Text.trim piece = [] := by
    rw [Text.trim_eq_nil_iff, Text.trim_eq_nil_iff, allBlank_spread_iff]
  unfold argumentTexts spreadArguments
  rw [cutArguments_spread, List.map_map, List.filter_map, List.filter_map, List.map_map]
  simp only [Function.comp_def, trim_spread, ne_eq, hempty]

/-- The words of a text on both sides of a blank are those of the two sides. -/
theorem words_append {c : Char} (hc : isBlank c = true) (before after : List Char) :
    Text.words (before ++ c :: after) = Text.words before ++ Text.words after := by
  rw [Text.words, Text.fields_append hc, List.filter_append, Text.words, Text.words]

/-- What is found in a text on the two sides of each blank is what is found in its words. -/
theorem eq_flatMap_words {α : Type} (found : List Char → List α) (hnil : found [] = [])
    (happend : ∀ c before after, isBlank c = true →
      found (before ++ c :: after) = found before ++ found after)
    (text : List Char) : found text = (Text.words text).flatMap found := by
  -- The recursion is on the length of the text: a blank parts it into two shorter ones.
  by_cases hblank : ∃ c ∈ text, isBlank c = true
  · obtain ⟨c, hc, hblank⟩ := hblank
    obtain ⟨before, after, htext⟩ := List.append_of_mem hc
    have hbefore : before.length < text.length := by simp [htext]
    have hafter : after.length < text.length := by simp [htext]; omega
    rw [htext, happend c _ _ hblank, words_append hblank, List.flatMap_append,
      ← eq_flatMap_words found hnil happend before, ← eq_flatMap_words found hnil happend after]
  · have hfields : Text.fields isBlank text = [text] :=
      Text.fields_of_forall fun c hc => by simpa using fun h => hblank ⟨c, hc, h⟩
    rw [Text.words, hfields]
    by_cases htext : text = []
    · simp [htext, hnil]
    · simp [htext]
termination_by text.length

private theorem eq_or_eq_of_dropComma {word : List Char} {c : Char} (h : dropComma word = [c]) :
    word = [c] ∨ word = [c, ','] := by
  unfold dropComma at h
  split at h
  · next hlast =>
    obtain ⟨rest, rfl⟩ := List.getLast?_eq_some_iff.mp hlast
    rw [List.dropLast_concat] at h
    exact .inr (by rw [h]; rfl)
  · exact .inl h

/-- Blanks around the signs in a word without blanks do not matter if it is a sign, with a comma
behind it or not. -/
theorem wordsOf_spread_word {word : List Char} (hblank : ∀ c ∈ word, isBlank c = false)
    (h : ∀ meant ∈ wordsOf word, factorSigns meant ≠ 0 → ∃ c, meant = [c]) :
    wordsOf (spread word) = wordsOf word := by
  by_cases hsigns : factorSigns word = 0
  · rw [spread_eq_self hsigns]
  · have hdropped : factorSigns (dropComma word) ≠ 0 := by rwa [factorSigns_dropComma]
    have hmem : dropComma word ∈ wordsOf word := by
      have hne : word ≠ [] := fun hnil => hsigns (by rw [hnil]; rfl)
      have hne' : dropComma word ≠ [] := fun hnil => hdropped (by rw [hnil]; rfl)
      simp [wordsOf, Text.words, Text.fields_of_forall hblank, hne, hne']
    obtain ⟨c, hc⟩ := h (dropComma word) hmem hdropped
    have hsign : isFactorSign c = true := by
      rw [hc] at hdropped
      simpa [factorSigns_eq_zero_iff] using hdropped
    rcases isFactorSign_iff.mp hsign with rfl | rfl
    · rcases eq_or_eq_of_dropComma hc with rfl | rfl <;> decide
    · rcases eq_or_eq_of_dropComma hc with rfl | rfl <;> decide

/-- If all words with signs in them are signs, then blanks around the signs do not matter. -/
theorem wordsOf_spread_of_forall {text : List Char}
    (h : ∀ word ∈ wordsOf text, factorSigns word ≠ 0 → ∃ c, word = [c]) :
    wordsOf (spread text) = wordsOf text := by
  have hspread : wordsOf (spread text) =
      (Text.words text).flatMap fun word => wordsOf (spread word) := by
    refine eq_flatMap_words (fun word => wordsOf (spread word)) rfl ?_ text
    intro c before after hc
    rw [spread_append, spread_cons_of_not (isFactorSign_of_isBlank hc), wordsOf_append hc]
  have hwords : wordsOf text = (Text.words text).flatMap wordsOf :=
    eq_flatMap_words wordsOf rfl (fun c before after hc => wordsOf_append hc before after) text
  have hword : ∀ word ∈ Text.words text, wordsOf (spread word) = wordsOf word := by
    intro word hmem
    refine wordsOf_spread_word (fun c hc => ?_) fun meant hmeant => h meant ?_
    · have hfield := (List.mem_filter.mp hmem).1
      exact Text.separates_eq_false_of_mem_fields hfield hc
    · rw [hwords]
      exact List.mem_flatMap_of_mem hmem hmeant
  rw [hspread, hwords]
  exact List.flatMap_congr hword

private theorem factorSigns_le_of_mem {text : List Char} {texts : List (List Char)}
    (h : text ∈ texts) : factorSigns text ≤ factorSignsOf texts :=
  (List.sublist_flatten_of_mem h).countP_le

/-- The words with signs in them are the signs, if there are blanks around these. -/
theorem eq_singleton_of_mem_wordsOf_spread {text word : List Char}
    (hword : word ∈ wordsOf (spread text)) (hsigns : factorSigns word ≠ 0) : ∃ c, word = [c] := by
  -- Any sign of the text parts it into two shorter texts, with blanks between them and the sign.
  by_cases hsign : ∃ c ∈ text, isFactorSign c = true
  · obtain ⟨c, hc, hsign⟩ := hsign
    obtain ⟨before, after, htext⟩ := List.append_of_mem hc
    have hbefore : before.length < text.length := by simp [htext]
    have hafter : after.length < text.length := by simp [htext]; omega
    have hsingle : wordsOf [c] = [[c]] := by
      rcases isFactorSign_iff.mp hsign with rfl | rfl <;> decide
    have hrest : wordsOf ([c] ++ ' ' :: spread after) = [c] :: wordsOf (spread after) := by
      rw [wordsOf_append isBlank_space, hsingle, List.singleton_append]
    have hwords : wordsOf (spread text) =
        wordsOf (spread before) ++ [c] :: wordsOf (spread after) := by
      rw [htext, spread_append, spread_cons_sign hsign, wordsOf_append isBlank_space, ← hrest,
        List.singleton_append]
    rw [hwords, List.mem_append, List.mem_cons] at hword
    rcases hword with hword | hword | hword
    · exact eq_singleton_of_mem_wordsOf_spread hword hsigns
    · exact ⟨c, hword⟩
    · exact eq_singleton_of_mem_wordsOf_spread hword hsigns
  · have hnone : factorSigns text = 0 :=
      factorSigns_eq_zero_iff.mpr fun c hc => by simpa using fun h => hsign ⟨c, hc, h⟩
    have hle := factorSigns_le_of_mem hword
    rw [factorSignsOf_wordsOf, spread_eq_self hnone] at hle
    omega
termination_by text.length

end DiceNotation.Notation
