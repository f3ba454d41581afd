import DiceNotation.Proofs.Filling.Filled
import DiceNotation.Proofs.Notation.Balanced
import DiceNotation.Proofs.Notation.Leftmost
import Mathlib.Data.List.Forall2
import Mathlib.Data.List.TakeWhile

/-!
# Cutting a text with references

Reading a text first cuts it: at the leftmost call, at the parenthesis that closes it, at the
commas between arguments and at blanks. Nothing in a reference or a number is a place to cut, so
that a text and the text with values are cut into related pieces.
-/

namespace DiceNotation.Reference

open Notation
open Text (isBlank isNameChar integerText)

/-- An inert character is no blank, no comma and no parenthesis. -/
theorem ne_of_isInert {c : Char} (h : isInert c = true) :
    isBlank c = false ∧ c ≠ ',' ∧ c ≠ '(' ∧ c ≠ ')' := by
  simpa [isInert, and_assoc] using h

/-- Inert characters are balanced. -/
theorem balanced_of_isInert {commas : Bool} {first : List Char}
    (hfirst : ∀ c ∈ first, isInert c = true) : Balanced commas first := by
  apply Balanced.of_forall
  intro c hc
  obtain ⟨-, hcomma, hopen, hclose⟩ := ne_of_isInert (hfirst c hc)
  exact ⟨hopen, hclose, hcomma⟩

/-- The search for the closing parenthesis passes inert characters. -/
theorem closing?_append {first : List Char} (hfirst : ∀ c ∈ first, isInert c = true)
    (depth : Nat) (text : List Char) :
    closing? depth (first ++ text) =
      (closing? depth text).map fun parts => (first ++ parts.1, parts.2) := by
  have hbalanced : Balanced false first := balanced_of_isInert hfirst
  exact hbalanced.closing?_append depth text

/-- Inert characters stay in front of the first argument. -/
theorem cutArguments_append {first : List Char} (hfirst : ∀ c ∈ first, isInert c = true)
    {depth : Nat} {text piece : List Char} {pieces : List (List Char)}
    (h : cutArguments depth text = piece :: pieces) :
    cutArguments depth (first ++ text) = (first ++ piece) :: pieces := by
  have hbalanced : Balanced false first := balanced_of_isInert hfirst
  rw [hbalanced.cutArguments_append (by simp), h, Text.foldr_extendFirst]

/-- Inert characters stay in front of the first word. -/
theorem fields_isBlank_append {first : List Char} (hfirst : ∀ c ∈ first, isInert c = true)
    {text piece : List Char} {pieces : List (List Char)}
    (h : Text.fields isBlank text = piece :: pieces) :
    Text.fields isBlank (first ++ text) = (first ++ piece) :: pieces := by
  induction first with
  | nil => exact h
  | cons c first ih =>
    have hblank := (ne_of_isInert (hfirst c List.mem_cons_self)).1
    have hrest := ih fun d hd => hfirst d (List.mem_cons_of_mem c hd)
    rw [List.cons_append, Text.fields, if_neg (by simp [hblank]), hrest]
    rfl

/-- A character that may stand behind a reference ends a name. -/
theorem isBreak_of_closes {c : Char} (h : closes c = true) : isBreak c = true := by
  have hname : isNameChar c = false := by
    cases hc : isNameChar c with
    | false => rfl
    | true =>
      obtain ⟨hblank, hcomma, -, hclose⟩ := ne_of_isInert (isInert_of_isNameChar hc)
      simp [closes, hblank, hcomma, hclose] at h
  have hdollar : c ≠ '$' := by
    rintro rfl
    simp [closes_dollar] at h
  simp [isBreak, hname, hdollar]

/-- A character that may stand behind a reference is no opening parenthesis. -/
theorem ne_open_of_closes {c : Char} (h : closes c = true) : c ≠ '(' := by
  rintro rfl
  exact absurd h (by decide)

/-- The search for a call does not begin before a character that may follow a reference. -/
theorem opening?_of_stop {text : List Char} (hstop : text.head?.all closes = true)
    (reversed : List Char) :
    opening? reversed text =
      (opening? [] text).map fun found => (reversed.reverse ++ found.1, found.2.1, found.2.2) := by
  cases text with
  | nil => rfl
  | cons c text =>
    have hc : closes c = true := hstop
    have hbreak (earlier : List Char) : opening? (c :: earlier) text = _ :=
      opening?_append_break (isBreak_of_closes hc) [] earlier text
    rw [opening?, opening?, if_neg (fun h => ne_open_of_closes hc h.1),
      if_neg (fun h => ne_open_of_closes hc h.1), hbreak, hbreak, Option.map_map]
    rfl

/-- There is no call in a part that is not cut. -/
theorem opening?_stop_append {first text : List Char} (hfirst : ∀ c ∈ first, isInert c = true)
    (hstop : text.head?.all closes = true) :
    opening? [] (first ++ text) =
      (opening? [] text).map fun found => (first ++ found.1, found.2.1, found.2.2) := by
  have hopenings : openings first = 0 :=
    List.count_eq_zero.mpr fun hmem => (ne_of_isInert (hfirst _ hmem)).2.2.1 rfl
  rw [opening?_append, opening?_eq_none hopenings, List.append_nil]
  simp only [opening?_of_stop hstop first.reverse, List.reverse_reverse]

variable {table : Variables} {mayRefer : Bool} {source filled : List Char}

/-- If a text can follow a reference, then so can the text with values. -/
theorem Filled.stop (h : Filled table mayRefer source filled)
    (hstop : source.head?.all closes = true) : filled.head?.all closes = true := by
  cases h with
  | nil => rfl
  | char => exact hstop
  | reference => simp [closes_dollar] at hstop

/-- A text and the text with values are closed at the same place, or both not at all. -/
theorem closing?_filled (h : Filled table mayRefer source filled) (depth : Nat) :
    (closing? depth source = none ∧ closing? depth filled = none) ∨
      ∃ inside after inside' after', closing? depth source = some (inside, after) ∧
        closing? depth filled = some (inside', after') ∧
        Filled table mayRefer inside inside' ∧ Filled table false after after' := by
  induction h generalizing depth with
  | nil => exact .inl ⟨rfl, rfl⟩
  | @char mayRefer c source filled hc hrest ih =>
    rw [closing?, closing?]
    by_cases hclose : c = ')' ∧ depth = 0
    · rw [if_pos hclose, if_pos hclose]
      have hopens : opens c = false := by
        rw [hclose.1]
        decide
      exact .inr ⟨_, _, _, _, rfl, rfl, .nil, hopens ▸ hrest⟩
    · rw [if_neg hclose, if_neg hclose]
      rcases ih (if c = '(' then depth + 1 else if c = ')' then depth - 1 else depth) with
        ⟨hs, ht⟩ | ⟨inside, after, inside', after', hs, ht, hinside, hafter⟩
      · exact .inl ⟨by simp only [hs], by simp only [ht]⟩
      · exact .inr ⟨c :: inside, after, c :: inside', after', by simp only [hs],
          by simp only [ht], .char hc hinside, hafter⟩
  | @reference name source filled value hname hchars hvalue hstop hrest ih =>
    have hs := closing?_append (isInert_of_mem_reference hchars) depth source
    have ht := closing?_append (fun c => isInert_of_mem_integerText (n := value.toInt)) depth filled
    rw [List.cons_append] at hs
    rw [hs, ht]
    rcases ih depth with ⟨hs, ht⟩ | ⟨inside, after, inside', after', hs, ht, hinside, hafter⟩
    · exact .inl ⟨by rw [hs]; rfl, by rw [ht]; rfl⟩
    · have hprefix : inside <+: source := ⟨_, (eq_of_closing? hs).symm⟩
      exact .inr ⟨'$' :: (name ++ inside), after, integerText value.toInt ++ inside', after',
        by rw [hs]; rfl, by rw [ht]; rfl,
        .reference hname hchars hvalue (all_head?_of_isPrefix hprefix hstop) hinside, hafter⟩

/-- The same call is found first in a text and in the text with values, or none is. The
characters just before the text may belong to the name of the call. -/
theorem opening?_filled (h : Filled table mayRefer source filled) {reversed : List Char}
    (hname : ∀ c ∈ reversed, isNameChar c = true) (hstart : mayRefer = true → reversed = []) :
    (opening? reversed source = none ∧ opening? reversed filled = none) ∨
      ∃ before before' name rest rest', opening? reversed source = some (before, name, rest) ∧
        opening? reversed filled = some (before', name, rest') ∧
        Filled table mayRefer before before' ∧ Filled table true rest rest' := by
  induction h generalizing reversed with
  | nil => exact .inl ⟨rfl, rfl⟩
  | @char mayRefer c source filled hc hrest ih =>
    by_cases hcname : isNameChar c = true
    · -- the name goes on
      have hinert := isInert_of_isNameChar hcname
      have hopens := opens_eq_false_of_isInert hinert
      have hopen : ¬(c = '(' ∧ opensCall reversed = true) :=
        fun h => (ne_of_isInert hinert).2.2.1 h.1
      rw [opening?, opening?, if_neg hopen, if_neg hopen]
      have hname' : ∀ d ∈ c :: reversed, isNameChar d = true := by
        intro d hd
        rcases List.mem_cons.mp hd with rfl | hd
        · exact hcname
        · exact hname d hd
      rcases ih hname' (fun h => absurd (hopens.symm.trans h) (by decide)) with
        hnone | ⟨before, before', name, rest, rest', hs, ht, hbefore, hafter⟩
      · exact .inl hnone
      · exact .inr ⟨before, before', name, rest, rest', hs, ht, (hopens ▸ hbefore).mono, hafter⟩
    · by_cases hopen : c = '(' ∧ opensCall reversed = true
      · have hopens : opens c = true := by
          rw [hopen.1]
          decide
        have hbefore : beforeName reversed = [] := List.dropWhile_eq_nil_iff.mpr hname
        rw [opening?, opening?, if_pos hopen, if_pos hopen, hbefore]
        exact .inr ⟨[], [], _, source, filled, rfl, rfl, .nil, hopens ▸ hrest⟩
      · have hbreak : isBreak c = true := by simp [isBreak, hcname, hc]
        have hs : opening? (c :: reversed) source = _ :=
          opening?_append_break hbreak [] reversed source
        have ht : opening? (c :: reversed) filled = _ :=
          opening?_append_break hbreak [] reversed filled
        rw [opening?, opening?, if_neg hopen, if_neg hopen, hs, ht]
        rcases ih (fun d hd => absurd hd List.not_mem_nil) (fun _ => rfl) with
          ⟨hs, ht⟩ | ⟨before, before', name, rest, rest', hs, ht, hbefore, hafter⟩
        · exact .inl ⟨by rw [hs]; rfl, by rw [ht]; rfl⟩
        · refine .inr ⟨reversed.reverse ++ c :: before, reversed.reverse ++ c :: before', name,
            rest, rest', by rw [hs]; rfl, by rw [ht]; rfl, ?_, hafter⟩
          refine Filled.plain_append (fun d hd => ?_) fun _ => .char hc hbefore
          rintro rfl
          exact absurd (hname '$' (List.mem_reverse.mp hd)) (by decide)
  | @reference name source filled value hne hchars hvalue hstop hrest ih =>
    obtain rfl : reversed = [] := hstart rfl
    have hs := opening?_stop_append (isInert_of_mem_reference hchars) hstop
    have ht := opening?_stop_append
      (fun c => isInert_of_mem_integerText (n := value.toInt)) (hrest.stop hstop)
    rw [List.cons_append] at hs
    rw [hs, ht]
    rcases ih (fun d hd => absurd hd List.not_mem_nil) (fun _ => rfl) with
      ⟨hs, ht⟩ | ⟨before, before', found, rest, rest', hs, ht, hbefore, hafter⟩
    · exact .inl ⟨by rw [hs]; rfl, by rw [ht]; rfl⟩
    · have hprefix : before <+: source := by
        have htext := eq_of_opening? hs
        rw [List.append_assoc] at htext
        exact ⟨_, htext.symm⟩
      exact .inr ⟨'$' :: (name ++ before), integerText value.toInt ++ before', found, rest, rest',
        by rw [hs]; rfl, by rw [ht]; rfl,
        .reference hne hchars hvalue (all_head?_of_isPrefix hprefix hstop) hbefore, hafter⟩

/-- Two calls with the same name, one in a text and one in the text with values. -/
structure FilledSite (table : Variables) (site filled : CallSite) : Prop where
  before : Filled table true site.before filled.before
  name : site.name = filled.name
  arguments : Filled table true site.arguments filled.arguments
  after : Filled table false site.after filled.after

/-- The leftmost calls of a text and of the text with values are related, or neither text has
one, or neither call is closed. -/
theorem leftmostCall_filled (h : Filled table true source filled) :
    (∃ text text', leftmostCall source = .error (.unbalanced text) ∧
        leftmostCall filled = .error (.unbalanced text')) ∨
      (leftmostCall source = .ok none ∧ leftmostCall filled = .ok none) ∨
      ∃ site site', leftmostCall source = .ok (some site) ∧
        leftmostCall filled = .ok (some site') ∧ FilledSite table site site' := by
  unfold leftmostCall
  rcases opening?_filled h (fun c hc => absurd hc List.not_mem_nil) (fun _ => rfl) with
    ⟨hs, ht⟩ | ⟨before, before', name, rest, rest', hs, ht, hbefore, hrest⟩
  · rw [hs, ht]
    exact .inr (.inl ⟨rfl, rfl⟩)
  · rw [hs, ht]
    dsimp only
    rcases closing?_filled hrest 0 with
      ⟨hs, ht⟩ | ⟨inside, after, inside', after', hs, ht, hinside, hafter⟩
    · rw [hs, ht]
      exact .inl ⟨_, _, rfl, rfl⟩
    · rw [hs, ht]
      exact .inr (.inr ⟨_, _, rfl, rfl, hbefore, rfl, hinside, hafter⟩)

/-- A piece at the start of a text, and the pieces after it, which may start with references. -/
def FilledPieces (table : Variables) (mayRefer : Bool) (source : List Char)
    (pieces filled : List (List Char)) : Prop :=
  ∃ first rest first' rest', pieces = first :: rest ∧ filled = first' :: rest' ∧
    first <+: source ∧ Filled table mayRefer first first' ∧
    List.Forall₂ (Filled table true) rest rest'

/-- A text and the text with values are cut at the same commas. -/
theorem cutArguments_filled (h : Filled table mayRefer source filled) (depth : Nat) :
    FilledPieces table mayRefer source (cutArguments depth source) (cutArguments depth filled) := by
  induction h generalizing depth with
  | nil => exact ⟨[], [], [], [], rfl, rfl, List.prefix_rfl, .nil, .nil⟩
  | @char mayRefer c source filled hc hrest ih =>
    rw [cutArguments, cutArguments]
    by_cases hcomma : c = ',' ∧ depth = 0
    · rw [if_pos hcomma, if_pos hcomma]
      obtain ⟨first, rest, first', rest', hs, ht, -, hfirst, hpieces⟩ := ih 0
      have hopens : opens c = true := by
        rw [hcomma.1]
        decide
      exact ⟨[], _, [], _, rfl, rfl, List.nil_prefix, .nil,
        by rw [hs, ht]; exact .cons (hopens ▸ hfirst) hpieces⟩
    · rw [if_neg hcomma, if_neg hcomma]
      obtain ⟨first, rest, first', rest', hs, ht, hprefix, hfirst, hpieces⟩ :=
        ih (if c = '(' then depth + 1 else if c = ')' then depth - 1 else depth)
      simp only [hs, ht]
      exact ⟨c :: first, rest, c :: first', rest', rfl, rfl,
        List.cons_prefix_cons.mpr ⟨rfl, hprefix⟩, .char hc hfirst, hpieces⟩
  | @reference name source filled value hname hchars hvalue hstop hrest ih =>
    obtain ⟨first, rest, first', rest', hs, ht, hprefix, hfirst, hpieces⟩ := ih depth
    have hs' := cutArguments_append (isInert_of_mem_reference hchars) hs
    have ht' := cutArguments_append
      (fun c => isInert_of_mem_integerText (n := value.toInt)) ht
    rw [List.cons_append] at hs'
    exact ⟨_, rest, _, rest', hs', ht', (List.prefix_append_right_inj ('$' :: name)).mpr hprefix,
      .reference hname hchars hvalue (all_head?_of_isPrefix hprefix hstop) hfirst, hpieces⟩

/-- A text and the text with values are cut at the same blanks. -/
theorem fields_filled (h : Filled table mayRefer source filled) :
    FilledPieces table mayRefer source (Text.fields isBlank source)
      (Text.fields isBlank filled) := by
  induction h with
  | nil => exact ⟨[], [], [], [], rfl, rfl, List.prefix_rfl, .nil, .nil⟩
  | @char mayRefer c source filled hc hrest ih =>
    obtain ⟨first, rest, first', rest', hs, ht, hprefix, hfirst, hpieces⟩ := ih
    rw [Text.fields, Text.fields, hs, ht]
    by_cases hblank : isBlank c = true
    · rw [if_pos hblank, if_pos hblank]
      have hopens : opens c = true := by simp [opens, hblank]
      exact ⟨[], _, [], _, rfl, rfl, List.nil_prefix, .nil, .cons (hopens ▸ hfirst) hpieces⟩
    · rw [if_neg hblank, if_neg hblank]
      exact ⟨c :: first, rest, c :: first', rest', rfl, rfl,
        List.cons_prefix_cons.mpr ⟨rfl, hprefix⟩, .char hc hfirst, hpieces⟩
  | @reference name source filled value hname hchars hvalue hstop hrest ih =>
    obtain ⟨first, rest, first', rest', hs, ht, hprefix, hfirst, hpieces⟩ := ih
    have hs' := fields_isBlank_append (isInert_of_mem_reference hchars) hs
    have ht' := fields_isBlank_append
      (fun c => isInert_of_mem_integerText (n := value.toInt)) ht
    rw [List.cons_append] at hs'
    exact ⟨_, rest, _, rest', hs', ht', (List.prefix_append_right_inj ('$' :: name)).mpr hprefix,
      .reference hname hchars hvalue (all_head?_of_isPrefix hprefix hstop) hfirst, hpieces⟩

/-- The pieces of the two texts go together one by one. -/
theorem FilledPieces.forall₂ {pieces pieces' : List (List Char)}
    (h : FilledPieces table true source pieces pieces') :
    List.Forall₂ (Filled table true) pieces pieces' := by
  obtain ⟨first, rest, first', rest', rfl, rfl, -, hfirst, hrest⟩ := h
  exact .cons hfirst hrest

private theorem forall₂_map {change : List Char → List Char} {pieces pieces' : List (List Char)}
    (h : List.Forall₂ (Filled table true) pieces pieces')
    (hchange : ∀ source filled, Filled table true source filled →
      Filled table true (change source) (change filled)) :
    List.Forall₂ (Filled table true) (pieces.map change) (pieces'.map change) := by
  rw [List.forall₂_map_left_iff, List.forall₂_map_right_iff]
  exact h.imp hchange

/-- A piece is empty if and only if the related piece is. -/
theorem forall₂_filter {pieces pieces' : List (List Char)}
    (h : List.Forall₂ (Filled table true) pieces pieces') :
    List.Forall₂ (Filled table true) (pieces.filter (· ≠ [])) (pieces'.filter (· ≠ [])) := by
  induction h with
  | nil => exact .nil
  | @cons piece piece' pieces pieces' hpiece _ ih =>
    simp only [List.filter_cons]
    by_cases hnil : piece = []
    · rw [hpiece.eq_nil_iff.mp hnil, hnil]
      exact ih
    · have hnil' : piece' ≠ [] := fun h => hnil (hpiece.eq_nil_iff.mpr h)
      rw [if_pos (by simp [hnil]), if_pos (by simp [hnil'])]
      exact .cons hpiece ih

private theorem trimEnd_cons (c : Char) (text : List Char) :
    Text.trimEnd (c :: text) =
      if isBlank c = true ∧ Text.trimEnd text = [] then [] else c :: Text.trimEnd text := by
  have hnil : Text.trimEnd text = [] ↔ text.reverse.dropWhile isBlank = [] := by
    simp [Text.trimEnd, Text.trimStart]
  simp only [hnil]
  unfold Text.trimEnd Text.trimStart
  rw [List.reverse_cons, List.dropWhile_append]
  by_cases hrest : text.reverse.dropWhile isBlank = []
  · by_cases hblank : isBlank c = true
    · simp [hrest, hblank]
    · simp [hrest, hblank]
  · simp [hrest]

private theorem dropComma_cons (c : Char) (text : List Char) :
    dropComma (c :: text) = if c = ',' ∧ text = [] then [] else c :: dropComma text := by
  cases text with
  | nil => by_cases hc : c = ',' <;> simp [dropComma, hc]
  | cons d text =>
    simp only [dropComma, List.getLast?_cons_cons, List.dropLast_cons_cons]
    by_cases hlast : (d :: text).getLast? = some ',' <;> simp [hlast]

private theorem trimEnd_isPrefix (text : List Char) : Text.trimEnd text <+: text := by
  induction text with
  | nil => exact List.prefix_rfl
  | cons c text ih =>
    rw [trimEnd_cons]
    split
    · exact List.nil_prefix
    · exact List.cons_prefix_cons.mpr ⟨rfl, ih⟩

private theorem dropComma_isPrefix (text : List Char) : dropComma text <+: text := by
  unfold dropComma
  split
  · exact List.dropLast_prefix text
  · exact List.prefix_rfl

private theorem trimEnd_append {first : List Char} (hfirst : ∀ c ∈ first, isInert c = true)
    (text : List Char) : Text.trimEnd (first ++ text) = first ++ Text.trimEnd text := by
  induction first with
  | nil => rfl
  | cons c first ih =>
    have hblank := (ne_of_isInert (hfirst c List.mem_cons_self)).1
    rw [List.cons_append, trimEnd_cons, if_neg (by simp [hblank]),
      ih fun d hd => hfirst d (List.mem_cons_of_mem c hd), List.cons_append]

private theorem dropComma_append {first : List Char} (hfirst : ∀ c ∈ first, isInert c = true)
    (text : List Char) : dropComma (first ++ text) = first ++ dropComma text := by
  induction first with
  | nil => rfl
  | cons c first ih =>
    have hcomma := (ne_of_isInert (hfirst c List.mem_cons_self)).2.1
    rw [List.cons_append, dropComma_cons, if_neg (fun h => hcomma h.1),
      ih fun d hd => hfirst d (List.mem_cons_of_mem c hd), List.cons_append]

/-- Dropping blanks at the start keeps texts together. -/
theorem trimStart_filled (h : Filled table mayRefer source filled) :
    Filled table true (Text.trimStart source) (Text.trimStart filled) := by
  unfold Text.trimStart
  induction h with
  | nil => exact .nil
  | @char mayRefer c source filled hc hrest ih =>
    rw [List.dropWhile_cons, List.dropWhile_cons]
    split
    · exact ih
    · exact .char hc hrest
  | @reference name source filled value hname hchars hvalue hstop hrest ih =>
    have hdollar : isBlank '$' ≠ true := by decide
    have hfilled : (integerText value.toInt ++ filled).dropWhile isBlank =
        integerText value.toInt ++ filled := by
      cases htext : integerText value.toInt with
      | nil => exact absurd htext (integerText_ne_nil _)
      | cons c text =>
        have hinert : isInert c = true :=
          isInert_of_mem_integerText (htext ▸ List.mem_cons_self)
        rw [List.cons_append, List.dropWhile_cons_of_neg (by simp [(ne_of_isInert hinert).1])]
    rw [List.dropWhile_cons_of_neg hdollar, hfilled]
    exact .reference hname hchars hvalue hstop hrest

/-- Dropping blanks at the end keeps texts together. -/
theorem trimEnd_filled (h : Filled table mayRefer source filled) :
    Filled table mayRefer (Text.trimEnd source) (Text.trimEnd filled) := by
  induction h with
  | nil => exact .nil
  | @char mayRefer c source filled hc hrest ih =>
    rw [trimEnd_cons, trimEnd_cons]
    by_cases hend : isBlank c = true ∧ Text.trimEnd source = []
    · rw [if_pos hend, if_pos ⟨hend.1, ih.eq_nil_iff.mp hend.2⟩]
      exact .nil
    · rw [if_neg hend, if_neg (fun h => hend ⟨h.1, ih.eq_nil_iff.mpr h.2⟩)]
      exact .char hc ih
  | @reference name source filled value hname hchars hvalue hstop hrest ih =>
    rw [← List.cons_append, trimEnd_append (isInert_of_mem_reference hchars),
      trimEnd_append fun c => isInert_of_mem_integerText]
    exact .reference hname hchars hvalue
      (all_head?_of_isPrefix (trimEnd_isPrefix source) hstop) ih

/-- Dropping a comma at the end keeps texts together. -/
theorem dropComma_filled (h : Filled table mayRefer source filled) :
    Filled table mayRefer (dropComma source) (dropComma filled) := by
  induction h with
  | nil => exact .nil
  | @char mayRefer c source filled hc hrest ih =>
    rw [dropComma_cons, dropComma_cons]
    by_cases hend : c = ',' ∧ source = []
    · rw [if_pos hend, if_pos ⟨hend.1, hrest.eq_nil_iff.mp hend.2⟩]
      exact .nil
    · rw [if_neg hend, if_neg (fun h => hend ⟨h.1, hrest.eq_nil_iff.mpr h.2⟩)]
      exact .char hc ih
  | @reference name source filled value hname hchars hvalue hstop hrest ih =>
    rw [← List.cons_append, dropComma_append (isInert_of_mem_reference hchars),
      dropComma_append fun c => isInert_of_mem_integerText]
    exact .reference hname hchars hvalue
      (all_head?_of_isPrefix (dropComma_isPrefix source) hstop) ih

/-- The arguments of a call in a text and in the text with values are related. -/
theorem argumentTexts_filled (h : Filled table true source filled) :
    List.Forall₂ (Filled table true) (argumentTexts source) (argumentTexts filled) :=
  forall₂_filter <| forall₂_map (cutArguments_filled h 0).forall₂ fun _ _ hpiece =>
    trimEnd_filled (trimStart_filled hpiece)

/-- The words of a text and of the text with values are related. -/
theorem wordsOf_filled (h : Filled table true source filled) :
    List.Forall₂ (Filled table true) (wordsOf source) (wordsOf filled) :=
  forall₂_filter <| forall₂_map (forall₂_filter (fields_filled h).forall₂) fun _ _ hpiece =>
    dropComma_filled hpiece

end DiceNotation.Reference
