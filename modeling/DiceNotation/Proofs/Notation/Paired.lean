import DiceNotation.Proofs.Notation.Balanced
import Mathlib.Data.List.Infix

/-!
# Counting parentheses

Parentheses are paired if none is closed before it was opened and none stays open. This is said by
counting, while the scans of a call go by the depth. A scan that starts inside of some parentheses
finds the one that closes them if and only if the text up to it is paired, and the texts that the
scans pass over are the paired ones.
-/

namespace DiceNotation.Notation

open Text (extendFirst)

/-- The number of closing parentheses in a text. -/
def closings (text : List Char) : Nat :=
  text.count ')'

/-- The parentheses of a text that starts inside of `depth` others: the text closes those as well,
and none is closed before it was opened. -/
structure PairedWithin (depth : Nat) (text : List Char) : Prop where
  closings_le : ∀ start, start <+: text → closings start ≤ depth + openings start
  closings_eq : closings text = depth + openings text

/-- The parentheses of a text are paired. -/
abbrev Paired (text : List Char) : Prop :=
  PairedWithin 0 text

/-- Every comma of a text that starts inside of `depth` parentheses stands inside of some. -/
def CommasWithin (depth : Nat) (text : List Char) : Prop :=
  ∀ before after, text = before ++ ',' :: after → closings before < depth + openings before

instance (depth : Nat) (text : List Char) : Decidable (PairedWithin depth text) :=
  decidable_of_iff ((∀ start ∈ text.inits, closings start ≤ depth + openings start) ∧
      closings text = depth + openings text) (by
    simp only [List.mem_inits]
    exact ⟨fun ⟨hle, heq⟩ => ⟨hle, heq⟩, fun ⟨hle, heq⟩ => ⟨hle, heq⟩⟩)

instance (depth : Nat) (text : List Char) : Decidable (CommasWithin depth text) :=
  decidable_of_iff (∀ before ∈ text.inits, before ++ [','] <+: text →
      closings before < depth + openings before) (by
    simp only [List.mem_inits]
    constructor
    · rintro h before after rfl
      exact h before (List.prefix_append _ _) ⟨after, by simp⟩
    · rintro h before - ⟨after, rfl⟩
      exact h before after (by simp))

/-- The depth behind a character. -/
def depthAfter (depth : Nat) (c : Char) : Nat :=
  if c = '(' then depth + 1 else if c = ')' then depth - 1 else depth

/-- The closing parentheses of two texts side by side add up. -/
theorem closings_append (first second : List Char) :
    closings (first ++ second) = closings first + closings second :=
  List.count_append

private theorem closings_cons (c : Char) (text : List Char) :
    closings (c :: text) = closings [c] + closings text :=
  closings_append [c] text

/-- The depth behind a character makes up for it in the counts. -/
theorem depthAfter_add {depth : Nat} {c : Char} (hc : c = ')' → 0 < depth) (text : List Char) :
    depthAfter depth c + openings text + closings [c] = depth + openings (c :: text) := by
  unfold depthAfter openings closings
  by_cases hopen : c = '('
  · simp [hopen]
    omega
  · by_cases hclose : c = ')'
    · have hpos := hc hclose
      simp [hclose]
      omega
    · simp [hopen, hclose]

private theorem depthAfter_add_depth {depth : Nat} {c : Char} (hc : c = ')' → 0 < depth)
    (more : Nat) : depthAfter (depth + more) c = depthAfter depth c + more := by
  unfold depthAfter
  split
  · omega
  · split
    · next hclose =>
      have hpos := hc hclose
      omega
    · rfl

/-- The empty text is paired outside of all parentheses. -/
theorem pairedWithin_nil {depth : Nat} : PairedWithin depth [] ↔ depth = 0 := by
  constructor
  · intro h
    simpa [closings, openings] using h.closings_eq.symm
  · rintro rfl
    refine ⟨fun start hstart => ?_, rfl⟩
    rw [List.prefix_nil.mp hstart]
    exact Nat.le_refl 0

/-- A text is paired if its first character closes no pair too many and the rest is paired. -/
theorem pairedWithin_cons {depth : Nat} {c : Char} {text : List Char} :
    PairedWithin depth (c :: text) ↔
      (c = ')' → 0 < depth) ∧ PairedWithin (depthAfter depth c) text := by
  constructor
  · rintro ⟨hle, heq⟩
    have hc : c = ')' → 0 < depth := by
      rintro rfl
      have hfirst := hle [')'] (by simp)
      simpa [closings, openings, Nat.one_le_iff_ne_zero, Nat.pos_iff_ne_zero] using hfirst
    refine ⟨hc, fun start hstart => ?_, ?_⟩
    · have hstart' := hle (c :: start) (by simpa using hstart)
      have hcounts := depthAfter_add hc start
      rw [closings_cons] at hstart'
      omega
    · have hcounts := depthAfter_add hc text
      rw [closings_cons] at heq
      omega
  · rintro ⟨hc, hle, heq⟩
    refine ⟨fun start hstart => ?_, ?_⟩
    · cases start with
      | nil => exact Nat.zero_le _
      | cons d start =>
        obtain ⟨hd, htail⟩ := List.cons_prefix_cons.mp hstart
        have hcounts := depthAfter_add hc start
        have hstart' := hle start htail
        rw [hd, closings_cons]
        omega
    · have hcounts := depthAfter_add hc text
      rw [closings_cons]
      omega

/-- The empty text has no commas. -/
theorem commasWithin_nil (depth : Nat) : CommasWithin depth [] := by
  intro before after h
  simp at h

/-- The commas of a text stand in parentheses if the first one does and the others do. -/
theorem commasWithin_cons {depth : Nat} {c : Char} {text : List Char} (hc : c = ')' → 0 < depth) :
    CommasWithin depth (c :: text) ↔
      (c = ',' → 0 < depth) ∧ CommasWithin (depthAfter depth c) text := by
  constructor
  · intro h
    refine ⟨?_, fun before after htext => ?_⟩
    · rintro rfl
      exact h [] text rfl
    · have hbefore := h (c :: before) after (by rw [htext, List.cons_append])
      have hcounts := depthAfter_add hc before
      rw [closings_cons] at hbefore
      omega
  · rintro ⟨hcomma, h⟩ before after htext
    cases before with
    | nil =>
      obtain ⟨hfirst, -⟩ := List.cons.inj htext
      exact hcomma hfirst
    | cons d before =>
      obtain ⟨hd, htail⟩ := List.cons.inj htext
      have hbefore := h before after htail
      have hcounts := depthAfter_add hc before
      rw [← hd, closings_cons]
      omega

/-- A scan finds the parenthesis up to which the text is paired. -/
theorem closing?_eq_some_iff {depth : Nat} {text inside after : List Char} :
    closing? depth text = some (inside, after) ↔
      text = inside ++ ')' :: after ∧ PairedWithin depth inside := by
  induction text generalizing depth inside with
  | nil => simp [closing?]
  | cons c text ih =>
    by_cases hend : c = ')' ∧ depth = 0
    · obtain ⟨rfl, rfl⟩ := hend
      cases inside with
      | nil => simp [closing?, pairedWithin_nil]
      | cons d inside =>
        constructor
        · intro hfound
          simp [closing?] at hfound
        · rintro ⟨htext, hpaired⟩
          obtain ⟨rfl, -⟩ := List.cons.inj htext
          exact absurd ((pairedWithin_cons.mp hpaired).1 rfl) (Nat.lt_irrefl 0)
    · have hstep : closing? depth (c :: text) =
          (closing? (depthAfter depth c) text).map fun parts => (c :: parts.1, parts.2) := by
        rw [closing?_cons, if_neg hend, depthAfter]
      have hc : c = ')' → 0 < depth := fun hclose =>
        Nat.pos_of_ne_zero fun hdepth => hend ⟨hclose, hdepth⟩
      rw [hstep]
      cases inside with
      | nil =>
        simp only [Option.map_eq_some_iff, Prod.mk.injEq, reduceCtorEq, false_and, and_false,
          exists_false, List.nil_append, List.cons.injEq, pairedWithin_nil, false_iff]
        rintro ⟨⟨rfl, -⟩, rfl⟩
        exact hend ⟨rfl, rfl⟩
      | cons d inside =>
        simp only [Option.map_eq_some_iff, Prod.exists, Prod.mk.injEq, List.cons.injEq,
          List.cons_append, pairedWithin_cons]
        constructor
        · rintro ⟨first, second, hfound, ⟨rfl, rfl⟩, rfl⟩
          obtain ⟨rfl, hpaired⟩ := ih.mp hfound
          exact ⟨⟨rfl, rfl⟩, hc, hpaired⟩
        · rintro ⟨⟨rfl, rfl⟩, -, hpaired⟩
          exact ⟨inside, after, ih.mpr ⟨rfl, hpaired⟩, ⟨rfl, rfl⟩, rfl⟩

/-- A text that closes more parentheses than `inner` can be parted at the one that closes the
next of them. -/
theorem PairedWithin.exists_closing {inner depth : Nat} {text : List Char}
    (h : PairedWithin (inner + (depth + 1)) text) :
    ∃ inside after, text = inside ++ ')' :: after ∧ PairedWithin inner inside ∧
      PairedWithin depth after := by
  induction text generalizing inner with
  | nil => exact absurd (pairedWithin_nil.mp h) (by omega)
  | cons c text ih =>
    obtain ⟨-, htail⟩ := pairedWithin_cons.mp h
    by_cases hend : c = ')' ∧ inner = 0
    · obtain ⟨rfl, rfl⟩ := hend
      have hdepth : depthAfter (0 + (depth + 1)) ')' = depth := by simp [depthAfter]
      rw [hdepth] at htail
      exact ⟨[], text, rfl, pairedWithin_nil.mpr rfl, htail⟩
    · have hc : c = ')' → 0 < inner := fun hclose =>
        Nat.pos_of_ne_zero fun hinner => hend ⟨hclose, hinner⟩
      rw [depthAfter_add_depth hc] at htail
      obtain ⟨inside, after, rfl, hinside, hafter⟩ := ih htail
      exact ⟨c :: inside, after, rfl, pairedWithin_cons.mpr ⟨hc, hinside⟩, hafter⟩

/-- A text with as many closing as opening parentheses does not matter for the commas behind it. -/
theorem CommasWithin.of_append {depth : Nat} {first second : List Char}
    (h : CommasWithin depth (first ++ second)) (hfirst : closings first = openings first) :
    CommasWithin depth second := by
  rintro before after rfl
  have hbefore := h (first ++ before) after (by rw [List.append_assoc])
  rw [closings_append, openings_append] at hbefore
  omega

/-- A text in which the parentheses are paired is balanced. The flag can be off if all commas
stand inside of parentheses. -/
theorem Balanced.of_paired {commas : Bool} {text : List Char} (hpaired : Paired text)
    (hcommas : commas = false → CommasWithin 0 text) : Balanced commas text := by
  induction hlength : text.length using Nat.strongRecOn generalizing commas text with
  | _ length ih =>
    cases text with
    | nil => exact .nil
    | cons c text =>
      obtain ⟨hc, htail⟩ := pairedWithin_cons.mp hpaired
      have hclose : c ≠ ')' := fun h => absurd (hc h) (Nat.lt_irrefl 0)
      by_cases hopen : c = '('
      · subst hopen
        have hcloses : PairedWithin (0 + (0 + 1)) text := htail
        obtain ⟨inside, after, rfl, hinside, hafter⟩ := hcloses.exists_closing
        have hshorter : inside.length < length ∧ after.length < length := by
          simp only [List.length_cons, List.length_append] at hlength
          omega
        have hcall : closings ('(' :: (inside ++ [')'])) = openings ('(' :: (inside ++ [')'])) := by
          have hcounts := hinside.closings_eq
          simp only [closings, openings] at hcounts ⊢
          simp [hcounts]
        have hrest : commas = false → CommasWithin 0 after := fun hoff =>
          CommasWithin.of_append (by simpa using hcommas hoff) hcall
        have hfirst : Balanced true inside := ih _ hshorter.1 hinside (by simp) rfl
        have hsecond : Balanced commas after := ih _ hshorter.2 hafter hrest rfl
        have hall := Balanced.append (.parentheses hfirst) hsecond
        simpa using hall
      · have hdepth : depthAfter 0 c = 0 := by simp [depthAfter, hopen]
        rw [hdepth] at htail
        have hrest : commas = false → CommasWithin 0 text := fun hoff =>
          hdepth ▸ ((commasWithin_cons hc).mp (hcommas hoff)).2
        have hsecond : Balanced commas text := ih _ (by simp [← hlength]) htail hrest rfl
        by_cases hcomma : c = ','
        · subst hcomma
          cases commas with
          | true => exact .append .comma hsecond
          | false => exact absurd (hcommas rfl [] text rfl) (Nat.lt_irrefl 0)
        · exact .append (.char hopen hclose hcomma) hsecond

end DiceNotation.Notation
