import DiceNotation.Proofs.Filling.Filled

/-!
# Filling a text twice

Values have no dollar signs in them, but this does not mean that filling leaves no references
behind. A dollar sign without a name stays in the text, and if a reference stands right behind it,
then the digits of its value become a name for that dollar sign. A second filling takes them for a
reference. This is the only way in which a filled text can have references, and for that reason
the only case in which a second filling does not give the same text again.
-/

namespace DiceNotation.Reference

open Text (isDigit isNameChar integerText)

/-- A text and what filling makes of it, piece by piece. -/
inductive Fills (table : Variables) : List Char → List Char → Prop
  | nil : Fills table [] []
  | dollar {text filled : List Char} (hname : text.takeWhile isNameChar = [])
      (hrest : Fills table text filled) : Fills table ('$' :: text) ('$' :: filled)
  | reference {text filled : List Char} {value : Int64} (hname : text.takeWhile isNameChar ≠ [])
      (hvalue : table.get? (String.ofList (text.takeWhile isNameChar)) = some value)
      (hrest : Fills table (text.dropWhile isNameChar) filled) :
      Fills table ('$' :: text) (integerText value.toInt ++ filled)
  | char {c : Char} {text filled : List Char} (hc : c ≠ '$') (hrest : Fills table text filled) :
      Fills table (c :: text) (c :: filled)

/-- What follows each dollar sign of a text has a property. -/
def AfterDollars (holds : List Char → Prop) (text : List Char) : Prop :=
  ∀ before after, text = before ++ '$' :: after → holds after

/-- No dollar sign of a text starts a reference. -/
def NoReference (text : List Char) : Prop :=
  AfterDollars (fun after => after.takeWhile isNameChar = []) text

/-- A text does not start with a reference that will be filled with digits. A reference with a
negative value will be filled with a sign first. -/
def StartsWithoutDigits (table : Variables) (text : List Char) : Prop :=
  text.head? = some '$' → text.tail.takeWhile isNameChar = [] ∨
    (table.get? (String.ofList (text.tail.takeWhile isNameChar))).all (· < 0) = true

/-- No dollar sign of a text stands right before a reference that will be filled with digits. -/
def StaysApart (table : Variables) (text : List Char) : Prop :=
  AfterDollars (StartsWithoutDigits table) text

variable {holds : List Char → Prop} {table : Variables} {text filled : List Char}

/-- Whether a property holds after each dollar sign can be seen from the places in the text. -/
instance [DecidablePred holds] : Decidable (AfterDollars holds text) :=
  decidable_of_iff _ (@forall_dollar_iff text fun _ after => holds after).symm

instance : DecidablePred (StartsWithoutDigits table) :=
  fun _ => inferInstanceAs (Decidable (_ → _))

instance : Decidable (NoReference text) :=
  inferInstanceAs (Decidable (AfterDollars _ text))

instance : Decidable (StaysApart table text) :=
  inferInstanceAs (Decidable (AfterDollars _ text))

/-- A result that was mapped comes from a result. -/
theorem exists_of_map_eq_ok {ε α β : Type} {f : α → β} {x : Except ε α} {b : β}
    (h : f <$> x = .ok b) : ∃ a, x = .ok a ∧ f a = b := by
  cases x with
  | error e => cases h
  | ok a => exact ⟨a, rfl, Except.ok.inj h⟩

/-- Filling goes piece by piece. -/
theorem fills_of_fillChars (h : fillChars table text = .ok filled) : Fills table text filled := by
  fun_induction fillChars table text generalizing filled with
  | case1 =>
    cases h
    exact .nil
  | case2 rest name hname =>
    rename_i ih
    obtain ⟨filled, hrest, rfl⟩ := exists_of_map_eq_ok h
    exact .dollar hname (ih hrest)
  | case3 => cases h
  | case4 rest name hname value hvalue =>
    rename_i ih
    obtain ⟨filled, hrest, rfl⟩ := exists_of_map_eq_ok h
    exact .reference hname hvalue (ih hrest)
  | case5 c rest hc ih =>
    obtain ⟨filled, hrest, rfl⟩ := exists_of_map_eq_ok h
    exact .char hc (ih hrest)

/-- What is made piece by piece is the filled text. -/
theorem Fills.fillChars_eq (h : Fills table text filled) : fillChars table text = .ok filled := by
  induction h with
  | nil => rw [fillChars]
  | dollar hname _ ih =>
    rw [fillChars, if_pos rfl, if_pos hname, ih]
    rfl
  | reference hname hvalue _ ih =>
    rw [fillChars, if_pos rfl, if_neg hname, hvalue, ih]
    rfl
  | char hc _ ih =>
    rw [fillChars, if_neg hc, ih]
    rfl

private theorem afterDollars_nil : AfterDollars holds [] := by
  intro before after h
  cases before <;> cases h

/-- A dollar sign at the start has the rest of the text after it. -/
theorem afterDollars_cons_self :
    AfterDollars holds ('$' :: text) ↔ holds text ∧ AfterDollars holds text := by
  constructor
  · intro h
    refine ⟨h [] text rfl, fun before after htext => ?_⟩
    exact h ('$' :: before) after (by rw [htext, List.cons_append])
  · rintro ⟨hfirst, hrest⟩ before after htext
    cases before with
    | nil =>
      obtain rfl : text = after := (List.cons.inj htext).2
      exact hfirst
    | cons c before => exact hrest before after (List.cons.inj htext).2

/-- A character that is no dollar sign does not matter. -/
theorem afterDollars_cons_of_ne {c : Char} (hc : c ≠ '$') :
    AfterDollars holds (c :: text) ↔ AfterDollars holds text := by
  constructor
  · intro h before after htext
    exact h (c :: before) after (by rw [htext, List.cons_append])
  · intro h before after htext
    cases before with
    | nil => exact absurd (List.cons.inj htext).1 hc
    | cons d before => exact h before after (List.cons.inj htext).2

/-- Characters that are no dollar signs do not matter. -/
theorem afterDollars_append {first : List Char} (hfirst : ∀ c ∈ first, c ≠ '$') :
    AfterDollars holds (first ++ text) ↔ AfterDollars holds text := by
  induction first with
  | nil => exact Iff.rfl
  | cons c first ih =>
    have hc : c ≠ '$' := hfirst c List.mem_cons_self
    have hrest := ih fun d hd => hfirst d (List.mem_cons_of_mem c hd)
    rw [List.cons_append, afterDollars_cons_of_ne hc, hrest]

private theorem ne_dollar_of_isNameChar {c : Char} (h : isNameChar c = true) : c ≠ '$' := by
  rintro rfl
  exact absurd h (by decide)

private theorem ne_dollar_of_mem_integerText {n : Int} {c : Char} (h : c ∈ integerText n) :
    c ≠ '$' := by
  rcases mem_integerText h with hdigit | rfl
  · exact ne_dollar_of_isNameChar (isNameChar_of_isDigit hdigit)
  · decide

/-- A name in front of a text does not matter. -/
theorem afterDollars_dropWhile :
    AfterDollars holds (text.dropWhile isNameChar) ↔ AfterDollars holds text := by
  have hname : ∀ c ∈ text.takeWhile isNameChar, c ≠ '$' :=
    fun c hc => ne_dollar_of_isNameChar (List.all_eq_true.mp List.all_takeWhile c hc)
  rw [← afterDollars_append hname, List.takeWhile_append_dropWhile]

private theorem count_dollar_eq_zero {first : List Char} (hfirst : ∀ c ∈ first, c ≠ '$') :
    first.count '$' = 0 :=
  List.count_eq_zero.mpr fun hmem => hfirst '$' hmem rfl

/-- The text of an integer starts with a character of a name unless the integer is negative. -/
theorem takeWhile_integerText_eq_nil_iff {value : Int64} :
    (integerText value.toInt ++ filled).takeWhile isNameChar = [] ↔ value < 0 := by
  have hnegative : value < 0 ↔ value.toInt < 0 := Int64.lt_iff_toInt_lt
  rw [hnegative]
  cases hvalue : value.toInt with
  | ofNat n =>
    cases htext : Text.digits n with
    | nil => exact absurd htext (Text.digits_ne_nil n)
    | cons c rest =>
      have hdigit : isDigit c = true :=
        Text.isDigit_of_mem_digits (n := n) (htext ▸ List.mem_cons_self)
      have hname : isNameChar c = true := isNameChar_of_isDigit hdigit
      simp only [integerText, htext, List.cons_append, List.takeWhile_cons_of_pos hname]
      simp
  | negSucc n =>
    have hsign : isNameChar '-' ≠ true := by decide
    simp only [integerText, List.cons_append, List.takeWhile_cons_of_neg hsign, true_iff]
    exact Int.negSucc_lt_zero n

/-- If a text does not go on a name, then the filled text goes on one exactly if the text starts
with a reference that is filled with digits. -/
theorem Fills.takeWhile_eq_nil_iff (h : Fills table text filled)
    (hname : text.takeWhile isNameChar = []) :
    filled.takeWhile isNameChar = [] ↔ StartsWithoutDigits table text := by
  have hdollar : isNameChar '$' ≠ true := by decide
  cases h with
  | nil => simp [StartsWithoutDigits]
  | dollar hname' hrest =>
    rw [List.takeWhile_cons_of_neg hdollar]
    simp [StartsWithoutDigits, hname']
  | reference hname' hvalue hrest =>
    rw [takeWhile_integerText_eq_nil_iff]
    simp [StartsWithoutDigits, hname', hvalue]
  | @char c text filled hc hrest =>
    have hchar : isNameChar c ≠ true := by
      intro hchar
      rw [List.takeWhile_cons_of_pos hchar] at hname
      cases hname
    rw [List.takeWhile_cons_of_neg hchar]
    simp [StartsWithoutDigits, hc]

/-- A filled text has no references exactly if no dollar sign stood right before a reference that
was filled with digits. -/
theorem Fills.noReference_iff (h : Fills table text filled) :
    NoReference filled ↔ StaysApart table text := by
  unfold NoReference StaysApart
  induction h with
  | nil => exact ⟨fun _ => afterDollars_nil, fun _ => afterDollars_nil⟩
  | dollar hname hrest ih =>
    rw [afterDollars_cons_self, afterDollars_cons_self, ih, hrest.takeWhile_eq_nil_iff hname]
  | @reference text filled value hname hvalue hrest ih =>
    have hstart : StartsWithoutDigits table text := by
      intro hhead
      cases text with
      | nil => cases hhead
      | cons c text =>
        obtain rfl : c = '$' := Option.some.inj hhead
        exact absurd (List.takeWhile_cons_of_neg (by decide)) hname
    rw [afterDollars_append fun c => ne_dollar_of_mem_integerText, ih, afterDollars_dropWhile,
      afterDollars_cons_self]
    exact ⟨fun hapart => ⟨hstart, hapart⟩, fun hapart => hapart.2⟩
  | char hc hrest ih => rw [afterDollars_cons_of_ne hc, afterDollars_cons_of_ne hc, ih]

/-- Filling does not change a text without references. -/
theorem fills_self (h : NoReference text) : Fills table text text := by
  induction text with
  | nil => exact .nil
  | cons c text ih =>
    by_cases hc : c = '$'
    · subst hc
      obtain ⟨hname, hrest⟩ := afterDollars_cons_self.mp h
      exact .dollar hname (ih hrest)
    · have hrest := (afterDollars_cons_of_ne hc).mp h
      exact .char hc (ih hrest)

/-- Filling makes no dollar signs. -/
theorem Fills.count_le (h : Fills table text filled) : filled.count '$' ≤ text.count '$' := by
  induction h with
  | nil => exact Nat.le_refl _
  | dollar _ _ ih => simpa using ih
  | @reference text filled value _ _ _ ih =>
    have hvalue := count_dollar_eq_zero fun c => ne_dollar_of_mem_integerText (n := value.toInt)
    have hdrop := (List.dropWhile_sublist (l := text) isNameChar).count_le '$'
    rw [List.count_append, hvalue, List.count_cons_self]
    omega
  | char hc _ ih => simpa [hc] using ih

/-- Filling takes away a dollar sign with each reference, so that a text that keeps all of them
has none. -/
theorem Fills.noReference_of_count_le (h : Fills table text filled)
    (hcount : text.count '$' ≤ filled.count '$') : NoReference text := by
  induction h with
  | nil => exact afterDollars_nil
  | dollar hname _ ih =>
    have hrest := ih (by simpa using hcount)
    exact afterDollars_cons_self.mpr ⟨hname, hrest⟩
  | @reference text filled value _ _ hrest _ =>
    have hvalue := count_dollar_eq_zero fun c => ne_dollar_of_mem_integerText (n := value.toInt)
    have hdrop := (List.dropWhile_sublist (l := text) isNameChar).count_le '$'
    have hle := hrest.count_le
    rw [List.count_append, hvalue, List.count_cons_self] at hcount
    omega
  | char hc _ ih =>
    have hrest := ih (by simpa [hc] using hcount)
    exact (afterDollars_cons_of_ne hc).mpr hrest

/-- Filling leaves a text as it is exactly if the text has no references. -/
theorem fills_self_iff : Fills table text text ↔ NoReference text := by
  constructor
  · intro h
    exact h.noReference_of_count_le (Nat.le_refl _)
  · exact fills_self

/-- Filling a notation succeeds with what is made of it piece by piece. -/
theorem fill_eq_ok_iff {source result : String} :
    fill table source = .ok result ↔ Fills table source.toList result.toList := by
  constructor
  · intro h
    obtain ⟨chars, hchars, rfl⟩ := exists_of_map_eq_ok h
    rw [String.toList_ofList]
    exact fills_of_fillChars hchars
  · intro h
    rw [fill, h.fillChars_eq]
    exact congrArg Except.ok String.ofList_toList

/-- Filling a second time gives the same text exactly if no reference was left, and a reference is
left exactly if a dollar sign stood right before a reference that was filled with digits. -/
theorem fill_filled_iff {table : Variables} {source filled : String}
    (h : fill table source = .ok filled) :
    (fill table filled = .ok filled ↔ NoReference filled.toList) ∧
      (NoReference filled.toList ↔ StaysApart table source.toList) := by
  rw [fill_eq_ok_iff] at h
  rw [fill_eq_ok_iff]
  exact ⟨fills_self_iff, h.noReference_iff⟩

/-- A dollar sign before a reference with a negative value leaves no reference behind. -/
theorem fill_filled_negative :
    let table : Variables := [("x", -2)]
    fill table "1 + $$x" = .ok "1 + $-2" ∧ fill table "1 + $-2" = .ok "1 + $-2" := by
  intro table
  have hvalue : Fills table ['$', 'x'] (integerText (-2 : Int64).toInt ++ []) := by
    refine .reference ?_ ?_ .nil
    · decide
    · rfl
  have h : fill table "1 + $$x" = .ok "1 + $-2" :=
    fill_eq_ok_iff.mpr (.char (by decide) (.char (by decide) (.char (by decide)
      (.char (by decide) (.dollar rfl hvalue)))))
  have hfilled := fill_filled_iff h
  exact ⟨h, hfilled.1.mpr (hfilled.2.mpr (by decide))⟩

/-- Filling a filled text does not always give the same text again: in `$$x` the first dollar sign
stays, and the value of `x` becomes a name for it. -/
theorem not_forall_fill_filled :
    ¬∀ (table : Variables) (source filled : String),
      fill table source = .ok filled → fill table filled = .ok filled := by
  intro hsame
  have hvalue : Fills [("x", 3)] ['$', 'x'] (integerText (3 : Int64).toInt ++ []) := by
    refine .reference ?_ ?_ .nil
    · decide
    · rfl
  have h : fill [("x", 3)] "$$x" = .ok "$3" := fill_eq_ok_iff.mpr (.dollar rfl hvalue)
  have hnone : NoReference "$3".toList := fills_self_iff.mp (fill_eq_ok_iff.mp (hsame _ _ _ h))
  exact absurd hnone (by decide)

end DiceNotation.Reference
