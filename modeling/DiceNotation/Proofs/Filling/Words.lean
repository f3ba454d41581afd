import DiceNotation.Notation.Token
import DiceNotation.Proofs.Filling.Scanning

/-!
# Words with references

A reference that is a word has become an integer, and a word without references has stayed as
it is. Any other word with a reference has a comma or a parenthesis in it, and so has the word
that it has become; neither of the two has a meaning.
-/

namespace DiceNotation.Reference

open Notation
open Text (isBlank isDigit isNameChar integerText)

section

variable {holds : Char → Prop} (hname : ∀ c, isNameChar c = true → holds c)

include hname

private theorem forall_of_isNumeral {text : List Char} (h : Text.isNumeral text = true) :
    ∀ c ∈ text, holds c := by
  simp only [Text.isNumeral, Bool.and_eq_true, List.all_eq_true] at h
  exact fun c hc => hname c (isNameChar_of_isDigit (h.2 c hc))

private theorem forall_of_ofSigned {sign : Operator} {rest : List Char}
    (h : Word.ofSigned sign rest ≠ .stray) : ∀ c ∈ rest, holds c := by
  unfold Word.ofSigned at h
  split at h
  · next hnil => simp [hnil]
  · split at h
    · next hnumeral => exact forall_of_isNumeral hname hnumeral
    · exact absurd rfl h

private theorem forall_of_ofDigits {word : List Char} (h : Word.ofDigits word ≠ .stray) :
    ∀ c ∈ word, holds c := by
  have hdigits : ∀ c ∈ word.takeWhile isDigit, holds c := fun c hc =>
    hname c (isNameChar_of_isDigit (List.all_eq_true.mp List.all_takeWhile c hc))
  have hrest : ∀ c ∈ word.dropWhile isDigit, holds c := by
    unfold Word.ofDigits at h
    dsimp only at h
    split at h
    · next hnil => simp [hnil]
    · next size hsize =>
      rw [hsize]
      split at h
      · next hvalid =>
        intro c hc
        rcases List.mem_cons.mp hc with rfl | hc
        · exact hname 'd' (by decide)
        · have hchar := List.all_eq_true.mp hvalid.2.2 c hc
          exact hname c (by simp [isNameChar, hchar])
      · exact absurd rfl h
    · exact absurd rfl h
  intro c hc
  rw [← List.takeWhile_append_dropWhile (p := isDigit) (l := word)] at hc
  exact (List.mem_append.mp hc).elim (hdigits c) (hrest c)

/-- A word that has a meaning consists of the characters of names and of a few marks, or it is the
sign of a multiplication or of a division. -/
theorem forall_of_ofChars {word : List Char} (hmarks : ∀ c ∈ ['$', '#', '+', '-'], holds c)
    (h : Word.ofChars word ≠ .stray) : (∀ c ∈ word, holds c) ∨ word = ['*'] ∨ word = ['/'] := by
  have hcons {c : Char} {rest : List Char} (hc : holds c) (hrest : ∀ d ∈ rest, holds d) :
      ∀ d ∈ c :: rest, holds d := List.forall_mem_cons.mpr ⟨hc, hrest⟩
  unfold Word.ofChars at h
  split at h
  · split at h
    · next hnumeral =>
      have hrest := hcons (hmarks '#' (by decide)) (forall_of_isNumeral hname hnumeral)
      exact .inl (hcons (hname 'f' (by decide)) (hcons (hname 'n' (by decide)) hrest))
    · exact absurd rfl h
  · split at h
    · next hvalid =>
      have hrest := List.all_eq_true.mp hvalid.2
      exact .inl (hcons (hmarks '$' (by decide)) fun c hc => hname c (hrest c hc))
    · exact absurd rfl h
  · exact .inl (hcons (hmarks '+' (by decide)) (forall_of_ofSigned hname h))
  · exact .inl (hcons (hmarks '-' (by decide)) (forall_of_ofSigned hname h))
  · exact .inr (.inl rfl)
  · exact .inr (.inr rfl)
  · exact .inl (forall_of_ofDigits hname h)

end

/-- A word that has a meaning has no characters in it that separate. -/
theorem isInert_of_ofChars {word : List Char} (h : Word.ofChars word ≠ .stray) :
    ∀ c ∈ word, isInert c = true := by
  have hmarks : ∀ c ∈ ['$', '#', '+', '-'], isInert c = true := List.all_eq_true.mp (by decide)
  rcases forall_of_ofChars (fun c => isInert_of_isNameChar) hmarks h with hword | rfl | rfl
  · exact hword
  · exact List.all_eq_true.mp (by decide)
  · exact List.all_eq_true.mp (by decide)

/-- A word with a character that is not inert means nothing. -/
theorem ofChars_eq_stray {word : List Char} {c : Char} (hc : c ∈ word)
    (hinert : isInert c = false) : Word.ofChars word = .stray := by
  by_contra h
  exact absurd ((isInert_of_ofChars h c hc).symm.trans hinert) (by decide)

/-- A word of digits is an integer. -/
theorem ofDigits_of_forall {numeral : List Char} (hne : numeral ≠ [])
    (h : ∀ c ∈ numeral, isDigit c = true) : Word.ofDigits numeral = .integer false numeral := by
  have htake : numeral.takeWhile isDigit = numeral := List.takeWhile_eq_self_iff.mpr h
  have hdrop : numeral.dropWhile isDigit = [] := List.dropWhile_eq_nil_iff.mpr h
  simp [Word.ofDigits, htake, hdrop, hne]

/-- A word that starts with a digit is an integer, dice or nothing. -/
theorem ofChars_of_isDigit {c : Char} (hc : isDigit c = true) (rest : List Char) :
    Word.ofChars (c :: rest) = Word.ofDigits (c :: rest) := by
  have hrange := Text.toNat_of_isDigit hc
  unfold Word.ofChars
  split <;> simp_all

/-- A numeral whose value is an integer of 64 bits gives this integer. -/
theorem integer?_eq_some {isNegative : Bool} {numeral : List Char} {value : Int64}
    (h : (if isNegative then -(Text.numeralValue numeral : Int) else Text.numeralValue numeral) =
      value.toInt) : integer? isNegative numeral = some value := by
  unfold integer?
  rw [h, if_pos ⟨value.minValue_le_toInt, value.toInt_le⟩, Int64.ofInt_toInt]

/-- The text of an integer is read as the integer. -/
theorem ofChars_integerText (n : Int) :
    Word.ofChars (integerText n) = .integer (decide (n < 0)) (Text.digits n.natAbs) := by
  cases n with
  | ofNat n =>
    have hdigits := ofDigits_of_forall (Text.digits_ne_nil n) fun c => Text.isDigit_of_mem_digits
    change Word.ofChars (Text.digits n) = _
    cases htext : Text.digits n with
    | nil => exact absurd htext (Text.digits_ne_nil n)
    | cons c rest =>
      have hc : isDigit c = true :=
        Text.isDigit_of_mem_digits (n := n) (htext ▸ List.mem_cons_self)
      rw [ofChars_of_isDigit hc, ← htext, hdigits]
      rfl
  | negSucc n =>
    change Word.ofSigned .sub (Text.digits (n + 1)) = _
    rw [Word.ofSigned, if_neg (Text.digits_ne_nil _), if_pos (Text.isNumeral_digits _),
      decide_eq_true (Int.negSucc_lt_zero n)]
    rfl

/-- The digits of an integer and its sign give the integer. -/
theorem integer?_digits (value : Int64) :
    integer? (decide (value.toInt < 0)) (Text.digits value.toInt.natAbs) = some value := by
  apply integer?_eq_some
  rw [Text.numeralValue_digits]
  by_cases hneg : value.toInt < 0
  · rw [decide_eq_true hneg, if_pos rfl]
    omega
  · rw [decide_eq_false hneg, if_neg (by decide)]
    omega

/-- A word that is a number is read as that number. -/
theorem token_integerText (value : Int64) :
    token (integerText value.toInt) = pure (.operand (.number value)) := by
  rw [token, Shelving.token, ofChars_integerText]
  simp only [integer?_digits]

/-- A dollar sign and a name are a variable. -/
theorem ofChars_reference {name : List Char} (hname : name ≠ [])
    (hchars : ∀ c ∈ name, isNameChar c = true) : Word.ofChars ('$' :: name) = .variable name := by
  simp only [Word.ofChars, List.all_eq_true]
  rw [if_pos ⟨hname, hchars⟩]

/-- A reference means the variable of its name, whatever is on the shelf. -/
theorem token_reference {name : List Char} (hname : name ≠ [])
    (hchars : ∀ c ∈ name, isNameChar c = true) :
    token ('$' :: name) = pure (.operand (.variable (String.ofList name))) := by
  rw [token, Shelving.token, ofChars_reference hname hchars]

/-- A word that starts with no dollar sign is no variable. -/
theorem ofChars_ne_variable {word name : List Char} (h : word.head? ≠ some '$') :
    Word.ofChars word ≠ .variable name := by
  intro hvariable
  unfold Word.ofChars at hvariable
  split at hvariable
  · split at hvariable <;> cases hvariable
  · simp at h
  · unfold Word.ofSigned at hvariable
    split at hvariable
    · cases hvariable
    · split at hvariable <;> cases hvariable
  · unfold Word.ofSigned at hvariable
    split at hvariable
    · cases hvariable
    · split at hvariable <;> cases hvariable
  · cases hvariable
  · cases hvariable
  · unfold Word.ofDigits at hvariable
    dsimp only at hvariable
    split at hvariable
    · split at hvariable <;> cases hvariable
    · split at hvariable <;> cases hvariable
    · cases hvariable

variable {table : Variables} {word filled : List Char}

private theorem isInert_eq_false_of_opens {c : Char} (h : opens c = true) : isInert c = false := by
  cases hc : isInert c with
  | false => rfl
  | true => exact absurd (h.symm.trans (opens_eq_false_of_isInert hc)) (by decide)

private theorem isInert_eq_false_of_closes {c : Char} (h : closes c = true) :
    isInert c = false := by
  simp only [closes, Bool.or_eq_true, beq_iff_eq] at h
  rcases h with (h | rfl) | rfl
  · simp [isInert, h]
  · decide
  · decide

/-- A text that cannot start with a reference has none, or has a character in it after which a
reference may stand. -/
theorem Filled.eq_or_opens {mayRefer : Bool} (h : Filled table mayRefer word filled)
    (hmay : mayRefer = false) : word = filled ∨ ∃ c, opens c = true ∧ c ∈ word ∧ c ∈ filled := by
  induction h with
  | nil => exact .inl rfl
  | @char mayRefer c source filled hc hrest ih =>
    cases hopens : opens c with
    | true => exact .inr ⟨c, hopens, List.mem_cons_self, List.mem_cons_self⟩
    | false =>
      rcases ih hopens with rfl | ⟨d, hd, hsource, hfilled⟩
      · exact .inl rfl
      · exact .inr ⟨d, hd, List.mem_cons_of_mem c hsource, List.mem_cons_of_mem c hfilled⟩
  | reference => simp at hmay

/-- A word is the same as before, or it was a reference, or neither it nor what it was has a
meaning. -/
theorem word_cases (h : Filled table true word filled) :
    (filled = word ∧ word.head? ≠ some '$') ∨
      (∃ name value, name ≠ [] ∧ (∀ c ∈ name, isNameChar c = true) ∧
        table.get? (String.ofList name) = some value ∧ word = '$' :: name ∧
        filled = integerText value.toInt) ∨
      (Word.ofChars word = .stray ∧ Word.ofChars filled = .stray) := by
  cases h with
  | nil => exact .inl ⟨rfl, by simp⟩
  | @char _ c source filled hc hrest =>
    by_cases hopens : opens c = true
    · have hinert := isInert_eq_false_of_opens hopens
      exact .inr (.inr ⟨ofChars_eq_stray List.mem_cons_self hinert,
        ofChars_eq_stray List.mem_cons_self hinert⟩)
    · rcases hrest.eq_or_opens (by simpa using hopens) with rfl | ⟨d, hd, hsource, hfilled⟩
      · exact .inl ⟨rfl, by simpa using hc⟩
      · have hinert := isInert_eq_false_of_opens hd
        exact .inr (.inr ⟨ofChars_eq_stray (List.mem_cons_of_mem c hsource) hinert,
          ofChars_eq_stray (List.mem_cons_of_mem c hfilled) hinert⟩)
  | @reference name source filled value hname hchars hvalue hstop hrest =>
    cases hrest with
    | nil => exact .inr (.inl ⟨name, value, hname, hchars, hvalue, by simp, by simp⟩)
    | @char _ c source filled hc hrest =>
      have hinert := isInert_eq_false_of_closes (show closes c = true from hstop)
      exact .inr (.inr ⟨ofChars_eq_stray (by simp) hinert, ofChars_eq_stray (by simp) hinert⟩)

end DiceNotation.Reference
