import DiceNotation.Proofs.Filling.Words
import DiceNotation.Proofs.Notation.Agreement

/-!
# Texts of operands

The texts of numbers, variables, dice and operators are single words, and mean what they are the
texts of. Such a word has no blanks, commas or parentheses in it, so that it is never cut.
-/

namespace DiceNotation

open Text (isDigit isNameChar)

/-- More digits do not make a number smaller. -/
theorem Text.le_ofDigitChars (digits : List Char) (soFar : Nat) :
    soFar ≤ Nat.ofDigitChars 10 digits soFar := by
  induction digits generalizing soFar with
  | nil => simp
  | cons c rest ih =>
    have hrest := ih (10 * soFar + (c.toNat - '0'.toNat))
    rw [Nat.ofDigitChars_cons]
    omega

namespace Die

/-- Digits are read as the number that they stand for, if that is not too large. -/
theorem readSides_eq_ok {soFar : Nat} {digits : List Char}
    (hdigits : ∀ c ∈ digits, isDigit c = true)
    (hsize : Nat.ofDigitChars 10 digits soFar < UInt32.size) :
    readSides soFar digits = .ok (Nat.ofDigitChars 10 digits soFar) := by
  induction digits generalizing soFar with
  | nil => simp [readSides]
  | cons c rest ih =>
    rw [Nat.ofDigitChars_cons] at hsize ⊢
    have hnext := Nat.lt_of_le_of_lt (Text.le_ofDigitChars rest _) hsize
    rw [readSides, if_neg (by simp [hdigits c])]
    simp only [if_pos hnext]
    exact ih (fun d hd => hdigits d (List.mem_cons_of_mem c hd)) hsize

/-- The digits of a number of 32 bits are read as the number. -/
theorem readNumber_digits {n : Nat} (h : n < UInt32.size) : readNumber (Text.digits n) = .ok n := by
  have hvalue : Nat.ofDigitChars 10 (Text.digits n) 0 = n := Text.numeralValue_digits n
  have hdigits : ∀ c ∈ Text.digits n, isDigit c = true := fun c => Text.isDigit_of_mem_digits
  have hread : readSides 0 (Text.digits n) = .ok n := by
    rw [readSides_eq_ok hdigits (hvalue.symm ▸ h), hvalue]
  have hplus : '+' ∉ Text.digits n := fun hmem => absurd (hdigits '+' hmem) (by decide)
  unfold readNumber
  split
  · next hnil => exact absurd hnil (Text.digits_ne_nil n)
  · next hsign => simp [hsign] at hplus
  · next hsign => simp [hsign] at hplus
  · exact hread

/-- The text of a die is read as that die. -/
theorem ofText_render (die : Die) : ofText die.render = .ok die := by
  cases die with
  | fate => rfl
  | sided sides valid =>
    have hne : Text.digits sides ≠ ['F'] := by
      intro hfate
      have hdigit : isDigit 'F' = true :=
        Text.isDigit_of_mem_digits (n := sides) (hfate ▸ List.mem_singleton.mpr rfl)
      exact absurd hdigit (by decide)
    simp only [render, ofText, if_neg hne, readNumber_digits valid.2, ofSides?, dif_pos valid]

private theorem render_ne_nil (die : Die) : die.render ≠ [] := by
  cases die with
  | sided sides valid => exact Text.digits_ne_nil sides
  | fate => simp [render]

private theorem isAlphanumeric_of_mem_render {die : Die} {c : Char} (h : c ∈ die.render) :
    Text.isAlphanumeric c = true := by
  cases die with
  | sided sides valid =>
    have hdigit : isDigit c = true := Text.isDigit_of_mem_digits h
    simp [Text.isAlphanumeric, hdigit]
  | fate =>
    obtain rfl := List.mem_singleton.mp h
    decide

end Die

namespace Notation

/-- A numeral, a `d` and a size are dice. -/
theorem ofDigits_dice {count size : List Char} (hcount : count ≠ [])
    (hdigits : ∀ c ∈ count, isDigit c = true) (hsize : size ≠ [])
    (hchars : ∀ c ∈ size, Text.isAlphanumeric c = true) :
    Word.ofDigits (count ++ 'd' :: size) = .dice count size := by
  have htake : (count ++ 'd' :: size).takeWhile isDigit = count := by
    rw [List.takeWhile_append_of_pos hdigits, List.takeWhile_cons_of_neg (by decide),
      List.append_nil]
  have hdrop : (count ++ 'd' :: size).dropWhile isDigit = 'd' :: size := by
    rw [List.dropWhile_append_of_pos hdigits, List.dropWhile_cons_of_neg (by decide)]
  have hvalid : count ≠ [] ∧ size ≠ [] ∧ size.all Text.isAlphanumeric = true :=
    ⟨hcount, hsize, List.all_eq_true.mpr hchars⟩
  simp only [Word.ofDigits, htake, hdrop, if_pos hvalid]

/-- The text of a pool is recognized as dice. -/
theorem ofChars_pool (pool : Pool) :
    Word.ofChars pool.render = .dice (Text.digits pool.count.toNat) pool.die.render := by
  have hdice := ofDigits_dice (Text.digits_ne_nil pool.count.toNat)
    (fun c => Text.isDigit_of_mem_digits) pool.die.render_ne_nil
    fun c => Die.isAlphanumeric_of_mem_render
  unfold Pool.render
  cases hcount : Text.digits pool.count.toNat with
  | nil => exact absurd hcount (Text.digits_ne_nil _)
  | cons c rest =>
    have hc : isDigit c = true :=
      Text.isDigit_of_mem_digits (n := pool.count.toNat) (hcount ▸ List.mem_cons_self)
    rw [List.cons_append, Reference.ofChars_of_isDigit hc, ← List.cons_append, ← hcount, hdice]

/-- The text of a pool is a word that means that pool. -/
theorem meaning?_pool (pool : Pool) : meaning? pool.render = some (.operand (.dice pool)) := by
  have hcount : Text.numeralValue (Text.digits pool.count.toNat) = pool.count.toNat :=
    Text.numeralValue_digits _
  have hpool : Notation.pool pool.render (Text.digits pool.count.toNat) pool.die.render =
      .ok pool := by
    simp only [Notation.pool, hcount, if_pos pool.count.toNat_lt, Die.ofText_render]
    rw [UInt64.ofNat_toNat]
  rw [meaning?, ofChars_pool]
  simp only [hpool]
  rfl

/-- The text of an integer means the integer. -/
theorem meaning?_integerText (value : Int64) :
    meaning? (Text.integerText value.toInt) = some (.operand (.number value)) := by
  rw [meaning?, Reference.ofChars_integerText]
  simp only [Reference.integer?_digits, Option.map_some]

/-- A reference means the variable of its name. -/
theorem meaning?_reference {name : List Char} (hname : name ≠ [])
    (hchars : ∀ c ∈ name, isNameChar c = true) :
    meaning? ('$' :: name) = some (.operand (.variable (String.ofList name))) := by
  rw [meaning?, Reference.ofChars_reference hname hchars]

/-- The sign of an operator means the operator. -/
theorem meaning?_symbol (operator : Operator) :
    meaning? [operator.symbol] = some (.operator operator) := by
  cases operator <;> rfl

section

variable {word : List Char} (hform : Word.ofChars word ≠ .stray)

include hform

/-- A word that is recognized is not empty. -/
theorem ne_nil_of_ofChars : word ≠ [] := by
  rintro rfl
  exact hform rfl

/-- A word that is recognized is balanced. -/
theorem balanced_of_ofChars {commas : Bool} : Balanced commas word :=
  Reference.balanced_of_isInert (Reference.isInert_of_ofChars hform)

/-- A word that is recognized has no blanks at its ends. -/
theorem tight_of_ofChars : Tight word := by
  apply Tight.of_forall (ne_nil_of_ofChars hform)
  intro c hc
  exact (Reference.ne_of_isInert (Reference.isInert_of_ofChars hform c hc)).1

/-- A word that is a text of its own is the only token of the text. -/
theorem row?_word {token : Token} (hmeaning : meaning? word = some token) :
    row? word = some [token] := by
  have hinert := Reference.isInert_of_ofChars hform
  have hopenings : openings word = 0 :=
    List.count_eq_zero.mpr fun hmem => (Reference.ne_of_isInert (hinert _ hmem)).2.2.1 rfl
  have hcomma : word.getLast? ≠ some ',' := by
    intro hlast
    exact (Reference.ne_of_isInert (hinert _ (List.mem_of_getLast? hlast))).2.1 rfl
  have hwords : wordsOf word = [word] :=
    wordsOf_word (ne_nil_of_ofChars hform) hcomma fun c hc =>
      (Reference.ne_of_isInert (hinert c hc)).1
  have hnone : leftmostCall word = .ok none := leftmostCall_eq_none.mpr (opening?_eq_none hopenings)
  rw [row?_of_none hnone, hwords, List.mapM_cons, hmeaning]
  rfl

end

end Notation

end DiceNotation
