import DiceNotation.Proofs.Notation.Fetching
import DiceNotation.Proofs.Notation.Lexing

/-!
# Meanings by form

The form of a word as a whole decides what it means. Numbers in it count as they are, however many
digits they have: a word whose numbers are out of range is refused, and nothing wraps. A lexer that
takes the longest lexemes leads to the same meanings, with no word for dice that cannot be split.
-/

namespace DiceNotation

open Text (isDigit isNumeral numeralValue)

namespace Die

/-- A text is the size of a die: it is `F`, or the number of sides in decimal. -/
inductive SizedBy : List Char → Die → Prop
  | fate : SizedBy ['F'] .fate
  | sided {size} (hnumeral : isNumeral size = true)
    (valid : 0 < numeralValue size ∧ numeralValue size < UInt32.size) :
    SizedBy size (.sided (numeralValue size) valid)

/-- Only digits are read. -/
theorem of_readSides_eq_ok {soFar sides : Nat} {text : List Char}
    (h : readSides soFar text = .ok sides) :
    (∀ c ∈ text, isDigit c = true) ∧ sides = Nat.ofDigitChars 10 text soFar := by
  induction text generalizing soFar with
  | nil =>
    obtain rfl := Except.ok.inj h
    exact ⟨fun c hc => absurd hc List.not_mem_nil, Nat.ofDigitChars_nil.symm⟩
  | cons c text ih =>
    rw [readSides] at h
    split at h
    · cases h
    · next hdigit =>
      dsimp only at h
      split at h
      · obtain ⟨hdigits, rfl⟩ := ih h
        rw [Nat.ofDigitChars_cons]
        exact ⟨List.forall_mem_cons.mpr ⟨by simpa using hdigit, hdigits⟩, rfl⟩
      · cases h

/-- A text without a plus sign is read as a die if it is the size of the die. -/
theorem ofText_eq_ok_iff {size : List Char} {die : Die} (hplus : '+' ∉ size) :
    ofText size = .ok die ↔ SizedBy size die := by
  have hread : size ≠ [] → readNumber size = readSides 0 size := by
    intro hne
    unfold readNumber
    split
    · exact absurd rfl hne
    · simp at hplus
    · simp at hplus
    · rfl
  unfold ofText
  constructor
  · intro h
    split at h
    · next hfate =>
      obtain rfl := Except.ok.inj h
      exact hfate ▸ .fate
    · split at h
      · cases h
      · next sides hsides =>
        have hne : size ≠ [] := by
          rintro rfl
          cases hsides
        rw [hread hne] at hsides
        obtain ⟨hdigits, rfl⟩ := of_readSides_eq_ok hsides
        split at h
        · next die' hdie =>
          obtain rfl := Except.ok.inj h
          unfold ofSides? at hdie
          split at hdie
          · obtain rfl := Option.some.inj hdie
            exact .sided (Notation.isNumeral_iff.mpr ⟨hne, hdigits⟩) _
          · cases hdie
        · cases h
  · intro h
    cases h with
    | fate => rfl
    | sided hnumeral valid =>
      obtain ⟨hne, hdigits⟩ := Notation.isNumeral_iff.mp hnumeral
      have hfate : size ≠ ['F'] := by
        rintro rfl
        exact absurd hnumeral (by decide)
      have hsides : readNumber size = .ok (numeralValue size) := by
        rw [hread hne]
        exact readSides_eq_ok hdigits valid.2
      rw [if_neg hfate, hsides]
      simp only [ofSides?, dif_pos valid]

end Die

namespace Notation

/-- Whether an integer in decimal is negative, and its numeral. -/
def signedParts : List Char → Bool × List Char
  | '+' :: numeral => (false, numeral)
  | '-' :: numeral => (true, numeral)
  | numeral => (false, numeral)

/-- The number that an integer in decimal stands for. -/
def signedValue (word : List Char) : Int :=
  if (signedParts word).1 then -numeralValue (signedParts word).2
  else numeralValue (signedParts word).2

/-- The texts before and after the first of a character. -/
def splitOnce? (separator : Char) : List Char → Option (List Char × List Char)
  | [] => none
  | c :: rest =>
    if c = separator then some ([], rest)
    else (splitOnce? separator rest).map fun parts => (c :: parts.1, parts.2)

private theorem splitOnce?_append {separator : Char} {before : List Char} (h : separator ∉ before)
    (after : List Char) :
    splitOnce? separator (before ++ separator :: after) = some (before, after) := by
  induction before with
  | nil => simp [splitOnce?]
  | cons c before ih =>
    obtain ⟨hc, hbefore⟩ := not_or.mp (mt List.mem_cons.mpr h)
    rw [List.cons_append, splitOnce?, if_neg (Ne.symm hc), ih hbefore]
    rfl

/-- A text is split at the first of a character in only one way. -/
theorem split_inj {separator : Char} {before before' after after' : List Char}
    (h : separator ∉ before) (h' : separator ∉ before')
    (heq : before ++ separator :: after = before' ++ separator :: after') :
    before = before' ∧ after = after' := by
  have hsplit := splitOnce?_append h after
  rw [heq, splitOnce?_append h'] at hsplit
  simpa [eq_comm] using hsplit

private theorem notMem_of_isNumeral {numeral : List Char} (h : isNumeral numeral = true) {c : Char}
    (hc : isDigit c = false) : c ∉ numeral := by
  intro hmem
  exact absurd (((isNumeral_iff.mp h).2 c hmem).symm.trans hc) (by decide)

private theorem signedParts_numeral {numeral : List Char} (h : isNumeral numeral = true) :
    signedParts numeral = (false, numeral) := by
  have hplus := notMem_of_isNumeral h (by decide : isDigit '+' = false)
  have hminus := notMem_of_isNumeral h (by decide : isDigit '-' = false)
  unfold signedParts
  split
  · simp at hplus
  · simp at hminus
  · rfl

variable {word : List Char}

/-- A word is recognized as a placeholder exactly if it has the form of one. -/
theorem ofChars_eq_placeholder_iff {numeral : List Char} :
    Word.ofChars word = .placeholder numeral ↔
      word ∈ Form.placeholder.language ∧ word = 'f' :: 'n' :: '#' :: numeral := by
  constructor
  · intro h
    cases spelled_of_ofChars h (by simp) with
    | placeholder hnumeral => exact ⟨mem_placeholder_iff.mpr ⟨_, hnumeral, rfl⟩, rfl⟩
  · rintro ⟨hmem, rfl⟩
    obtain ⟨numeral', hnumeral, heq⟩ := mem_placeholder_iff.mp hmem
    simp only [List.cons.injEq, true_and] at heq
    subst heq
    exact ofChars_of_spelled (.placeholder hnumeral)

/-- A word is recognized as an integer exactly if it has the form of one. -/
theorem ofChars_eq_integer_iff {isNegative : Bool} {numeral : List Char} :
    Word.ofChars word = .integer isNegative numeral ↔
      word ∈ Form.integer.language ∧ signedParts word = (isNegative, numeral) := by
  constructor
  · intro h
    have hmem := form_ofChars_iff.mp (show (Word.ofChars word).form = some .integer by rw [h]; rfl)
    refine ⟨hmem, ?_⟩
    cases spelled_of_ofChars h (by simp) with
    | unsigned hnumeral => exact signedParts_numeral hnumeral
    | plus hnumeral => rfl
    | minus hnumeral => rfl
  · rintro ⟨hmem, hparts⟩
    obtain ⟨numeral', hnumeral, hword⟩ := mem_integer_iff.mp hmem
    rcases hword with rfl | rfl | rfl
    · rw [signedParts_numeral hnumeral] at hparts
      cases hparts
      exact ofChars_of_spelled (.unsigned hnumeral)
    · cases hparts
      exact ofChars_of_spelled (.plus hnumeral)
    · cases hparts
      exact ofChars_of_spelled (.minus hnumeral)

/-- A word is recognized as dice exactly if it has the form, and parted at the first `d`. -/
theorem ofChars_eq_dice_iff {count size : List Char} :
    Word.ofChars word = .dice count size ↔
      word ∈ Form.dice.language ∧ word = count ++ 'd' :: size ∧ 'd' ∉ count := by
  constructor
  · intro h
    cases spelled_of_ofChars h (by simp) with
    | dice hcount hsize hchars =>
      exact ⟨mem_dice_iff.mpr ⟨_, _, hcount, hsize, hchars, rfl⟩, rfl,
        notMem_of_isNumeral hcount (by decide)⟩
  · rintro ⟨hmem, rfl, hd⟩
    obtain ⟨count', size', hcount, hsize, hchars, heq⟩ := mem_dice_iff.mp hmem
    obtain ⟨rfl, rfl⟩ := split_inj hd (notMem_of_isNumeral hcount (by decide)) heq
    exact ofChars_of_spelled (.dice hcount hsize hchars)

/-- A word is recognized as an operator exactly if it has the form of one. -/
theorem ofChars_eq_operator_iff {operator : Operator} :
    Word.ofChars word = .operator operator ↔ word ∈ (Form.operator operator).language := by
  constructor
  · intro h
    exact form_ofChars_iff.mp (by rw [h]; rfl)
  · intro h
    rw [mem_operator_iff.mp h]
    exact ofChars_of_spelled (.operator operator)

/-- A word is recognized as a variable exactly if it has the form of one. -/
theorem ofChars_eq_variable_iff {name : List Char} :
    Word.ofChars word = .variable name ↔
      word ∈ Form.variable.language ∧ word = '$' :: name := by
  constructor
  · intro h
    cases spelled_of_ofChars h (by simp) with
    | «variable» hname hchars => exact ⟨mem_variable_iff.mpr ⟨_, hname, hchars, rfl⟩, rfl⟩
  · rintro ⟨hmem, rfl⟩
    obtain ⟨name', hname, hchars, heq⟩ := mem_variable_iff.mp hmem
    simp only [List.cons.injEq, true_and] at heq
    subst heq
    exact ofChars_of_spelled (.variable hname hchars)

/-- A word for dice, as the texts before and behind its first `d`. -/
structure IsDice (word count size : List Char) : Prop where
  form : word ∈ Form.dice.language
  parts : word = count ++ 'd' :: size
  first : 'd' ∉ count

/-- What looking up a word gives, and the state that it leaves. -/
abbrev Lookup := EStateM.Result NotationError ReadState Token

/-- What looking up a word gives, by its form and the numbers in it. -/
inductive Means (word : List Char) (state : ReadState) : Lookup → Prop
  | stray (hform : ∀ form : Form, word ∉ form.language) :
    Means word state (.ok (.stray word) state)
  | operator {operator} (hform : word ∈ (Form.operator operator).language) :
    Means word state (.ok (.operator operator) state)
  | «variable» {name} (hform : word ∈ Form.variable.language) (hword : word = '$' :: name) :
    Means word state (.ok (.operand (.variable (String.ofList name))) state)
  | call {numeral call} (hform : word ∈ Form.placeholder.language)
    (hword : word = 'f' :: 'n' :: '#' :: numeral)
    (hcall : state.call? (numeralValue numeral) = some call) :
    Means word state (.ok (.operand call) (state.fetched (numeralValue numeral)))
  | noCall {numeral} (hform : word ∈ Form.placeholder.language)
    (hword : word = 'f' :: 'n' :: '#' :: numeral)
    (hcall : state.call? (numeralValue numeral) = none) :
    Means word state (.error (.unknownPlaceholder (String.ofList word)) state)
  | integer {value : Int64} (hform : word ∈ Form.integer.language)
    (hvalue : value.toInt = signedValue word) :
    Means word state (.ok (.operand (.number value)) state)
  | integerOutOfRange (hform : word ∈ Form.integer.language)
    (hvalue : signedValue word < Int64.minValue.toInt ∨ Int64.maxValue.toInt < signedValue word) :
    Means word state (.error (.integerOutOfRange (String.ofList word)) state)
  | dice {count size} {pool : Pool} (hword : IsDice word count size)
    (hcount : pool.count.toNat = numeralValue count) (hsize : Die.SizedBy size pool.die) :
    Means word state (.ok (.operand (.dice pool)) state)
  | invalidDie {count size} (hword : IsDice word count size)
    (hcount : numeralValue count < UInt64.size) (hsize : ∀ die, ¬Die.SizedBy size die) :
    Means word state (.error (.invalidDie (String.ofList word) (String.ofList size)) state)
  | tooManyDice {count size} (hword : IsDice word count size)
    (hcount : UInt64.size ≤ numeralValue count) :
    Means word state (.error (.tooManyDice (String.ofList word)) state)

private theorem signedValue_eq {isNegative : Bool} {numeral : List Char}
    (h : signedParts word = (isNegative, numeral)) : signedValue word =
      if isNegative then -(numeralValue numeral : Int) else numeralValue numeral := by
  rw [signedValue, h]

/-- An integer that does not fit into 64 bits is refused. -/
theorem integer?_eq_none {isNegative : Bool} {numeral : List Char}
    (hparts : signedParts word = (isNegative, numeral))
    (h : signedValue word < Int64.minValue.toInt ∨ Int64.maxValue.toInt < signedValue word) :
    integer? isNegative numeral = none := by
  unfold integer?
  rw [← signedValue_eq hparts]
  exact if_neg (by omega)

/-- A word for an integer of 64 bits means the integer. -/
theorem token_integer {isNegative : Bool} {numeral : List Char} {value : Int64}
    (hword : Word.ofChars word = .integer isNegative numeral)
    (h : value.toInt = signedValue word) (state : ReadState) :
    token word state = .ok (.operand (.number value)) state := by
  have hparts := (ofChars_eq_integer_iff.mp hword).2
  have hvalue := Reference.integer?_eq_some ((signedValue_eq hparts).symm.trans h.symm)
  unfold token Shelving.token
  rw [hword]
  simp only [hvalue]
  rfl

/-- A word for a greater or smaller integer is refused. -/
theorem token_integer_of_outOfRange {isNegative : Bool} {numeral : List Char}
    (hword : Word.ofChars word = .integer isNegative numeral)
    (h : signedValue word < Int64.minValue.toInt ∨ Int64.maxValue.toInt < signedValue word)
    (state : ReadState) :
    token word state = .error (.integerOutOfRange (String.ofList word)) state := by
  have hvalue := integer?_eq_none (ofChars_eq_integer_iff.mp hword).2 h
  unfold token Shelving.token
  rw [hword]
  simp only [hvalue]
  rfl

/-- A word for dice means the pool that can be made of it. -/
theorem token_dice {count size : List Char} (hword : Word.ofChars word = .dice count size)
    (state : ReadState) : token word state =
      match pool word count size with
      | .ok pool => .ok (.operand (.dice pool)) state
      | .error error => .error error state := by
  unfold token Shelving.token
  rw [hword]
  dsimp only
  cases pool word count size <;> rfl

section

variable {count size : List Char}

/-- A count of 64 bits and the size of a die make a pool. -/
theorem pool_eq_ok (hplus : '+' ∉ size) {pool : Pool}
    (hcount : pool.count.toNat = numeralValue count) (hsize : Die.SizedBy size pool.die) :
    Notation.pool word count size = .ok pool := by
  have hlt : numeralValue count < UInt64.size := hcount ▸ pool.count.toNat_lt
  have hdie := (Die.ofText_eq_ok_iff hplus).mpr hsize
  rw [Notation.pool, if_pos hlt, hdie, ← hcount]
  dsimp only
  rw [UInt64.ofNat_toNat]

/-- A size that no die has is refused. -/
theorem pool_eq_invalidDie (hplus : '+' ∉ size) (hcount : numeralValue count < UInt64.size)
    (hsize : ∀ die, ¬Die.SizedBy size die) : Notation.pool word count size =
      .error (.invalidDie (String.ofList word) (String.ofList size)) := by
  rw [Notation.pool, if_pos hcount]
  cases hdie : Die.ofText size with
  | ok die => exact absurd ((Die.ofText_eq_ok_iff hplus).mp hdie) (hsize die)
  | error error => rfl

/-- A count of more than 64 bits is refused. -/
theorem pool_eq_tooManyDice (hcount : UInt64.size ≤ numeralValue count) :
    Notation.pool word count size = .error (.tooManyDice (String.ofList word)) :=
  if_neg (Nat.not_lt.mpr hcount)

/-- A word for dice is recognized as dice. -/
theorem IsDice.ofChars_eq (h : IsDice word count size) : Word.ofChars word = .dice count size :=
  ofChars_eq_dice_iff.mpr ⟨h.form, h.parts, h.first⟩

/-- There is no plus sign in a size. -/
theorem IsDice.notMem (h : IsDice word count size) : '+' ∉ size := by
  have hspelled := spelled_of_ofChars h.ofChars_eq (by simp)
  intro hmem
  cases hspelled with
  | dice hcount hsize hchars => exact absurd (hchars '+' hmem) (by decide)

end

/-- A placeholder means the call at its place, and takes it from there. -/
theorem token_placeholder {numeral : List Char} (hword : Word.ofChars word = .placeholder numeral)
    (state : ReadState) : token word state =
      match state.call? (numeralValue numeral) with
      | some call => .ok (.operand call) (state.fetched (numeralValue numeral))
      | none => .error (.unknownPlaceholder (String.ofList word)) state := by
  unfold token Shelving.token
  rw [hword]
  dsimp only
  cases hcall : state.call? (numeralValue numeral) with
  | some call =>
    rw [Step.bind_of_ok (fetch?_of_some hcall)]
    rfl
  | none =>
    rw [Step.bind_of_ok (fetch?_of_none hcall)]
    rfl

/-- A word means what the relation of meanings says. -/
theorem token_eq_of_means {state : ReadState} {result : Lookup} (h : Means word state result) :
    token word state = result := by
  cases h with
  | stray hform =>
    rw [token, Shelving.token, ofChars_eq_stray_iff.mpr hform]
    rfl
  | operator hform =>
    rw [token, Shelving.token, ofChars_eq_operator_iff.mpr hform]
    rfl
  | «variable» hform hword =>
    rw [token, Shelving.token, ofChars_eq_variable_iff.mpr ⟨hform, hword⟩]
    rfl
  | call hform hword hcall =>
    rw [token_placeholder (ofChars_eq_placeholder_iff.mpr ⟨hform, hword⟩), hcall]
  | noCall hform hword hcall =>
    rw [token_placeholder (ofChars_eq_placeholder_iff.mpr ⟨hform, hword⟩), hcall]
  | integer hform hvalue =>
    exact token_integer (ofChars_eq_integer_iff.mpr ⟨hform, rfl⟩) hvalue state
  | integerOutOfRange hform hvalue =>
    exact token_integer_of_outOfRange (ofChars_eq_integer_iff.mpr ⟨hform, rfl⟩) hvalue state
  | dice hword hcount hsize =>
    rw [token_dice hword.ofChars_eq, pool_eq_ok hword.notMem hcount hsize]
  | invalidDie hword hcount hsize =>
    rw [token_dice hword.ofChars_eq, pool_eq_invalidDie hword.notMem hcount hsize]
  | tooManyDice hword hcount =>
    rw [token_dice hword.ofChars_eq, pool_eq_tooManyDice hcount]

/-- Every word has a meaning by this relation, or an error. -/
theorem exists_means (word : List Char) (state : ReadState) :
    ∃ result, Means word state result := by
  cases hword : Word.ofChars word with
  | placeholder numeral =>
    obtain ⟨hform, hparts⟩ := ofChars_eq_placeholder_iff.mp hword
    cases hcall : state.call? (numeralValue numeral) with
    | some call => exact ⟨_, .call hform hparts hcall⟩
    | none => exact ⟨_, .noCall hform hparts hcall⟩
  | integer isNegative numeral =>
    obtain ⟨hform, -⟩ := ofChars_eq_integer_iff.mp hword
    by_cases hrange : Int64.minValue.toInt ≤ signedValue word ∧
        signedValue word ≤ Int64.maxValue.toInt
    · have hvalue : (Int64.ofInt (signedValue word)).toInt = signedValue word := by
        rw [Int64.toInt_minValue, Int64.toInt_maxValue] at hrange
        exact Int64.toInt_ofInt_of_le hrange.1 (by omega)
      exact ⟨_, .integer hform hvalue⟩
    · exact ⟨_, .integerOutOfRange hform (by omega)⟩
  | dice count size =>
    obtain ⟨hform, hparts, hfirst⟩ := ofChars_eq_dice_iff.mp hword
    have hdice : IsDice word count size := ⟨hform, hparts, hfirst⟩
    rcases Nat.lt_or_ge (numeralValue count) UInt64.size with hlt | hge
    · by_cases hsize : ∃ die, Die.SizedBy size die
      · obtain ⟨die, hdie⟩ := hsize
        have hcount : (UInt64.ofNat (numeralValue count)).toNat = numeralValue count :=
          UInt64.toNat_ofNat_of_lt' hlt
        exact ⟨_, @Means.dice _ _ _ _ ⟨_, die⟩ hdice hcount hdie⟩
      · exact ⟨_, .invalidDie hdice hlt (not_exists.mp hsize)⟩
    · exact ⟨_, .tooManyDice hdice hge⟩
  | operator operator => exact ⟨_, .operator (ofChars_eq_operator_iff.mp hword)⟩
  | «variable» name =>
    obtain ⟨hform, hparts⟩ := ofChars_eq_variable_iff.mp hword
    exact ⟨_, .variable hform hparts⟩
  | stray => exact ⟨_, .stray (ofChars_eq_stray_iff.mp hword)⟩

/-- The form of a word and the numbers in it decide what looking it up gives. -/
theorem token_eq_iff {state : ReadState} {result : Lookup} :
    token word state = result ↔ Means word state result := by
  refine ⟨?_, token_eq_of_means⟩
  rintro rfl
  obtain ⟨result, hmeans⟩ := exists_means word state
  rwa [token_eq_of_means hmeans]

/-- What looking up a word means, if a lexer tells the form of the word and the word is taken apart
again: a word for dice at its first `d`. There is no meaning if it has none. -/
def tokenBy? (lexer : Lexer) (word : List Char) : Option (Reading Token) :=
  match lexer.formOf word with
  | none => some (pure (.stray word))
  | some .placeholder => some do
    match ← fetch? (numeralValue (word.drop 3)) with
    | some call => pure (.operand call)
    | none => throw (.unknownPlaceholder (String.ofList word))
  | some .integer => some <|
    match integer? (signedParts word).1 (signedParts word).2 with
    | some value => pure (.operand (.number value))
    | none => throw (.integerOutOfRange (String.ofList word))
  | some .dice => (splitOnce? 'd' word).map fun parts =>
    match pool word parts.1 parts.2 with
    | .ok pool => pure (.operand (.dice pool))
    | .error error => throw error
  | some (.operator op) => some (pure (.operator op))
  | some .variable => some (pure (.operand (.variable (String.ofList (word.drop 1)))))

/-- Words are looked up in the same way with any lexer that takes the longest lexemes, and every
word for dice can be taken apart. -/
theorem tokenBy?_eq {lexer : Lexer} (hlexer : lexer.TakesLongest) (word : List Char) :
    tokenBy? lexer word = some (token word) := by
  rw [tokenBy?, lexer.formOf_eq hlexer, token, Shelving.token]
  cases hword : Word.ofChars word with
  | placeholder numeral =>
    obtain ⟨-, rfl⟩ := ofChars_eq_placeholder_iff.mp hword
    rfl
  | integer isNegative numeral =>
    rw [(ofChars_eq_integer_iff.mp hword).2]
    rfl
  | dice count size =>
    obtain ⟨-, hparts, hfirst⟩ := ofChars_eq_dice_iff.mp hword
    have hsplit : splitOnce? 'd' word = some (count, size) := hparts ▸ splitOnce?_append hfirst size
    rw [hsplit]
    rfl
  | operator operator => rfl
  | «variable» name =>
    obtain ⟨-, rfl⟩ := ofChars_eq_variable_iff.mp hword
    rfl
  | stray => rfl

/-- A lexer that takes the longest lexemes tells the form of a word from the word as a whole. The
forms exclude each other, and the form and the numbers in the word decide what looking it up
gives. -/
theorem token_of_form {lexer : Lexer} (hlexer : lexer.TakesLongest) (word : List Char) :
    (∀ form, lexer.formOf word = some form ↔ word ∈ form.language) ∧
      (∀ form other : Form, form ≠ other → word ∈ form.language → word ∉ other.language) ∧
      tokenBy? lexer word = some (token word) ∧
      ∀ state result, token word state = result ↔ Means word state result :=
  ⟨fun _ => Lexer.formOf_eq_some_iff hlexer,
    fun _ _ hne hform hother => hne (Form.eq_of_mem hform hother),
    tokenBy?_eq hlexer word, fun _ _ => token_eq_iff⟩

/-- Zeros in front of the size do not count. -/
theorem token_of_form_dice : Lexer.TakesLongest longest ∧
    longest.formOf "12d0042".toList = some .dice ∧
    token "12d0042".toList {} = .ok (.operand (.dice ⟨12, .sided 42 (by decide)⟩)) {} := by
  obtain ⟨hforms, -, -, hmeans⟩ := token_of_form takesLongest_longest "12d0042".toList
  have hform : "12d0042".toList ∈ Form.dice.language :=
    mem_dice_iff.mpr ⟨"12".toList, "0042".toList, by decide, by decide,
      List.all_eq_true.mp (by decide), by decide⟩
  have hdice : IsDice "12d0042".toList "12".toList "0042".toList := ⟨hform, by decide, by decide⟩
  refine ⟨takesLongest_longest, (hforms .dice).mpr hform, (hmeans {} _).mpr ?_⟩
  exact .dice hdice (by decide) (.sided (by decide) (by decide))

end Notation

end DiceNotation
