import DiceNotation.Proofs.Filling.Words
import DiceNotation.Proofs.Notation.Linear
import DiceNotation.Proofs.Trimming

/-!
# Signs of multiplications and divisions

When a notation is read, no sign of a multiplication or a division gets lost on the way without a
trace. Each one that stands in the text either makes an operation in the expressions that are read
or is part of a word that was noted as ignored, wherever in the text it stands.
-/

namespace DiceNotation

open Text (isBlank isNameChar AllBlank)

namespace Notation

/-- Whether a character is the sign of a multiplication or a division. -/
def isFactorSign (c : Char) : Bool :=
  c == '*' || c == '/'

/-- The number of these signs in a text. -/
def factorSigns (text : List Char) : Nat :=
  text.countP isFactorSign

/-- An empty text has no signs. -/
@[simp] theorem factorSigns_nil : factorSigns [] = 0 :=
  rfl

/-- The signs of two texts side by side add up. -/
@[simp] theorem factorSigns_append (first second : List Char) :
    factorSigns (first ++ second) = factorSigns first + factorSigns second :=
  List.countP_append

/-- The signs of a text are that of its first character and those of the others. -/
theorem factorSigns_cons (c : Char) (text : List Char) :
    factorSigns (c :: text) = factorSigns [c] + factorSigns text :=
  factorSigns_append [c] text

/-- A character that is no sign is not counted. -/
theorem factorSigns_cons_of_not {c : Char} (h : isFactorSign c = false) (text : List Char) :
    factorSigns (c :: text) = factorSigns text :=
  List.countP_cons_of_neg (by simp [h])

/-- A text has no signs exactly if none of its characters is one. -/
theorem factorSigns_eq_zero_iff {text : List Char} :
    factorSigns text = 0 ↔ ∀ c ∈ text, isFactorSign c = false := by
  simp [factorSigns, List.countP_eq_zero]

/-- The signs are those of the multiplication and of the division. -/
theorem isFactorSign_iff {c : Char} : isFactorSign c = true ↔ c = '*' ∨ c = '/' := by
  simp [isFactorSign]

private theorem isFactorSign_eq_false {holds : Char → Bool} (hmul : holds '*' = false)
    (hdiv : holds '/' = false) {c : Char} (h : holds c = true) : isFactorSign c = false := by
  cases hc : isFactorSign c with
  | false => rfl
  | true =>
    rcases isFactorSign_iff.mp hc with rfl | rfl
    · exact absurd (h.symm.trans hmul) (by decide)
    · exact absurd (h.symm.trans hdiv) (by decide)

/-- No blank is a sign. -/
theorem isFactorSign_of_isBlank {c : Char} (h : isBlank c = true) : isFactorSign c = false :=
  isFactorSign_eq_false (by decide) (by decide) h

/-- No character of a name is a sign. -/
theorem isFactorSign_of_isNameChar {c : Char} (h : isNameChar c = true) :
    isFactorSign c = false :=
  isFactorSign_eq_false (by decide) (by decide) h

/-- Blanks have no signs. -/
theorem factorSigns_of_allBlank {blanks : List Char} (h : AllBlank blanks) :
    factorSigns blanks = 0 :=
  factorSigns_eq_zero_iff.mpr fun c hc => isFactorSign_of_isBlank (h c hc)

end Notation

open Notation

namespace Expr

mutual

/-- The number of multiplications and divisions in an expression. -/
def factors : Expr → Nat
  | .number _ => 0
  | .variable _ => 0
  | .dice _ => 0
  | .operation left operator right =>
    left.factors + factorSigns [operator.symbol] + right.factors
  | .call _ parameters => factorsOf parameters

/-- The number of multiplications and divisions in a list of expressions. -/
def factorsOf : List Expr → Nat
  | [] => 0
  | e :: rest => e.factors + factorsOf rest

end

/-- The multiplications and divisions in two lists of expressions add up. -/
theorem factorsOf_append (first second : List Expr) :
    factorsOf (first ++ second) = factorsOf first + factorsOf second := by
  induction first with
  | nil => simp [factorsOf]
  | cons e rest ih => rw [List.cons_append, factorsOf, factorsOf, ih, Nat.add_assoc]

end Expr

namespace Notation

/-- The signs in all of several texts. -/
def factorSignsOf (texts : List (List Char)) : Nat :=
  factorSigns texts.flatten

/-- No texts have no signs. -/
@[simp] theorem factorSignsOf_nil : factorSignsOf [] = 0 :=
  rfl

/-- The signs of several texts are those of the first one and of the others. -/
@[simp] theorem factorSignsOf_cons (text : List Char) (texts : List (List Char)) :
    factorSignsOf (text :: texts) = factorSigns text + factorSignsOf texts := by
  simp [factorSignsOf]

/-- Taking away the empty texts does not matter. -/
theorem factorSignsOf_filter (texts : List (List Char)) :
    factorSignsOf (texts.filter (· ≠ [])) = factorSignsOf texts := by
  rw [factorSignsOf, List.flatten_filter_ne_nil, factorSignsOf]

/-- A change that keeps the signs of each text keeps those of all. -/
theorem factorSignsOf_map {change : List Char → List Char}
    (h : ∀ text, factorSigns (change text) = factorSigns text) (texts : List (List Char)) :
    factorSignsOf (texts.map change) = factorSignsOf texts := by
  induction texts with
  | nil => rfl
  | cons text texts ih => rw [List.map_cons, factorSignsOf_cons, factorSignsOf_cons, h, ih]

private theorem factorSignsOf_extendFirst (c : Char) (texts : List (List Char)) :
    factorSignsOf (Text.extendFirst c texts) = factorSigns [c] + factorSignsOf texts := by
  cases texts with
  | nil => rfl
  | cons text texts =>
    rw [Text.extendFirst, factorSignsOf_cons, factorSignsOf_cons, factorSigns_cons, Nat.add_assoc]

/-- Cutting a text at blanks loses no signs. -/
theorem factorSignsOf_fields (text : List Char) :
    factorSignsOf (Text.fields isBlank text) = factorSigns text := by
  induction text with
  | nil => rfl
  | cons c text ih =>
    rw [Text.fields]
    split
    · next hblank =>
      rw [factorSignsOf_cons, ih, factorSigns_cons_of_not (isFactorSign_of_isBlank hblank),
        factorSigns_nil, Nat.zero_add]
    · rw [factorSignsOf_extendFirst, ih, ← factorSigns_cons]

/-- A comma at the end of a word is no sign. -/
theorem factorSigns_dropComma (word : List Char) :
    factorSigns (dropComma word) = factorSigns word := by
  unfold dropComma
  split
  · next hlast =>
    obtain ⟨rest, rfl⟩ := List.getLast?_eq_some_iff.mp hlast
    rw [List.dropLast_concat, factorSigns_append]
    rfl
  · rfl

/-- Trimming a text loses no signs. -/
theorem factorSigns_trim (text : List Char) : factorSigns (Text.trim text) = factorSigns text := by
  obtain ⟨before, after, hbefore, hafter, htext⟩ := Text.exists_eq_append_trim text
  conv_rhs => rw [htext]
  rw [factorSigns_append, factorSigns_append, factorSigns_of_allBlank hbefore,
    factorSigns_of_allBlank hafter, Nat.zero_add, Nat.add_zero]

/-- Cutting a text at commas loses no signs. -/
theorem factorSignsOf_cutArguments (depth : Nat) (text : List Char) :
    factorSignsOf (cutArguments depth text) = factorSigns text := by
  induction text generalizing depth with
  | nil => rfl
  | cons c text ih =>
    rw [cutArguments]
    split
    · next hcomma =>
      rw [hcomma.1, factorSignsOf_cons, ih, factorSigns_cons_of_not (by decide), factorSigns_nil,
        Nat.zero_add]
    · dsimp only
      rw [factorSignsOf_extendFirst, ih, ← factorSigns_cons]

/-- The words of a text have all of its signs. -/
theorem factorSignsOf_wordsOf (text : List Char) :
    factorSignsOf (wordsOf text) = factorSigns text := by
  rw [wordsOf, factorSignsOf_filter, factorSignsOf_map factorSigns_dropComma, Text.words,
    factorSignsOf_filter, factorSignsOf_fields]

/-- The arguments in a text have all of its signs. -/
theorem factorSignsOf_argumentTexts (text : List Char) :
    factorSignsOf (argumentTexts text) = factorSigns text := by
  rw [argumentTexts, factorSignsOf_filter, factorSignsOf_map factorSigns_trim,
    factorSignsOf_cutArguments]

private theorem isNameChar_of_opening? {reversed text before name rest : List Char}
    (h : opening? reversed text = some (before, name, rest)) :
    ∀ c ∈ name, isNameChar c = true := by
  induction text generalizing reversed with
  | nil => cases h
  | cons c text ih =>
    rw [opening?] at h
    split at h
    · cases h
      exact fun c hc => List.all_eq_true.mp List.all_takeWhile c (List.mem_reverse.mp hc)
    · exact ih h

/-- The name of a call has characters of names only. -/
theorem isNameChar_of_leftmostCall {text : List Char} {site : CallSite}
    (h : leftmostCall text = .ok (some site)) : ∀ c ∈ site.name, isNameChar c = true := by
  obtain ⟨rest, hopen, -⟩ := leftmostCall_eq_some.mp h
  exact isNameChar_of_opening? hopen

/-- The signs in a text are those around its leftmost call and those in the arguments. -/
theorem factorSigns_of_leftmostCall {text : List Char} {site : CallSite}
    (h : leftmostCall text = .ok (some site)) :
    factorSigns text =
      factorSigns site.before + factorSigns site.arguments + factorSigns site.after := by
  have hname : factorSigns site.name = 0 := factorSigns_eq_zero_iff.mpr fun c hc =>
    isFactorSign_of_isNameChar (isNameChar_of_leftmostCall h c hc)
  rw [← source_of_leftmostCall h, CallSite.source, factorSigns_append, factorSigns_append,
    factorSigns_append, hname, factorSigns_cons_of_not (by decide),
    factorSigns_cons_of_not (by decide)]
  omega

/-- The multiplications and divisions that a token stands for. -/
def Token.factors : Token → Nat
  | .operand e => e.factors
  | .operator sign => factorSigns [sign.symbol]
  | .stray _ => 0

/-- The signs of multiplications and divisions in a word that means nothing. -/
def Token.lost : Token → Nat
  | .operand _ => 0
  | .operator _ => 0
  | .stray word => factorSigns word

/-- The multiplications and divisions that a row of tokens stands for. -/
def rowFactors (row : List Token) : Nat :=
  (row.map Token.factors).sum

/-- The signs of multiplications and divisions in those words of a row that mean nothing. -/
def rowLost (row : List Token) : Nat :=
  (row.map Token.lost).sum

/-- No tokens stand for no operations. -/
@[simp] theorem rowFactors_nil : rowFactors [] = 0 :=
  rfl

/-- The operations of a row are those of the first token and of the others. -/
@[simp] theorem rowFactors_cons (token : Token) (row : List Token) :
    rowFactors (token :: row) = token.factors + rowFactors row :=
  List.sum_cons

/-- The operations of two rows add up. -/
@[simp] theorem rowFactors_append (first second : List Token) :
    rowFactors (first ++ second) = rowFactors first + rowFactors second := by
  simp [rowFactors]

/-- No tokens have lost no signs. -/
@[simp] theorem rowLost_nil : rowLost [] = 0 :=
  rfl

/-- The signs that a row has lost are those of the first token and of the others. -/
@[simp] theorem rowLost_cons (token : Token) (row : List Token) :
    rowLost (token :: row) = token.lost + rowLost row :=
  List.sum_cons

/-- All signs that a row of tokens has kept. -/
def rowSigns (row : List Token) : Nat :=
  rowFactors row + rowLost row

private theorem ofDigits_ne_operator (word : List Char) (operator : Operator) :
    Word.ofDigits word ≠ .operator operator := by
  unfold Word.ofDigits
  dsimp only
  split
  · split <;> simp
  · split <;> simp
  · simp

/-- A word with the form of an operator is its symbol. -/
theorem eq_symbol_of_ofChars {word : List Char} {operator : Operator}
    (h : Word.ofChars word = .operator operator) : word = [operator.symbol] := by
  have hsigned {sign : Operator} {rest : List Char}
      (h : Word.ofSigned sign rest = .operator operator) : sign = operator ∧ rest = [] := by
    unfold Word.ofSigned at h
    split at h
    · next hnil =>
      cases h
      exact ⟨rfl, hnil⟩
    · split at h <;> cases h
  unfold Word.ofChars at h
  split at h
  · split at h <;> cases h
  · split at h <;> cases h
  · obtain ⟨rfl, rfl⟩ := hsigned h
    rfl
  · obtain ⟨rfl, rfl⟩ := hsigned h
    rfl
  · cases h
    rfl
  · cases h
    rfl
  · exact absurd h (ofDigits_ne_operator _ _)

/-- A word that has a meaning has signs in it only if it is one. -/
theorem factorSigns_of_ofChars {word : List Char} (h : Word.ofChars word ≠ .stray)
    (hword : ∀ operator, Word.ofChars word ≠ .operator operator) : factorSigns word = 0 := by
  have hmarks : ∀ c ∈ ['$', '#', '+', '-'], isFactorSign c = false := by simp [isFactorSign]
  rcases Reference.forall_of_ofChars (fun c => isFactorSign_of_isNameChar) hmarks h with
    hchars | rfl | rfl
  · exact factorSigns_eq_zero_iff.mpr hchars
  · exact absurd rfl (hword .mul)
  · exact absurd rfl (hword .div)

/-- A sign in a word is kept by the meaning of the word. -/
theorem factorSigns_of_meaning? {word : List Char} {token : Token}
    (h : meaning? word = some token) : factorSigns word = token.factors + token.lost := by
  unfold meaning? at h
  split at h
  · cases h
  · next hform =>
    obtain ⟨value, -, rfl⟩ := Option.map_eq_some_iff.mp h
    exact factorSigns_of_ofChars (by rw [hform]; simp) (by rw [hform]; simp)
  · next hform =>
    obtain ⟨pool, -, rfl⟩ := Option.map_eq_some_iff.mp h
    exact factorSigns_of_ofChars (by rw [hform]; simp) (by rw [hform]; simp)
  · next operator hform =>
    cases h
    rw [eq_symbol_of_ofChars hform]
    rfl
  · next hform =>
    cases h
    exact factorSigns_of_ofChars (by rw [hform]; simp) (by rw [hform]; simp)
  · cases h
    exact (Nat.zero_add _).symm

/-- Binding keeps all multiplications and divisions. -/
theorem factorsOf_bindAfter {left : Option Expr} {row : List Token} {exprs : List Expr}
    (h : bindAfter left row = .ok exprs) :
    Expr.factorsOf exprs = Expr.factorsOf left.toList + rowFactors row := by
  fun_induction bindAfter left row generalizing exprs with
  | case1 left =>
    cases h
    simp
  | case2 left e rest found hfound ih =>
    cases h
    rw [Expr.factorsOf_append, ih hfound]
    simp [Expr.factorsOf, Token.factors]
  | case3 left e rest error herror ih => cases h
  | case4 left word rest found hfound ih =>
    cases h
    rw [Expr.factorsOf_append, ih hfound]
    simp [Expr.factorsOf, Token.factors]
  | case5 left word rest error herror ih => cases h
  | case6 operator rest => cases h
  | case7 operator l r rest ih =>
    rw [ih h]
    simp [Expr.factorsOf, Expr.factors, Token.factors, Nat.add_assoc]
  | case8 operator rest l hrest => cases h

/-- If all operators can be bound, then all words that mean nothing are noted. -/
theorem lost_of_bindAfter {left : Option Expr} {row : List Token} {exprs : List Expr}
    (h : bindAfter left row = .ok exprs) :
    ((droppedAfter left.isSome row).map factorSigns).sum = rowLost row := by
  fun_induction bindAfter left row generalizing exprs with
  | case1 left => rfl
  | case2 left e rest found hfound ih =>
    rw [droppedAfter, rowLost_cons, Token.lost, Nat.zero_add]
    exact ih hfound
  | case3 left e rest error herror ih => cases h
  | case4 left word rest found hfound ih =>
    rw [droppedAfter, List.map_cons, List.sum_cons, rowLost_cons, Token.lost, ← ih hfound]
    rfl
  | case5 left word rest error herror ih => cases h
  | case6 operator rest => cases h
  | case7 operator l r rest ih =>
    rw [Option.isSome_some, droppedAfter, if_pos rfl, rowLost_cons, rowLost_cons, Token.lost,
      Token.lost, Nat.zero_add, Nat.zero_add]
    exact ih h
  | case8 operator rest l hrest => cases h

namespace ReadState

/-- The multiplications and divisions in the calls that lie on the shelf. -/
def shelvedFactors (state : ReadState) : Nat :=
  state.total fun call _ => call.factors

/-- The signs of multiplications and divisions in the words that were ignored so far. -/
def ignoredSigns (state : ReadState) : Nat :=
  (state.ignored.toList.map fun word => factorSigns word.toList).sum

/-- What reading has put away: calls on the shelf, and words that were ignored. -/
def factors (state : ReadState) : Nat :=
  state.shelvedFactors + state.ignoredSigns

/-- A call that is put on the shelf adds its operations to those of the state. -/
theorem factors_shelved (state : ReadState) (call : Expr) :
    (state.shelved call).factors = state.factors + call.factors := by
  have hshelved := total_shelved (fun call _ => call.factors) state call
  have hignored : (state.shelved call).ignoredSigns = state.ignoredSigns := rfl
  unfold factors shelvedFactors
  omega

/-- A call that is fetched takes its operations along. -/
theorem factors_fetched {state : ReadState} {place : Nat} {call : Expr}
    (h : state.call? place = some call) :
    (state.fetched place).factors + call.factors = state.factors := by
  have hfetched := total_fetched (fun call _ => call.factors) h
  have hignored : (state.fetched place).ignoredSigns = state.ignoredSigns := rfl
  unfold factors shelvedFactors
  omega

/-- If all operators of a row can be bound, then the signs in its words without a meaning are
noted. -/
theorem factors_noted {row : List Token} {exprs : List Expr} (h : bindTokens row = .ok exprs)
    (state : ReadState) :
    (state.noted row).factors = state.factors + rowLost row := by
  have hshelved : (state.noted row).shelvedFactors = state.shelvedFactors := rfl
  have hignored : (state.noted row).ignoredSigns =
      state.ignoredSigns + rowLost row := by
    rw [← lost_of_bindAfter h]
    simp [ignoredSigns, noted, Function.comp_def]
  unfold factors
  omega

end ReadState

/-- A step that succeeds makes what it is given into its result and what it puts away, and no
sign is lost. -/
def Conserves {α : Type} (step : Reading α) (before : Nat) (after : α → Nat) : Prop :=
  ∀ state a last, step state = .ok a last → last.factors + after a = state.factors + before

private theorem conserves_builtin (name : List Char) : Conserves (builtin name) 0 fun _ => 0 := by
  intro state function last hrun
  have hbuiltin := run?_of_ok hrun
  rw [run?_builtin, Option.map_eq_some_iff] at hbuiltin
  obtain ⟨_, -, hlast⟩ := hbuiltin
  cases hlast
  rfl

/-- The operations of a call are put away with it. -/
theorem conserves_shelve (call : Expr) : Conserves (shelve call) call.factors fun _ => 0 := by
  intro state place last hrun
  have hshelve := run?_of_ok hrun
  rw [run?_shelve] at hshelve
  cases hshelve
  rw [ReadState.factors_shelved, Nat.add_zero]

/-- The signs of a word are those of its token. -/
theorem conserves_token (word : List Char) :
    Conserves (token word) (factorSigns word) fun t => t.factors + t.lost := by
  intro state t last hrun
  have htoken := run?_of_ok hrun
  by_cases hform : ∃ numeral, Word.ofChars word = .placeholder numeral
  · obtain ⟨numeral, hform⟩ := hform
    rw [run?_token_placeholder hform, Option.map_eq_some_iff] at htoken
    obtain ⟨call, hcall, hlast⟩ := htoken
    cases hlast
    have hword : factorSigns word = 0 :=
      factorSigns_of_ofChars (by rw [hform]; simp) (by rw [hform]; simp)
    rw [hword, Nat.add_zero]
    exact ReadState.factors_fetched hcall
  · rw [run?_token fun numeral heq => hform ⟨numeral, heq⟩, Option.map_eq_some_iff] at htoken
    obtain ⟨_, hmeaning, hlast⟩ := htoken
    cases hlast
    rw [factorSigns_of_meaning? hmeaning]

/-- The signs of some words are those of their tokens. -/
theorem conserves_tokensOf (words : List (List Char)) :
    Conserves (tokensOf words) (factorSignsOf words) rowSigns := by
  induction words with
  | nil =>
    rintro state _ _ ⟨⟩
    rfl
  | cons word rest ih =>
    intro state row last hrun
    obtain ⟨first, middle, hword, hrun⟩ := Step.bind_eq_ok_iff.mp hrun
    obtain ⟨others, final, hrest, hrun⟩ := Step.bind_eq_ok_iff.mp hrun
    obtain ⟨rfl, rfl⟩ := Step.pure_eq_ok_iff.mp hrun
    have hfirst : middle.factors + (first.factors + first.lost) =
        state.factors + factorSigns word := conserves_token word state first middle hword
    have hothers := ih middle others final hrest
    unfold rowSigns at hothers ⊢
    rw [rowFactors_cons, rowLost_cons, factorSignsOf_cons]
    omega

/-- Binding puts the signs of stray words away and keeps those of all operators. -/
theorem conserves_bound (row : List Token) :
    Conserves (bound row) (rowSigns row) Expr.factorsOf := by
  intro state exprs last hrun
  have hbound := run?_of_ok hrun
  rw [run?_bound, Option.map_eq_some_iff] at hbound
  obtain ⟨_, hexprs, hlast⟩ := hbound
  cases hlast
  rw [← eq_ok_iff_toOption] at hexprs
  have hfactors : Expr.factorsOf exprs = 0 + rowFactors row :=
    factorsOf_bindAfter hexprs
  rw [ReadState.factors_noted hexprs, rowSigns]
  omega

/-- The words of a text that lifting has made, and what binding makes of them. -/
theorem conserves_words {text : List Char} {row : List Token} {exprs : List Expr}
    {state middle last : ReadState} (hrow : tokens text state = .ok row middle)
    (hexprs : bound row middle = .ok exprs last) :
    last.factors + Expr.factorsOf exprs = state.factors + factorSigns text := by
  have hwords := conserves_tokensOf (wordsOf text) state row middle hrow
  have hbound := conserves_bound row middle exprs last hexprs
  rw [factorSignsOf_wordsOf] at hwords
  omega

private theorem factorSigns_placeholder (place : Nat) : factorSigns (placeholder place) = 0 :=
  factorSigns_of_ofChars (by rw [ofChars_placeholder]; simp) (by rw [ofChars_placeholder]; simp)

private theorem factorSigns_replaced (site : CallSite) (place : Nat) :
    factorSigns (site.replaced place) = factorSigns site.before + factorSigns site.after := by
  rw [replaced_eq, factorSigns_append, factorSigns_cons_of_not (by decide), factorSigns_append,
    factorSigns_placeholder, factorSigns_cons_of_not (by decide), Nat.zero_add]

/-- Lifting and reading arguments lose no signs. -/
theorem conserves_lift :
    (∀ text, Conserves (lift text) (factorSigns text) factorSigns) ∧
      ∀ arguments,
        Conserves (readArguments arguments) (factorSignsOf arguments) Expr.factorsOf := by
  refine Shelving.lift.mutual_induct _ _ ?error ?none ?call ?nil ?cons
  case error =>
    intro text error herror state lifted last hrun
    rw [lift_of_error herror] at hrun
    cases hrun
  case none =>
    intro text hnone state lifted last hrun
    rw [lift_of_none hnone] at hrun
    obtain ⟨rfl, rfl⟩ := Step.pure_eq_ok_iff.mp hrun
    rfl
  case call =>
    intro text site hsite iharguments ihreplaced state lifted last hrun
    rw [lift_of_some hsite] at hrun
    obtain ⟨function, found, hfunction, hrun⟩ := Step.bind_eq_ok_iff.mp hrun
    obtain ⟨parameters, read, hparameters, hrun⟩ := Step.bind_eq_ok_iff.mp hrun
    obtain ⟨place, shelved, hshelve, hlift⟩ := Step.bind_eq_ok_iff.mp hrun
    have hfound : found.factors = state.factors :=
      conserves_builtin site.name state function found hfunction
    have hread := iharguments found parameters read hparameters
    have hcall : shelved.factors = read.factors + (Expr.call function parameters).factors :=
      conserves_shelve (.call function parameters) read place shelved hshelve
    have hlifted := ihreplaced place shelved lifted last hlift
    -- The signs in the arguments are on the shelf or ignored by now; the others are still in the
    -- text, around the placeholder.
    rw [factorSignsOf_argumentTexts] at hread
    rw [Expr.factors] at hcall
    rw [factorSigns_replaced] at hlifted
    rw [factorSigns_of_leftmostCall hsite]
    omega
  case nil =>
    intro state exprs last hrun
    rw [readArguments_nil] at hrun
    obtain ⟨rfl, rfl⟩ := Step.pure_eq_ok_iff.mp hrun
    rfl
  case cons =>
    intro argument rest ihargument ihrest state all last hrun
    rw [readArguments_cons] at hrun
    obtain ⟨lifted, first, hlift, hrun⟩ := Step.bind_eq_ok_iff.mp hrun
    obtain ⟨row, second, hrow, hrun⟩ := Step.bind_eq_ok_iff.mp hrun
    obtain ⟨exprs, third, hexprs, hrun⟩ := Step.bind_eq_ok_iff.mp hrun
    obtain ⟨others, fourth, hothers, hrun⟩ := Step.bind_eq_ok_iff.mp hrun
    obtain ⟨rfl, rfl⟩ := Step.pure_eq_ok_iff.mp hrun
    have hlifted := ihargument state lifted first hlift
    have hwords := conserves_words hrow hexprs
    have hrest := ihrest third others fourth hothers
    rw [Expr.factorsOf_append, factorSignsOf_cons]
    omega

/-- Reading a text from an empty shelf, every sign of a multiplication or a division makes an
operation or is part of a word that is ignored. -/
theorem factorSigns_of_readChars {text : List Char} {exprs : List Expr} {state : ReadState}
    (h : readChars text {} = .ok exprs state) :
    factorSigns text = Expr.factorsOf exprs + state.ignoredSigns := by
  have hempty := ReadState.total_eq_zero (fun call _ => call.factors) (call?_of_readChars h)
  obtain ⟨lifted, first, hlift, hrun⟩ := Step.bind_eq_ok_iff.mp h
  obtain ⟨row, second, hrow, hrun⟩ := Step.bind_eq_ok_iff.mp hrun
  obtain ⟨bound, third, hexprs, hrun⟩ := Step.bind_eq_ok_iff.mp hrun
  have hlifted := conserves_lift.1 text {} lifted first hlift
  have hwords := conserves_words hrow hexprs
  have hstart : ({} : ReadState).factors = 0 := rfl
  cases bound with
  | nil => cases hrun
  | cons e rest =>
    obtain ⟨rfl, rfl⟩ := Step.pure_eq_ok_iff.mp hrun
    unfold ReadState.factors ReadState.shelvedFactors at hlifted hwords hstart
    omega

/-- No sign of a multiplication or a division is lost without a trace. -/
theorem factorSigns_of_readNoting {source : String} {exprs : List Expr} {ignored : List String}
    (h : readNoting source = (.ok exprs, ignored)) :
    factorSigns source.toList =
      Expr.factorsOf exprs + (ignored.map fun word => factorSigns word.toList).sum := by
  unfold readNoting at h
  cases hrun : readChars source.toList {} with
  | error error state => simp [hrun] at h
  | ok found state =>
    simp only [hrun, Prod.mk.injEq, Except.ok.injEq] at h
    obtain ⟨rfl, rfl⟩ := h
    exact factorSigns_of_readChars hrun

end Notation

end DiceNotation
