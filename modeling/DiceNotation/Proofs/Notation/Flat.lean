import DiceNotation.Proofs.Notation.Arguments
import DiceNotation.Proofs.Notation.LeftNested
import DiceNotation.Proofs.Notation.Operands

/-!
# Flat texts

A left-nested expression needs no parentheses apart from those of calls. Its flat text has none
besides, and is read as that expression again. So the expressions that are read from some text
are exactly the left-nested ones.
-/

namespace DiceNotation

open Text (isNameChar)

namespace Expr

mutual

/-- The text of an expression in which operations do not stand in parentheses. -/
def flat : Expr → List Char
  | .number value => Text.integerText value.toInt
  | .variable name => '$' :: name.toList
  | .dice pool => pool.render
  | .operation left operator right => left.flat ++ ' ' :: operator.symbol :: ' ' :: right.flat
  | .call function parameters =>
    function.name.toList ++ '(' :: ([',', ' '].intercalate (flats parameters) ++ [')'])

/-- The texts of several expressions in which operations do not stand in parentheses. -/
def flats : List Expr → List (List Char)
  | [] => []
  | e :: rest => e.flat :: flats rest

end

/-- The notation for several expressions side by side in which operations do not stand in
parentheses. -/
def flatText (exprs : List Expr) : String :=
  String.ofList ([' '].intercalate (flats exprs))

/-- The tokens of an expression, if no operation is the right operand of another one. -/
def tokens : Expr → List Notation.Token
  | .operation left operator right => left.tokens ++ [.operator operator, .operand right]
  | e => [.operand e]

private theorem flats_eq_map (exprs : List Expr) : flats exprs = exprs.map flat := by
  induction exprs with
  | nil => rfl
  | cons e rest ih => rw [flats, ih, List.map_cons]

/-- An expression that is no operation is a token of its own. -/
theorem tokens_of_not_operation {e : Expr} (h : e.isOperation = false) :
    e.tokens = [.operand e] := by
  cases e with
  | operation => cases h
  | _ => rfl

end Expr

namespace Builtin

private theorem name_ne_nil (function : Builtin) : function.name.toList ≠ [] := by
  cases function <;> decide

/-- The name of a function is made of the characters of names. -/
theorem isNameChar_of_mem_name {function : Builtin} {c : Char} (h : c ∈ function.name.toList) :
    isNameChar c = true := by
  have hall : function.name.toList.all isNameChar = true := by cases function <;> decide
  exact List.all_eq_true.mp hall c h

/-- A function is found by its name. -/
theorem ofName?_name (function : Builtin) : ofName? function.name = some function := by
  cases function <;> decide

end Builtin

namespace Notation

/-- The tokens of an expression are bound to that expression. -/
theorem bindAfter_tokens (e : Expr) (left : Option Expr) (rest : List Token) :
    bindAfter left (e.tokens ++ rest) = (bindAfter (some e) rest).map (left.toList ++ ·) := by
  cases e with
  | operation l operator r =>
    rw [Expr.tokens, List.append_assoc, bindAfter_tokens l]
    rfl
  | number => exact bindAfter_operand left _ rest
  | «variable» => exact bindAfter_operand left _ rest
  | dice => exact bindAfter_operand left _ rest
  | call => exact bindAfter_operand left _ rest

/-- The tokens of expressions are bound into these expressions, also behind an operand. -/
theorem bindAfter_flatMap_tokens (exprs : List Expr) (left : Option Expr) :
    bindAfter left (exprs.flatMap Expr.tokens) = .ok (left.toList ++ exprs) := by
  induction exprs generalizing left with
  | nil => simp [bindAfter]
  | cons e rest ih => simp [List.flatMap_cons, bindAfter_tokens, ih, Except.map]

/-- The tokens of expressions are bound into these expressions. -/
theorem bindTokens_flatMap_tokens (exprs : List Expr) :
    bindTokens (exprs.flatMap Expr.tokens) = .ok exprs :=
  bindAfter_flatMap_tokens exprs none

/-- The flat text of an expression can stand among others, and means its tokens. -/
structure ReadsFlat (e : Expr) : Prop where
  balanced : Balanced false e.flat
  tight : Tight e.flat
  row : row? e.flat = some e.tokens

/-- A word that means an operand is read back. -/
theorem readsFlat_word {e : Expr} (hform : Word.ofChars e.flat ≠ .stray)
    (hmeaning : meaning? e.flat = some (.operand e)) (hoperand : e.isOperation = false) :
    ReadsFlat e := by
  constructor
  · exact balanced_of_ofChars hform
  · exact tight_of_ofChars hform
  · rw [row?_word hform hmeaning, Expr.tokens_of_not_operation hoperand]

/-- An operation is read back if its operands are. -/
theorem readsFlat_operation {l r : Expr} (operator : Operator) (hl : ReadsFlat l)
    (hr : ReadsFlat r) (hoperand : r.isOperation = false) :
    ReadsFlat (.operation l operator r) := by
  have hform : Word.ofChars [operator.symbol] ≠ .stray := by cases operator <;> decide
  have hblank : Balanced false [' '] := .char (by decide) (by decide) (by decide)
  have hsymbol : Balanced false [operator.symbol] := balanced_of_ofChars hform
  constructor
  · exact hl.balanced.append (hblank.append (hsymbol.append (hblank.append hr.balanced)))
  · exact hl.tight.append hr.tight [' ', operator.symbol, ' ']
  · have hrest : row? (operator.symbol :: ' ' :: r.flat) = _ :=
      row?_append isBlank_space (row?_word hform (meaning?_symbol operator)) r.flat
    rw [Expr.flat, row?_append isBlank_space hl.row, hrest, hr.row,
      Expr.tokens_of_not_operation hoperand]
    rfl

/-- Several texts with blanks between them mean the tokens of all of them. -/
theorem row?_intercalate {exprs : List Expr} (h : ∀ e ∈ exprs, ReadsFlat e) :
    row? ([' '].intercalate (Expr.flats exprs)) = some (exprs.flatMap Expr.tokens) := by
  induction exprs with
  | nil => exact row?_nil
  | cons e rest ih =>
    have hfirst := (h e List.mem_cons_self).row
    have hrest := ih fun d hd => h d (List.mem_cons_of_mem e hd)
    cases rest with
    | nil => simpa [Expr.flats] using hfirst
    | cons second rest =>
      rw [Expr.flats] at hrest
      rw [Expr.flats, Expr.flats, List.intercalate_cons_cons, List.append_assoc,
        List.singleton_append, row?_append isBlank_space hfirst, hrest]
      rfl

/-- Each parameter is bound on its own. -/
theorem parameters?_flats {parameters : List Expr} (h : ∀ e ∈ parameters, ReadsFlat e) :
    parameters? (Expr.flats parameters) = some parameters := by
  induction parameters with
  | nil => rw [Expr.flats, parameters?]
  | cons e rest ih =>
    have hrest := ih fun d hd => h d (List.mem_cons_of_mem e hd)
    have hbound : bindTokens e.tokens = .ok [e] := by
      simpa using bindTokens_flatMap_tokens [e]
    rw [Expr.flats, parameters?, (h e List.mem_cons_self).row, hrest]
    simp only [Option.bind_eq_bind, Option.bind_some, hbound, Except.toOption]
    rfl

/-- A name with balanced arguments in parentheses behind it is a call. -/
theorem leftmostCall_of_name {name arguments : List Char} (hname : name ≠ [])
    (hchars : ∀ c ∈ name, isNameChar c = true) (harguments : Balanced true arguments) :
    leftmostCall (name ++ '(' :: (arguments ++ [')'])) = .ok (some ⟨[], name, arguments, []⟩) := by
  have hreverse : ∀ c ∈ name.reverse, isNameChar c = true := by simpa using hchars
  have hbefore : beforeName name.reverse = [] := List.dropWhile_eq_nil_iff.mpr hreverse
  have hnameBefore : nameBefore name.reverse = name.reverse :=
    List.takeWhile_eq_self_iff.mpr hreverse
  have hopens : opensCall name.reverse = true := by simp [opensCall, hbefore, hnameBefore, hname]
  have hopenings : openings name = 0 :=
    List.count_eq_zero.mpr fun hmem => absurd (hchars _ hmem) (by decide)
  have hopen : opening? [] (name ++ '(' :: (arguments ++ [')'])) =
      some ([], name, arguments ++ [')']) := by
    rw [opening?_append, opening?_eq_none hopenings, List.append_nil]
    dsimp only
    rw [opening?, if_pos ⟨rfl, hopens⟩, hbefore, hnameBefore, List.reverse_nil,
      List.reverse_reverse]
  have hclose : closing? 0 (arguments ++ [')']) = some (arguments, []) := by
    rw [harguments.closing?_append, closing?, if_pos ⟨rfl, rfl⟩, Option.map_some, List.append_nil]
  simp only [leftmostCall, hopen, hclose]

section

variable (function : Builtin) {texts : List (List Char)}

/-- The text of a call of balanced arguments is balanced. -/
theorem balanced_call (h : ∀ text ∈ texts, Balanced false text) :
    Balanced false (function.name.toList ++ '(' :: ([',', ' '].intercalate texts ++ [')'])) := by
  have hinert : ∀ c ∈ function.name.toList, Reference.isInert c = true :=
    fun c hc => Reference.isInert_of_isNameChar (Builtin.isNameChar_of_mem_name hc)
  have hname : Balanced false function.name.toList := Reference.balanced_of_isInert hinert
  exact hname.append (.parentheses (.intercalate h))

/-- The text of a call has no blanks at its ends. -/
theorem tight_call (arguments : List Char) :
    Tight (function.name.toList ++ '(' :: (arguments ++ [')'])) := by
  have hname : Tight function.name.toList := by
    refine .of_forall function.name_ne_nil fun c hc => ?_
    have hinert := Reference.isInert_of_isNameChar (Builtin.isNameChar_of_mem_name hc)
    exact (Reference.ne_of_isInert hinert).1
  have hblank : Text.isBlank ')' = false := Text.isBlank_eq_false (by decide)
  have hend : Tight [')'] := ⟨⟨')', rfl, hblank⟩, ⟨')', rfl, hblank⟩⟩
  exact hname.append hend ('(' :: arguments)

/-- The call is found in its text, with its arguments. -/
theorem leftmostCall_call (h : ∀ text ∈ texts, Balanced false text) :
    leftmostCall (function.name.toList ++ '(' :: ([',', ' '].intercalate texts ++ [')'])) =
      .ok (some ⟨[], function.name.toList, [',', ' '].intercalate texts, []⟩) :=
  leftmostCall_of_name function.name_ne_nil (fun _ => Builtin.isNameChar_of_mem_name)
    (.intercalate h)

end

/-- A call is read back if its parameters are. -/
theorem readsFlat_call {parameters : List Expr} (function : Builtin)
    (h : ∀ e ∈ parameters, ReadsFlat e) : ReadsFlat (.call function parameters) := by
  have hbalanced : ∀ text ∈ Expr.flats parameters, Balanced false text := by
    rw [Expr.flats_eq_map]
    exact List.forall_mem_map.mpr fun e he => (h e he).balanced
  have htight : ∀ text ∈ Expr.flats parameters, Tight text := by
    rw [Expr.flats_eq_map]
    exact List.forall_mem_map.mpr fun e he => (h e he).tight
  constructor
  · exact balanced_call function hbalanced
  · exact tight_call function _
  · have hwords : (wordsOf []).mapM meaning? = some [] := rfl
    rw [Expr.flat, row?_of_some (leftmostCall_call function hbalanced)]
    simp only [hwords, String.ofList_toList, Builtin.ofName?_name,
      argumentTexts_intercalate hbalanced htight, parameters?_flats h, row?_nil, Option.bind_some,
      Option.map_some]
    rfl

/-- The flat text of a left-nested expression means its tokens. -/
theorem readsFlat_of_leftNested {e : Expr} (h : e.LeftNested) : ReadsFlat e := by
  induction h with
  | number value =>
    refine readsFlat_word ?_ (meaning?_integerText value) rfl
    rw [Expr.flat, Reference.ofChars_integerText]
    simp
  | «variable» hname hchars =>
    have hmeaning := meaning?_reference hname hchars
    rw [String.ofList_toList] at hmeaning
    refine readsFlat_word ?_ hmeaning rfl
    rw [Expr.flat, Reference.ofChars_reference hname hchars]
    simp
  | dice pool =>
    refine readsFlat_word ?_ (meaning?_pool pool) rfl
    rw [Expr.flat, ofChars_pool]
    simp
  | operation operator _ _ hoperand ihleft ihright =>
    exact readsFlat_operation operator ihleft ihright hoperand
  | call function _ ih => exact readsFlat_call function ih

/-- The expressions that are read from some text are the left-nested ones, one at least, and they
are read from their flat text. -/
theorem read_flatText_iff (exprs : List Expr) :
    ((∃ source, read source = .ok exprs) ↔ exprs ≠ [] ∧ ∀ e ∈ exprs, e.LeftNested) ∧
      (read (Expr.flatText exprs) = .ok exprs ↔ exprs ≠ [] ∧ ∀ e ∈ exprs, e.LeftNested) := by
  have hread (source : String) (h : read source = .ok exprs) :
      exprs ≠ [] ∧ ∀ e ∈ exprs, e.LeftNested :=
    ⟨(read_eq_ok_iff.mp h).1, leftNested_of_read h⟩
  have hflat (h : exprs ≠ [] ∧ ∀ e ∈ exprs, e.LeftNested) :
      read (Expr.flatText exprs) = .ok exprs := by
    have hrow := row?_intercalate fun e he => readsFlat_of_leftNested (h.2 e he)
    rw [← String.toList_ofList (l := [' '].intercalate (Expr.flats exprs))] at hrow
    exact read_eq_ok_iff.mpr ⟨h.1, _, hrow, bindTokens_flatMap_tokens exprs⟩
  constructor
  · constructor
    · rintro ⟨source, h⟩
      exact hread source h
    · intro h
      exact ⟨_, hflat h⟩
  · exact ⟨hread _, hflat⟩

example : Expr.flatText [.operation (.operation (.number 1) .sub (.number (-2))) .mul
    (.call .max [.dice ⟨4, .fate⟩, .number 3]), .call .drop []] =
    "1 - -2 * max(4dF, 3) drop()" := by
  decide

end Notation

end DiceNotation
