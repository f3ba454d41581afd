import DiceNotation.Proofs.Filling.Words
import DiceNotation.Proofs.Notation.Binding
import DiceNotation.Proofs.Notation.Joining

/-!
# Expressions that are read

An operator binds the operand just after it, and that is a number, a variable, dice or a call.
Operations therefore nest to the left only, in a notation and in the parameters of each call in
it.
-/

namespace DiceNotation

open Text (isNameChar)

/-- Whether an expression is an operation. -/
def Expr.isOperation : Expr → Bool
  | .operation .. => true
  | _ => false

/-- An expression in which no operation is the right operand of another one, and all variables
have names of letters, digits and underscores. -/
inductive Expr.LeftNested : Expr → Prop
  | number (value : Int64) : LeftNested (.number value)
  | «variable» {name : String} (hname : name.toList ≠ [])
      (hchars : ∀ c ∈ name.toList, isNameChar c = true) : LeftNested (.variable name)
  | dice (pool : Pool) : LeftNested (.dice pool)
  | operation {left right : Expr} (operator : Operator) (hleft : LeftNested left)
      (hright : LeftNested right) (hoperand : right.isOperation = false) :
      LeftNested (.operation left operator right)
  | call {parameters : List Expr} (function : Builtin)
      (hparameters : ∀ e ∈ parameters, LeftNested e) : LeftNested (.call function parameters)

/-- An expression that an operation can have on its right. -/
structure Expr.IsOperand (e : Expr) : Prop where
  leftNested : e.LeftNested
  noOperation : e.isOperation = false

namespace Notation

/-- The name of a variable is made of the characters of names. -/
theorem name_of_ofChars {word name : List Char} (h : Word.ofChars word = .variable name) :
    name ≠ [] ∧ ∀ c ∈ name, isNameChar c = true := by
  cases word with
  | nil => cases h
  | cons c rest =>
    by_cases hdollar : c = '$'
    · subst hdollar
      simp only [Word.ofChars] at h
      split at h
      · next hname =>
        cases h
        exact ⟨hname.1, List.all_eq_true.mp hname.2⟩
      · cases h
    · exact absurd h (Reference.ofChars_ne_variable (by simpa using hdollar))

/-- A word that means an expression means an operand. -/
theorem isOperand_of_meaning? {word : List Char} {e : Expr}
    (h : meaning? word = some (.operand e)) : e.IsOperand := by
  unfold meaning? at h
  split at h
  · cases h
  · obtain ⟨value, -, hvalue⟩ := Option.map_eq_some_iff.mp h
    cases hvalue
    exact ⟨.number value, rfl⟩
  · obtain ⟨pool, -, hpool⟩ := Option.map_eq_some_iff.mp h
    cases hpool
    exact ⟨.dice pool, rfl⟩
  · cases h
  · next name hword =>
    obtain ⟨hname, hchars⟩ := name_of_ofChars hword
    cases h
    rw [← String.toList_ofList (l := name)] at hname hchars
    exact ⟨.variable hname hchars, rfl⟩
  · cases h

/-- The operands that words mean are operands on their own. -/
theorem isOperand_of_meanings {words : List (List Char)} {row : List Token}
    (h : words.mapM meaning? = some row) : ∀ e, .operand e ∈ row → e.IsOperand := by
  induction words generalizing row with
  | nil =>
    cases h
    simp
  | cons word words ih =>
    simp only [List.mapM_cons, Option.bind_eq_bind, Option.pure_def, Option.bind_eq_some_iff,
      Option.some.injEq] at h
    obtain ⟨token, htoken, row, hrow, rfl⟩ := h
    intro e he
    rcases List.mem_cons.mp he with rfl | he
    · exact isOperand_of_meaning? htoken
    · exact ih hrow e he

/-- Operations that are bound nest to the left. -/
theorem leftNested_of_bindTokens {row : List Token} {exprs : List Expr}
    (hrow : ∀ e, .operand e ∈ row → e.IsOperand) (h : bindTokens row = .ok exprs) :
    ∀ e ∈ exprs, e.LeftNested :=
  forall_of_bindAfter (fun _ => Expr.IsOperand.leftNested)
    (fun _ operator _ hl hr => .operation operator hl hr.leftNested hr.noOperation) (by simp) hrow h

/-- A row of tokens holds operands only, and the parameters of a call are left-nested. -/
theorem isOperand_of_row? :
    (∀ text row, row? text = some row → ∀ e, .operand e ∈ row → e.IsOperand) ∧
      ∀ arguments exprs, parameters? arguments = some exprs → ∀ e ∈ exprs, e.LeftNested := by
  refine row?.mutual_induct _ _ ?error ?none ?call ?nil ?cons
  case error =>
    intro text error herror row h
    simp [row?_of_error herror] at h
  case none =>
    intro text hnone row h
    rw [row?_of_none hnone] at h
    exact isOperand_of_meanings h
  case call =>
    intro text site hsite iharguments ihafter row h
    simp only [row?_of_some hsite, Option.bind_eq_some_iff, Option.map_eq_some_iff] at h
    obtain ⟨before, hbefore, function, -, parameters, hparameters, after, hafter, rfl⟩ := h
    intro e he
    rcases List.mem_append.mp he with he | he
    · exact isOperand_of_meanings hbefore e he
    · rcases List.mem_cons.mp he with hcall | he
      · cases hcall
        exact ⟨.call function (iharguments parameters hparameters), rfl⟩
      · exact ihafter after hafter e he
  case nil =>
    intro exprs h
    rw [parameters?, Option.some.injEq] at h
    subst h
    simp
  case cons =>
    intro argument rest ihargument ihrest exprs h
    rw [parameters?] at h
    simp only [Option.bind_eq_bind, Option.pure_def, Option.bind_eq_some_iff,
      Option.some.injEq] at h
    obtain ⟨row, hrow, first, hfirst, others, hothers, rfl⟩ := h
    intro e he
    rcases List.mem_append.mp he with he | he
    · exact leftNested_of_bindTokens (ihargument row hrow) (eq_ok_iff_toOption.mpr hfirst) e he
    · exact ihrest others hothers e he

/-- All expressions that are read are left-nested. -/
theorem leftNested_of_read {source : String} {exprs : List Expr} (h : read source = .ok exprs) :
    ∀ e ∈ exprs, e.LeftNested := by
  obtain ⟨-, row, hrow, hbound⟩ := read_eq_ok_iff.mp h
  exact leftNested_of_bindTokens (isOperand_of_row?.1 _ _ hrow) hbound

end Notation

end DiceNotation
