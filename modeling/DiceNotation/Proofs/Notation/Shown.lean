import DiceNotation.Proofs.Notation.Faults
import DiceNotation.Proofs.Notation.Flat
import DiceNotation.Proofs.Notation.MissingOperand
import DiceNotation.Proofs.Notation.Parentheses

/-!
# Reading the text of an expression

In the text of an expression every operation stands in parentheses, and a notation has no
parentheses but those of calls. A parenthesis beside a number, a variable or dice sticks to it,
and then the word has no meaning; beside a call it stands alone, and binding drops it. So the text
of an expression is read as that expression if all its operations have calls on both sides, and
otherwise an operator is missing an operand.
-/

namespace DiceNotation

open Notation
open Text (isNameChar)

namespace Expr

/-- Whether an expression is a call. -/
def isCall : Expr → Bool
  | .call .. => true
  | _ => false

mutual

/-- Whether all operations in an expression have calls on both sides. -/
def operatesOnCalls : Expr → Bool
  | .number _ => true
  | .variable _ => true
  | .dice _ => true
  | .operation left _ right =>
    left.isCall && right.isCall && left.operatesOnCalls && right.operatesOnCalls
  | .call _ parameters => allOperateOnCalls parameters

/-- Whether all operations in a list of expressions have calls on both sides. -/
def allOperateOnCalls : List Expr → Bool
  | [] => true
  | e :: rest => e.operatesOnCalls && allOperateOnCalls rest

end

/-- An expression in which all variables have names of letters, digits and underscores. -/
inductive WellNamed : Expr → Prop
  | number (value : Int64) : WellNamed (.number value)
  | «variable» {name : String} (hname : name.toList ≠ [])
      (hchars : ∀ c ∈ name.toList, isNameChar c = true) : WellNamed (.variable name)
  | dice (pool : Pool) : WellNamed (.dice pool)
  | operation {left right : Expr} (operator : Operator) (hleft : WellNamed left)
      (hright : WellNamed right) : WellNamed (.operation left operator right)
  | call {parameters : List Expr} (function : Builtin)
      (hparameters : ∀ e ∈ parameters, WellNamed e) : WellNamed (.call function parameters)

private theorem renderParameters_eq (parameters : List Expr) :
    renderParameters parameters = [',', ' '].intercalate (parameters.map render) := by
  induction parameters with
  | nil => rfl
  | cons first rest ih =>
    cases rest with
    | nil => simp [renderParameters]
    | cons second rest =>
      rw [renderParameters, ih]
      simp only [List.map_cons, List.intercalate_cons_cons, List.append_assoc, List.cons_append,
        List.nil_append]

/-- The parts of the text of an expression, with parentheses in front of it and behind it. An
operation hands these down to its operands, with its own ones. -/
def parts : Nat → Nat → Expr → List Part
  | before, after, .operation left operator right =>
    left.parts (before + 1) 0 ++ .word [operator.symbol] :: right.parts 0 (after + 1)
  | before, after, .call function parameters =>
    (wordsOf (List.replicate before '(')).map .word ++
      .call function.name.toList (parameters.map render) ::
        (wordsOf (List.replicate after ')')).map .word
  | before, after, e => [.word (enclosed before after e.render)]

/-- If a parenthesis stands behind an expression, or in front of one that is not a call, then the
last part of its text is a word without a meaning. -/
theorem exists_last_stray {e : Expr} {before after : Nat}
    (h : 0 < after ∨ (e.isCall = false ∧ 0 < before)) :
    ∃ rest word, e.parts before after = rest ++ [.word word] ∧ Word.ofChars word = .stray := by
  have hword : 0 < before ∨ 0 < after := by omega
  cases e with
  | operation left operator right =>
    -- the right operand has the parenthesis of the operation behind it, whatever it is
    have hright : ∃ rest word, right.parts 0 (after + 1) = rest ++ [.word word] ∧
        Word.ofChars word = .stray := exists_last_stray (.inl (Nat.succ_pos after))
    obtain ⟨rest, word, hparts, hstray⟩ := hright
    exact ⟨_, word, by rw [parts, hparts, ← List.cons_append, ← List.append_assoc], hstray⟩
  | call function parameters =>
    have hafter : 0 < after := by simpa [isCall] using h
    obtain ⟨hwords, hstray⟩ := wordsOf_replicate (.inr rfl : ')' = '(' ∨ ')' = ')') hafter
    refine ⟨(wordsOf (List.replicate before '(')).map .word ++
      [.call function.name.toList (parameters.map render)], _, ?_, hstray⟩
    rw [parts, hwords, List.map_singleton, List.append_assoc, List.singleton_append]
  | number value => exact ⟨[], _, rfl, ofChars_enclosed hword _⟩
  | «variable» name => exact ⟨[], _, rfl, ofChars_enclosed hword _⟩
  | dice pool => exact ⟨[], _, rfl, ofChars_enclosed hword _⟩

/-- If a parenthesis stands in front of an expression, or behind one that is not a call, then the
first part of its text is a word without a meaning. -/
theorem exists_first_stray {e : Expr} {before after : Nat}
    (h : 0 < before ∨ (e.isCall = false ∧ 0 < after)) :
    ∃ word rest, e.parts before after = .word word :: rest ∧ Word.ofChars word = .stray := by
  have hword : 0 < before ∨ 0 < after := by omega
  cases e with
  | operation left operator right =>
    have hleft : ∃ word rest, left.parts (before + 1) 0 = .word word :: rest ∧
        Word.ofChars word = .stray := exists_first_stray (.inl (Nat.succ_pos before))
    obtain ⟨word, rest, hparts, hstray⟩ := hleft
    exact ⟨word, _, by rw [parts, hparts, List.cons_append], hstray⟩
  | call function parameters =>
    have hbefore : 0 < before := by simpa [isCall] using h
    obtain ⟨hwords, hstray⟩ := wordsOf_replicate (.inl rfl : '(' = '(' ∨ '(' = ')') hbefore
    exact ⟨_, _, by rw [parts, hwords, List.map_singleton, List.singleton_append], hstray⟩
  | number value => exact ⟨_, [], rfl, ofChars_enclosed hword _⟩
  | «variable» name => exact ⟨_, [], rfl, ofChars_enclosed hword _⟩
  | dice pool => exact ⟨_, [], rfl, ofChars_enclosed hword _⟩

end Expr

namespace Notation

/-- The text of an expression can stand among arguments, it has the parts that it should have, and
these are proper. It means the expression if all operations in it have calls on both sides, and
otherwise nothing. -/
structure ReadsShown (e : Expr) : Prop where
  balanced : Balanced false e.render
  tight : Tight e.render
  parts (before after : Nat) : parts? (enclosed before after e.render) = some (e.parts before after)
  properPart (before after : Nat) : ∀ part ∈ e.parts before after, ProperPart part
  exprs : exprs? e.render = if e.operatesOnCalls then some [e] else none

/-- The text of an expression has its parts without parentheses around it. -/
theorem ReadsShown.parts_zero {e : Expr} (h : ReadsShown e) :
    parts? e.render = some (e.parts 0 0) := by
  rw [← h.parts 0 0, enclosed_zero]

/-- The text of an expression is proper. -/
theorem ReadsShown.proper {e : Expr} (h : ReadsShown e) : Proper e.render :=
  .of_parts h.parts_zero (h.properPart 0 0)

/-- Parentheses of one kind are proper words. -/
theorem properPart_parentheses {c : Char} (hc : c = '(' ∨ c = ')') (count : Nat) :
    ∀ part ∈ (wordsOf (List.replicate count c)).map Part.word, ProperPart part := by
  rcases Nat.eq_zero_or_pos count with rfl | hcount
  · exact fun part hmem => absurd hmem List.not_mem_nil
  · obtain ⟨hwords, hstray⟩ := wordsOf_replicate hc hcount
    rw [hwords, List.map_singleton, List.forall_mem_singleton]
    exact .word (hasDie_of_form hstray (by simp))

/-- A word that means an operand is read as it is shown. -/
theorem readsShown_word {e : Expr} {form : Word} (hword : Word.ofChars e.render = form)
    (hne : form ≠ .stray) (hmeaning : meaning? e.render = some (.operand e))
    (hdie : HasDie e.render)
    (hparts : ∀ before after, e.parts before after = [.word (enclosed before after e.render)])
    (hoperates : e.operatesOnCalls = true) : ReadsShown e := by
  have hform : Word.ofChars e.render ≠ .stray := hword ▸ hne
  constructor
  · exact balanced_of_ofChars hform
  · exact tight_of_ofChars hform
  · intro before after
    rw [hparts, parts?_enclosed hform]
  · intro before after
    rw [hparts, List.forall_mem_singleton]
    refine .word ?_
    by_cases hparentheses : 0 < before ∨ 0 < after
    · exact hasDie_of_form (ofChars_enclosed hparentheses _) (by simp)
    · obtain ⟨rfl, rfl⟩ : before = 0 ∧ after = 0 := by omega
      rwa [enclosed_zero]
  · rw [exprs?, row?_word hform hmeaning, hoperates]
    rfl

/-- An operation in parentheses is its operands with a parenthesis more on one side. -/
theorem enclosed_operation (before after : Nat) (left : Expr) (operator : Operator)
    (right : Expr) :
    enclosed before after (Expr.operation left operator right).render =
      enclosed (before + 1) 0 left.render ++
        ' ' :: ([operator.symbol] ++ ' ' :: enclosed 0 (after + 1) right.render) := by
  have hbefore : List.replicate (before + 1) '(' = List.replicate before '(' ++ ['('] :=
    List.replicate_succ'
  have hafter : List.replicate (after + 1) ')' = ')' :: List.replicate after ')' :=
    List.replicate_succ
  rw [enclosed, enclosed, enclosed, hbefore, hafter]
  simp [Expr.render]

private theorem parts?_symbol (operator : Operator) :
    parts? [operator.symbol] = some [.word [operator.symbol]] := by
  cases operator <;> simpa [enclosed_zero] using parts?_enclosed (by decide) 0 0

/-- A call has a meaning if it is bound to itself. -/
theorem token?_call {function : Builtin} {parameters : List Expr} {known : Bool}
    (hparts : parts? (Expr.call function parameters).render =
      some [.call function.name.toList (parameters.map Expr.render)])
    (hexprs : exprs? (Expr.call function parameters).render =
      if known then some [.call function parameters] else none) :
    (Part.call function.name.toList (parameters.map Expr.render)).token? =
      if known then some (.operand (.call function parameters)) else none := by
  rw [exprs?, row?_eq_parts, hparts, Option.bind_some, List.mapM_cons] at hexprs
  simp only [Part.token?, String.ofList_toList, Builtin.ofName?_name, Option.bind_eq_bind,
    Option.bind_some, Option.pure_def, List.mapM_nil] at hexprs ⊢
  cases hfound : parameters? (parameters.map Expr.render) with
  | none => cases known <;> simp_all
  | some found =>
    cases known <;> simp_all [bindTokens, bindAfter, Except.toOption]

/-- A call with a parenthesis in front of it, an operator, and a call with a parenthesis behind
it. -/
theorem exprs?_calls {f g : Builtin} {parameters others : List Expr} (operator : Operator)
    (hl : ReadsShown (.call f parameters)) (hr : ReadsShown (.call g others)) {text : List Char}
    (hparts : parts? text = some ((Expr.call f parameters).parts 1 0 ++
      .word [operator.symbol] :: (Expr.call g others).parts 0 1)) :
    exprs? text =
      if (Expr.call f parameters).operatesOnCalls && (Expr.call g others).operatesOnCalls then
        some [.operation (.call f parameters) operator (.call g others)]
      else none := by
  have hopen : (wordsOf (List.replicate 1 '(')).map Part.word = [.word ['(']] := by rfl
  have hclose : (wordsOf (List.replicate 1 ')')).map Part.word = [.word [')']] := by rfl
  have hnothing : (wordsOf (List.replicate 0 '(')).map Part.word = [] ∧
      (wordsOf (List.replicate 0 ')')).map Part.word = [] := ⟨rfl, rfl⟩
  have hfirst : (Part.word ['(']).token? = some (.stray ['(']) := by rfl
  have hsymbol : (Part.word [operator.symbol]).token? = some (.operator operator) :=
    meaning?_symbol operator
  have hlast : (Part.word [')']).token? = some (.stray [')']) := by rfl
  have hleft := token?_call hl.parts_zero hl.exprs
  have hright := token?_call hr.parts_zero hr.exprs
  rw [Expr.parts, Expr.parts, hopen, hclose, hnothing.1, hnothing.2] at hparts
  rw [exprs?, row?_eq_parts, hparts, Option.bind_some]
  simp only [List.mapM_append, List.mapM_cons, List.mapM_nil, hfirst, hsymbol, hlast, hleft, hright,
    List.nil_append, Option.bind_eq_bind, Option.pure_def]
  cases (Expr.call f parameters).operatesOnCalls <;>
    cases (Expr.call g others).operatesOnCalls <;> rfl

/-- An operation has its operands if both of them are calls with a meaning. Otherwise a word without
a meaning stands beside its operator. -/
theorem exprs?_operation {l r : Expr} (operator : Operator) (hl : ReadsShown l)
    (hr : ReadsShown r) {text : List Char}
    (hparts : parts? text = some ((Expr.operation l operator r).parts 0 0)) :
    exprs? text =
      if (Expr.operation l operator r).operatesOnCalls then some [.operation l operator r]
      else none := by
  rw [Expr.parts] at hparts
  rw [Expr.operatesOnCalls]
  cases hleft : l.isCall with
  | false =>
    -- the parenthesis in front of the operation reaches the word beside the operator
    have hstray : ∃ rest word, l.parts 1 0 = rest ++ [.word word] ∧ Word.ofChars word = .stray :=
      Expr.exists_last_stray (.inr ⟨hleft, Nat.one_pos⟩)
    obtain ⟨rest, word, hlast, hword⟩ := hstray
    rw [hlast, List.append_assoc, List.singleton_append] at hparts
    exact exprs?_of_stray_operator hparts hword
  | true =>
    cases hright : r.isCall with
    | false =>
      have hstray : ∃ word rest, r.parts 0 1 = .word word :: rest ∧ Word.ofChars word = .stray :=
        Expr.exists_first_stray (.inr ⟨hright, Nat.one_pos⟩)
      obtain ⟨word, rest, hfirst, hword⟩ := hstray
      rw [hfirst] at hparts
      exact exprs?_of_operator_stray hparts hword
    | true =>
      cases l with
      | call f parameters =>
        cases r with
        | call g others => exact exprs?_calls operator hl hr hparts
        | _ => cases hright
      | _ => cases hleft

/-- An operation is read as it is shown if its operands are. -/
theorem readsShown_operation {l r : Expr} (operator : Operator) (hl : ReadsShown l)
    (hr : ReadsShown r) : ReadsShown (.operation l operator r) := by
  have hparts (before after : Nat) :
      parts? (enclosed before after (Expr.operation l operator r).render) =
        some ((Expr.operation l operator r).parts before after) := by
    rw [enclosed_operation, parts?_append isBlank_space (hl.parts (before + 1) 0),
      parts?_append isBlank_space (parts?_symbol operator), hr.parts]
    rfl
  have hword : Word.ofChars [operator.symbol] = .operator operator := by cases operator <;> rfl
  have hdie : HasDie [operator.symbol] := hasDie_of_form hword (by simp)
  constructor
  · have hblank : Balanced true [' '] := .char (by decide) (by decide) (by decide)
    have hsymbol : Balanced true [operator.symbol] := balanced_of_ofChars (by simp [hword])
    have hinside := hl.balanced.mono.append
      (hblank.append (hsymbol.append (hblank.append hr.balanced.mono)))
    have hall : Balanced false ('(' :: (_ ++ [')'])) := .parentheses hinside
    simpa [Expr.render] using hall
  · have hopen : Tight ['('] := .of_forall (by decide) (List.forall_mem_singleton.mpr (by decide))
    have hclose : Tight [')'] := .of_forall (by decide) (List.forall_mem_singleton.mpr (by decide))
    have hall := hopen.append hclose (l.render ++ ' ' :: operator.symbol :: ' ' :: r.render)
    simpa [Expr.render] using hall
  · exact hparts
  · intro before after
    rw [Expr.parts, List.forall_mem_append, List.forall_mem_cons]
    exact ⟨hl.properPart _ _, .word hdie, hr.properPart _ _⟩
  · have hzero := hparts 0 0
    rw [enclosed_zero] at hzero
    exact exprs?_operation operator hl hr hzero

/-- The texts of parameters mean the parameters if operations stand between calls only. -/
theorem parameters?_render {parameters : List Expr} (h : ∀ e ∈ parameters, ReadsShown e) :
    parameters? (parameters.map Expr.render) =
      if Expr.allOperateOnCalls parameters then some parameters else none := by
  induction parameters with
  | nil =>
    rw [List.map_nil, parameters?]
    rfl
  | cons e rest ih =>
    obtain ⟨he, hrest⟩ := List.forall_mem_cons.mp h
    rw [List.map_cons, parameters?_cons, he.exprs, ih hrest, Expr.allOperateOnCalls]
    cases e.operatesOnCalls <;> cases Expr.allOperateOnCalls rest <;> rfl

/-- A call is read as it is shown if its parameters are. -/
theorem readsShown_call {parameters : List Expr} (function : Builtin)
    (h : ∀ e ∈ parameters, ReadsShown e) : ReadsShown (.call function parameters) := by
  have hbalanced : ∀ text ∈ parameters.map Expr.render, Balanced false text :=
    List.forall_mem_map.mpr fun e he => (h e he).balanced
  have htight : ∀ text ∈ parameters.map Expr.render, Tight text :=
    List.forall_mem_map.mpr fun e he => (h e he).tight
  have hrender : (Expr.call function parameters).render = function.name.toList ++
      '(' :: ([',', ' '].intercalate (parameters.map Expr.render) ++ [')']) := by
    rw [Expr.render, Expr.renderParameters_eq, List.append_assoc, List.cons_append]
  have hparts (before after : Nat) :
      parts? (enclosed before after (Expr.call function parameters).render) =
        some ((Expr.call function parameters).parts before after) := by
    have hcall := leftmostCall_of_first (leftmostCall_call function hbalanced)
      (List.replicate after ')')
    rw [enclosed, hrender, parts?_of_some (leftmostCall_replicate_append hcall before)]
    simp only [CallSite.behind, List.nil_append, List.append_nil,
      parts?_of_none (leftmostCall_closes after), Option.map_some,
      argumentTexts_intercalate hbalanced htight]
    rfl
  constructor
  · rw [hrender]
    exact balanced_call function hbalanced
  · rw [hrender]
    exact tight_call function _
  · exact hparts
  · intro before after
    rw [Expr.parts, List.forall_mem_append, List.forall_mem_cons]
    refine ⟨properPart_parentheses (.inl rfl) before, .call ?_ ?_,
      properPart_parentheses (.inr rfl) after⟩
    · rw [String.ofList_toList, Builtin.ofName?_name]
      rfl
    · exact List.forall_mem_map.mpr fun e he => (h e he).proper
  · have hzero : parts? (Expr.call function parameters).render =
        some [.call function.name.toList (parameters.map Expr.render)] := by
      rw [← enclosed_zero (Expr.call function parameters).render, hparts]
      rfl
    rw [exprs?, row?_eq_parts, hzero, Option.bind_some, List.mapM_cons, Part.token?,
      String.ofList_toList, Builtin.ofName?_name, parameters?_render h, Expr.operatesOnCalls]
    cases Expr.allOperateOnCalls parameters <;> rfl

/-- The text of an expression is read as it should be. -/
theorem readsShown_of_wellNamed {e : Expr} (h : e.WellNamed) : ReadsShown e := by
  induction h with
  | number value =>
    have hword := Reference.ofChars_integerText value.toInt
    exact readsShown_word hword (by simp) (meaning?_integerText value)
      (hasDie_of_form hword (by simp)) (fun _ _ => rfl) rfl
  | «variable» hname hchars =>
    have hword := Reference.ofChars_reference hname hchars
    have hmeaning := meaning?_reference hname hchars
    rw [String.ofList_toList] at hmeaning
    exact readsShown_word hword (by simp) hmeaning (hasDie_of_form hword (by simp))
      (fun _ _ => rfl) rfl
  | dice pool =>
    have hword := ofChars_pool pool
    refine readsShown_word hword (by simp) (meaning?_pool pool) ?_ (fun _ _ => rfl) rfl
    intro count size hdice
    rw [Expr.render, hword] at hdice
    cases hdice
    exact ⟨pool.die, pool.die.ofText_render⟩
  | operation operator _ _ ihleft ihright => exact readsShown_operation operator ihleft ihright
  | call function _ ih => exact readsShown_call function ih

/-- The text of an expression is read as that expression if all its operations have calls on both
sides. Otherwise it is malformed. -/
theorem read_text {e : Expr} (h : e.WellNamed) :
    (e.operatesOnCalls = true → read e.text = .ok [e]) ∧
      (e.operatesOnCalls = false →
        ∃ error, read e.text = .error error ∧ error.kind = .malformed) ∧
      ∀ exprs, read e.text = .ok exprs → exprs = [e] := by
  have hshown := readsShown_of_wellNamed h
  have hexprs : exprs? e.text.toList = if e.operatesOnCalls then some [e] else none := by
    rw [Expr.text, String.toList_ofList, hshown.exprs]
  refine ⟨?_, ?_, ?_⟩
  · intro hoperates
    rw [if_pos hoperates] at hexprs
    exact read_eq_ok_iff_exprs?.mpr ⟨by simp, hexprs⟩
  · intro hoperates
    cases hread : read e.text with
    | ok exprs =>
      obtain ⟨-, hfound⟩ := read_eq_ok_iff_exprs?.mp hread
      simp [hexprs, hoperates] at hfound
    | error error =>
      refine ⟨error, rfl, kind_of_read ?_ hread⟩
      rw [Expr.text, String.toList_ofList]
      exact hshown.proper
  · intro exprs hread
    obtain ⟨-, hfound⟩ := read_eq_ok_iff_exprs?.mp hread
    rw [hexprs] at hfound
    split at hfound
    · exact (Option.some.inj hfound).symm
    · cases hfound

/-- Two calls with an operator between them are read, with dice, a variable and a negative number
among their parameters; a number beside a call is not. -/
theorem read_text_calls :
    Expr.WellNamed (.operation (.call .max [.dice ⟨2, .sided 6 (by decide)⟩, .variable "x"]) .add
        (.call .min [.number (-3)])) ∧
      read (Expr.operation (.call .max [.dice ⟨2, .sided 6 (by decide)⟩, .variable "x"]) .add
          (.call .min [.number (-3)])).text =
        .ok [.operation (.call .max [.dice ⟨2, .sided 6 (by decide)⟩, .variable "x"]) .add
          (.call .min [.number (-3)])] ∧
      Expr.WellNamed (.operation (.number 1) .sub (.call .sum [.dice ⟨4, .fate⟩])) ∧
      ∃ error, read (Expr.operation (.number 1) .sub (.call .sum [.dice ⟨4, .fate⟩])).text =
        .error error ∧ error.kind = .malformed := by
  have hmax : Expr.WellNamed (.call .max [.dice ⟨2, .sided 6 (by decide)⟩, .variable "x"]) := by
    refine .call .max (List.forall_mem_cons.mpr ⟨.dice _, List.forall_mem_singleton.mpr ?_⟩)
    exact .variable (by decide) (List.all_eq_true.mp (by decide))
  have hmin : Expr.WellNamed (.call .min [.number (-3)]) :=
    .call .min (List.forall_mem_singleton.mpr (.number (-3)))
  have hsum : Expr.WellNamed (.call .sum [.dice ⟨4, .fate⟩]) :=
    .call .sum (List.forall_mem_singleton.mpr (.dice _))
  have hcalls := Expr.WellNamed.operation .add hmax hmin
  have hnumber := Expr.WellNamed.operation .sub (.number 1) hsum
  exact ⟨hcalls, (read_text hcalls).1 (by decide), hnumber, (read_text hnumber).2.1 (by decide)⟩

example : (Expr.operation (.number 1) .sub (.call .sum [.dice ⟨4, .fate⟩])).text =
    "(1 - sum(4dF))" := by
  decide

end Notation

end DiceNotation
