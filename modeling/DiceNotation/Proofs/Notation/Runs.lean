import DiceNotation.Proofs.Notation.Binding

/-!
# Runs of operands

A row of tokens can be bound if every operator in it has an operand right beside it on both sides,
and only then. Such a row falls into stray words and runs, which are operands with an operator
between each two of them, and each run is bound to one expression, from left to right. If a row
cannot be bound, the error is about its first operator that lacks an operand.
-/

namespace DiceNotation

namespace Notation

namespace Token

/-- Whether a token is an operand. -/
def isOperand : Token → Bool
  | .operand _ => true
  | _ => false

/-- Whether a token is an operator. -/
def isOperator : Token → Bool
  | .operator _ => true
  | _ => false

/-- Whether a token is a stray word. -/
def isStray : Token → Bool
  | .stray _ => true
  | _ => false

end Token

/-- Whether a row starts with a token of some kind. -/
def startsWith (kind : Token → Bool) (row : List Token) : Bool :=
  row.head?.any kind

/-- Whether a row ends with a token of some kind. -/
def endsWith (kind : Token → Bool) (row : List Token) : Bool :=
  row.getLast?.any kind

/-- Whether an operator between two rows has operands right beside it. -/
def hasOperands (before after : List Token) : Bool :=
  endsWith Token.isOperand before && startsWith Token.isOperand after

/-- All operators of a row have operands beside them when the row stands between two others. -/
def Served (context row next : List Token) : Prop :=
  ∀ before operator after, row = before ++ .operator operator :: after →
    hasOperands (context ++ before) (after ++ next) = true

private theorem endsWith_concat (kind : Token → Bool) (row : List Token) (token : Token) :
    endsWith kind (row ++ [token]) = kind token := by
  simp [endsWith]

private theorem startsWith_append {first : List Token} (h : first ≠ []) (kind : Token → Bool)
    (rest : List Token) : startsWith kind (first ++ rest) = startsWith kind first := by
  cases first with
  | nil => exact absurd rfl h
  | cons token others => rfl

private theorem startsWith_isOperand_eq_false {row : List Token}
    (h : ∀ e rest, row = .operand e :: rest → False) :
    startsWith Token.isOperand row = false := by
  cases row with
  | nil => rfl
  | cons token rest =>
    cases token with
    | operand e => exact absurd rfl (h e rest)
    | operator operator => rfl
    | stray word => rfl

private theorem endsWith_append {last : List Token} (h : last ≠ []) (kind : Token → Bool)
    (row : List Token) : endsWith kind (row ++ last) = endsWith kind last := by
  rcases List.eq_nil_or_concat last with rfl | ⟨others, token, rfl⟩
  · exact absurd rfl h
  · rw [List.concat_eq_append, ← List.append_assoc, endsWith_concat, endsWith_concat]

/-- Where there are no tokens, all operators have operands. -/
theorem served_nil (context next : List Token) : Served context [] next := by
  intro before operator after h
  cases before <;> cases h

/-- One more token in front leaves the operators served, if it is none or is served itself. -/
theorem Served.cons {context rest next : List Token} {token : Token}
    (h : Served (context ++ [token]) rest next)
    (htoken : token.isOperator = true → hasOperands context (rest ++ next) = true) :
    Served context (token :: rest) next := by
  intro before operator after heq
  cases before with
  | nil =>
    obtain ⟨rfl, rfl⟩ := List.cons.inj heq
    rw [List.append_nil]
    exact htoken rfl
  | cons first before =>
    obtain ⟨rfl, rfl⟩ := List.cons.inj heq
    simpa using h before operator after rfl

/-- The first operator of a row, which stands behind another one, that lacks an operand. -/
structure FirstUnserved (context row before : List Token) (operator : Operator)
    (after : List Token) : Prop where
  row_eq : row = before ++ .operator operator :: after
  unserved : hasOperands (context ++ before) after = false
  earlier : Served context before (.operator operator :: after)

/-- A token whose operands are there may stand before the first operator without them. -/
theorem FirstUnserved.cons {context rest before after : List Token} {token : Token}
    {operator : Operator} (h : FirstUnserved (context ++ [token]) rest before operator after)
    (htoken : token.isOperator = true → hasOperands context rest = true) :
    FirstUnserved context (token :: rest) (token :: before) operator after := by
  obtain ⟨rfl, hunserved, hearlier⟩ := h
  exact ⟨rfl, by simpa using hunserved, hearlier.cons htoken⟩

/-- The side on which an operator lacks an operand: the left one if it lacks that one. -/
def missingSide (before : List Token) : Side :=
  if endsWith Token.isOperand before then .right else .left

/-- A row that can be bound has all its operators served. The context is a row that ends as the row
before does, with an operand or without one. -/
theorem served_of_bindAfter {left : Option Expr} {context row : List Token} {exprs : List Expr}
    (hcontext : endsWith Token.isOperand context = left.isSome)
    (h : bindAfter left row = .ok exprs) : Served context row [] := by
  fun_induction bindAfter left row generalizing context exprs with
  | case1 left => exact served_nil _ _
  | case2 left e rest found hfound ih =>
    exact (ih (endsWith_concat _ _ _) hfound).cons (by simp [Token.isOperator])
  | case3 left e rest error herror ih => cases h
  | case4 left word rest found hfound ih =>
    exact (ih (endsWith_concat _ _ _) hfound).cons (by simp [Token.isOperator])
  | case5 left word rest error herror ih => cases h
  | case6 operator rest => cases h
  | case7 operator l r rest ih =>
    have hrest : Served (context ++ [.operator operator]) (.operand r :: rest) [] :=
      (ih (endsWith_concat _ _ _) h).cons (by simp [Token.isOperator])
    refine hrest.cons fun _ => ?_
    simp [hasOperands, hcontext, startsWith, Token.isOperand]
  | case8 operator rest l hrest => cases h

/-- If a row cannot be bound, the error names the first operator that lacks an operand. -/
theorem firstUnserved_of_bindAfter {left : Option Expr} {context row : List Token}
    {error : NotationError} (hcontext : endsWith Token.isOperand context = left.isSome)
    (h : bindAfter left row = .error error) :
    ∃ before operator after, FirstUnserved context row before operator after ∧
      error = .missingOperand operator (missingSide (context ++ before)) := by
  fun_induction bindAfter left row generalizing context with
  | case1 left => cases h
  | case2 left e rest found hfound ih => cases h
  | case3 left e rest failure hfailure ih =>
    cases h
    obtain ⟨before, operator, after, hfirst, rfl⟩ :=
      ih (endsWith_concat _ context (.operand e)) hfailure
    exact ⟨_, operator, after, hfirst.cons (by simp [Token.isOperator]), by simp⟩
  | case4 left word rest found hfound ih => cases h
  | case5 left word rest failure hfailure ih =>
    cases h
    obtain ⟨before, operator, after, hfirst, rfl⟩ :=
      ih (endsWith_concat _ context (.stray word)) hfailure
    exact ⟨_, operator, after, hfirst.cons (by simp [Token.isOperator]), by simp⟩
  | case6 operator rest =>
    cases h
    have hside : missingSide context = .left := by simp [missingSide, hcontext]
    refine ⟨[], operator, rest, ⟨rfl, ?_, served_nil _ _⟩, by rw [List.append_nil, hside]⟩
    simp [hasOperands, hcontext]
  | case7 operator l r rest ih =>
    obtain ⟨before, later, after, hfirst, rfl⟩ :=
      ih (endsWith_concat _ (context ++ [.operator operator]) (.operand r)) h
    have hbehind : FirstUnserved (context ++ [.operator operator]) (.operand r :: rest)
        (.operand r :: before) later after := hfirst.cons (by simp [Token.isOperator])
    refine ⟨_, later, after, hbehind.cons fun _ => ?_, by simp⟩
    simp [hasOperands, hcontext, startsWith, Token.isOperand]
  | case8 operator rest l hrest =>
    cases h
    have hside : missingSide context = .right := by simp [missingSide, hcontext]
    have hnone := startsWith_isOperand_eq_false hrest
    refine ⟨[], operator, rest, ⟨rfl, ?_, served_nil _ _⟩, by rw [List.append_nil, hside]⟩
    simp [hasOperands, hnone]

/-- Operands with an operator between each two of them. -/
structure Run where
  /-- The first operand. -/
  first : Expr
  /-- The other operands, each one with the operator before it. -/
  rest : List (Operator × Expr)

namespace Run

/-- The tokens of operators with an operand behind each of them. -/
def stepTokens (steps : List (Operator × Expr)) : List Token :=
  steps.flatMap fun step => [.operator step.1, .operand step.2]

/-- The tokens of a run. -/
def tokens (run : Run) : List Token :=
  .operand run.first :: stepTokens run.rest

/-- The expression that a run is bound to: each operator takes all that comes before it. -/
def expr (run : Run) : Expr :=
  run.rest.foldl (fun left step => .operation left step.1 step.2) run.first

end Run

/-- A part of a row: a run or a stray word. -/
inductive Segment where
  | run (run : Run)
  | stray (word : List Char)

namespace Segment

/-- The tokens of a part of a row. -/
def tokens : Segment → List Token
  | .run r => r.tokens
  | .stray word => [.stray word]

/-- The run that a part of a row is, if it is one. -/
def run? : Segment → Option Run
  | .run r => some r
  | .stray _ => none

end Segment

/-- A row that can be bound is made of runs and stray words, behind what goes on with the operand
before it, and it is bound to the expressions of the runs. -/
theorem segments_of_bindAfter {left : Option Expr} {row : List Token} {exprs : List Expr}
    (h : bindAfter left row = .ok exprs) :
    ∃ (steps : List (Operator × Expr)) (segments : List Segment),
      (left = none → steps = []) ∧
      row = Run.stepTokens steps ++ segments.flatMap Segment.tokens ∧
      exprs = (left.map fun l => Run.expr ⟨l, steps⟩).toList ++
        (segments.filterMap Segment.run?).map Run.expr := by
  fun_induction bindAfter left row generalizing exprs with
  | case1 left =>
    cases h
    exact ⟨[], [], fun _ => rfl, rfl, by cases left <;> rfl⟩
  | case2 left e rest found hfound ih =>
    cases h
    obtain ⟨steps, segments, -, rfl, rfl⟩ := ih hfound
    exact ⟨[], .run ⟨e, steps⟩ :: segments, fun _ => rfl, rfl, by cases left <;> rfl⟩
  | case3 left e rest error herror ih => cases h
  | case4 left word rest found hfound ih =>
    cases h
    obtain ⟨steps, segments, hsteps, rfl, rfl⟩ := ih hfound
    obtain rfl := hsteps rfl
    exact ⟨[], .stray word :: segments, fun _ => rfl, rfl, by cases left <;> rfl⟩
  | case5 left word rest error herror ih => cases h
  | case6 operator rest => cases h
  | case7 operator l r rest ih =>
    obtain ⟨steps, segments, -, rfl, rfl⟩ := ih h
    exact ⟨(operator, r) :: steps, segments, by simp, rfl, rfl⟩
  | case8 operator rest l hrest => cases h

/-- A run does not end with an operator. -/
theorem endsWith_stepTokens (steps : List (Operator × Expr)) (e : Expr) :
    endsWith Token.isOperator (.operand e :: Run.stepTokens steps) = false := by
  induction steps generalizing e with
  | nil => rfl
  | cons step rest ih => exact ih step.2

namespace Segment

/-- A segment has a token. -/
theorem tokens_ne_nil (segment : Segment) : segment.tokens ≠ [] := by
  cases segment <;> simp [tokens, Run.tokens]

/-- A row of runs and stray words starts with no operator. -/
theorem startsWith_tokens (segments : List Segment) :
    startsWith Token.isOperator (segments.flatMap tokens) = false := by
  cases segments with
  | nil => rfl
  | cons segment rest =>
    rw [List.flatMap_cons, startsWith_append segment.tokens_ne_nil]
    cases segment <;> rfl

/-- A row of runs and stray words ends with no operator. -/
theorem endsWith_tokens (segments : List Segment) :
    endsWith Token.isOperator (segments.flatMap tokens) = false := by
  rcases List.eq_nil_or_concat segments with rfl | ⟨others, segment, rfl⟩
  · rfl
  · rw [List.concat_eq_append, List.flatMap_append, List.flatMap_singleton,
      endsWith_append segment.tokens_ne_nil]
    cases segment with
    | run r => exact endsWith_stepTokens r.rest r.first
    | stray word => rfl

end Segment

/-- The operands and operators of an expression from left to right. -/
def inOrder : Expr → List Token
  | .operation left operator right => inOrder left ++ .operator operator :: inOrder right
  | e => [.operand e]

/-- The operands and operators in a token, from left to right. -/
def Token.inOrder : Token → List Token
  | .operand e => Notation.inOrder e
  | token => [token]

/-- The expression of a run has the tokens of the run in their order. -/
theorem Run.inOrder_expr (run : Run) : inOrder run.expr = run.tokens.flatMap Token.inOrder := by
  obtain ⟨first, rest⟩ := run
  rw [tokens, List.flatMap_cons]
  induction rest generalizing first with
  | nil => simp [expr, stepTokens, Token.inOrder]
  | cons step rest ih =>
    have hnext := ih (.operation first step.1 step.2)
    simpa [expr, stepTokens, Token.inOrder, Notation.inOrder] using hnext

/-- A run has no stray words. -/
theorem Run.filter_tokens (run : Run) : run.tokens.filter (!·.isStray) = run.tokens := by
  have hsteps (steps : List (Operator × Expr)) :
      (stepTokens steps).filter (!·.isStray) = stepTokens steps := by
    induction steps with
    | nil => rfl
    | cons step rest ih => exact congrArg (.operator step.1 :: .operand step.2 :: ·) ih
  exact congrArg (.operand run.first :: ·) (hsteps run.rest)

/-- The tokens of the runs in a row are those of the row without its stray words. -/
theorem Segment.flatMap_tokens_run? (segments : List Segment) :
    (segments.filterMap Segment.run?).flatMap Run.tokens =
      (segments.flatMap Segment.tokens).filter (!·.isStray) := by
  induction segments with
  | nil => rfl
  | cons segment rest ih =>
    rw [List.flatMap_cons, List.filter_append, ← ih]
    cases segment with
    | run r =>
      rw [List.filterMap_cons_some (show run? (.run r) = some r from rfl), List.flatMap_cons,
        Segment.tokens, Run.filter_tokens]
    | stray word => rfl

/-- A row can be bound exactly if each operator in it stands right between two operands. It then
consists of stray words and of runs that no operator stands beside, and each run is bound to one
expression, with no precedence, so that what is bound is the row in order without its stray words.
If a row cannot be bound, then it is malformed, and the error names the first operator that lacks
an operand, and the left side if it lacks the left one. -/
theorem bindTokens_runs (row : List Token) :
    ((∃ exprs, bindTokens row = .ok exprs) ↔
        ∀ before operator after, row = before ++ .operator operator :: after →
          hasOperands before after = true) ∧
      (∀ exprs, bindTokens row = .ok exprs →
        (∃ segments : List Segment,
          row = segments.flatMap Segment.tokens ∧
          (∀ before run after, segments = before ++ .run run :: after →
            endsWith Token.isOperator (before.flatMap Segment.tokens) = false ∧
            startsWith Token.isOperator (after.flatMap Segment.tokens) = false) ∧
          exprs = (segments.filterMap Segment.run?).map Run.expr ∧
          (segments.filterMap Segment.run?).flatMap Run.tokens = row.filter (!·.isStray)) ∧
        exprs.flatMap inOrder = (row.filter (!·.isStray)).flatMap Token.inOrder) ∧
      (∀ error, bindTokens row = .error error → ∃ before operator after,
        row = before ++ .operator operator :: after ∧
        hasOperands before after = false ∧
        (∀ earlier other between, before = earlier ++ .operator other :: between →
          hasOperands earlier (between ++ .operator operator :: after) = true) ∧
        let side : Side := if endsWith Token.isOperand before then .right else .left
        let symbol := String.singleton operator.symbol
        error = .missingOperand operator side ∧
        error.message = NotationError.malformed symbol
          ("'" ++ symbol ++ "' is missing its " ++ side.name ++ " operand")) := by
  have hstart : endsWith Token.isOperand [] = (none : Option Expr).isSome := rfl
  refine ⟨⟨?_, ?_⟩, ?_, ?_⟩
  · rintro ⟨exprs, h⟩ before operator after heq
    simpa using served_of_bindAfter hstart h before operator after heq
  · intro hserved
    cases h : bindTokens row with
    | ok exprs => exact ⟨exprs, rfl⟩
    | error error =>
      obtain ⟨before, operator, after, hfirst, -⟩ := firstUnserved_of_bindAfter hstart h
      have htrue := hserved before operator after hfirst.row_eq
      have hfalse : hasOperands before after = false := hfirst.unserved
      rw [htrue] at hfalse
      cases hfalse
  · intro exprs h
    obtain ⟨steps, segments, hsteps, hrow, hexprs⟩ := segments_of_bindAfter h
    obtain rfl := hsteps rfl
    replace hrow : row = segments.flatMap Segment.tokens := hrow
    replace hexprs : exprs = (segments.filterMap Segment.run?).map Run.expr := hexprs
    have htokens := hrow ▸ Segment.flatMap_tokens_run? segments
    refine ⟨⟨segments, hrow, ?_, hexprs, htokens⟩, ?_⟩
    · rintro before run after -
      exact ⟨Segment.endsWith_tokens before, Segment.startsWith_tokens after⟩
    · rw [← htokens, hexprs, List.flatMap_map, List.flatMap_assoc]
      simp only [Run.inOrder_expr]
  · intro error h
    obtain ⟨before, operator, after, hfirst, rfl⟩ := firstUnserved_of_bindAfter hstart h
    exact ⟨before, operator, after, hfirst.row_eq, hfirst.unserved, hfirst.earlier, rfl, rfl⟩

/-- A stray word parts an operand from the operator behind it. -/
example (word : List Char) :
    bindTokens [.operand (.number 1), .stray word, .operator .add, .operand (.number 2)] =
      .error (.missingOperand .add .left) :=
  rfl

end Notation

end DiceNotation
