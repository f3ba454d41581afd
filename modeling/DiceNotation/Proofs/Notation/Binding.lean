import DiceNotation.Notation.Binding

/-!
# What is bound

Binding goes from left to right with the operand that ends just before. What it makes consists of
the operands in the row, in their order: each one stands alone, or an operation has it on its
right.
-/

namespace DiceNotation.Notation

/-- An operand that no operator follows ends the one before it. -/
theorem bindAfter_operand (left : Option Expr) (e : Expr) (rest : List Token) :
    bindAfter left (.operand e :: rest) = (bindAfter (some e) rest).map (left.toList ++ ·) := by
  rw [bindAfter]
  cases bindAfter (some e) rest <;> rfl

/-- A stray word ends the operand before it. -/
theorem bindAfter_stray (left : Option Expr) (word : List Char) (rest : List Token) :
    bindAfter left (.stray word :: rest) = (bindAfter none rest).map (left.toList ++ ·) := by
  rw [bindAfter]
  cases bindAfter none rest <;> rfl

/-- A row that can be bound on its own starts with no operator, and so the operand before it stays
as it is. -/
theorem bindAfter_of_bindTokens {row : List Token} {exprs : List Expr}
    (h : bindTokens row = .ok exprs) (left : Option Expr) :
    bindAfter left row = .ok (left.toList ++ exprs) := by
  unfold bindTokens at h
  cases row with
  | nil =>
    cases h
    simp [bindAfter]
  | cons token rest =>
    cases token with
    | operand e =>
      rw [bindAfter_operand] at h ⊢
      cases hrest : bindAfter (some e) rest with
      | error error => simp [hrest, Except.map] at h
      | ok others => simp_all [Except.map]
    | stray word =>
      rw [bindAfter_stray] at h ⊢
      cases hrest : bindAfter none rest with
      | error error => simp [hrest, Except.map] at h
      | ok others => simp_all [Except.map]
    | operator operator => simp [bindAfter] at h

/-- Two rows that can be bound on their own can be bound one behind the other: no operator ends
the first one or starts the second one. -/
theorem bindAfter_append {left : Option Expr} {row next : List Token} {exprs others : List Expr}
    (h : bindAfter left row = .ok exprs) (hnext : bindTokens next = .ok others) :
    bindAfter left (row ++ next) = .ok (exprs ++ others) := by
  fun_induction bindAfter left row generalizing exprs with
  | case1 left =>
    cases h
    exact bindAfter_of_bindTokens hnext left
  | case2 left e rest found hfound ih =>
    cases h
    rw [List.cons_append, bindAfter_operand, ih hfound]
    simp [Except.map]
  | case3 left e rest error herror ih => cases h
  | case4 left word rest found hfound ih =>
    cases h
    rw [List.cons_append, bindAfter_stray, ih hfound]
    simp [Except.map]
  | case5 left word rest error herror ih => cases h
  | case6 operator rest => cases h
  | case7 operator l r rest ih => exact ih h
  | case8 operator rest l hrest => cases h

private theorem toOption_map {ε α β : Type} (result : Except ε α) (f : α → β) :
    (result.map f).toOption = result.toOption.map f := by
  cases result <;> rfl

/-- If binding fails from some tokens on, whatever operand ends before them, and these do not start
with an operand, then it fails behind any tokens. -/
theorem bindAfter_append_of_fails {next : List Token}
    (hfails : ∀ left, (bindAfter left next).toOption = none)
    (hstart : ∀ e rest, next ≠ .operand e :: rest) (left : Option Expr) (row : List Token) :
    (bindAfter left (row ++ next)).toOption = none := by
  fun_induction bindAfter left row with
  | case1 left => exact hfails left
  | case2 left e rest found hfound ih =>
    rw [List.cons_append, bindAfter_operand, toOption_map, ih, Option.map_none]
  | case3 left e rest error herror ih =>
    rw [List.cons_append, bindAfter_operand, toOption_map, ih, Option.map_none]
  | case4 left word rest found hfound ih =>
    rw [List.cons_append, bindAfter_stray, toOption_map, ih, Option.map_none]
  | case5 left word rest error herror ih =>
    rw [List.cons_append, bindAfter_stray, toOption_map, ih, Option.map_none]
  | case6 operator rest => simp [bindAfter, Except.toOption]
  | case7 operator l r rest ih => exact ih
  | case8 operator rest l hrest =>
    have hmissing : ∀ e others, rest ++ next ≠ .operand e :: others := by
      cases rest with
      | nil => exact hstart
      | cons token rest =>
        rintro e others heq
        obtain ⟨rfl, -⟩ := List.cons.inj heq
        exact hrest e rest rfl
    rw [List.cons_append, bindAfter]
    · rfl
    · exact hmissing

/-- An operator behind a stray word cannot be bound. -/
theorem bindAfter_stray_operator (left : Option Expr) (word : List Char) (operator : Operator)
    (rest : List Token) :
    (bindAfter left (.stray word :: .operator operator :: rest)).toOption = none := by
  simp [bindAfter, Except.toOption]

/-- An operator before a stray word cannot be bound. -/
theorem bindAfter_operator_stray (left : Option Expr) (operator : Operator) (word : List Char)
    (rest : List Token) :
    (bindAfter left (.operator operator :: .stray word :: rest)).toOption = none := by
  cases left <;> simp [bindAfter, Except.toOption]

/-- What holds of all operands in a row, and of an operation if it holds of its left operand and
the right one is from the row, holds of all that is bound. -/
theorem forall_of_bindAfter {isOperand holds : Expr → Prop}
    (hoperand : ∀ e, isOperand e → holds e)
    (hoperation : ∀ l operator r, holds l → isOperand r → holds (.operation l operator r))
    {left : Option Expr} {row : List Token} {exprs : List Expr}
    (hleft : ∀ e ∈ left, holds e) (hrow : ∀ e, .operand e ∈ row → isOperand e)
    (h : bindAfter left row = .ok exprs) : ∀ e ∈ exprs, holds e := by
  fun_induction bindAfter left row generalizing exprs with
  | case1 left =>
    cases h
    simpa using hleft
  | case2 left e rest found hfound ih =>
    cases h
    have hfirst : ∀ d ∈ some e, holds d := by
      rintro d ⟨⟩
      exact hoperand e (hrow e List.mem_cons_self)
    have hothers := ih hfirst (fun d hd => hrow d (List.mem_cons_of_mem _ hd)) hfound
    intro d hd
    rcases List.mem_append.mp hd with hd | hd
    · exact hleft d (Option.mem_toList.mp hd)
    · exact hothers d hd
  | case3 left e rest error herror ih => cases h
  | case4 left word rest found hfound ih =>
    cases h
    have hothers := ih (by simp) (fun d hd => hrow d (List.mem_cons_of_mem _ hd)) hfound
    intro d hd
    rcases List.mem_append.mp hd with hd | hd
    · exact hleft d (Option.mem_toList.mp hd)
    · exact hothers d hd
  | case5 left word rest error herror ih => cases h
  | case6 operator rest => cases h
  | case7 operator l r rest ih =>
    have hright : isOperand r := hrow r (by simp)
    have hnext : ∀ d ∈ some (Expr.operation l operator r), holds d := by
      rintro d ⟨⟩
      exact hoperation l operator r (hleft l rfl) hright
    exact ih hnext (fun d hd => hrow d (by simp [hd])) h
  | case8 operator rest l hrest => cases h

end DiceNotation.Notation
