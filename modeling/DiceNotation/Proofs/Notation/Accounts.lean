import DiceNotation.Proofs.Notation.Journal
import DiceNotation.Proofs.Notation.Joining
import Mathlib.Algebra.BigOperators.Group.Finset.Basic
import Mathlib.Tactic.Abel

/-!
# Accounts of the shelf

At any time while a text is read, the calls that were put on the shelf are those that lie there,
those inside of these, and those in the expressions that the steps have in hand at the moment. Each
step of reading keeps these accounts in order, and so does reading a text.
-/

namespace DiceNotation

namespace Expr

mutual

/-- All calls in an expression; a call comes after the calls in its parameters. -/
def calls : Expr → List Expr
  | .number _ => []
  | .variable _ => []
  | .dice _ => []
  | .operation left _ right => left.calls ++ right.calls
  | .call function parameters => callsOf parameters ++ [.call function parameters]

/-- All calls in a list of expressions. -/
def callsOf : List Expr → List Expr
  | [] => []
  | e :: rest => e.calls ++ callsOf rest

end

private theorem callsOf_append (first second : List Expr) :
    callsOf (first ++ second) = callsOf first ++ callsOf second := by
  induction first with
  | nil => rfl
  | cons e rest ih => rw [List.cons_append, callsOf, callsOf, ih, List.append_assoc]

end Expr

namespace Notation

namespace ReadState

variable {M : Type} [AddCommMonoid M]

/-- The sum over the calls that lie on the shelf. -/
def total (weight : Expr → Nat → M) (state : ReadState) : M :=
  ∑ place ∈ Finset.range state.places, (state.call? place).elim 0 (weight · place)

/-- A call that is put on the shelf adds its weight. -/
theorem total_shelved (weight : Expr → Nat → M) (state : ReadState) (call : Expr) :
    (state.shelved call).total weight = state.total weight + weight call state.places := by
  unfold total
  rw [places_shelved, Finset.sum_range_succ, call?_shelved, if_pos rfl]
  congr 1
  refine Finset.sum_congr rfl fun place hplace => ?_
  rw [call?_shelved, if_neg (Nat.ne_of_lt (Finset.mem_range.mp hplace))]

/-- A call that is fetched takes its weight away. -/
theorem total_fetched (weight : Expr → Nat → M) {state : ReadState} {place : Nat} {call : Expr}
    (h : state.call? place = some call) :
    (state.fetched place).total weight + weight call place = state.total weight := by
  have hin : place ∈ Finset.range state.places := by
    rw [Finset.mem_range]
    by_contra hout
    rw [call?_eq_none (Nat.le_of_not_lt hout)] at h
    cases h
  unfold total
  rw [places_fetched, ← Finset.sum_erase_add _ _ hin, ← Finset.sum_erase_add _ _ hin,
    call?_fetched, if_pos rfl, h]
  simp only [Option.elim_none, Option.elim_some, add_zero]
  congr 1
  refine Finset.sum_congr rfl fun other hother => ?_
  rw [call?_fetched, if_neg (Finset.ne_of_mem_erase hother)]

/-- An empty shelf weighs nothing. -/
theorem total_eq_zero (weight : Expr → Nat → M) {state : ReadState}
    (h : ∀ place, state.call? place = none) : state.total weight = 0 := by
  unfold total
  refine Finset.sum_eq_zero fun place _ => ?_
  rw [h]
  rfl

end ReadState

open ReadState

/-- The accounts of a journal are in order. The calls that were fetched and those that lie on the
shelf are the calls that were put there, each at the next place; and the calls that were put on
the shelf are those that lie there, those in their parameters, and some that are in hand. -/
structure Journal.Balanced (journal : Journal) (inHand : Multiset Expr) : Prop where
  places : journal.shelved.length = journal.state.places
  fetched : (journal.shelved.zipIdx : Multiset (Expr × Nat)) =
    journal.fetched + journal.state.total fun call place => {(call, place)}
  shelved : (journal.shelved : Multiset Expr) =
    (journal.state.total fun call _ => (call.calls : Multiset Expr)) + inHand

/-- The journal at the start is balanced with nothing in hand. -/
theorem Journal.balanced_empty : ({} : Journal).Balanced 0 := by
  constructor <;> rfl

namespace Journaled

/-- A step that starts with some calls in hand, whatever else is in hand, keeps the accounts in
order if it succeeds, and then it has the calls of its result in hand. -/
def Balances {α : Type} (journaled : Journaled α) (before : Multiset Expr)
    (after : α → Multiset Expr) : Prop :=
  ∀ journal others a last, journaled journal = .ok a last →
    journal.Balanced (others + before) → last.Balanced (others + after a)

namespace Balances

variable {α β : Type}

/-- A step that does nothing leaves in hand what was there. -/
theorem pure (a : α) (inHand : α → Multiset Expr) : Balances (pure a) (inHand a) inHand := by
  rintro journal others _ _ ⟨⟩ h
  exact h

/-- A step that fails balances, whatever was in hand. -/
theorem throw (error : NotationError) (before : Multiset Expr) (after : α → Multiset Expr) :
    Balances (throw error) before after := by
  rintro journal others a last ⟨⟩

/-- Steps that balance do so one after the other. -/
theorem bind {journaled : Journaled α} {next : α → Journaled β} {before : Multiset Expr}
    {between : α → Multiset Expr} {after : β → Multiset Expr}
    (h : Balances journaled before between) (hnext : ∀ a, Balances (next a) (between a) after) :
    Balances (journaled >>= next) before after := by
  intro journal others b last hrun hbalanced
  obtain ⟨a, middle, hfirst, hsecond⟩ := Step.bind_eq_ok_iff.mp hrun
  exact hnext a middle others b last hsecond (h journal others a middle hfirst hbalanced)

/-- A step that needs no calls in hand leaves those there that are. -/
theorem frame {journaled : Journaled α} {after : α → Multiset Expr}
    (h : Balances journaled 0 after) (inHand : Multiset Expr) :
    Balances journaled inHand fun a => inHand + after a := by
  intro journal others a last hrun hbalanced
  rw [← add_assoc]
  exact h journal (others + inHand) a last hrun (by rwa [add_zero])

/-- A step that does not touch the shelf keeps what is in hand. -/
theorem unentered {step : Reading α} {before : Multiset Expr} {after : α → Multiset Expr}
    (h : ∀ state a last, step state = .ok a last → last.shelf = state.shelf ∧ after a = before) :
    Balances (unentered step) before after := by
  intro journal others a last hrun hbalanced
  unfold Journaled.unentered at hrun
  cases hstep : step journal.state with
  | error error state => simp [hstep] at hrun
  | ok b state =>
    simp only [hstep, EStateM.Result.ok.injEq] at hrun
    obtain ⟨rfl, rfl⟩ := hrun
    obtain ⟨hshelf, hafter⟩ := h _ _ _ hstep
    have htotal {M : Type} [AddCommMonoid M] (weight : Expr → Nat → M) :
        state.total weight = journal.state.total weight := by
      simp only [total, places, call?, hshelf]
    constructor
    · simpa [ReadState.places, hshelf] using hbalanced.places
    · simpa [htotal] using hbalanced.fetched
    · simpa [htotal, hafter] using hbalanced.shelved

end Balances

/-- A call that is put on the shelf is no longer in hand. -/
theorem balances_shelve (function : Builtin) (parameters : List Expr) :
    Balances (shelve (.call function parameters)) (Expr.callsOf parameters) fun _ => 0 := by
  rintro journal others _ _ ⟨⟩ h
  have hplaces := h.places
  constructor
  · change (journal.shelved ++ [_]).length = (journal.state.shelved _).places
    rw [List.length_append, hplaces, places_shelved, List.length_singleton]
  · change ((journal.shelved ++ [_]).zipIdx : Multiset (Expr × Nat)) =
      journal.fetched + (journal.state.shelved _).total _
    rw [List.zipIdx_append, ← Multiset.coe_add, h.fetched, total_shelved, add_assoc, Nat.zero_add,
      hplaces]
    rfl
  · change ((journal.shelved ++ [_] : List Expr) : Multiset Expr) =
      (journal.state.shelved _).total _ + (others + 0)
    rw [← Multiset.coe_add, h.shelved, total_shelved, Expr.calls, ← Multiset.coe_add, add_zero]
    abel

/-- Fetching from an empty place makes no entry. -/
theorem fetch?_of_none {journal : Journal} {place : Nat}
    (h : journal.state.call? place = none) : fetch? place journal = .ok none journal := by
  have hfetch : unentered (Notation.fetch? place) journal = .ok none journal := by
    rw [unentered, Notation.fetch?_of_none h]
  rw [fetch?, Step.bind_of_ok hfetch]
  rfl

/-- Fetching a call takes it from the shelf and enters it. -/
theorem fetch?_of_some {journal : Journal} {place : Nat} {call : Expr}
    (h : journal.state.call? place = some call) :
    fetch? place journal = .ok (some call)
      { journal with
        state := journal.state.fetched place
        fetched := journal.fetched ++ [(call, place)] } := by
  have hfetch : unentered (Notation.fetch? place) journal =
      .ok (some call) { journal with state := journal.state.fetched place } := by
    rw [unentered, Notation.fetch?_of_some h]
  rw [fetch?, Step.bind_of_ok hfetch]
  rfl

/-- A call that is fetched is in hand. -/
theorem balances_fetch? (place : Nat) :
    Balances (fetch? place) 0 fun found =>
      found.elim 0 fun call => (call.calls : Multiset Expr) := by
  intro journal others found last hrun h
  cases hcall : journal.state.call? place with
  | none =>
    rw [fetch?_of_none hcall] at hrun
    cases hrun
    exact h
  | some call =>
    rw [fetch?_of_some hcall] at hrun
    cases hrun
    constructor
    · exact h.places.trans (places_fetched _ _).symm
    · rw [h.fetched, ← total_fetched _ hcall, ← Multiset.coe_add, Multiset.coe_singleton]
      abel
    · change _ = (journal.state.fetched place).total _ + (others + (call.calls : Multiset Expr))
      rw [h.shelved, ← total_fetched _ hcall]
      abel

/-- A function is found by its name without a look at the shelf. -/
theorem balances_builtin (name : List Char) :
    Balances (unentered (builtin name)) 0 fun _ => 0 := by
  refine .unentered fun state function last hrun => ?_
  have hbuiltin := run?_of_ok hrun
  rw [run?_builtin, Option.map_eq_some_iff] at hbuiltin
  obtain ⟨_, -, hlast⟩ := hbuiltin
  cases hlast
  exact ⟨rfl, rfl⟩

end Journaled

/-- All calls in a token. -/
def Token.calls : Token → List Expr
  | .operand e => e.calls
  | .operator _ => []
  | .stray _ => []

/-- The calls in a token, in a row of tokens and in expressions, as accounts. -/
abbrev inToken (token : Token) : Multiset Expr :=
  token.calls

abbrev inRow (row : List Token) : Multiset Expr :=
  row.flatMap Token.calls

abbrev inExprs (exprs : List Expr) : Multiset Expr :=
  Expr.callsOf exprs

/-- Binding keeps all calls, in their order. -/
theorem callsOf_bindAfter {left : Option Expr} {row : List Token} {exprs : List Expr}
    (h : bindAfter left row = .ok exprs) :
    Expr.callsOf exprs = Expr.callsOf left.toList ++ row.flatMap Token.calls := by
  fun_induction bindAfter left row generalizing exprs with
  | case1 left =>
    cases h
    simp
  | case2 left e rest found hfound ih =>
    cases h
    rw [Expr.callsOf_append, ih hfound]
    simp [Expr.callsOf, Token.calls]
  | case3 left e rest error herror ih => cases h
  | case4 left word rest found hfound ih =>
    cases h
    rw [Expr.callsOf_append, ih hfound]
    simp [Expr.callsOf, Token.calls]
  | case5 left word rest error herror ih => cases h
  | case6 operator rest => cases h
  | case7 operator l r rest ih =>
    rw [ih h]
    simp [Expr.callsOf, Expr.calls, Token.calls]
  | case8 operator rest l hrest => cases h

namespace Journaled

/-- The token of a word holds the call that was fetched for it. -/
theorem balances_token (word : List Char) : Balances (journaling.token word) 0 inToken := by
  unfold Shelving.token
  cases Word.ofChars word with
  | placeholder numeral =>
    refine (balances_fetch? _).bind fun found => ?_
    cases found with
    | none => exact .throw _ _ _
    | some call => exact .pure (Token.operand call) inToken
  | integer isNegative numeral =>
    dsimp only
    cases integer? isNegative numeral with
    | none => exact .throw _ _ _
    | some value => exact .pure (Token.operand (.number value)) inToken
  | dice count size =>
    dsimp only
    cases pool word count size with
    | error error => exact .throw _ _ _
    | ok pool => exact .pure (Token.operand (.dice pool)) inToken
  | operator op => exact .pure (Token.operator op) inToken
  | «variable» name => exact .pure (Token.operand (.variable (String.ofList name))) inToken
  | stray => exact .pure (Token.stray word) inToken

/-- The tokens of some words hold the calls that were fetched for them. -/
theorem balances_tokensOf (words : List (List Char)) :
    Balances (journaling.tokensOf words) 0 inRow := by
  induction words with
  | nil => exact .pure [] inRow
  | cons word rest ih =>
    refine (balances_token word).bind fun first => ?_
    refine (ih.frame _).bind fun others => ?_
    exact .pure (first :: others) inRow

/-- Binding keeps all calls. -/
theorem balances_bound (row : List Token) :
    Balances (unentered (bound row)) (inRow row) inExprs := by
  refine .unentered fun state exprs last hrun => ?_
  have hbound := run?_of_ok hrun
  rw [run?_bound, Option.map_eq_some_iff] at hbound
  obtain ⟨_, hexprs, hlast⟩ := hbound
  cases hlast
  have hcalls := callsOf_bindAfter (eq_ok_iff_toOption.mpr hexprs)
  exact ⟨rfl, congrArg Multiset.ofList hcalls⟩

/-- Lifting leaves no call in hand, and reading arguments leaves those in the parameters. -/
theorem balances_lift :
    (∀ text, Balances (journaling.lift text) 0 fun _ => 0) ∧
      ∀ arguments, Balances (journaling.readArguments arguments) 0 inExprs := by
  refine Shelving.lift.mutual_induct _ _ ?error ?none ?call ?nil ?cons
  case error =>
    intro text error herror
    rw [journaling.lift_of_error herror]
    exact .throw error _ _
  case none =>
    intro text hnone
    rw [journaling.lift_of_none hnone]
    exact .pure text fun _ => 0
  case call =>
    intro text site hsite iharguments ihreplaced
    rw [journaling.lift_of_some hsite]
    refine (balances_builtin site.name).bind fun function => ?_
    refine iharguments.bind fun parameters => ?_
    exact (balances_shelve function parameters).bind ihreplaced
  case nil =>
    rw [Shelving.readArguments]
    exact .pure [] inExprs
  case cons =>
    intro argument rest ihargument ihrest
    rw [Shelving.readArguments]
    refine ihargument.bind fun lifted => ?_
    refine (balances_tokensOf _).bind fun row => ?_
    refine (balances_bound row).bind fun exprs => ?_
    refine (ihrest.frame _).bind fun others => ?_
    have hpure := Balances.pure (exprs ++ others) inExprs
    rwa [inExprs, Expr.callsOf_append] at hpure

/-- Reading a text keeps the accounts of its calls in order. -/
theorem balances_readChars (text : List Char) : Balances (readChars text) 0 inExprs := by
  refine (balances_lift.1 text).bind fun lifted => ?_
  refine (balances_tokensOf _).bind fun row => ?_
  refine (balances_bound row).bind fun exprs => ?_
  cases exprs with
  | nil => exact .throw _ _ _
  | cons e rest => exact .pure (e :: rest) inExprs

end Journaled

end Notation

end DiceNotation
