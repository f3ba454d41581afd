import DiceNotation.Proofs.Notation.Direct
import DiceNotation.Proofs.Step

/-!
# The shelf while reading goes on

The steps of reading, seen through what they do to the shelf: a call is put on the next free
place, a call is fetched from its place once, and nothing else happens to a place. A place
that is empty therefore stays empty, which is the reason why no word can pass for a
placeholder that it is not.
-/

namespace DiceNotation.Notation

/-- What a step of reading gives, and the state that it leaves, if it succeeds. -/
def run? {α : Type} (step : Reading α) (state : ReadState) : Option (α × ReadState) :=
  match step state with
  | .ok a next => some (a, next)
  | .error _ _ => none

/-- A step that succeeds has a result. -/
theorem run?_of_ok {α : Type} {step : Reading α} {state next : ReadState} {a : α}
    (h : step state = .ok a next) : run? step state = some (a, next) := by
  rw [run?, h]

/-- A step that fails has no result. -/
theorem run?_of_error {α : Type} {step : Reading α} {state next : ReadState}
    {error : NotationError} (h : step state = .error error next) : run? step state = none := by
  rw [run?, h]

/-- A step that does nothing leaves the state as it is. -/
@[simp] theorem run?_pure {α : Type} (a : α) (state : ReadState) :
    run? (pure a) state = some (a, state) :=
  rfl

/-- A step that throws has no result. -/
@[simp] theorem run?_throw {α : Type} (error : NotationError) (state : ReadState) :
    run? (throw error : Reading α) state = none :=
  rfl

/-- Two steps have the result of the second one, on the result of the first one. -/
@[simp] theorem run?_bind {α β : Type} (step : Reading α) (next : α → Reading β)
    (state : ReadState) :
    run? (step >>= next) state =
      (run? step state).bind fun result => run? (next result.1) result.2 := by
  cases h : step state with
  | ok a middle =>
    rw [run?_of_ok h, Option.bind_some]
    unfold run?
    rw [Step.bind_of_ok h]
  | error error middle =>
    rw [run?_of_error h, run?_of_error (Step.bind_of_error h), Option.bind_none]

namespace ReadState

/-- The number of places on the shelf, empty ones included. -/
def places (state : ReadState) : Nat :=
  state.shelf.size

/-- The call that lies at a place of the shelf. -/
def call? (state : ReadState) (place : Nat) : Option Expr :=
  state.shelf[place]?.join

/-- The state with a call on a new place. -/
def shelved (state : ReadState) (call : Expr) : ReadState :=
  { state with shelf := state.shelf.push (some call) }

/-- The state with an empty place. -/
def fetched (state : ReadState) (place : Nat) : ReadState :=
  { state with shelf := state.shelf.setIfInBounds place none }

/-- A call that is put on the shelf takes a new place. -/
@[simp] theorem places_shelved (state : ReadState) (call : Expr) :
    (state.shelved call).places = state.places + 1 := by
  simp [places, shelved]

/-- Fetching a call leaves its place behind. -/
@[simp] theorem places_fetched (state : ReadState) (place : Nat) :
    (state.fetched place).places = state.places := by
  simp [places, fetched]

/-- Beyond the last place there is no call. -/
theorem call?_eq_none {state : ReadState} {place : Nat} (h : state.places ≤ place) :
    state.call? place = none := by
  unfold places at h
  simp [call?, Array.getElem?_eq_none h]

/-- A call that is put on the shelf lies at the new place, and the others stay. -/
theorem call?_shelved (state : ReadState) (call : Expr) (place : Nat) :
    (state.shelved call).call? place =
      if place = state.places then some call else state.call? place := by
  simp only [call?, shelved, places, Array.getElem?_push]
  by_cases h : place = state.shelf.size <;> simp [h]

/-- A place from which a call was fetched is empty, and the others stay. -/
theorem call?_fetched (state : ReadState) (place other : Nat) :
    (state.fetched place).call? other = if other = place then none else state.call? other := by
  simp only [call?, fetched, Array.getElem?_setIfInBounds]
  by_cases h : other = place
  · subst h
    simp only [if_true]
    split <;> rfl
  · rw [if_neg h, if_neg (fun heq => h heq.symm)]

/-- In the later state some calls of the earlier one were fetched and some new ones put on
new places. -/
structure Later (earlier later : ReadState) : Prop where
  places : earlier.places ≤ later.places
  old : ∀ place < earlier.places,
    later.call? place = earlier.call? place ∨ later.call? place = none

/-- In the later state some calls of the earlier one were fetched, and nothing else changed. -/
structure Spent (earlier later : ReadState) : Prop where
  places : later.places = earlier.places
  old : ∀ place, later.call? place = earlier.call? place ∨ later.call? place = none

/-- The places up to a given one hold the same calls in two states. -/
def Keeps (bound : Nat) (state other : ReadState) : Prop :=
  ∀ place < bound, other.call? place = state.call? place

/-- Nothing was fetched between a state and itself. -/
theorem Spent.refl (state : ReadState) : state.Spent state :=
  ⟨rfl, fun _ => .inl rfl⟩

/-- What was fetched in two halves was fetched in all. -/
theorem Spent.trans {a b c : ReadState} (h : a.Spent b) (h' : b.Spent c) : a.Spent c := by
  refine ⟨h'.places.trans h.places, fun place => ?_⟩
  rcases h'.old place with hc | hc
  · rw [hc]
    exact h.old place
  · exact .inr hc

/-- A state from which calls were fetched is a later one. -/
theorem Spent.later {a b : ReadState} (h : a.Spent b) : a.Later b :=
  ⟨Nat.le_of_eq h.places.symm, fun place _ => h.old place⟩

/-- Later than a later state is later. -/
theorem Later.trans {a b c : ReadState} (h : a.Later b) (h' : b.Later c) : a.Later c := by
  refine ⟨Nat.le_trans h.places h'.places, fun place hplace => ?_⟩
  rcases h'.old place (Nat.lt_of_lt_of_le hplace h.places) with hc | hc
  · rw [hc]
    exact h.old place hplace
  · exact .inr hc

/-- A state with one more call is a later one. -/
theorem later_shelved (state : ReadState) (call : Expr) : state.Later (state.shelved call) := by
  refine ⟨by simp, fun place hplace => .inl ?_⟩
  rw [call?_shelved, if_neg (by omega)]

/-- Fetching a call only takes it away. -/
theorem spent_fetched (state : ReadState) (place : Nat) : state.Spent (state.fetched place) := by
  refine ⟨places_fetched state place, fun other => ?_⟩
  rw [call?_fetched]
  split
  · exact .inr rfl
  · exact .inl rfl

/-- A place that is empty stays empty. -/
theorem Later.call?_eq_none {a b : ReadState} (h : a.Later b) {place : Nat}
    (hplace : place < a.places) (hempty : a.call? place = none) : b.call? place = none := by
  rcases h.old place hplace with hb | hb
  · exact hb.trans hempty
  · exact hb

/-- An empty place stays empty when calls are fetched. -/
theorem Spent.call?_eq_none {a b : ReadState} (h : a.Spent b) {place : Nat}
    (hempty : a.call? place = none) : b.call? place = none := by
  rcases h.old place with hb | hb
  · exact hb.trans hempty
  · exact hb

/-- A call that is still there was there all the time. -/
theorem Spent.call?_eq_some {a b : ReadState} (h : a.Spent b) {place : Nat} {call : Expr}
    (hcall : b.call? place = some call) : a.call? place = some call := by
  rcases h.old place with hb | hb
  · exact hb.symm.trans hcall
  · simp [hb] at hcall

/-- If places hold the same calls in the end as at the start, then also in between. -/
theorem Keeps.left {bound : Nat} {a b c : ReadState} (h : Keeps bound a c)
    (hab : a.Later b) (hbc : b.Later c) (hbound : bound ≤ a.places) : Keeps bound a b := by
  intro place hplace
  have hin : place < a.places := Nat.lt_of_lt_of_le hplace hbound
  rcases hab.old place hin with hb | hb
  · exact hb
  · have hc := hbc.call?_eq_none (Nat.lt_of_lt_of_le hin hab.places) hb
    rw [hb, ← h place hplace, hc]

/-- Calls that are kept in all are kept in the second half. -/
theorem Keeps.right {bound : Nat} {a b c : ReadState} (h : Keeps bound a c)
    (hab : a.Later b) (hbc : b.Later c) (hbound : bound ≤ a.places) : Keeps bound b c := by
  intro place hplace
  rw [h place hplace, h.left hab hbc hbound place hplace]

/-- Places that are empty hold the same calls for ever. -/
theorem Keeps.extend {bound more : Nat} {a b : ReadState} (h : Keeps bound a b)
    (hab : a.Later b) (hmore : more ≤ a.places)
    (hempty : ∀ place, bound ≤ place → place < more → a.call? place = none) : Keeps more a b := by
  intro place hplace
  by_cases hold : place < bound
  · exact h place hold
  · have hnone : a.call? place = none := hempty place (by omega) hplace
    rw [hnone, hab.call?_eq_none (by omega) hnone]

/-- One more place is kept if its call is. -/
theorem Keeps.succ {bound : Nat} {a b : ReadState} (h : Keeps bound a b)
    (hlast : b.call? bound = a.call? bound) : Keeps (bound + 1) a b := by
  intro place hplace
  by_cases hold : place < bound
  · exact h place hold
  · obtain rfl : place = bound := by omega
    exact hlast

/-- A call that is found at the place of a call put on the shelf is that call. -/
theorem Later.eq_of_shelved {state later : ReadState} {call found : Expr}
    (h : (state.shelved call).Later later) (hfound : later.call? state.places = some found) :
    found = call := by
  rcases h.old state.places (by simp) with hsame | hempty
  · rw [hsame, call?_shelved, if_pos rfl] at hfound
    exact (Option.some.inj hfound).symm
  · simp [hempty] at hfound

end ReadState

end DiceNotation.Notation
