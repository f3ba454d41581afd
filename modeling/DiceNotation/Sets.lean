import DiceNotation.Operator

/-!
# Functions of sets of values

A call works on one set of values for each of its parameters. With a single set the
functions that choose look at the values in it, in the total order; with several sets
they look at the totals of the sets, in the numeric order, and choose a whole set.
-/

namespace DiceNotation.Sets

/-- The last of the greatest values of a set. -/
def highest? : List Value → Option Value
  | [] => none
  | first :: rest => some (rest.foldl (fun best v => if v.rank < best.rank then best else v) first)

/-- The first of the least values of a set. -/
def lowest? : List Value → Option Value
  | [] => none
  | first :: rest => some (rest.foldl (fun best v => if v.rank < best.rank then v else best) first)

/-- Looks for a better total than the best one so far; the result is the place of the best
one in the end. A total that is as good as the best one does not replace it. -/
def choose (better : Value → Value → Bool) (best : Value) (bestPlace place : Nat) :
    List Value → Nat
  | [] => bestPlace
  | next :: rest =>
    if better next best then choose better next place (place + 1) rest
    else choose better best bestPlace (place + 1) rest

/-- The place of the earliest of the sets with the best total. -/
def placeOfBest (better : Value → Value → Bool) (sets : List (List Value)) : Nat :=
  match sets.map Value.sum with
  | [] => 0
  | first :: rest => choose better first 0 1 rest

/-- The place of the set with the greatest total. -/
def placeOfGreatest (sets : List (List Value)) : Nat :=
  placeOfBest (fun a b => b.less a) sets

/-- The place of the set with the least total. -/
def placeOfLeast (sets : List (List Value)) : Nat :=
  placeOfBest (fun a b => a.less b) sets

/-- The greatest value of one set, or the set with the greatest total. -/
def greatest : List (List Value) → List Value
  | [set] => (highest? set).toList
  | sets => sets.getD (placeOfGreatest sets) []

/-- The least value of one set, or the set with the least total. -/
def least : List (List Value) → List Value
  | [set] => (lowest? set).toList
  | sets => sets.getD (placeOfLeast sets) []

/-- The values of a set from the greatest to the least. -/
def descending (set : List Value) : List Value :=
  set.mergeSort fun a b => b.rank ≤ a.rank

/-- One set without its least value, or all sets but the one with the least total. -/
def withoutLeast : List (List Value) → List Value
  | [set] => (descending set).dropLast
  | sets => (sets.eraseIdx (placeOfLeast sets)).flatten

/-- The average of a set, rounded down. An empty set averages zero. -/
def average (set : List Value) : Value :=
  if set = [] then .zero else ((Value.sum set).div (.ofNat set.length)).floor

/-- The sum of the totals of the sets. -/
def grandTotal (sets : List (List Value)) : Value :=
  Value.sum (sets.map Value.sum)

/-- How often a value occurs in a set. -/
def occurrences (target : Value) (set : List Value) : Value :=
  .ofNat (set.countP (target.same ·))

end DiceNotation.Sets

namespace DiceNotation.Builtin

/-- The values of a function on the given sets. The target is what `count` counts. -/
def onSets (target : Value) (sets : List (List Value)) : Builtin → List Value
  | .max => Sets.greatest sets
  | .min => Sets.least sets
  | .avg => sets.map Sets.average
  | .drop => Sets.withoutLeast sets
  | .sum => [Sets.grandTotal sets]
  | .count => sets.map (Sets.occurrences target)

end DiceNotation.Builtin
