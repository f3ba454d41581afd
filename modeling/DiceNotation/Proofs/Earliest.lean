import DiceNotation.Proofs.Sets

/-!
# The earliest of the best sets

Several sets are compared by their totals, and a total that is only as good as the best one so
far does not replace it. As long as all totals are numbers, so that any two of them can be
compared, the set that is chosen in this way is the earliest one of those with the best total.
The two zeros are the same number, so that neither of them is the better total.
-/

namespace DiceNotation

/-- Two numbers are compared by their places in the numeric order. -/
theorem Value.less_eq {a b : Value} (ha : a.isNaN = false) (hb : b.isNaN = false) :
    a.less b = decide (a.position < b.position) := by
  simp [less, ha, hb]

namespace Sets

/-- Whether the set at a place has the best total: no set has a better one. -/
def IsBest (better : Value → Value → Bool) (sets : List (List Value)) (place : Nat) : Prop :=
  ∃ h : place < sets.length, ∀ set ∈ sets, better (Value.sum set) (Value.sum sets[place]) = false

/-- Whether the set at a place is the earliest one of those with the best total. -/
def IsEarliestBest (better : Value → Value → Bool) (sets : List (List Value)) (place : Nat) :
    Prop :=
  IsBest better sets place ∧ ∀ earlier < place, ¬IsBest better sets earlier

instance (better : Value → Value → Bool) (sets : List (List Value)) (place : Nat) :
    Decidable (IsBest better sets place) :=
  inferInstanceAs (Decidable (∃ _ : place < sets.length, _))

instance (better : Value → Value → Bool) (sets : List (List Value)) (place : Nat) :
    Decidable (IsEarliestBest better sets place) :=
  inferInstanceAs (Decidable (_ ∧ _))

/-- There is no more than one earliest place. -/
theorem IsEarliestBest.unique {better : Value → Value → Bool} {sets : List (List Value)}
    {place other : Nat} (h : IsEarliestBest better sets place)
    (hother : IsEarliestBest better sets other) : other = place := by
  rcases Nat.lt_trichotomy other place with hlt | heq | hgt
  · exact absurd hother.1 (h.2 other hlt)
  · exact heq
  · exact absurd h.1 (hother.2 place hgt)

/-- Among some totals, the one at a place has the least key, and all totals before it have greater
ones. -/
structure FirstLeast (key : Value → Int) (totals : List Value) (place : Nat) (best : Value) :
    Prop where
  found : totals[place]? = some best
  least : ∀ total ∈ totals, key best ≤ key total
  first : ∀ total ∈ totals.take place, key best < key total

section

variable {key : Value → Int} {seen : List Value} {place : Nat} {best next : Value}

/-- One more total that is not better changes nothing. -/
theorem FirstLeast.keep (h : FirstLeast key seen place best) (hnext : key best ≤ key next) :
    FirstLeast key (seen ++ [next]) place best := by
  obtain ⟨hplace, -⟩ := List.getElem?_eq_some_iff.mp h.found
  refine ⟨?_, ?_, ?_⟩
  · rw [List.getElem?_append_left hplace]
    exact h.found
  · intro total htotal
    rcases List.mem_append.mp htotal with hseen | hlast
    · exact h.least total hseen
    · rw [List.mem_singleton.mp hlast]
      exact hnext
  · rw [List.take_append_of_le_length (Nat.le_of_lt hplace)]
    exact h.first

/-- One more total that is better is the only one with the least key. -/
theorem FirstLeast.replace (h : FirstLeast key seen place best) (hnext : key next < key best) :
    FirstLeast key (seen ++ [next]) seen.length next := by
  have hseen (total : Value) (htotal : total ∈ seen) : key next < key total :=
    Int.lt_of_lt_of_le hnext (h.least total htotal)
  refine ⟨by simp, ?_, ?_⟩
  · intro total htotal
    rcases List.mem_append.mp htotal with hold | hlast
    · exact Int.le_of_lt (hseen total hold)
    · exact Int.le_of_eq (congrArg key (List.mem_singleton.mp hlast).symm)
  · rw [List.take_left]
    exact hseen

/-- The search goes through the totals that are left and keeps the first one with the least key of
all totals that it has seen. -/
theorem FirstLeast.choose {better : Value → Value → Bool} {rest : List Value}
    (hbetter : ∀ a ∈ seen ++ rest, ∀ b ∈ seen ++ rest, better a b = decide (key a < key b))
    (h : FirstLeast key seen place best) :
    ∃ last, FirstLeast key (seen ++ rest) (choose better best place seen.length rest) last := by
  induction rest generalizing seen place best with
  | nil =>
    rw [List.append_nil]
    exact ⟨best, h⟩
  | cons next rest ih =>
    have hsplit : seen ++ next :: rest = (seen ++ [next]) ++ rest := by simp
    have hlength : (seen ++ [next]).length = seen.length + 1 := by simp
    have hmem : best ∈ seen ++ next :: rest :=
      List.mem_append_left _ (List.mem_of_getElem? h.found)
    have hcompare : better next best = decide (key next < key best) :=
      hbetter next (by simp) best hmem
    rw [hsplit] at hbetter ⊢
    rw [Sets.choose, hcompare, ← hlength]
    by_cases hlt : key next < key best
    · rw [if_pos (decide_eq_true hlt)]
      exact ih hbetter (h.replace hlt)
    · rw [if_neg (by simpa using hlt)]
      exact ih hbetter (h.keep (Int.not_lt.mp hlt))

end

section

variable {better : Value → Value → Bool} (key : Value → Int) {sets : List (List Value)}

/-- The place of the best set is that of the first total with the least key. -/
theorem firstLeast_placeOfBest (h : sets ≠ [])
    (hbetter : ∀ a ∈ sets, ∀ b ∈ sets,
      better (Value.sum a) (Value.sum b) = decide (key (Value.sum a) < key (Value.sum b))) :
    ∃ best, FirstLeast key (sets.map Value.sum) (placeOfBest better sets) best := by
  cases sets with
  | nil => exact absurd rfl h
  | cons first rest =>
    have hstart : FirstLeast key [Value.sum first] 0 (Value.sum first) :=
      ⟨rfl, by simp, by simp⟩
    refine FirstLeast.choose ?_ hstart
    rw [List.singleton_append, ← List.map_cons]
    simp only [List.forall_mem_map]
    exact hbetter

/-- If the totals can be compared by a key, then the place of the best set is the earliest one
with the best total. -/
theorem isEarliestBest_placeOfBest (h : sets ≠ [])
    (hbetter : ∀ a ∈ sets, ∀ b ∈ sets,
      better (Value.sum a) (Value.sum b) = decide (key (Value.sum a) < key (Value.sum b))) :
    IsEarliestBest better sets (placeOfBest better sets) := by
  obtain ⟨best, hfirst⟩ := firstLeast_placeOfBest key h hbetter
  have hplace : placeOfBest better sets < sets.length := placeOfBest_lt h better
  have hmem : sets[placeOfBest better sets] ∈ sets := List.getElem_mem hplace
  have hbest : Value.sum sets[placeOfBest better sets] = best := by
    have hfound := hfirst.found
    rw [List.getElem?_map, List.getElem?_eq_getElem hplace, Option.map_some] at hfound
    exact Option.some.inj hfound
  refine ⟨⟨hplace, ?_⟩, ?_⟩
  · intro set hset
    have hle := hfirst.least _ (List.mem_map_of_mem hset)
    rw [hbetter set hset _ hmem, hbest]
    exact decide_eq_false (Int.not_lt.mpr hle)
  · rintro earlier hearlier ⟨hbound, hall⟩
    -- the set that was found is better than one that comes before it
    have hnot := hall _ hmem
    rw [hbetter _ hmem _ (List.getElem_mem hbound), hbest, decide_eq_false_iff_not] at hnot
    refine hnot (hfirst.first _ ?_)
    rw [← List.map_take]
    refine List.mem_map_of_mem (List.mem_take_iff_getElem.mpr ⟨earlier, ?_, rfl⟩)
    omega

end

section

variable {sets : List (List Value)}

/-- Of several sets whose totals are all numbers, the greatest is the earliest one of those with
the greatest total. The least is the earliest one of those with the least total, and what is left
without it are all the other sets, in their order. -/
theorem earliest_of_several (hseveral : 2 ≤ sets.length)
    (hnumbers : ∀ set ∈ sets, (Value.sum set).isNaN = false) :
    (∃ (place : Nat) (hplace : place < sets.length),
        (∀ other, IsEarliestBest (fun a b => b.less a) sets other ↔ other = place) ∧
        greatest sets = sets[place]) ∧
      ∃ (place : Nat) (hplace : place < sets.length),
        (∀ other, IsEarliestBest (fun a b => a.less b) sets other ↔ other = place) ∧
        least sets = sets[place] ∧ withoutLeast sets = (sets.eraseIdx place).flatten := by
  have hsets : sets ≠ [] := List.ne_nil_of_length_pos (by omega)
  have hcompare {a b : List Value} (ha : a ∈ sets) (hb : b ∈ sets) :
      (Value.sum a).less (Value.sum b) =
        decide ((Value.sum a).position < (Value.sum b).position) :=
    Value.less_eq (hnumbers a ha) (hnumbers b hb)
  constructor
  · have hbest : IsEarliestBest (fun a b => b.less a) sets (placeOfGreatest sets) := by
      refine isEarliestBest_placeOfBest (fun v => -v.position) hsets ?_
      intro a ha b hb
      rw [hcompare hb ha, decide_eq_decide]
      omega
    have hplace : placeOfGreatest sets < sets.length := placeOfBest_lt hsets _
    refine ⟨placeOfGreatest sets, hplace, fun other => ⟨hbest.unique, fun h => h ▸ hbest⟩, ?_⟩
    rw [greatest_of_several hseveral, List.getElem_eq_getD]
  · have hbest : IsEarliestBest (fun a b => a.less b) sets (placeOfLeast sets) :=
      isEarliestBest_placeOfBest Value.position hsets fun a ha b hb => hcompare ha hb
    have hplace : placeOfLeast sets < sets.length := placeOfBest_lt hsets _
    refine ⟨placeOfLeast sets, hplace, fun other => ⟨hbest.unique, fun h => h ▸ hbest⟩, ?_,
      withoutLeast_of_several hseveral⟩
    rw [least_of_several hseveral, List.getElem_eq_getD]

/-- The totals are a positive zero, a negative zero, two, and two again: the third set is the
earliest greatest one, and the first set the earliest least one. -/
theorem earliest_of_several_zeros :
    let one : Value := .ofNat 1
    let sets : List (List Value) := [[one, one.opposite], [], [.ofNat 2], [one, one]]
    2 ≤ sets.length ∧ (∀ set ∈ sets, (Value.sum set).isNaN = false) ∧
      greatest sets = [.ofNat 2] ∧ least sets = [one, one.opposite] ∧
        withoutLeast sets = [.ofNat 2, one, one] := by
  intro one sets
  have hseveral : 2 ≤ sets.length := by decide
  have hnumbers : ∀ set ∈ sets, (Value.sum set).isNaN = false := by decide
  obtain ⟨⟨first, hfirst, hgreatest, heq⟩, last, hlast, hleast, heq', hwithout⟩ :=
    earliest_of_several hseveral hnumbers
  obtain rfl : 2 = first := (hgreatest 2).mp (by decide)
  obtain rfl : 0 = last := (hleast 0).mp (by decide)
  exact ⟨hseveral, hnumbers, heq, heq', hwithout⟩

end

end Sets

end DiceNotation
