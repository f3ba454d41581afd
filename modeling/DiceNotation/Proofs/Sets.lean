import DiceNotation.Sets
import Mathlib.Data.List.Perm.Basic

/-!
# What is chosen and what is left

Choosing the least of some sets and leaving it out are two halves of one thing: together they give
back every value of every set, with its bits as they were. For one set this goes by the total
order, in which only equal values have the same place; for several sets both go by the place of
one set.
-/

namespace DiceNotation

/-- In the total order no two values have the same place. -/
theorem Value.rank_injective : Function.Injective Value.rank := by
  intro a b h
  have ha := a.bits.toNat_lt
  have hb := b.bits.toNat_lt
  have hbits : a.bits.toNat = b.bits.toNat := by
    unfold rank isNegative magnitude signWeight at h
    split at h <;> split at h <;> simp_all only [decide_eq_true_eq] <;> omega
  cases a
  cases b
  exact congrArg Value.mk (UInt64.toNat_inj.mp hbits)

namespace Sets

/-- Sorting a set keeps its values. -/
theorem descending_perm (set : List Value) : (descending set).Perm set :=
  List.mergeSort_perm set _

/-- A sorted set goes down from rank to rank. -/
theorem descending_pairwise (set : List Value) :
    (descending set).Pairwise fun a b => b.rank ≤ a.rank := by
  have hsorted : (descending set).Pairwise fun a b => decide (b.rank ≤ a.rank) = true := by
    refine List.pairwise_mergeSort (fun a b c hab hbc => ?_) (fun a b => ?_) set
    · rw [decide_eq_true_eq] at hab hbc ⊢
      omega
    · rw [Bool.or_eq_true, decide_eq_true_eq, decide_eq_true_eq]
      omega
  exact hsorted.imp fun h => of_decide_eq_true h

/-- The values of a set stand in one descending order only. -/
theorem eq_of_descending {set others : List Value}
    (hset : set.Pairwise fun a b => b.rank ≤ a.rank)
    (hothers : others.Pairwise fun a b => b.rank ≤ a.rank) (h : set.Perm others) :
    set = others := by
  refine h.eq_of_pairwise (fun a b _ _ hab hba => ?_) hset hothers
  exact Value.rank_injective (Int.le_antisymm hba hab)

/-- The order of the values in a set does not matter once they are sorted. -/
theorem descending_congr {set others : List Value} (h : set.Perm others) :
    descending set = descending others :=
  eq_of_descending (descending_pairwise set) (descending_pairwise others)
    ((descending_perm set).trans (h.trans (descending_perm others).symm))

/-- Going through a set, one of two values always stays. If no key is ever less than that of the
value that stays, then the value with the least key is left in the end. -/
theorem foldl_keeps_least {keep : Value → Value → Value} (key : Value → Int)
    (hkey : Function.Injective key)
    (hkeep : ∀ a b, (keep a b = a ∨ keep a b = b) ∧ key (keep a b) ≤ key a ∧ key (keep a b) ≤ key b)
    {first least : Value} {rest : List Value} (hmem : least ∈ first :: rest)
    (hle : ∀ v ∈ first :: rest, key least ≤ key v) : rest.foldl keep first = least := by
  induction rest generalizing first with
  | nil => exact (List.mem_singleton.mp hmem).symm
  | cons second rest ih =>
    obtain ⟨hkept, hfirst, hsecond⟩ := hkeep first second
    have hlefirst := hle first (by simp)
    have hlesecond := hle second (by simp)
    -- if the least value is one of the two, then it is the one that stays
    have hstays (h : least = first ∨ least = second) : least = keep first second := by
      refine hkey (Int.le_antisymm ?_ ?_)
      · rcases hkept with hkept | hkept <;> rw [hkept] <;> assumption
      · rcases h with rfl | rfl <;> assumption
    refine ih ?_ ?_
    · rw [List.mem_cons, List.mem_cons, ← or_assoc] at hmem
      exact List.mem_cons.mpr (hmem.imp_left hstays)
    · intro v hv
      rcases List.mem_cons.mp hv with rfl | hv
      · rcases hkept with hkept | hkept <;> rw [hkept] <;> assumption
      · exact hle v (by simp [hv])

/-- The greatest value of a set is the first one in descending order. -/
theorem highest?_eq (set : List Value) : highest? set = (descending set).head? := by
  cases set with
  | nil => simp [highest?, descending]
  | cons first rest =>
    have hperm := descending_perm (first :: rest)
    have hsorted := descending_pairwise (first :: rest)
    cases hset : descending (first :: rest) with
    | nil => simp [hset] at hperm
    | cons greatest others =>
      rw [hset] at hperm hsorted
      rw [highest?, List.head?_cons, Option.some_inj]
      refine foldl_keeps_least (fun v => -v.rank) ?_ ?_ (hperm.mem_iff.mp (by simp)) ?_
      · exact fun a b h => Value.rank_injective (Int.neg_inj.mp h)
      · intro a b
        split_ifs <;> simp <;> omega
      · intro v hv
        rcases List.mem_cons.mp (hperm.mem_iff.mpr hv) with rfl | hv
        · exact Int.le_refl _
        · exact Int.neg_le_neg ((List.pairwise_cons.mp hsorted).1 v hv)

/-- The least value of a set is the last one in descending order. -/
theorem lowest?_eq (set : List Value) : lowest? set = (descending set).getLast? := by
  cases set with
  | nil => simp [lowest?, descending]
  | cons first rest =>
    have hperm := descending_perm (first :: rest)
    have hsorted := descending_pairwise (first :: rest)
    rcases List.eq_nil_or_concat (descending (first :: rest)) with hset | ⟨others, least, hset⟩
    · simp [hset] at hperm
    · rw [List.concat_eq_append] at hset
      rw [hset] at hperm hsorted
      rw [lowest?, hset, List.getLast?_concat, Option.some_inj]
      refine foldl_keeps_least Value.rank Value.rank_injective ?_ (hperm.mem_iff.mp (by simp)) ?_
      · intro a b
        split_ifs <;> simp <;> omega
      · intro v hv
        rcases List.mem_append.mp (hperm.mem_iff.mpr hv) with hv | hv
        · exact (List.pairwise_append.mp hsorted).2.2 v hv least (by simp)
        · obtain rfl := List.mem_singleton.mp hv
          exact Int.le_refl _

/-- A set without its least value, and then that value, is the set in descending order. -/
theorem withoutLeast_append_least_singleton (set : List Value) :
    withoutLeast [set] ++ least [set] = descending set := by
  rw [withoutLeast, least, lowest?_eq]
  cases hlast : (descending set).getLast? with
  | none => simp [List.getLast?_eq_none_iff.mp hlast]
  | some value => exact List.dropLast_append_getLast? value hlast

/-- Looking for a better total ends at the place where it starts or at one that comes after. -/
theorem choose_lt {better : Value → Value → Bool} {best : Value} {bestPlace place bound : Nat}
    {totals : List Value} (hbest : bestPlace < bound) (hbound : place + totals.length ≤ bound) :
    choose better best bestPlace place totals < bound := by
  induction totals generalizing best bestPlace place with
  | nil => exact hbest
  | cons next rest ih =>
    rw [List.length_cons] at hbound
    rw [choose]
    split
    · exact ih (by omega) (by omega)
    · exact ih hbest (by omega)

/-- The place of the best set is the place of a set. -/
theorem placeOfBest_lt {sets : List (List Value)} (h : sets ≠ [])
    (better : Value → Value → Bool) : placeOfBest better sets < sets.length := by
  cases sets with
  | nil => exact absurd rfl h
  | cons first rest =>
    refine choose_lt (Nat.succ_pos _) ?_
    simp only [List.length_map, List.length_cons]
    omega

/-- Of several sets, the greatest one is that at the place of the greatest one. -/
theorem greatest_of_several {sets : List (List Value)} (h : 2 ≤ sets.length) :
    greatest sets = sets.getD (placeOfGreatest sets) [] := by
  match sets with
  | _ :: _ :: _ => rfl

/-- Of several sets, the least one is that at the place of the least one. -/
theorem least_of_several {sets : List (List Value)} (h : 2 ≤ sets.length) :
    least sets = sets.getD (placeOfLeast sets) [] := by
  match sets with
  | _ :: _ :: _ => rfl

/-- Of several sets, all but the one at the place of the least one are left. -/
theorem withoutLeast_of_several {sets : List (List Value)} (h : 2 ≤ sets.length) :
    withoutLeast sets = (sets.eraseIdx (placeOfLeast sets)).flatten := by
  match sets with
  | _ :: _ :: _ => rfl

/-- The greatest of several sets is one of them. -/
theorem greatest_mem {sets : List (List Value)} (h : 2 ≤ sets.length) : greatest sets ∈ sets := by
  have hplace : placeOfGreatest sets < sets.length :=
    placeOfBest_lt (List.ne_nil_of_length_pos (by omega)) _
  have hmem : sets[placeOfGreatest sets] ∈ sets := List.getElem_mem hplace
  rwa [List.getElem_eq_getD [], ← greatest_of_several h] at hmem

/-- The least of several sets is one of them, and the other ones are what is left without it. -/
theorem exists_place_of_least {sets : List (List Value)} (h : 2 ≤ sets.length) :
    ∃ (place : Nat) (hplace : place < sets.length),
      least sets = sets[place] ∧ withoutLeast sets = (sets.eraseIdx place).flatten := by
  have hplace : placeOfLeast sets < sets.length :=
    placeOfBest_lt (List.ne_nil_of_length_pos (by omega)) _
  refine ⟨_, hplace, ?_, withoutLeast_of_several h⟩
  rw [least_of_several h, List.getElem_eq_getD]

/-- One of several sets and the other ones have all values of all sets. -/
theorem flatten_eraseIdx_append_perm {sets : List (List Value)} {place : Nat}
    (h : place < sets.length) :
    ((sets.eraseIdx place).flatten ++ sets[place]).Perm sets.flatten := by
  have hperm := (List.getElem_cons_eraseIdx_perm h).flatten
  rw [List.flatten_cons] at hperm
  exact List.perm_append_comm.trans hperm

/-- The least set and the others have all values. -/
theorem withoutLeast_append_least_perm {sets : List (List Value)} (h : sets ≠ []) :
    (withoutLeast sets ++ least sets).Perm sets.flatten := by
  match sets with
  | [set] =>
    rw [withoutLeast_append_least_singleton, List.flatten_singleton]
    exact descending_perm set
  | first :: second :: rest =>
    have hseveral : 2 ≤ (first :: second :: rest).length := by simp
    obtain ⟨place, hplace, hleast, hothers⟩ := exists_place_of_least hseveral
    rw [hleast, hothers]
    exact flatten_eraseIdx_append_perm hplace

/-- The greatest value of a set, or the greatest one of several sets, has no values but those of the
sets. -/
theorem greatest_subperm (sets : List (List Value)) : (greatest sets).Subperm sets.flatten := by
  match sets with
  | [] => exact List.Subperm.refl _
  | [set] =>
    rw [greatest, highest?_eq, List.flatten_singleton]
    have hfirst : (descending set).head?.toList.Sublist (descending set) := by
      cases descending set <;> simp
    exact hfirst.subperm.trans (descending_perm set).subperm
  | first :: second :: rest =>
    exact (List.sublist_flatten_of_mem (greatest_mem (by simp))).subperm

/-- What is left without the least and the least itself are all values of all sets, bit by bit. Of
one set they are the values in descending order, whatever order they were in, and the greatest
value is the first of them. Of several sets the least is a whole set, and what is left are the
other sets in their order. -/
theorem withoutLeast_append_least {sets : List (List Value)} (h : sets ≠ []) :
    (withoutLeast sets ++ least sets).Perm sets.flatten ∧
      (∀ set, sets = [set] →
        (withoutLeast sets ++ least sets).Pairwise (fun a b => b.rank ≤ a.rank) ∧
        (∀ others, others.Perm set →
          withoutLeast [others] = withoutLeast sets ∧ least [others] = least sets) ∧
        greatest sets = (withoutLeast sets ++ least sets).head?.toList) ∧
      (2 ≤ sets.length → ∃ (place : Nat) (hplace : place < sets.length),
        least sets = sets[place] ∧ withoutLeast sets = (sets.eraseIdx place).flatten) := by
  refine ⟨withoutLeast_append_least_perm h, ?_, exists_place_of_least⟩
  rintro set rfl
  rw [withoutLeast_append_least_singleton]
  refine ⟨descending_pairwise set, fun others hothers => ?_, ?_⟩
  · have hsame := descending_congr hothers
    exact ⟨by rw [withoutLeast, withoutLeast, hsame],
      by rw [least, least, lowest?_eq, lowest?_eq, hsame]⟩
  · rw [greatest, highest?_eq]

/-- A NaN with its sign bit set is the least value of a set, below the negative zero. Sets whose
totals are all NaN are chosen and left whole. -/
theorem withoutLeast_append_least_nan :
    let one : Value := ⟨0x3FF0000000000000⟩
    let nan : Value := .undefinedResult
    let set : List Value := [.negativeZero, nan, one, .zero, one]
    let sets : List (List Value) := [[one, nan], [nan], [.zero, nan]]
    ([set] ≠ [] ∧ withoutLeast [set] ++ least [set] = [one, one, .zero, .negativeZero, nan] ∧
        greatest [set] = [one]) ∧
      (sets ≠ [] ∧ 2 ≤ sets.length ∧ (withoutLeast sets ++ least sets).Perm sets.flatten ∧
        ∃ (place : Nat) (hplace : place < sets.length),
          least sets = sets[place] ∧ withoutLeast sets = (sets.eraseIdx place).flatten) := by
  intro one nan set sets
  have hone : [set] ≠ [] := by simp
  have hseveral : sets ≠ [] := by simp [sets]
  obtain ⟨hperm, hset, -⟩ := withoutLeast_append_least hone
  obtain ⟨hsorted, -, hgreatest⟩ := hset set rfl
  have hvalues : withoutLeast [set] ++ least [set] = [one, one, .zero, .negativeZero, nan] :=
    eq_of_descending hsorted (by decide) (hperm.trans (by decide))
  obtain ⟨hperm', -, hplace⟩ := withoutLeast_append_least hseveral
  exact ⟨⟨hone, hvalues, by rw [hgreatest, hvalues]; rfl⟩,
    hseveral, by decide, hperm', hplace (by decide)⟩

end Sets

end DiceNotation
