import Mathlib.Algebra.GroupWithZero.Nat
import Mathlib.Data.Fintype.Card
import Mathlib.Data.Fintype.Option
import Mathlib.Data.List.Nodup
import Mathlib.Data.Fintype.List

/-!
# How many distinct lists fit in a bounded total length

Pairwise distinct lists over a finite alphabet cannot all be short: at most one is empty and at
most one for each letter has length one, so all others take at least two letters each.  Their
number is therefore about half of their total length.
-/

namespace DistinctLists

variable {α : Type} [Fintype α]

/-- Distinct lists of length at most one are told apart by their first letter. -/
theorem length_le_of_short {lists : List (List α)} (hnodup : lists.Nodup)
    (hshort : ∀ l ∈ lists, l.length ≤ 1) : lists.length ≤ Fintype.card α + 1 := by
  have hinjective : ∀ l ∈ lists, ∀ m ∈ lists, l.head? = m.head? → l = m := by
    intro l hl m hm hhead
    match l, m, hshort l hl, hshort m hm, hhead with
    | [], [], _, _, _ => rfl
    | [a], [b], _, _, hhead => simpa using hhead
    | [], [b], _, _, hhead => simp at hhead
    | [a], [], _, _, hhead => simp at hhead
  have hheads : (lists.map List.head?).Nodup := hnodup.map_on hinjective
  calc
    lists.length = (lists.map List.head?).length := (List.length_map _).symm
    _ ≤ Fintype.card (Option α) := hheads.length_le_card
    _ = Fintype.card α + 1 := Fintype.card_option

omit [Fintype α] in
/-- Lists of length at least two cost two letters each. -/
theorem two_mul_length_long_le (lists : List (List α)) :
    2 * (lists.filter fun l ↦ ¬ l.length ≤ 1).length ≤ (lists.map List.length).sum := by
  induction lists with
  | nil => simp
  | cons l lists ih =>
    rw [List.map_cons, List.sum_cons, List.filter_cons]
    split
    case isTrue hlong =>
      have hlength : 1 < l.length := by simpa using hlong
      rw [List.length_cons]
      omega
    case isFalse => omega

/-- Distinct lists are about half as many as the letters they take together. -/
theorem length_le_half_sum {lists : List (List α)} (hnodup : lists.Nodup) :
    lists.length ≤ Fintype.card α + 1 + (lists.map List.length).sum / 2 := by
  have hsplit := List.length_eq_length_filter_add (l := lists) fun l ↦ decide (l.length ≤ 1)
  have hshort := length_le_of_short (hnodup.filter fun l ↦ decide (l.length ≤ 1))
    fun l hl ↦ by simpa using (List.mem_filter.mp hl).2
  have hlong := two_mul_length_long_le lists
  simp only [decide_not] at hlong
  omega

end DistinctLists
