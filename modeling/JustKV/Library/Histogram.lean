import Mathlib.Algebra.GroupWithZero.Nat
import Mathlib.Algebra.Order.Group.Nat
import Mathlib.Data.List.Count
import Mathlib.Order.Basic

/-!
# Histograms

A value falls into the first bucket whose bound it does not exceed, or into the bucket past the
last bound.  With ascending bounds the running sums of the bucket counts are the cumulative
distribution: the sum up to a bound counts exactly the values that do not exceed it.
-/

namespace Histogram

/-- The sums of the prefixes of a list, each with `start` added. -/
def runningSums : ℕ → List ℕ → List ℕ
  | _, [] => []
  | start, count :: counts => (start + count) :: runningSums (start + count) counts

@[simp] theorem length_runningSums (start : ℕ) (counts : List ℕ) :
    (runningSums start counts).length = counts.length := by
  induction counts generalizing start with
  | nil => rfl
  | cons count counts ih => rw [runningSums, List.length_cons, ih, List.length_cons]

theorem getElem_runningSums (start : ℕ) (counts : List ℕ) {i : ℕ}
    (hi : i < (runningSums start counts).length) :
    (runningSums start counts)[i] = start + (counts.take (i + 1)).sum := by
  induction counts generalizing start i with
  | nil => simp [runningSums] at hi
  | cons count counts ih =>
    cases i with
    | zero => simp [runningSums]
    | succ i =>
      have hrest : i < (runningSums (start + count) counts).length := by
        simpa [runningSums] using hi
      calc
        _ = (runningSums (start + count) counts)[i] := rfl
        _ = start + count + (counts.take (i + 1)).sum := ih (start + count) hrest
        _ = start + ((count :: counts).take (i + 1 + 1)).sum := by
          rw [List.take_succ_cons, List.sum_cons, Nat.add_assoc]

theorem le_of_mem_runningSums {start : ℕ} {counts : List ℕ} :
    ∀ sum ∈ runningSums start counts, start ≤ sum := by
  induction counts generalizing start with
  | nil => simp [runningSums]
  | cons count counts ih =>
    rw [runningSums, List.forall_mem_cons]
    exact ⟨Nat.le_add_right _ _, fun sum hsum ↦ (Nat.le_add_right _ _).trans (ih sum hsum)⟩

/-- Running sums never decrease. -/
theorem pairwise_runningSums (start : ℕ) (counts : List ℕ) :
    (runningSums start counts).Pairwise (· ≤ ·) := by
  induction counts generalizing start with
  | nil => exact .nil
  | cons count counts ih => exact .cons le_of_mem_runningSums (ih (start + count))

theorem runningSums_append (start : ℕ) (counts : List ℕ) (last : ℕ) :
    runningSums start (counts ++ [last]) =
      runningSums start counts ++ [start + counts.sum + last] := by
  induction counts generalizing start with
  | nil => simp [runningSums]
  | cons count counts ih =>
    rw [List.cons_append, runningSums, ih, runningSums, List.cons_append, List.sum_cons,
      Nat.add_assoc start]

/-- Running sums grow with the start and with every count. -/
theorem runningSums_le {start start' : ℕ} {counts counts' : List ℕ} (hstart : start ≤ start')
    (h : List.Forall₂ (· ≤ ·) counts counts') :
    List.Forall₂ (· ≤ ·) (runningSums start counts) (runningSums start' counts') := by
  induction h generalizing start start' with
  | nil => exact .nil
  | cons hcount _ ih =>
    have hsum := Nat.add_le_add hstart hcount
    exact .cons hsum (ih hsum)

variable {α : Type} [LinearOrder α]

/-- The bucket of a value: the first whose bound it does not exceed, or the one past the last. -/
def slot (bounds : List α) (value : α) : ℕ := bounds.findIdx fun bound ↦ value ≤ bound

variable {bounds : List α}

/-- With ascending bounds, the buckets up to a bound are those of the values up to it. -/
theorem slot_le_iff (hbounds : bounds.Pairwise (· ≤ ·)) {i : ℕ} (hi : i < bounds.length)
    {value : α} : slot bounds value ≤ i ↔ value ≤ bounds[i] := by
  rw [← not_lt, slot, List.lt_findIdx_iff]
  constructor
  · intro h
    by_contra hvalue
    refine h ⟨hi, fun j hj ↦ decide_eq_false fun hle ↦ hvalue (hle.trans ?_)⟩
    rcases hj.eq_or_lt with rfl | hlt
    · exact le_rfl
    · exact List.pairwise_iff_getElem.mp hbounds j i _ hi hlt
  · rintro hvalue ⟨_, hnone⟩
    exact of_decide_eq_false (hnone i le_rfl) hvalue

omit [LinearOrder α] in
theorem countP_lt_add_countP_eq (bucket : α → ℕ) (values : List α) (n : ℕ) :
    (values.countP fun value ↦ bucket value < n) + (values.countP fun value ↦ bucket value = n) =
      values.countP fun value ↦ bucket value < n + 1 := by
  induction values with
  | nil => rfl
  | cons value values ih =>
    simp only [List.countP_cons, decide_eq_true_eq]
    rcases lt_trichotomy (bucket value) n with hbucket | hbucket | hbucket
    · rw [if_pos hbucket, if_neg hbucket.ne, if_pos (by omega)]
      omega
    · rw [if_neg (by omega), if_pos hbucket, if_pos (by omega)]
      omega
    · rw [if_neg (by omega), if_neg (by omega), if_neg (by omega)]
      omega

/-- The values in the first buckets, counted bucket by bucket. -/
theorem sum_countP_slot (bounds values : List α) (n : ℕ) :
    ((List.range n).map fun i ↦ values.countP fun value ↦ slot bounds value = i).sum =
      values.countP fun value ↦ slot bounds value < n := by
  induction n with
  | zero => simp
  | succ n ih =>
    rw [List.range_succ, List.map_append, List.sum_append, ih, List.map_singleton,
      List.sum_singleton, countP_lt_add_countP_eq]

/-- The running sums of the bucket counts are the cumulative distribution. -/
theorem runningSums_counts (hbounds : bounds.Pairwise (· ≤ ·)) (values : List α) :
    runningSums 0 ((List.range bounds.length).map fun i ↦
        values.countP fun value ↦ slot bounds value = i) =
      bounds.map fun bound ↦ values.countP fun value ↦ value ≤ bound := by
  apply List.ext_getElem
  · simp
  · intro i hi hi'
    rw [List.length_map] at hi'
    rw [getElem_runningSums, List.getElem_map, ← List.map_take, List.take_range,
      min_eq_left (by omega), sum_countP_slot, Nat.zero_add]
    apply List.countP_congr
    intro value _
    simpa only [decide_eq_true_eq] using Nat.lt_succ_iff.trans (slot_le_iff hbounds hi')

end Histogram
