import Mathlib.Algebra.BigOperators.Group.Finset.Piecewise
import JustKV.Library.Counters

/-!
# Recording a lookup

The server's counters are a bank of 64-bit atomics, and one `record` call is three to eight
increments in a fixed order.  Each counter that another is compared with comes first: `requests`
before `hits` and `misses`, `misses` before `defaults`, and the bucket before `timed`.
-/

open Counters

namespace JustKV

/-- The fields of `Metrics`. -/
inductive Counter
  | requests
  | hits
  | misses
  | defaults
  | bytes
  | bucket (i : Fin 13)
  | sumNanos
  | timed
  deriving DecidableEq, Repr

abbrev Metrics := Bank Counter

def Metrics.new : Metrics := fun _ ↦ 0

/-- The upper bounds of the first twelve buckets, in nanoseconds. -/
def buckets : List ℕ :=
  [25000, 50000, 100000, 250000, 500000, 1000000, 2500000, 5000000, 10000000, 25000000, 50000000,
    100000000]

inductive Outcome
  | hit
  /-- Key absent and no default configured. -/
  | miss
  /-- Key absent but a default was served. -/
  | default
  deriving DecidableEq, Repr

/-- The first bucket whose bound the duration does not exceed, or the last bucket.  Comparing
seconds as `f64` gives the same at whole nanoseconds, since both sides are correctly rounded. -/
def bucketIndex (nanos : ℕ) : Fin 13 :=
  ⟨buckets.findIdx fun bound ↦ nanos ≤ bound, Nat.lt_succ_of_le List.findIdx_le_length⟩

/-- The increments of one call, in order. -/
def record (outcome : Outcome) (bytes : ℕ) (elapsed : Option ℕ) : List (Increment Counter) :=
  [(.requests, 1), (.bytes, bytes)] ++
  (match outcome with
    | .hit => [(.hits, 1)]
    | .miss => [(.misses, 1)]
    -- The status code says 200, the metrics say miss.
    | .default => [(.misses, 1), (.defaults, 1)]) ++
  match elapsed with
    | some nanos => [(.bucket (bucketIndex nanos), 1), (.sumNanos, nanos), (.timed, 1)]
    | none => []

section Totals

variable (outcome : Outcome) (bytes : ℕ) (elapsed : Option ℕ)

@[simp] theorem added_requests : added .requests (record outcome bytes elapsed) = 1 := by
  cases outcome <;> cases elapsed <;> rfl

@[simp] theorem added_hits :
    added .hits (record outcome bytes elapsed) = if outcome = .hit then 1 else 0 := by
  cases outcome <;> cases elapsed <;> rfl

@[simp] theorem added_misses :
    added .misses (record outcome bytes elapsed) = if outcome = .hit then 0 else 1 := by
  cases outcome <;> cases elapsed <;> rfl

@[simp] theorem added_defaults :
    added .defaults (record outcome bytes elapsed) = if outcome = .default then 1 else 0 := by
  cases outcome <;> cases elapsed <;> rfl

@[simp] theorem added_bytes : added .bytes (record outcome bytes elapsed) = bytes := by
  cases outcome <;> cases elapsed <;> simp [record, Increment.on]

@[simp] theorem added_timed :
    added .timed (record outcome bytes elapsed) = if elapsed.isSome then 1 else 0 := by
  cases outcome <;> cases elapsed <;> simp [record, Increment.on]

/-- All buckets of a list taken together. -/
theorem sum_added_bucket (list : List (Increment Counter)) :
    ∑ i, added (.bucket i) list = (list.map fun increment ↦ ∑ i, increment.on (.bucket i)).sum := by
  induction list with
  | nil => simp
  | cons increment list ih =>
    calc
      _ = ∑ i, increment.on (.bucket i) + ∑ i, added (.bucket i) list := by
        simp only [added_cons, Finset.sum_add_distrib]
      _ = _ := by rw [ih, List.map_cons, List.sum_cons]

@[simp] theorem sum_added_buckets :
    ∑ i, added (.bucket i) (record outcome bytes elapsed) = if elapsed.isSome then 1 else 0 := by
  rw [sum_added_bucket]
  cases outcome <;> cases elapsed <;> simp [record, Increment.on]

end Totals

section Prefix

variable (outcome : Outcome) (bytes : ℕ) (elapsed : Option ℕ) (performed : ℕ)

theorem hits_add_misses_le :
    added .hits ((record outcome bytes elapsed).take performed) +
        added .misses ((record outcome bytes elapsed).take performed) ≤
      added .requests ((record outcome bytes elapsed).take performed) := by
  have hleads : Leads (fun increment ↦ increment.on .requests)
      (fun increment ↦ increment.on .hits + increment.on .misses) 0
      (record outcome bytes elapsed) := by
    cases outcome <;> cases elapsed <;> simp [record, Increment.on]
  calc
    _ = (((record outcome bytes elapsed).take performed).map fun increment ↦
        increment.on .hits + increment.on .misses).sum := List.sum_map_add.symm
    _ ≤ 0 + added .requests ((record outcome bytes elapsed).take performed) := hleads performed
    _ = _ := Nat.zero_add _

theorem defaults_le :
    added .defaults ((record outcome bytes elapsed).take performed) ≤
      added .misses ((record outcome bytes elapsed).take performed) := by
  have hleads : Leads (fun increment ↦ increment.on .misses)
      (fun increment ↦ increment.on .defaults) 0 (record outcome bytes elapsed) := by
    cases outcome <;> cases elapsed <;> simp [record, Increment.on]
  calc
    _ ≤ 0 + added .misses ((record outcome bytes elapsed).take performed) := hleads performed
    _ = _ := Nat.zero_add _

theorem timed_le :
    added .timed ((record outcome bytes elapsed).take performed) ≤
      ∑ i, added (.bucket i) ((record outcome bytes elapsed).take performed) := by
  have hleads : Leads (fun increment ↦ ∑ i, increment.on (.bucket i))
      (fun increment ↦ increment.on .timed) 0 (record outcome bytes elapsed) := by
    cases outcome <;> cases elapsed <;> simp [record, Increment.on]
  calc
    _ ≤ 0 + (((record outcome bytes elapsed).take performed).map fun increment ↦
        ∑ i, increment.on (.bucket i)).sum := hleads performed
    _ = ∑ i, added (.bucket i) ((record outcome bytes elapsed).take performed) := by
      rw [Nat.zero_add, sum_added_bucket]

/-- A call is ahead by one request at most, and only between its first and its last increment. -/
theorem requests_le :
    added .requests ((record outcome bytes elapsed).take performed) ≤
      added .hits ((record outcome bytes elapsed).take performed) +
        added .misses ((record outcome bytes elapsed).take performed) +
          if 0 < performed ∧ performed < (record outcome bytes elapsed).length then 1 else 0 := by
  by_cases hstarted : 0 < performed
  · by_cases hfinished : performed < (record outcome bytes elapsed).length
    · rw [if_pos ⟨hstarted, hfinished⟩]
      have hone := added_take_le .requests (record outcome bytes elapsed) performed
      rw [added_requests] at hone
      omega
    · rw [List.take_of_length_le (not_lt.mp hfinished)]
      simp only [added_requests, added_hits, added_misses]
      split <;> omega
  · obtain rfl : performed = 0 := by omega
    simp

/-- A call has counted its bucket and not yet `timed` only between its first and its last
increment. -/
theorem sum_bucket_le :
    ∑ i, added (.bucket i) ((record outcome bytes elapsed).take performed) ≤
      added .timed ((record outcome bytes elapsed).take performed) +
        if 0 < performed ∧ performed < (record outcome bytes elapsed).length then 1 else 0 := by
  by_cases hstarted : 0 < performed
  · by_cases hfinished : performed < (record outcome bytes elapsed).length
    · rw [if_pos ⟨hstarted, hfinished⟩]
      calc
        _ ≤ ∑ i, added (.bucket i) (record outcome bytes elapsed) :=
          Finset.sum_le_sum fun i _ ↦ added_take_le _ _ performed
        _ ≤ 1 := by
          rw [sum_added_buckets]
          split <;> omega
        _ ≤ _ := Nat.le_add_left 1 _
    · rw [List.take_of_length_le (not_lt.mp hfinished), sum_added_buckets, added_timed]
      exact Nat.le_add_right _ _
  · obtain rfl : performed = 0 := by omega
    simp

end Prefix

end JustKV
