import JustKV.Server.Render

/-!
# The rendered histogram

Calls of `record` one after another, from fresh metrics, leave in each bucket the number of timed
durations that fall into it.  Their running sums, which `render` writes, are the cumulative
distribution of the durations, whatever the order of the calls.
-/

open Checked Counters Histogram

namespace JustKV

/-- The arguments of one call of `record`; a duration is in nanoseconds. -/
structure Call where
  outcome : Outcome
  bytes : ℕ
  elapsed : Option ℕ
  deriving DecidableEq, Repr

def Call.increments (call : Call) : List (Increment Counter) :=
  record call.outcome call.bytes call.elapsed

/-- Calls of `record` one after another. -/
def Metrics.recordAll (metrics : Metrics) (calls : List Call) : Metrics :=
  calls.foldl (fun metrics call ↦ call.increments.foldl fetchAdd metrics) metrics

/-- The durations of the timed calls. -/
def durations (calls : List Call) : List ℕ := calls.filterMap Call.elapsed

/-- After any calls a counter is the sum of what they add to it, modulo the word size. -/
theorem toNat_recordAll (metrics : Metrics) (calls : List Call) (cell : Counter) :
    (metrics.recordAll calls cell).toNat =
      ((metrics cell).toNat + (calls.map fun call ↦ added cell call.increments).sum) % 2 ^ 64 := by
  induction calls generalizing metrics with
  | nil => simp [Metrics.recordAll, Nat.mod_eq_of_lt (metrics cell).toNat_lt]
  | cons call calls ih =>
    calc
      _ = ((call.increments.foldl fetchAdd metrics cell).toNat +
          (calls.map fun call ↦ added cell call.increments).sum) % 2 ^ 64 := ih _
      _ = _ := by
        rw [toNat_foldl_fetchAdd, Nat.mod_add_mod, List.map_cons, List.sum_cons, Nat.add_assoc]

theorem recordAll_perm (metrics : Metrics) {calls calls' : List Call} (h : calls.Perm calls') :
    metrics.recordAll calls' = metrics.recordAll calls := by
  funext cell
  apply UInt64.toNat_inj.mp
  rw [toNat_recordAll, toNat_recordAll, (h.map fun call ↦ added cell call.increments).sum_eq]

theorem added_bucket (call : Call) (i : Fin 13) : added (.bucket i) call.increments =
    (durations [call]).countP fun nanos ↦ slot buckets nanos = i := by
  obtain ⟨outcome, bytes, elapsed⟩ := call
  cases elapsed with
  | none => cases outcome <;> simp [Call.increments, record, Increment.on, durations]
  | some nanos =>
    have hslot : slot buckets nanos = (bucketIndex nanos).val := rfl
    cases outcome <;>
      simp [Call.increments, record, Increment.on, durations, hslot, Fin.ext_iff, List.countP_cons]

theorem added_sumNanos (call : Call) :
    added .sumNanos call.increments = (durations [call]).sum := by
  obtain ⟨outcome, bytes, elapsed⟩ := call
  cases elapsed <;> cases outcome <;> simp [Call.increments, record, Increment.on, durations]

theorem added_timed_call (call : Call) :
    added .timed call.increments = (durations [call]).length := by
  obtain ⟨outcome, bytes, elapsed⟩ := call
  cases elapsed <;> simp [Call.increments, durations]

/-- A measure that adds up over the durations adds up over the calls. -/
theorem sum_durations (measure : List ℕ → ℕ) (hnil : measure [] = 0)
    (happend : ∀ left right, measure (left ++ right) = measure left + measure right)
    (calls : List Call) :
    (calls.map fun call ↦ measure (durations [call])).sum = measure (durations calls) := by
  induction calls with
  | nil => exact hnil.symm
  | cons call calls ih =>
    have hcons : durations (call :: calls) = durations [call] ++ durations calls :=
      List.filterMap_append (l := [call])
    rw [List.map_cons, List.sum_cons, ih, hcons, happend]

/-- No duration is past the last bucket. -/
theorem countP_slot_lt (times : List ℕ) :
    (times.countP fun nanos ↦ slot buckets nanos < 12 + 1) = times.length := by
  apply List.countP_eq_length.mpr
  intro nanos _
  exact decide_eq_true (Nat.lt_succ_of_le List.findIdx_le_length)

section Fresh

variable (calls : List Call)

theorem length_durations_le : (durations calls).length ≤ calls.length :=
  List.length_filterMap_le _ _

theorem toNat_recordAll_new (cell : Counter) : (Metrics.new.recordAll calls cell).toNat =
    (calls.map fun call ↦ added cell call.increments).sum % 2 ^ 64 := by
  have hnew : (Metrics.new cell).toNat = 0 := rfl
  rw [toNat_recordAll, hnew, Nat.zero_add]

variable {calls} (hcount : calls.length < 2 ^ 64)

theorem recordAll_sumNanos :
    (Metrics.new.recordAll calls .sumNanos).toNat = (durations calls).sum % 2 ^ 64 := by
  simp only [toNat_recordAll_new, added_sumNanos]
  rw [sum_durations List.sum List.sum_nil fun _ _ ↦ List.sum_append]

include hcount

theorem recordAll_timed :
    (Metrics.new.recordAll calls .timed).toNat = (durations calls).length := by
  simp only [toNat_recordAll_new, added_timed_call]
  rw [sum_durations List.length List.length_nil fun _ _ ↦ List.length_append,
    Nat.mod_eq_of_lt ((length_durations_le calls).trans_lt hcount)]

theorem recordAll_bucket (i : Fin 13) : (Metrics.new.recordAll calls (.bucket i)).toNat =
    (durations calls).countP fun nanos ↦ slot buckets nanos = i := by
  simp only [toNat_recordAll_new, added_bucket]
  rw [sum_durations (fun times ↦ times.countP fun nanos ↦ slot buckets nanos = i)
    List.countP_nil fun _ _ ↦ List.countP_append]
  exact Nat.mod_eq_of_lt
    ((List.countP_le_length.trans (length_durations_le calls)).trans_lt hcount)

/-- The disjoint counts, bucket by bucket. -/
theorem bucketCounts_recordAll : (Metrics.new.recordAll calls).bucketCounts =
    ((List.range 12).map fun i ↦ (durations calls).countP fun nanos ↦ slot buckets nanos = i) ++
      [(durations calls).countP fun nanos ↦ slot buckets nanos = 12] := by
  calc
    _ = (List.finRange 13).map fun i ↦
        (durations calls).countP fun nanos ↦ slot buckets nanos = i.val :=
      List.map_congr_left fun i _ ↦ recordAll_bucket hcount i
    _ = (List.range 13).map fun i ↦
        (durations calls).countP fun nanos ↦ slot buckets nanos = i := rfl
    _ = _ := by rw [List.range_succ, List.map_append, List.map_singleton]

theorem sum_bucketCounts_recordAll :
    (Metrics.new.recordAll calls).bucketCounts.sum = (durations calls).length := by
  rw [bucketCounts_recordAll hcount, List.sum_append, List.sum_singleton, sum_countP_slot,
    countP_lt_add_countP_eq, countP_slot_lt]

/-- Summed up they are the distribution of the durations. -/
theorem runningSums_recordAll : runningSums 0 (Metrics.new.recordAll calls).bucketCounts =
    (buckets.map fun bound ↦ (durations calls).countP fun nanos ↦ nanos ≤ bound) ++
      [(durations calls).length] := by
  have hsorted : buckets.Pairwise (· ≤ ·) := by decide
  rw [bucketCounts_recordAll hcount, runningSums_append, Nat.zero_add, sum_countP_slot,
    countP_lt_add_countP_eq, countP_slot_lt, ← runningSums_counts hsorted]
  rfl

end Fresh

/-- What a call that is not timed does not touch. -/
theorem recordAll_untimed (metrics : Metrics) {call : Call} (h : call.elapsed = none)
    {cell : Counter} (hcell : cell = .sumNanos ∨ cell = .timed ∨ ∃ i, cell = .bucket i) :
    metrics.recordAll [call] cell = metrics cell := by
  have hdurations : durations [call] = [] := by simp [durations, h]
  have hadded : added cell call.increments = 0 := by
    rcases hcell with rfl | rfl | ⟨i, rfl⟩
    · rw [added_sumNanos, hdurations, List.sum_nil]
    · rw [added_timed_call, hdurations, List.length_nil]
    · rw [added_bucket, hdurations, List.countP_nil]
  apply UInt64.toNat_inj.mp
  rw [toNat_recordAll, List.map_singleton, List.sum_singleton, hadded, Nat.add_zero,
    Nat.mod_eq_of_lt (metrics cell).toNat_lt]

/-- The rendered histogram is the true cumulative distribution of the timed durations, and it does
not depend on the order of the calls. -/
theorem render_distribution (calls : List Call) (hcount : calls.length < 2 ^ 64)
    (keys arenaBytes uptime : UInt64) :
    (∃ lines, (Metrics.new.recordAll calls).render keys arenaBytes uptime = .ok lines ∧
      series bucketName lines = (bucketLabels.zip buckets).map (fun bucket ↦
        (some bucket.1, (durations calls).countP fun nanos ↦ nanos ≤ bucket.2)) ++
          [(some "+Inf", (durations calls).length)] ∧
      ((series bucketName lines).map Prod.snd).Pairwise (· ≤ ·) ∧
      series countName lines = [(none, (durations calls).length)] ∧
      (nanosOf lines).map UInt64.toNat = [(durations calls).sum % 2 ^ 64]) ∧
    (∀ metrics : Metrics, ∀ call : Call, call.elapsed = none →
      ∀ cell, (cell = .sumNanos ∨ cell = .timed ∨ ∃ i, cell = .bucket i) →
        metrics.recordAll [call] cell = metrics cell) ∧
    ∀ calls', calls.Perm calls' → Metrics.new.recordAll calls' = Metrics.new.recordAll calls := by
  refine ⟨?_, fun metrics call h cell ↦ recordAll_untimed metrics h,
    fun calls' ↦ recordAll_perm Metrics.new⟩
  have hsums := runningSums_recordAll hcount
  have hfits : (Metrics.new.recordAll calls).bucketCounts.sum < 2 ^ 64 := by
    rw [sum_bucketCounts_recordAll hcount]
    exact (length_durations_le calls).trans_lt hcount
  obtain ⟨lines, hrender, hreports⟩ := render_eq_ok _ hfits keys arenaBytes uptime
  have hbuckets := hreports.buckets
  rw [hsums] at hbuckets
  refine ⟨lines, hrender, ?_, ?_, ?_, ?_⟩
  · rw [hbuckets]
    rfl
  · rw [hreports.values]
    exact pairwise_runningSums _ _
  · rw [hreports.count, recordAll_timed hcount]
  · rw [hreports.sum, List.map_singleton, recordAll_sumNanos]

/-- A duration at the first bound, one just above it, one past the last, and an untimed call. -/
theorem render_distribution_bounds :
    let calls : List Call := [⟨.hit, 1, some 25000⟩, ⟨.default, 0, some 25001⟩, ⟨.miss, 0, none⟩,
      ⟨.hit, 7, some 100000001⟩]
    ∃ lines, (Metrics.new.recordAll calls).render 1 2 3 = .ok lines ∧
      series bucketName lines = [(some "0.000025", 1), (some "0.00005", 2), (some "0.0001", 2),
        (some "0.00025", 2), (some "0.0005", 2), (some "0.001", 2), (some "0.0025", 2),
        (some "0.005", 2), (some "0.01", 2), (some "0.025", 2), (some "0.05", 2), (some "0.1", 2),
        (some "+Inf", 3)] := by
  intro calls
  obtain ⟨⟨lines, hrender, hseries, _⟩, _⟩ := render_distribution calls (by decide) 1 2 3
  exact ⟨lines, hrender, hseries.trans (by decide +kernel)⟩

end JustKV
