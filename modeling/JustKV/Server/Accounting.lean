import JustKV.Csv.Reader
import JustKV.Server.Handlers

/-!
# Accounting under concurrency

The lookups of a server run concurrently, and the increments of their `record` calls interleave
freely.  Every schedule keeps the counters consistent at every moment, and when all lookups have
finished the totals are those of the requests.
-/

open Checked Counters HashTable Interleaving

namespace JustKV

variable {ι : Type} [Fintype ι]

section Calls

variable {outcomes : ι → Outcome} {sizes : ι → ℕ} {times : ι → Option ℕ}
  {lists : ι → List (Increment Counter)} {performed : ι → ℕ}
  (hlists : ∀ i, lists i = record (outcomes i) (sizes i) (times i))

include hlists

theorem tally_hits_add_misses_le :
    tally lists performed .hits + tally lists performed .misses ≤
      tally lists performed .requests := by
  calc
    _ = ∑ i, (added .hits ((lists i).take (performed i)) +
        added .misses ((lists i).take (performed i))) := Finset.sum_add_distrib.symm
    _ ≤ ∑ i, added .requests ((lists i).take (performed i)) := by
      apply Finset.sum_le_sum
      intro i _
      rw [hlists i]
      exact hits_add_misses_le _ _ _ _

theorem tally_defaults_le :
    tally lists performed .defaults ≤ tally lists performed .misses := by
  apply Finset.sum_le_sum
  intro i _
  rw [hlists i]
  exact defaults_le _ _ _ _

theorem tally_timed_le :
    tally lists performed .timed ≤ ∑ b, tally lists performed (.bucket b) := by
  calc
    _ ≤ ∑ i, ∑ b, added (.bucket b) ((lists i).take (performed i)) := by
      apply Finset.sum_le_sum
      intro i _
      rw [hlists i]
      exact timed_le _ _ _ _
    _ = _ := Finset.sum_comm

/-- Only a call in progress can have been counted as a request and not yet as a hit or a miss. -/
theorem tally_requests_le :
    tally lists performed .requests ≤
      tally lists performed .hits + tally lists performed .misses +
        (Finset.univ.filter fun i ↦ 0 < performed i ∧ performed i < (lists i).length).card := by
  calc
    _ ≤ ∑ i, (added .hits ((lists i).take (performed i)) +
        added .misses ((lists i).take (performed i)) +
          if 0 < performed i ∧ performed i < (lists i).length then 1 else 0) := by
      apply Finset.sum_le_sum
      intro i _
      rw [hlists i]
      exact requests_le _ _ _ _
    _ = _ := by rw [Finset.sum_add_distrib, Finset.sum_add_distrib, Finset.card_filter, tally, tally]

/-- Only a call in progress can have been counted in a bucket and not yet in `timed`. -/
theorem sum_tally_bucket_le :
    ∑ b, tally lists performed (.bucket b) ≤ tally lists performed .timed +
      (Finset.univ.filter fun i ↦ 0 < performed i ∧ performed i < (lists i).length).card := by
  calc
    _ = ∑ i, ∑ b, added (.bucket b) ((lists i).take (performed i)) := Finset.sum_comm
    _ ≤ ∑ i, (added .timed ((lists i).take (performed i)) +
          if 0 < performed i ∧ performed i < (lists i).length then 1 else 0) := by
      apply Finset.sum_le_sum
      intro i _
      rw [hlists i]
      exact sum_bucket_le _ _ _ _
    _ = _ := by rw [Finset.sum_add_distrib, Finset.card_filter, tally]

/-- The buckets together get no more than one from a call. -/
theorem sum_tally_bucket_le_card : ∑ b, tally lists performed (.bucket b) ≤ Fintype.card ι := by
  calc
    _ = ∑ i, ∑ b, added (.bucket b) ((lists i).take (performed i)) := Finset.sum_comm
    _ ≤ ∑ _i : ι, 1 := by
      apply Finset.sum_le_sum
      intro i _
      calc
        _ ≤ ∑ b, added (.bucket b) (lists i) :=
          Finset.sum_le_sum fun b _ ↦ added_take_le (.bucket b) (lists i) (performed i)
        _ ≤ 1 := by
          rw [hlists i, sum_added_buckets]
          split <;> omega
    _ = Fintype.card ι := by simp

/-- Apart from `bytes` and `sumNanos`, no counter gets more than one from a call. -/
theorem total_le_card {cell : Counter} (hbytes : cell ≠ .bytes) (hnanos : cell ≠ .sumNanos) :
    ∑ i, added cell (lists i) ≤ Fintype.card ι := by
  have hone (i : ι) : added cell (lists i) ≤ 1 := by
    rw [hlists i]
    cases cell with
    | bytes => exact absurd rfl hbytes
    | sumNanos => exact absurd rfl hnanos
    | bucket b =>
      have hle := Finset.single_le_sum (fun b _ ↦ Nat.zero_le
        (added (.bucket b) (record (outcomes i) (sizes i) (times i)))) (Finset.mem_univ b)
      rw [sum_added_buckets] at hle
      exact hle.trans (by split <;> omega)
    | requests => rw [added_requests]
    | hits => rw [added_hits]; split <;> omega
    | misses => rw [added_misses]; split <;> omega
    | defaults => rw [added_defaults]; split <;> omega
    | timed => rw [added_timed]; split <;> omega
  calc ∑ i, added cell (lists i) ≤ ∑ _i : ι, 1 := Finset.sum_le_sum fun i _ ↦ hone i
    _ = Fintype.card ι := by simp

/-- A counter that gets one from every call with a property counts these calls in the end. -/
theorem tally_eq_card (hfinished : ∀ i, performed i = (lists i).length) {cell : Counter}
    {property : ι → Prop} [DecidablePred property]
    (hadded : ∀ i, added cell (record (outcomes i) (sizes i) (times i)) =
      if property i then 1 else 0) :
    tally lists performed cell = (Finset.univ.filter property).card := by
  rw [tally_of_finished hfinished, Finset.card_filter]
  exact Finset.sum_congr rfl fun i _ ↦ by rw [hlists i, hadded i]

/-- In the end every call has been counted in `requests`, and the timed ones in one bucket each. -/
theorem tally_requests_eq (hfinished : ∀ i, performed i = (lists i).length) :
    tally lists performed .requests = Fintype.card ι := by
  calc
    _ = (Finset.univ.filter fun _ : ι ↦ True).card :=
      tally_eq_card hlists hfinished fun i ↦ by rw [added_requests, if_pos trivial]
    _ = Fintype.card ι := by rw [Finset.filter_true, Finset.card_univ]

theorem tally_timed_eq (hfinished : ∀ i, performed i = (lists i).length) :
    tally lists performed .timed = (Finset.univ.filter fun i ↦ (times i).isSome).card :=
  tally_eq_card hlists hfinished fun _ ↦ added_timed _ _ _

/-- Every timed call is in one bucket. -/
theorem sum_total_bucket :
    ∑ b, ∑ i, added (.bucket b) (lists i) = ∑ i, added .timed (lists i) := by
  calc
    _ = ∑ i, ∑ b, added (.bucket b) (lists i) := Finset.sum_comm
    _ = ∑ i, added .timed (lists i) :=
      Finset.sum_congr rfl fun i _ ↦ by rw [hlists i, sum_added_buckets, added_timed]

theorem sum_tally_bucket (hfinished : ∀ i, performed i = (lists i).length) :
    ∑ b, tally lists performed (.bucket b) = tally lists performed .timed := by
  calc
    _ = ∑ b, ∑ i, added (.bucket b) (lists i) :=
      Finset.sum_congr rfl fun b _ ↦ tally_of_finished hfinished (.bucket b)
    _ = ∑ i, added .timed (lists i) := sum_total_bucket hlists
    _ = tally lists performed .timed := (tally_of_finished hfinished .timed).symm

end Calls

/-- Only the bodies of `GET` responses are counted. -/
theorem sum_added_bytes {state : AppState} {keys : ι → Bytes} {methods : ι → Method}
    {elapsed : ι → ℕ} {responses : ι → Response} {lists : ι → List (Increment Counter)}
    (hlookup : ∀ i, lookup state (keys i) (methods i) (elapsed i) = .ok (responses i, lists i)) :
    ∑ i, added .bytes (lists i) = ∑ i with methods i = .get, (responses i).body.length := by
  rw [Finset.sum_filter]
  apply Finset.sum_congr rfl
  intro i _
  rw [record_of_lookup (hlookup i), added_bytes]
  cases methods i <;> rfl

variable [DecidableEq ι]

/-- At every moment of every interleaving of the record calls of a collection of lookups the
counters are consistent, and when all calls have finished they are exact. -/
theorem lookup_accounting (state : AppState) (keys : ι → Bytes) (methods : ι → Method)
    (elapsed : ι → ℕ) (responses : ι → Response) (lists : ι → List (Increment Counter))
    (hlookup : ∀ i, lookup state (keys i) (methods i) (elapsed i) = .ok (responses i, lists i))
    (hcount : Fintype.card ι < 2 ^ 64)
    (hbytes : ∑ i with methods i = .get, (responses i).body.length < 2 ^ 64)
    (schedule : List (ι × Unit)) (world : World ι Metrics ℕ)
    (hrun : World.run (increments lists) ⟨Metrics.new, fun _ ↦ 0⟩ schedule = some world) :
    ((world.shared .hits).toNat + (world.shared .misses).toNat ≤ (world.shared .requests).toNat ∧
      (world.shared .defaults).toNat ≤ (world.shared .misses).toNat ∧
      (world.shared .timed).toNat ≤ ∑ b, (world.shared (.bucket b)).toNat ∧
      (world.shared .requests).toNat -
          ((world.shared .hits).toNat + (world.shared .misses).toNat) ≤
        (Finset.univ.filter fun i ↦
          0 < world.locals i ∧ world.locals i < (lists i).length).card) ∧
    ((∀ i, world.locals i = (lists i).length) →
      (world.shared .requests).toNat = Fintype.card ι ∧
      (world.shared .hits).toNat = (Finset.univ.filter fun i ↦ state.Holds (keys i)).card ∧
      (world.shared .misses).toNat = (Finset.univ.filter fun i ↦ ¬state.Holds (keys i)).card ∧
      (world.shared .defaults).toNat =
        (if state.defaultValue.isSome then (world.shared .misses).toNat else 0) ∧
      (world.shared .bytes).toNat = ∑ i with methods i = .get, (responses i).body.length ∧
      ∑ b, (world.shared (.bucket b)).toNat = (world.shared .timed).toNat ∧
      (world.shared .timed).toNat = if state.timing then Fintype.card ι else 0) := by
  have hlists (i : ι) := record_of_lookup (hlookup i)
  have hcounter (cell : Counter) (hcell : cell ≠ .bytes) (hnanos : cell ≠ .sumNanos) :
      (world.shared cell).toNat = tally lists world.locals cell :=
    toNat_shared_of_lt hrun ((total_le_card hlists hcell hnanos).trans_lt hcount)
  have hbytesCounter : (world.shared Counter.bytes).toNat = tally lists world.locals .bytes :=
    toNat_shared_of_lt hrun (sum_added_bytes hlookup ▸ hbytes)
  rw [hcounter .hits (by decide) (by decide), hcounter .misses (by decide) (by decide),
    hcounter .requests (by decide) (by decide), hcounter .defaults (by decide) (by decide),
    hcounter .timed (by decide) (by decide), hbytesCounter, Finset.sum_congr rfl fun b _ ↦
      hcounter (.bucket b) Counter.noConfusion Counter.noConfusion]
  refine ⟨⟨tally_hits_add_misses_le hlists, tally_defaults_le hlists, tally_timed_le hlists, ?_⟩,
    ?_⟩
  · have hle : tally lists world.locals .requests ≤
        tally lists world.locals .hits + tally lists world.locals .misses +
          (Finset.univ.filter fun i ↦
            0 < world.locals i ∧ world.locals i < (lists i).length).card :=
      tally_requests_le hlists
    omega
  · intro hfinished
    have hmisses : tally lists world.locals .misses =
        (Finset.univ.filter fun i ↦ ¬state.Holds (keys i)).card :=
      tally_eq_card hlists hfinished fun i ↦ by simp [outcome_eq_hit]
    refine ⟨tally_requests_eq hlists hfinished, ?_, hmisses, ?_, ?_,
      sum_tally_bucket hlists hfinished, ?_⟩
    · exact tally_eq_card hlists hfinished fun i ↦ by simp [outcome_eq_hit]
    · rw [hmisses]
      cases hdefault : state.defaultValue.isSome with
      | true => exact tally_eq_card hlists hfinished fun i ↦ by simp [outcome_eq_default, hdefault]
      | false =>
        rw [tally_of_finished hfinished]
        simp [hlists, outcome_eq_default, hdefault]
    · rw [tally_of_finished hfinished, sum_added_bytes hlookup]
    · rw [tally_timed_eq hlists hfinished]
      cases state.timing <;> simp

/-- A hit by `GET` and a default by `HEAD`, interleaved increment by increment. -/
theorem lookup_accounting_hit_and_default :
    let parts : Parts := ⟨[97, 49], [⟨0, 1, 1, 1⟩], by decide, by
      intro entry hentry
      rw [List.mem_singleton.mp hentry]
      exact ⟨by decide, by decide⟩⟩
    let state : AppState :=
      ⟨parts.store (chained _) fun _ ↦ 7, sound_store _ _ _, some [48], "text/plain", true⟩
    let lists (second : Bool) : List (Increment Counter) :=
      if second then record .default 0 (some 25001) else record .hit 1 (some 25000)
    let schedule := (List.replicate 6 [(false, ()), (true, ())]).flatten ++ [(true, ())]
    ∃ world, World.run (increments lists) ⟨Metrics.new, fun _ ↦ 0⟩ schedule = some world ∧
      (world.shared .requests).toNat = 2 ∧
      (world.shared .hits).toNat = (Finset.univ.filter fun second : Bool ↦
        state.Holds (if second then [98] else [97])).card := by
  intro parts state lists schedule
  have hlookup (second : Bool) : lookup state (if second then [98] else [97])
      (if second then .head else .get) (if second then 25001 else 25000) =
      .ok (if second then ⟨200, [("content-type", "text/plain"), ("x-justkv-default", "1")], [48]⟩
        else ⟨200, [("content-type", "text/plain")], [49]⟩, lists second) := by
    cases second <;> decide +kernel
  have hlocals : (World.run (increments lists) ⟨Metrics.new, fun _ ↦ 0⟩ schedule).map
      (fun world ↦ (world.locals false, world.locals true)) = some (6, 7) := by decide +kernel
  obtain ⟨world, hrun, hfinished⟩ := Option.map_eq_some_iff.mp hlocals
  obtain ⟨hfalse, htrue⟩ := Prod.mk.inj hfinished
  obtain ⟨_, htotals⟩ := lookup_accounting state _ _ _ _ lists hlookup (by decide +kernel)
    (by decide +kernel) schedule world hrun
  obtain ⟨hrequests, hhits, _⟩ := htotals fun second ↦ by cases second <;> assumption
  exact ⟨world, hrun, hrequests, hhits⟩

end JustKV
