import Mathlib.Data.Fintype.Sum
import JustKV.Server.Scrape

/-!
# One scrape after another

Several `render` calls load the counters while `record` calls add to them.  A scrape that starts
after another has finished loads every counter after the other did, so no counter goes backwards
from one exposition to the next.  A cumulative bucket belongs to no single moment, but it is a sum
of loads each of which has a later counterpart.
-/

open Checked Counters Histogram Interleaving

namespace JustKV

variable {ι ρ : Type}

/-- Calls of `record` and calls of `render`. -/
def scrapes (calls : ι → Call) : ι ⊕ ρ → List (Access Counter)
  | .inl i => (calls i).increments.map .add
  | .inr _ => loadOrder.map .load

/-- The values that one of the calls of `render` has loaded. -/
def valuesOf (scrape : ρ) (world : World (ι ⊕ ρ) Metrics (Progress Counter)) : Metrics :=
  (world.locals (.inr scrape)).loaded

/-- The metric has one sample in each exposition, and its value did not go backwards. -/
def Grows (name : String) (earlier later : List Line) : Prop :=
  ∃ before after, series name earlier = [(none, before)] ∧ series name later = [(none, after)] ∧
    before ≤ after

/-- No counter, no bucket and no sum went backwards from the earlier exposition to the later. -/
structure NotReset (earlier later : List Line) : Prop where
  requests : Grows "justkv_requests_total" earlier later
  hits : Grows "justkv_hits_total" earlier later
  misses : Grows "justkv_misses_total" earlier later
  defaults : Grows "justkv_defaults_served_total" earlier later
  bytes : Grows "justkv_response_bytes_total" earlier later
  buckets : ∃ before after,
    series bucketName earlier = ((bucketLabels ++ ["+Inf"]).map some).zip before ∧
    series bucketName later = ((bucketLabels ++ ["+Inf"]).map some).zip after ∧
    before.length = 13 ∧ List.Forall₂ (· ≤ ·) before after
  nanos : ∃ before after, nanosOf earlier = [before] ∧ nanosOf later = [after] ∧ before ≤ after
  count : Grows countName earlier later

/-- Expositions of values of which none went backwards. -/
theorem notReset_of_le {before after : Metrics}
    (hle : ∀ cell, (before cell).toNat ≤ (after cell).toNat)
    (hfits : after.bucketCounts.sum < 2 ^ 64)
    (keys arenaBytes uptime keys' arenaBytes' uptime' : UInt64) :
    ∃ earlier later, before.render keys arenaBytes uptime = .ok earlier ∧
      after.render keys' arenaBytes' uptime' = .ok later ∧ NotReset earlier later := by
  have hcounts : List.Forall₂ (· ≤ ·) before.bucketCounts after.bucketCounts := by
    rw [Metrics.bucketCounts, Metrics.bucketCounts, List.forall₂_map_left_iff,
      List.forall₂_map_right_iff]
    exact List.forall₂_same.mpr fun i _ ↦ hle (.bucket i)
  have hfits' : before.bucketCounts.sum < 2 ^ 64 := hcounts.sum_le_sum.trans_lt hfits
  obtain ⟨sums, total, hlength, hsums, hrender⟩ :=
    render_eq_exposition before hfits' keys arenaBytes uptime
  obtain ⟨sums', total', hlength', hsums', hrender'⟩ :=
    render_eq_exposition after hfits keys' arenaBytes' uptime'
  have hreports := reports_exposition keys arenaBytes uptime hlength hsums
  have hreports' := reports_exposition keys' arenaBytes' uptime' hlength' hsums'
  exact ⟨_, _, hrender, hrender', {
    requests := ⟨_, _, hreports.requests, hreports'.requests, hle .requests⟩
    hits := ⟨_, _, hreports.hits, hreports'.hits, hle .hits⟩
    misses := ⟨_, _, hreports.misses, hreports'.misses, hle .misses⟩
    defaults := ⟨_, _, hreports.defaults, hreports'.defaults, hle .defaults⟩
    bytes := ⟨_, _, bytes_exposition before sums total keys arenaBytes uptime,
      bytes_exposition after sums' total' keys' arenaBytes' uptime', hle .bytes⟩
    buckets := ⟨_, _, hreports.buckets, hreports'.buckets, by simp [Metrics.bucketCounts],
      runningSums_le le_rfl hcounts⟩
    nanos := ⟨_, _, hreports.sum, hreports'.sum, hle .sumNanos⟩
    count := ⟨_, _, hreports.count, hreports'.count, hle .timed⟩ }⟩

section Totals

variable [Fintype ι] [Fintype ρ] {calls : ι → Call}

theorem sum_additions_scrapes (cell : Counter) :
    ∑ i : ι ⊕ ρ, added cell (additions (scrapes calls i)) =
      ∑ i, added cell (calls i).increments := by
  rw [Fintype.sum_sum_type]
  simp only [scrapes, additions_map_add, additions_map_load, added_nil, Finset.sum_const_zero,
    Nat.add_zero]

variable [DecidableEq ι] [DecidableEq ρ] {middle stop : World (ι ⊕ ρ) Metrics (Progress Counter)}

/-- A scrape that starts after another has finished gets no smaller value from any counter. -/
theorem valuesOf_le (htotals : ∀ cell, ∑ i, added cell (calls i).increments < 2 ^ 64)
    {earlier later : ρ} (hbefore : Reaches (accesses (scrapes calls)) unobserved middle)
    (hafter : Reaches (accesses (scrapes calls)) middle stop)
    (hfinished : (middle.locals (.inr earlier)).performed = loadOrder.length)
    (hidle : (middle.locals (.inr later)).performed = 0)
    (hdone : (stop.locals (.inr later)).performed = loadOrder.length) (cell : Counter) :
    (valuesOf earlier middle cell).toNat ≤ (valuesOf later stop cell).toNat := by
  have htotal : ∑ i : ι ⊕ ρ, added cell (additions (scrapes calls i)) < 2 ^ 64 := by
    rw [sum_additions_scrapes]
    exact htotals cell
  exact loaded_le_loaded hbefore hafter htotal (load_mem_take hfinished cell) hidle
    (load_mem_take hdone cell)

/-- The buckets that a scrape loads fit in a word together, since every call is in one of them. -/
theorem sum_valuesOf_lt (htotals : ∀ cell, ∑ i, added cell (calls i).increments < 2 ^ 64)
    (hreach : Reaches (accesses (scrapes calls)) unobserved stop) {scrape : ρ}
    (hdone : (stop.locals (.inr scrape)).performed = loadOrder.length) :
    (valuesOf scrape stop).bucketCounts.sum < 2 ^ 64 := by
  have hbucket (b : Fin 13) : (valuesOf scrape stop (.bucket b)).toNat ≤
      ∑ i, added (.bucket b) (calls i).increments := by
    have htotal : ∑ i : ι ⊕ ρ, added (.bucket b) (additions (scrapes calls i)) < 2 ^ 64 := by
      rw [sum_additions_scrapes]
      exact htotals (.bucket b)
    calc
      _ ≤ (stop.shared (.bucket b)).toNat :=
        (loaded_between (Reaches.refl _ _) hreach htotal rfl (load_mem_take hdone _)).2
      _ ≤ ∑ i : ι ⊕ ρ, added (.bucket b) (additions (scrapes calls i)) := by
        rw [toNat_observed hreach htotal]
        exact tally_le _ _ _
      _ = ∑ i, added (.bucket b) (calls i).increments := sum_additions_scrapes _
  calc
    _ = ∑ b, (valuesOf scrape stop (.bucket b)).toNat := sum_bucketCounts _
    _ ≤ ∑ b, ∑ i, added (.bucket b) (calls i).increments :=
      Finset.sum_le_sum fun b _ ↦ hbucket b
    _ = ∑ i, added .timed (calls i).increments := sum_total_bucket fun i ↦ rfl
    _ < 2 ^ 64 := htotals .timed

end Totals

/-- No counter goes backwards from one scrape to a later one, also when calls are in progress at
both. -/
theorem scrapes_monotone [Fintype ι] [DecidableEq ι] [Fintype ρ] [DecidableEq ρ] (calls : ι → Call)
    (htotals : ∀ cell, ∑ i, added cell (calls i).increments < 2 ^ 64) (earlier later : ρ)
    (middle stop : World (ι ⊕ ρ) Metrics (Progress Counter))
    (hbefore : Reaches (accesses (scrapes calls)) unobserved middle)
    (hafter : Reaches (accesses (scrapes calls)) middle stop)
    (hfinished : (middle.locals (.inr earlier)).performed = loadOrder.length)
    (hidle : (middle.locals (.inr later)).performed = 0)
    (hdone : (stop.locals (.inr later)).performed = loadOrder.length)
    (keys arenaBytes uptime keys' arenaBytes' uptime' : UInt64) :
    ∃ lines lines', (valuesOf earlier middle).render keys arenaBytes uptime = .ok lines ∧
      (valuesOf later stop).render keys' arenaBytes' uptime' = .ok lines' ∧
      NotReset lines lines' := by
  have hle := valuesOf_le htotals hbefore hafter hfinished hidle hdone
  have hfits := sum_valuesOf_lt htotals (hbefore.trans hafter) hdone
  exact notReset_of_le hle hfits keys arenaBytes uptime keys' arenaBytes' uptime'

/-- A call that has counted its request at the first scrape and its bucket at the second. -/
theorem scrapes_monotone_in_progress :
    let calls : Fin 1 → Call := fun _ ↦ ⟨.hit, 5, some 1⟩
    let call (count : ℕ) : List ((Fin 1 ⊕ Fin 2) × Unit) := List.replicate count (.inl 0, ())
    let scrape (i : Fin 2) : List ((Fin 1 ⊕ Fin 2) × Unit) := List.replicate 20 (.inr i, ())
    ∃ middle stop,
      World.run (accesses (scrapes calls)) unobserved (call 1 ++ scrape 0) = some middle ∧
      World.run (accesses (scrapes calls)) middle (call 3 ++ scrape 1) = some stop ∧
      ∃ lines lines', (valuesOf 0 middle).render 1 6 0 = .ok lines ∧
        (valuesOf 1 stop).render 1 6 1 = .ok lines' ∧ NotReset lines lines' := by
  intro calls call scrape
  have hprogress : (World.run (accesses (scrapes calls)) unobserved (call 1 ++ scrape 0)).bind
      (fun middle ↦ (World.run (accesses (scrapes calls)) middle (call 3 ++ scrape 1)).map fun stop ↦
        ((middle.locals (.inr 0)).performed, (middle.locals (.inr 1)).performed,
          (stop.locals (.inr 1)).performed)) = some (20, 0, 20) := by decide +kernel
  obtain ⟨middle, hmiddle, hrest⟩ := Option.bind_eq_some_iff.mp hprogress
  obtain ⟨stop, hstop, hperformed⟩ := Option.map_eq_some_iff.mp hrest
  simp only [Prod.mk.injEq] at hperformed
  obtain ⟨hfinished, hidle, hdone⟩ := hperformed
  have htotals (cell : Counter) : ∑ i, added cell (calls i).increments < 2 ^ 64 := by
    cases cell with
    | bucket b =>
      revert b
      decide
    | _ => decide
  exact ⟨middle, stop, hmiddle, hstop, scrapes_monotone calls htotals 0 1 middle stop ⟨_, hmiddle⟩
    ⟨_, hstop⟩ hfinished hidle hdone 1 6 0 1 6 1⟩

end JustKV
