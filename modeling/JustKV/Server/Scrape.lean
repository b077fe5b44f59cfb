import Mathlib.Data.Fintype.BigOperators
import JustKV.Library.Observers
import JustKV.Server.Accounting
import JustKV.Server.Histogram

/-!
# A scrape among moving counters

`render` loads the counters one after another while `record` calls keep adding to them, so what it
writes belongs to no single moment.  Every value lies between the counter's values at the start and
at the end of the scrape; the relations between the counters hold up to what was counted meanwhile.
-/

open Checked Counters Histogram Interleaving

namespace JustKV

variable {ι : Type}

/-- Calls of `record`, one for each index, and one call of `render`. -/
def scraped (calls : ι → Call) : Option ι → List (Access Counter)
  | some i => (calls i).increments.map .add
  | none => loadOrder.map .load

theorem additions_map_add {κ : Type} (list : List (Increment κ)) :
    additions (list.map .add) = list := by
  rw [additions, List.filterMap_map]
  exact List.filterMap_some

theorem additions_map_load {κ : Type} (cells : List κ) : additions (cells.map .load) = [] := by
  rw [additions, List.filterMap_map]
  exact List.filterMap_none cells

/-- Every counter is loaded. -/
theorem mem_loadOrder (cell : Counter) : cell ∈ loadOrder := by
  cases cell with
  | bucket i => simp [loadOrder]
  | _ => decide

/-- A call of `render` that has finished has loaded every counter. -/
theorem load_mem_take {performed : ℕ} (hfinished : performed = loadOrder.length) (cell : Counter) :
    .load cell ∈ (loadOrder.map Access.load).take performed := by
  rw [hfinished, ← List.length_map, List.take_length]
  exact List.mem_map_of_mem (mem_loadOrder cell)

variable [Fintype ι] {calls : ι → Call}

theorem sum_additions_scraped (cell : Counter) :
    ∑ i, added cell (additions (scraped calls i)) = ∑ i, added cell (calls i).increments := by
  rw [Fintype.sum_option]
  simp only [scraped, additions_map_add, additions_map_load, added_nil, Nat.zero_add]

/-- The increments that the calls have performed. -/
def performed (world : World (Option ι) Metrics (Progress Counter)) (i : ι) : ℕ :=
  (world.locals (some i)).performed

/-- The counters hold what the calls have counted, and nothing of the scrape. -/
theorem tally_scraped (world : World (Option ι) Metrics (Progress Counter)) (cell : Counter) :
    tally (fun i ↦ additions (scraped calls i)) (withoutLoads (scraped calls) world).locals cell =
      tally (fun i ↦ (calls i).increments) (performed world) cell := by
  calc
    _ = ∑ i, added cell (additions ((scraped calls i).take (world.locals i).performed)) :=
      Finset.sum_congr rfl fun i _ ↦ congrArg (added cell) (additions_take _ _).symm
    _ = ∑ i, added cell (additions ((scraped calls (some i)).take (performed world i))) := by
      rw [Fintype.sum_option, scraped, ← List.map_take, additions_map_load, added_nil,
        Nat.zero_add]
      rfl
    _ = tally (fun i ↦ (calls i).increments) (performed world) cell := by
      apply Finset.sum_congr rfl
      intro i _
      rw [scraped, ← List.map_take, additions_map_add]

/-- The values that the call of `render` has loaded. -/
def loadedValues (world : World (Option ι) Metrics (Progress Counter)) : Metrics :=
  (world.locals none).loaded

/-- The calls that have started and not finished. -/
def inProgress (calls : ι → Call) (world : World (Option ι) Metrics (Progress Counter)) : ℕ :=
  (Finset.univ.filter fun i ↦
    0 < performed world i ∧ performed world i < (calls i).increments.length).card

/-- What holds between the counters at every moment. -/
structure Related (calls : ι → Call) (world : World (Option ι) Metrics (Progress Counter)) :
    Prop where
  requests : (world.shared .hits).toNat + (world.shared .misses).toNat ≤
    (world.shared .requests).toNat
  misses : (world.shared .defaults).toNat ≤ (world.shared .misses).toNat
  buckets : (world.shared .timed).toNat ≤ ∑ b, (world.shared (.bucket b)).toNat
  timed : ∑ b, (world.shared (.bucket b)).toNat ≤
    (world.shared .timed).toNat + inProgress calls world
  fits : ∑ b, (world.shared (.bucket b)).toNat < 2 ^ 64

section Moment

variable (hcount : Fintype.card ι < 2 ^ 64)

include hcount

theorem total_lt {cell : Counter} (hbytes : cell ≠ .bytes) (hnanos : cell ≠ .sumNanos) :
    ∑ i, added cell (additions (scraped calls i)) < 2 ^ 64 := by
  rw [sum_additions_scraped]
  exact (total_le_card (fun i ↦ rfl) hbytes hnanos).trans_lt hcount

variable [DecidableEq ι] {world : World (Option ι) Metrics (Progress Counter)}
  (hreach : Reaches (accesses (scraped calls)) unobserved world)

include hreach

/-- Apart from `bytes` and `sumNanos` the counters are what the calls have counted. -/
theorem toNat_scraped {cell : Counter} (hbytes : cell ≠ .bytes) (hnanos : cell ≠ .sumNanos) :
    (world.shared cell).toNat = tally (fun i ↦ (calls i).increments) (performed world) cell := by
  rw [toNat_observed hreach (total_lt hcount hbytes hnanos), tally_scraped]

theorem related_of_reaches : Related calls world := by
  have hcounter (cell : Counter) (hbytes : cell ≠ .bytes) (hnanos : cell ≠ .sumNanos) :=
    toNat_scraped hcount hreach hbytes hnanos
  have hlists (i : ι) : (calls i).increments =
    record (calls i).outcome (calls i).bytes (calls i).elapsed := rfl
  have hbuckets : ∑ b, (world.shared (.bucket b)).toNat =
      ∑ b, tally (fun i ↦ (calls i).increments) (performed world) (.bucket b) :=
    Finset.sum_congr rfl fun b _ ↦ hcounter (.bucket b) Counter.noConfusion Counter.noConfusion
  constructor
  · rw [hcounter .hits (by decide) (by decide), hcounter .misses (by decide) (by decide),
      hcounter .requests (by decide) (by decide)]
    exact tally_hits_add_misses_le hlists
  · rw [hcounter .defaults (by decide) (by decide), hcounter .misses (by decide) (by decide)]
    exact tally_defaults_le hlists
  · rw [hcounter .timed (by decide) (by decide), hbuckets]
    exact tally_timed_le hlists
  · rw [hcounter .timed (by decide) (by decide), hbuckets]
    exact sum_tally_bucket_le hlists
  · rw [hbuckets]
    exact (sum_tally_bucket_le_card hlists).trans_lt hcount

end Moment

/-! ## One scrape -/

/-- What Prometheus requires of one exposition. -/
structure SelfConsistent (lines : List Line) : Prop where
  infinity : ∀ value, (some "+Inf", value) ∈ series bucketName lines →
    series countName lines = [(none, value)]
  cumulative : ((series bucketName lines).map Prod.snd).Pairwise (· ≤ ·)
  requests : ∀ requests hits misses,
    series "justkv_requests_total" lines = [(none, requests)] →
    series "justkv_hits_total" lines = [(none, hits)] →
    series "justkv_misses_total" lines = [(none, misses)] → hits + misses ≤ requests
  misses : ∀ misses defaults, series "justkv_misses_total" lines = [(none, misses)] →
    series "justkv_defaults_served_total" lines = [(none, defaults)] → defaults ≤ misses

/-- Calls that finish between two loads are seen by the later one only. -/
theorem scrape_not_consistent :
    let calls : Fin 3 → Call := fun _ ↦ ⟨.default, 0, some 1⟩
    let call (i : Fin 3) : List (Option (Fin 3) × Unit) := List.replicate 7 (some i, ())
    let loads (count : ℕ) : List (Option (Fin 3) × Unit) := List.replicate count (none, ())
    ∃ world, World.run (accesses (scraped calls)) unobserved
        (loads 1 ++ call 0 ++ loads 2 ++ call 1 ++ loads 16 ++ call 2 ++ loads 1) = some world ∧
      (world.locals none).performed = loadOrder.length ∧
      ∃ lines, (loadedValues world).render 0 0 0 = .ok lines ∧
        series "justkv_requests_total" lines = [(none, 0)] ∧
        series "justkv_misses_total" lines = [(none, 1)] ∧
        series "justkv_defaults_served_total" lines = [(none, 2)] ∧
        (series bucketName lines).getLast? = some (some "+Inf", 2) ∧
        series countName lines = [(none, 3)] ∧ ¬SelfConsistent lines := by
  intro calls call loads
  have hvalues : (World.run (accesses (scraped calls)) unobserved
      (loads 1 ++ call 0 ++ loads 2 ++ call 1 ++ loads 16 ++ call 2 ++ loads 1)).map (fun world ↦
        ((world.locals none).performed, (loadedValues world).bucketCounts.sum,
          [Counter.requests, .misses, .defaults, .timed].map fun cell ↦
            (loadedValues world cell).toNat)) = some (20, 2, [0, 1, 2, 3]) := by
    decide +kernel
  obtain ⟨world, hrun, hloaded⟩ := Option.map_eq_some_iff.mp hvalues
  simp only [List.map_cons, List.map_nil, Prod.mk.injEq, List.cons.injEq, and_true] at hloaded
  obtain ⟨hdone, hbuckets, hrequests, hmisses, hdefaults, htimed⟩ := hloaded
  obtain ⟨lines, hrender, hreports⟩ := render_eq_ok (loadedValues world) (by omega) 0 0 0
  have hcount := hreports.count
  have hlast := hreports.infinity
  rw [htimed] at hcount
  rw [hbuckets] at hlast
  refine ⟨world, hrun, hdone, lines, hrender, hrequests ▸ hreports.requests, hmisses ▸ hreports.misses,
    hdefaults ▸ hreports.defaults, hlast, hcount, fun hconsistent ↦ ?_⟩
  have hequal := hconsistent.infinity 2 (List.mem_of_getLast? hlast)
  simp [hcount] at hequal

/-- By how much a counter has moved. -/
def moved (start stop : World (Option ι) Metrics (Progress Counter)) (cell : Counter) : ℕ :=
  (stop.shared cell).toNat - (start.shared cell).toNat

omit [Fintype ι] in
theorem toNat_le_add_moved (start stop : World (Option ι) Metrics (Progress Counter))
    (cell : Counter) :
    (stop.shared cell).toNat ≤ (start.shared cell).toNat + moved start stop cell := by
  rw [moved]
  omega

section Between

variable [DecidableEq ι] (hcount : Fintype.card ι < 2 ^ 64)
  {start stop : World (Option ι) Metrics (Progress Counter)}
  (hstart : Reaches (accesses (scraped calls)) unobserved start)
  (hscrape : Reaches (accesses (scraped calls)) start stop)
  (hidle : (start.locals none).performed = 0)
  (hdone : (stop.locals none).performed = loadOrder.length)

include hcount hstart hscrape hidle hdone

/-- A finished scrape has loaded values between those at its start and at its end. -/
theorem loadedValues_between {cell : Counter} (hbytes : cell ≠ .bytes) (hnanos : cell ≠ .sumNanos) :
    (start.shared cell).toNat ≤ (loadedValues stop cell).toNat ∧
      (loadedValues stop cell).toNat ≤ (stop.shared cell).toNat := by
  have htotal : ∑ i, added cell (additions (scraped calls i)) < 2 ^ 64 :=
    total_lt hcount hbytes hnanos
  exact loaded_between hstart hscrape htotal hidle (load_mem_take hdone cell)

/-- The buckets taken together lie between the same bounds. -/
theorem sum_bucketCounts_between :
    ∑ b, (start.shared (.bucket b)).toNat ≤ (loadedValues stop).bucketCounts.sum ∧
      (loadedValues stop).bucketCounts.sum ≤ ∑ b, (stop.shared (.bucket b)).toNat := by
  have hbucket (b : Fin 13) :
      (start.shared (.bucket b)).toNat ≤ (loadedValues stop (.bucket b)).toNat ∧
      (loadedValues stop (.bucket b)).toNat ≤ (stop.shared (.bucket b)).toNat :=
    loadedValues_between hcount hstart hscrape hidle hdone Counter.noConfusion Counter.noConfusion
  rw [sum_bucketCounts]
  exact ⟨Finset.sum_le_sum fun b _ ↦ (hbucket b).1, Finset.sum_le_sum fun b _ ↦ (hbucket b).2⟩

end Between

omit [Fintype ι] in
/-- The last load is that of `timed`, so a scrape ends with the value that this counter has then. -/
theorem loadedValues_timed [DecidableEq ι]
    {last stop : World (Option ι) Metrics (Progress Counter)}
    (hlast : last.step (accesses (scraped calls)) (none, ()) = some stop)
    (hdone : (stop.locals none).performed = loadOrder.length) :
    loadedValues stop .timed = stop.shared .timed := by
  have hperformed := performed_of_step hlast
  have htimed : (scraped calls none)[(last.locals none).performed]? = some (.load .timed) := by
    have hnineteen : (last.locals none).performed = 19 := by
      rw [hdone] at hperformed
      exact (Nat.succ.inj hperformed).symm
    rw [hnineteen]
    rfl
  exact loaded_of_step htimed hlast

/-- A scrape is consistent up to what the calls have counted between its start and its last load:
the bucket values never decrease, the relations between the earlier counters are exact if nothing
was counted meanwhile, and the buckets exceed the count by no more than the calls that are in
progress at the last load. -/
theorem scrape_bounds [DecidableEq ι] (calls : ι → Call) (hcount : Fintype.card ι < 2 ^ 64)
    (start last stop : World (Option ι) Metrics (Progress Counter))
    (hstart : Reaches (accesses (scraped calls)) unobserved start)
    (hidle : (start.locals none).performed = 0)
    (hscrape : Reaches (accesses (scraped calls)) start last)
    (hlast : last.step (accesses (scraped calls)) (none, ()) = some stop)
    (hdone : (stop.locals none).performed = loadOrder.length) (keys arenaBytes uptime : UInt64) :
    ∃ lines requests hits misses defaults infinity count,
      (loadedValues stop).render keys arenaBytes uptime = .ok lines ∧
      series "justkv_requests_total" lines = [(none, requests)] ∧
      series "justkv_hits_total" lines = [(none, hits)] ∧
      series "justkv_misses_total" lines = [(none, misses)] ∧
      series "justkv_defaults_served_total" lines = [(none, defaults)] ∧
      (series bucketName lines).getLast? = some (some "+Inf", infinity) ∧
      series countName lines = [(none, count)] ∧
      ((series bucketName lines).map Prod.snd).Pairwise (· ≤ ·) ∧
      hits + misses ≤ requests + moved start stop .requests ∧
      defaults ≤ misses + moved start stop .misses ∧
      count ≤ infinity + ∑ b, moved start stop (.bucket b) ∧
      infinity ≤ count + inProgress calls stop := by
  have hwhole := hscrape.step hlast
  have hstop := hstart.trans hwhole
  have hbetween (cell : Counter) (hbytes : cell ≠ .bytes) (hnanos : cell ≠ .sumNanos) :=
    loadedValues_between hcount hstart hwhole hidle hdone hbytes hnanos
  obtain ⟨hsumStart, hsumStop⟩ := sum_bucketCounts_between hcount hstart hwhole hidle hdone
  have hmoved : ∑ b, (stop.shared (.bucket b)).toNat ≤
      ∑ b, (start.shared (.bucket b)).toNat + ∑ b, moved start stop (.bucket b) := by
    rw [← Finset.sum_add_distrib]
    exact Finset.sum_le_sum fun b _ ↦ toNat_le_add_moved start stop (.bucket b)
  obtain ⟨hrequests, hmisses, hbuckets, htimed, hfits⟩ := related_of_reaches hcount hstop
  obtain ⟨lines, hrender, hreports⟩ :=
    render_eq_ok (loadedValues stop) (hsumStop.trans_lt hfits) keys arenaBytes uptime
  have hloadedRequests := hbetween .requests (by decide) (by decide)
  have hloadedHits := hbetween .hits (by decide) (by decide)
  have hloadedMisses := hbetween .misses (by decide) (by decide)
  have hloadedDefaults := hbetween .defaults (by decide) (by decide)
  have hloadedTimed := loadedValues_timed hlast hdone
  refine ⟨lines, _, _, _, _, _, _, hrender, hreports.requests, hreports.hits, hreports.misses,
    hreports.defaults, hreports.infinity, hreports.count, ?_, ?_, ?_, ?_, ?_⟩
  · rw [hreports.values]
    exact pairwise_runningSums _ _
  · have hmovedRequests := toNat_le_add_moved start stop .requests
    omega
  · have hmovedMisses := toNat_le_add_moved start stop .misses
    omega
  · calc (loadedValues stop .timed).toNat
      _ = (stop.shared .timed).toNat := by rw [hloadedTimed]
      _ ≤ ∑ b, (stop.shared (.bucket b)).toNat := hbuckets
      _ ≤ ∑ b, (start.shared (.bucket b)).toNat + ∑ b, moved start stop (.bucket b) := hmoved
      _ ≤ _ := Nat.add_le_add_right hsumStart _
  · calc (loadedValues stop).bucketCounts.sum
      _ ≤ ∑ b, (stop.shared (.bucket b)).toNat := hsumStop
      _ ≤ (stop.shared .timed).toNat + inProgress calls stop := htimed
      _ = _ := by rw [hloadedTimed]

/-- One call that starts after the first load and is in progress at the last one. -/
theorem scrape_bounds_in_progress :
    let calls : Fin 1 → Call := fun _ ↦ ⟨.hit, 5, some 1⟩
    let schedule : List (Option (Fin 1) × Unit) :=
      [(none, ())] ++ List.replicate 4 (some 0, ()) ++ List.replicate 18 (none, ())
    ∃ last stop, World.run (accesses (scraped calls)) unobserved schedule = some last ∧
      last.step (accesses (scraped calls)) (none, ()) = some stop ∧
      ∃ lines infinity count, (loadedValues stop).render 1 6 0 = .ok lines ∧
        (series bucketName lines).getLast? = some (some "+Inf", infinity) ∧
        series countName lines = [(none, count)] ∧
        infinity ≤ count + inProgress calls stop := by
  intro calls schedule
  have hfinished : ((World.run (accesses (scraped calls)) unobserved schedule).bind fun last ↦
      last.step (accesses (scraped calls)) (none, ())).map (fun world ↦
        (world.locals none).performed) = some 20 := by decide +kernel
  obtain ⟨stop, hrun, hdone⟩ := Option.map_eq_some_iff.mp hfinished
  obtain ⟨last, hbefore, hlast⟩ := Option.bind_eq_some_iff.mp hrun
  obtain ⟨lines, _, _, _, _, infinity, count, hrender, _, _, _, _, hinfinity, hcount, _, _, _, _,
    hle⟩ := scrape_bounds calls (by decide) unobserved last stop (Reaches.refl _ _) rfl
      ⟨schedule, hbefore⟩ hlast hdone 1 6 0
  exact ⟨last, stop, hbefore, hlast, lines, infinity, count, hrender, hinfinity, hcount, hle⟩

end JustKV
