import Mathlib.Algebra.BigOperators.Fin
import JustKV.Library.Checked
import JustKV.Library.Histogram
import JustKV.Server.Metrics

/-!
# Rendering the metrics

`render` loads every counter once and writes one exposition of the values it got.  The buckets are
stored disjoint and written as running sums.  After calls one at a time the running sums are the
cumulative distribution of the durations.
-/

open Checked Counters Histogram

namespace JustKV

/-- A line of the exposition. -/
inductive Line
  | help (name text : String)
  | type (name kind : String)
  /-- A sample; a bucket carries its bound in the label `le`. -/
  | sample (name : String) (le : Option String) (value : ℕ)
  /-- A sample given in nanoseconds and written in seconds. -/
  | seconds (name : String) (nanos : UInt64)
  deriving DecidableEq, Repr

/-- The text of a line; `showSeconds` divides by `1e9` and formats the quotient as an `f64`. -/
def Line.write (showSeconds : UInt64 → String) : Line → String
  | .help name text => "# HELP " ++ name ++ " " ++ text ++ "\n"
  | .type name kind => "# TYPE " ++ name ++ " " ++ kind ++ "\n"
  | .sample name none value => name ++ " " ++ toString value ++ "\n"
  | .sample name (some le) value => name ++ "\x7ble=\"" ++ le ++ "\"\x7d " ++ toString value ++ "\n"
  | .seconds name nanos => name ++ " " ++ showSeconds nanos ++ "\n"

def counterLines (name help : String) (value : UInt64) : List Line :=
  [.help name help, .type name "counter", .sample name none value.toNat]

def gaugeLines (name help : String) (value : UInt64) : List Line :=
  [.help name help, .type name "gauge", .sample name none value.toNat]

def durationName : String := "justkv_request_duration_seconds"

def bucketName : String := "justkv_request_duration_seconds_bucket"

def countName : String := "justkv_request_duration_seconds_count"

/-- The bounds of the buckets as they are written. -/
def bucketLabels : List String :=
  ["0.000025", "0.00005", "0.0001", "0.00025", "0.0005", "0.001", "0.0025", "0.005", "0.01", "0.025",
    "0.05", "0.1"]

/-- The lines of the bounded buckets and the sum so far; the sum is kept in a `u64`. -/
def bucketLines : ℕ → List (String × UInt64) → Run (List Line × ℕ)
  | cumulative, [] => pure ([], cumulative)
  | cumulative, (label, count) :: rest => do
    let cumulative ← add .w64 cumulative count.toNat
    let (lines, total) ← bucketLines cumulative rest
    pure (.sample bucketName (some label) cumulative :: lines, total)

/-- The lines in order, with the running sums of the buckets given. -/
def exposition (loaded : Metrics) (bounded : List Line) (cumulative : ℕ)
    (keys arenaBytes uptime : UInt64) : List Line :=
  counterLines "justkv_requests_total" "Total key lookups served." (loaded .requests) ++
  counterLines "justkv_hits_total" "Lookups that found a key." (loaded .hits) ++
  counterLines "justkv_misses_total"
    "Lookups with no matching key, including those served a default." (loaded .misses) ++
  counterLines "justkv_defaults_served_total" "Misses answered with the configured default value."
    (loaded .defaults) ++
  counterLines "justkv_response_bytes_total" "Value bytes written to clients." (loaded .bytes) ++
  [.help durationName "Lookup handling latency.", .type durationName "histogram"] ++
  bounded ++
  [.sample bucketName (some "+Inf") cumulative,
    .seconds "justkv_request_duration_seconds_sum" (loaded .sumNanos),
    .sample countName none (loaded .timed).toNat] ++
  gaugeLines "justkv_keys" "Keys loaded." keys ++
  gaugeLines "justkv_arena_bytes" "Bytes of key and value data held in memory." arenaBytes ++
  gaugeLines "justkv_uptime_seconds" "Seconds since the server finished loading." uptime

/-- The exposition of the loaded values. -/
def Metrics.render (loaded : Metrics) (keys arenaBytes uptime : UInt64) : Run (List Line) := do
  let (bounded, cumulative) ← bucketLines 0
    (bucketLabels.zip ((List.finRange 12).map fun i ↦ loaded (.bucket i.castSucc)))
  let cumulative ← add .w64 cumulative (loaded (.bucket 12)).toNat
  pure (exposition loaded bounded cumulative keys arenaBytes uptime)

/-- The order in which `render` loads the counters, one atomic load each. -/
def loadOrder : List Counter :=
  [.requests, .hits, .misses, .defaults, .bytes] ++ (List.finRange 13).map .bucket ++
    [.sumNanos, .timed]

/-! ## What an exposition says -/

/-- The samples of a metric with their labels, in order. -/
def series (name : String) (lines : List Line) : List (Option String × ℕ) :=
  lines.filterMap fun line ↦
    match line with
    | .sample name' le value => if name' = name then some (le, value) else none
    | _ => none

/-- The samples that are given in nanoseconds. -/
def nanosOf (lines : List Line) : List UInt64 :=
  lines.filterMap fun line ↦
    match line with
    | .seconds _ nanos => some nanos
    | _ => none

/-- The disjoint bucket counts. -/
def Metrics.bucketCounts (loaded : Metrics) : List ℕ :=
  (List.finRange 13).map fun i ↦ (loaded (.bucket i)).toNat

theorem sum_bucketCounts (loaded : Metrics) :
    loaded.bucketCounts.sum = ∑ i, (loaded (.bucket i)).toNat :=
  (Fin.sum_univ_def _).symm

/-- The exposition says what was loaded, with the buckets summed up. -/
structure Reports (lines : List Line) (loaded : Metrics) : Prop where
  requests : series "justkv_requests_total" lines = [(none, (loaded .requests).toNat)]
  hits : series "justkv_hits_total" lines = [(none, (loaded .hits).toNat)]
  misses : series "justkv_misses_total" lines = [(none, (loaded .misses).toNat)]
  defaults : series "justkv_defaults_served_total" lines = [(none, (loaded .defaults).toNat)]
  buckets : series bucketName lines =
    ((bucketLabels ++ ["+Inf"]).map some).zip (runningSums 0 loaded.bucketCounts)
  sum : nanosOf lines = [loaded .sumNanos]
  count : series countName lines = [(none, (loaded .timed).toNat)]

/-- The bounded buckets, then the one past the last bound. -/
theorem bucketCounts_eq (loaded : Metrics) : loaded.bucketCounts =
    ((List.finRange 12).map fun i ↦ (loaded (.bucket i.castSucc)).toNat) ++
      [(loaded (.bucket 12)).toNat] := by
  have hrange : List.finRange 13 = (List.finRange 12).map Fin.castSucc ++ [12] := by decide
  rw [Metrics.bucketCounts, hrange, List.map_append, List.map_map]
  rfl

section Series

variable (name : String) {other : String} (lines : List Line)

@[simp] theorem series_nil : series name [] = [] := rfl

@[simp] theorem series_append (left right : List Line) :
    series name (left ++ right) = series name left ++ series name right :=
  List.filterMap_append

@[simp] theorem series_sample (le : Option String) (value : ℕ) :
    series name (.sample other le value :: lines) =
      (if other = name then [(le, value)] else []) ++ series name lines := by
  by_cases hname : other = name <;> simp [series, hname]

@[simp] theorem series_seconds (nanos : UInt64) :
    series name (.seconds other nanos :: lines) = series name lines := rfl

@[simp] theorem series_help (text : String) :
    series name (.help other text :: lines) = series name lines := rfl

@[simp] theorem series_type (kind : String) :
    series name (.type other kind :: lines) = series name lines := rfl

/-- The lines of the bounded buckets. -/
def boundedLines (labels : List String) (sums : List ℕ) : List Line :=
  (labels.zip sums).map fun pair ↦ .sample bucketName (some pair.1) pair.2

@[simp] theorem series_boundedLines (labels : List String) (sums : List ℕ) :
    series name (boundedLines labels sums) =
      if bucketName = name then (labels.map some).zip sums else [] := by
  rw [boundedLines, List.zip_map_left]
  induction labels.zip sums with
  | nil => simp
  | cons pair pairs ih =>
    rw [List.map_cons, series_sample, ih]
    by_cases hname : bucketName = name <;> simp [hname, Prod.map]

end Series

@[simp] theorem nanosOf_append (left right : List Line) :
    nanosOf (left ++ right) = nanosOf left ++ nanosOf right :=
  List.filterMap_append

@[simp] theorem nanosOf_boundedLines (labels : List String) (sums : List ℕ) :
    nanosOf (boundedLines labels sums) = [] := by
  simp [nanosOf, boundedLines, List.filterMap_map]

/-- The exposition says what was loaded if its running sums are those of the buckets. -/
theorem reports_exposition {loaded : Metrics} {sums : List ℕ} {total : ℕ}
    (keys arenaBytes uptime : UInt64) (hlength : sums.length = bucketLabels.length)
    (hsums : runningSums 0 loaded.bucketCounts = sums ++ [total]) :
    Reports (exposition loaded (boundedLines bucketLabels sums) total keys arenaBytes uptime)
      loaded where
  requests := by simp [exposition, counterLines, gaugeLines, bucketName, countName]
  hits := by simp [exposition, counterLines, gaugeLines, bucketName, countName]
  misses := by simp [exposition, counterLines, gaugeLines, bucketName, countName]
  defaults := by simp [exposition, counterLines, gaugeLines, bucketName, countName]
  count := by simp [exposition, counterLines, gaugeLines, bucketName, countName]
  sum := by
    simp only [exposition, nanosOf_append, nanosOf_boundedLines]
    rfl
  buckets := by
    rw [hsums, List.map_append, List.zip_append (by simp [hlength])]
    simp [exposition, counterLines, gaugeLines, bucketName, countName]

theorem bytes_exposition (loaded : Metrics) (sums : List ℕ) (total : ℕ)
    (keys arenaBytes uptime : UInt64) :
    series "justkv_response_bytes_total"
        (exposition loaded (boundedLines bucketLabels sums) total keys arenaBytes uptime) =
      [(none, (loaded .bytes).toNat)] := by
  simp [exposition, counterLines, gaugeLines, bucketName, countName]

/-- The bucket samples are the running sums, so they never decrease. -/
theorem Reports.values {lines : List Line} {loaded : Metrics} (h : Reports lines loaded) :
    (series bucketName lines).map Prod.snd = runningSums 0 loaded.bucketCounts := by
  rw [h.buckets, List.map_snd_zip]
  simp [Metrics.bucketCounts, bucketLabels]

/-- The last bucket sample is the sum of all buckets. -/
theorem Reports.infinity {lines : List Line} {loaded : Metrics} (h : Reports lines loaded) :
    (series bucketName lines).getLast? = some (some "+Inf", loaded.bucketCounts.sum) := by
  have hlast : runningSums 0 loaded.bucketCounts =
      runningSums 0 ((List.finRange 12).map fun i ↦ (loaded (.bucket i.castSucc)).toNat) ++
        [loaded.bucketCounts.sum] := by
    rw [bucketCounts_eq, runningSums_append, List.sum_append, List.sum_singleton, Nat.zero_add]
  rw [h.buckets, hlast, List.map_append, List.zip_append (by simp [bucketLabels])]
  simp

theorem bucketLines_eq_ok {start : ℕ} {labels : List String} {counts : List UInt64}
    (hlength : labels.length = counts.length)
    (h : start + (counts.map UInt64.toNat).sum < 2 ^ 64) :
    bucketLines start (labels.zip counts) = .ok
      (boundedLines labels (runningSums start (counts.map UInt64.toNat)),
      start + (counts.map UInt64.toNat).sum) := by
  induction labels generalizing start counts with
  | nil =>
    obtain rfl := List.length_eq_zero_iff.mp hlength.symm
    rfl
  | cons label labels ih =>
    cases counts with
    | nil => simp at hlength
    | cons count counts =>
      rw [List.map_cons, List.sum_cons] at h
      have hadd : add .w64 start count.toNat = .ok (start + count.toNat) :=
        add_eq_ok (show start + count.toNat < 2 ^ 64 by omega)
      rw [List.zip_cons_cons, bucketLines, hadd, ok_bind, ih (by simpa using hlength) (by omega),
        ok_bind]
      simp [boundedLines, runningSums, Nat.add_assoc]

/-- Rendering writes the running sums of the buckets if the bucket counts fit in a word together. -/
theorem render_eq_exposition (loaded : Metrics) (h : loaded.bucketCounts.sum < 2 ^ 64)
    (keys arenaBytes uptime : UInt64) :
    ∃ sums total, sums.length = bucketLabels.length ∧
      runningSums 0 loaded.bucketCounts = sums ++ [total] ∧
      loaded.render keys arenaBytes uptime =
        .ok (exposition loaded (boundedLines bucketLabels sums) total keys arenaBytes uptime) := by
  have hsums := runningSums_append 0 ((List.finRange 12).map fun i ↦
    (loaded (.bucket i.castSucc)).toNat) (loaded (.bucket 12)).toNat
  rw [← bucketCounts_eq, Nat.zero_add] at hsums
  rw [bucketCounts_eq, List.sum_append, List.sum_singleton] at h
  have hcounts : ((List.finRange 12).map fun i ↦ loaded (.bucket i.castSucc)).map UInt64.toNat =
      (List.finRange 12).map fun i ↦ (loaded (.bucket i.castSucc)).toNat := List.map_map
  have hlabels : bucketLabels.length =
      ((List.finRange 12).map fun i ↦ loaded (.bucket i.castSucc)).length := by simp [bucketLabels]
  have hsum : 0 + (((List.finRange 12).map fun i ↦ loaded (.bucket i.castSucc)).map
      UInt64.toNat).sum < 2 ^ 64 := by
    rw [hcounts]
    omega
  have hbounded := bucketLines_eq_ok hlabels hsum
  rw [hcounts, Nat.zero_add] at hbounded
  have hadd : add .w64 ((List.finRange 12).map fun i ↦ (loaded (.bucket i.castSucc)).toNat).sum
      (loaded (.bucket 12)).toNat = .ok _ := add_eq_ok h
  refine ⟨_, _, by simp [bucketLabels], hsums, ?_⟩
  rw [Metrics.render, hbounded, ok_bind]
  simp only [hadd, ok_bind, pure_eq_ok]

/-- Rendering never overflows its running sum if the bucket counts fit in a word together. -/
theorem render_eq_ok (loaded : Metrics) (h : loaded.bucketCounts.sum < 2 ^ 64)
    (keys arenaBytes uptime : UInt64) :
    ∃ lines, loaded.render keys arenaBytes uptime = .ok lines ∧ Reports lines loaded := by
  obtain ⟨sums, total, hlength, hsums, hrender⟩ :=
    render_eq_exposition loaded h keys arenaBytes uptime
  exact ⟨_, hrender, reports_exposition keys arenaBytes uptime hlength hsums⟩

end JustKV
