import JustKV.Server.Router
import JustKV.Server.Scrape

/-!
# Traffic

Requests of all kinds run at the same time: lookups by either form, scrapes, requests that no
handler takes.  Only lookups are counted, each by what its client was sent, and every scrape reports
at least the lookups that were over when it began and at most those that had begun when it ended.
-/

open Checked Counters HashTable Interleaving PercentEncoding Utf8

namespace JustKV

/-- The request looks up a key with this property. -/
def Request.LooksUp (framework : Framework) (request : Request) (property : Bytes → Prop) : Prop :=
  ∃ key, request.key framework = some key ∧ property key

instance (framework : Framework) (request : Request) (property : Bytes → Prop)
    [DecidablePred property] : Decidable (request.LooksUp framework property) :=
  match h : request.key framework with
  | none => .isFalse fun ⟨_, hkey, _⟩ ↦ by simp [h] at hkey
  | some key => decidable_of_iff (property key) ⟨fun hproperty ↦ ⟨key, h, hproperty⟩,
      fun ⟨_, hkey, hproperty⟩ ↦ Option.some.inj (h.symm.trans hkey) ▸ hproperty⟩

/-- The length of the body that a client is sent for a lookup. -/
def sentBytes (request : Request) : Plan → ℕ
  | .answer response _ => (request.sent response).body.length
  | .scrape => 0

section Plans

variable {framework : Framework} {service : Service} {request : Request} {elapsed uptime : ℕ}
  {plan : Plan} (hplan : request.plan framework service elapsed uptime = .ok plan)

theorem additions_accesses (plan : Plan) : additions plan.accesses =
    match plan with
    | .answer _ increments => increments
    | .scrape => [] := by
  cases plan with
  | answer response increments => exact additions_map_add increments
  | scrape => exact additions_map_load loadOrder

include hplan

/-- A request that looks up a key adds what `record` adds for it, and the others add nothing. -/
theorem additions_plan :
    (∃ key, request.key framework = some key ∧
      additions plan.accesses = record (service.outcome key) (sentBytes request plan)
        (if service.timing then some elapsed else none)) ∨
    request.key framework = none ∧ additions plan.accesses = [] := by
  rcases plan_cases framework service request elapsed uptime with
    ⟨key, method, response, increments, hkey, hmethod, hlookup, hanswer⟩ |
    ⟨hkey, ⟨response, hanswer⟩ | hscrape⟩
  · left
    obtain rfl : Plan.answer response increments = plan := Except.ok.inj (hanswer.symm.trans hplan)
    refine ⟨key, hkey, ?_⟩
    rw [additions_accesses, record_of_lookup hlookup]
    have hsent : method.counted response = (request.sent response).body.length := by
      rw [Request.sent, hmethod]
      cases method <;> rfl
    rw [hsent]
    rfl
  · obtain rfl : Plan.answer response [] = plan := Except.ok.inj (hanswer.symm.trans hplan)
    exact Or.inr ⟨hkey, rfl⟩
  · obtain rfl : Plan.scrape = plan := Except.ok.inj (hscrape.symm.trans hplan)
    exact Or.inr ⟨hkey, additions_accesses .scrape⟩

/-- A counter that gets one from every lookup of a key with a property gets one from the requests
that look up such a key. -/
theorem added_plan {cell : Counter} {property : Bytes → Prop} [DecidablePred property]
    (hcell : ∀ key bytes time, added cell (record (service.outcome key) bytes time) =
      if property key then 1 else 0) :
    added cell (additions plan.accesses) = if request.LooksUp framework property then 1 else 0 := by
  rcases additions_plan hplan with ⟨key, hkey, hadditions⟩ | ⟨hkey, hadditions⟩
  · have hlooks : request.LooksUp framework property ↔ property key := by
      simp [Request.LooksUp, hkey]
    rw [hadditions, hcell]
    simp only [hlooks]
  · have hlooks : ¬request.LooksUp framework property := by simp [Request.LooksUp, hkey]
    rw [hadditions, added_nil, if_neg hlooks]

theorem added_bytes_plan : added .bytes (additions plan.accesses) =
    if request.LooksUp framework (fun _ ↦ True) then sentBytes request plan else 0 := by
  rcases additions_plan hplan with ⟨key, hkey, hadditions⟩ | ⟨hkey, hadditions⟩
  · have hlooks : request.LooksUp framework fun _ ↦ True := ⟨key, hkey, trivial⟩
    rw [hadditions, added_bytes, if_pos hlooks]
  · have hlooks : ¬request.LooksUp framework fun _ ↦ True := by simp [Request.LooksUp, hkey]
    rw [hadditions, added_nil, if_neg hlooks]

end Plans

section Requests

variable {ι : Type} [Fintype ι] {framework : Framework} {service : Service}
  {requests : ι → Request} {elapsed uptime : ι → ℕ} {plans : ι → Plan}
  (hplans : ∀ i, (requests i).plan framework service (elapsed i) (uptime i) = .ok (plans i))

include hplans

omit [Fintype ι] in
theorem sum_added_plan {cell : Counter} {property : Bytes → Prop} [DecidablePred property]
    (hcell : ∀ key bytes time, added cell (record (service.outcome key) bytes time) =
      if property key then 1 else 0) (chosen : Finset ι) :
    ∑ i ∈ chosen, added cell (additions (plans i).accesses) =
      (chosen.filter fun i ↦ (requests i).LooksUp framework property).card := by
  rw [Finset.card_filter]
  exact Finset.sum_congr rfl fun i _ ↦ added_plan (hplans i) hcell

theorem sum_added_plan_le {cell : Counter} (hbytes : cell ≠ .bytes) (hnanos : cell ≠ .sumNanos) :
    ∑ i, added cell (additions (plans i).accesses) ≤ Fintype.card ι := by
  have hone (i : ι) : added cell (additions (plans i).accesses) ≤ 1 := by
    rcases additions_plan (hplans i) with ⟨key, _, hadditions⟩ | ⟨_, hadditions⟩
    · have hle : ∑ _ : Unit, added cell (additions (plans i).accesses) ≤ Fintype.card Unit :=
        total_le_card (fun _ ↦ hadditions) hbytes hnanos
      simpa using hle
    · rw [hadditions, added_nil]
      exact Nat.zero_le 1
  calc
    _ ≤ ∑ _i : ι, 1 := Finset.sum_le_sum fun i _ ↦ hone i
    _ = Fintype.card ι := by simp

/-- All buckets together get no more than one from a request. -/
theorem sum_buckets_plan_le :
    ∑ b, ∑ i, added (.bucket b) (additions (plans i).accesses) ≤ Fintype.card ι := by
  have hone (i : ι) : ∑ b, added (.bucket b) (additions (plans i).accesses) ≤ 1 := by
    rcases additions_plan (hplans i) with ⟨key, _, hadditions⟩ | ⟨_, hadditions⟩
    · rw [hadditions, sum_added_buckets]
      generalize Option.isSome _ = timed
      cases timed <;> simp
    · simp [hadditions]
  calc
    _ = ∑ i, ∑ b, added (.bucket b) (additions (plans i).accesses) := Finset.sum_comm
    _ ≤ ∑ _i : ι, 1 := Finset.sum_le_sum fun i _ ↦ hone i
    _ = Fintype.card ι := by simp

end Requests

/-- After any mixture of requests has been handled in any interleaving, the counters are those of
the requests that looked up a key, and the bytes are those that their clients were sent. -/
theorem traffic_accounting {ι : Type} [Fintype ι] [DecidableEq ι] (framework : Framework)
    (service : Service) (requests : ι → Request) (elapsed uptime : ι → ℕ) (plans : ι → Plan)
    (hplans : ∀ i, (requests i).plan framework service (elapsed i) (uptime i) = .ok (plans i))
    (hcount : Fintype.card ι < 2 ^ 64)
    (hbytes : ∑ i with (requests i).LooksUp framework (fun _ ↦ True),
      sentBytes (requests i) (plans i) < 2 ^ 64)
    (schedule : List (ι × Unit)) (world : World ι Metrics (Progress Counter))
    (hrun : World.run (accesses fun i ↦ (plans i).accesses) unobserved schedule = some world)
    (hfinished : ∀ i, (world.locals i).performed = (plans i).accesses.length) :
    (world.shared .requests).toNat =
        (Finset.univ.filter fun i ↦ (requests i).LooksUp framework fun _ ↦ True).card ∧
      (world.shared .hits).toNat =
        (Finset.univ.filter fun i ↦ (requests i).LooksUp framework service.Holds).card ∧
      (world.shared .misses).toNat =
        (Finset.univ.filter fun i ↦ (requests i).LooksUp framework fun key ↦
          ¬service.Holds key).card ∧
      (world.shared .defaults).toNat = (if service.defaultValue.isSome then
        (world.shared .misses).toNat else 0) ∧
      (world.shared .bytes).toNat =
        ∑ i with (requests i).LooksUp framework (fun _ ↦ True),
          sentBytes (requests i) (plans i) := by
  have hreach : Reaches (accesses fun i ↦ (plans i).accesses) unobserved world := ⟨schedule, hrun⟩
  have htotal (cell : Counter) (hcell : cell ≠ .bytes) (hnanos : cell ≠ .sumNanos) :
      (world.shared cell).toNat = ∑ i, added cell (additions (plans i).accesses) :=
    shared_of_finished hreach ((sum_added_plan_le hplans hcell hnanos).trans_lt hcount) hfinished
  have hsum : ∑ i, added .bytes (additions (plans i).accesses) =
      ∑ i with (requests i).LooksUp framework (fun _ ↦ True), sentBytes (requests i) (plans i) := by
    rw [Finset.sum_filter]
    exact Finset.sum_congr rfl fun i _ ↦ added_bytes_plan (hplans i)
  have hmisses : ∑ i, added .misses (additions (plans i).accesses) =
      (Finset.univ.filter fun i ↦ (requests i).LooksUp framework fun key ↦
        ¬service.Holds key).card :=
    sum_added_plan hplans (fun _ _ _ ↦ by simp [outcome_eq_hit]) _
  rw [htotal .requests (by decide) (by decide), htotal .hits (by decide) (by decide),
    htotal .misses (by decide) (by decide), htotal .defaults (by decide) (by decide)]
  refine ⟨?_, ?_, ?_, ?_, ?_⟩
  · exact sum_added_plan hplans (fun _ _ _ ↦ by simp) _
  · exact sum_added_plan hplans (fun _ _ _ ↦ by simp [outcome_eq_hit]) _
  · exact hmisses
  · rw [hmisses]
    cases hdefault : service.defaultValue.isSome with
    | true => exact sum_added_plan hplans (fun _ _ _ ↦ by simp [outcome_eq_default, hdefault]) _
    | false =>
      have hnone : ∑ i, added .defaults (additions (plans i).accesses) =
          (Finset.univ.filter fun i ↦ (requests i).LooksUp framework fun _ ↦ False).card :=
        sum_added_plan hplans (fun _ _ _ ↦ by simp [outcome_eq_default, hdefault]) _
      rw [hnone]
      simp [Request.LooksUp]
  · rw [shared_of_finished hreach (hsum ▸ hbytes) hfinished, hsum]

/-- A hit by path, a default by query without a body, and a method that is not allowed. -/
theorem traffic_accounting_mixture :
    let parts : Parts := ⟨[97, 49], [⟨0, 1, 1, 1⟩], by decide, by
      intro entry hentry
      rw [List.mem_singleton.mp hentry]
      exact ⟨by decide, by decide⟩⟩
    let service : Service := ⟨⟨parts.store (chained _) fun _ ↦ 7, sound_store _ _ _, some [48],
      "text/plain", true⟩, 1, 2, "kv.csv", "csv", 0⟩
    let framework : Framework := ⟨percentDecode,
      fun segment ↦ fromUtf8 (percentDecode (toBytes segment)), fun _ ↦ [], id, fun _ ↦ "0",
      fun _ ↦ "0"⟩
    let requests : Fin 3 → Request := ![⟨some .get, ["kv", "%61"], none⟩,
      ⟨some .head, ["kv"], some "k=b"⟩, ⟨none, ["kv", "a"], none⟩]
    let lists : Fin 3 → List (Increment Counter) :=
      ![record .hit 1 (some 25000), record .default 0 (some 25001), []]
    let schedule := (List.replicate 6 [((0 : Fin 3), ()), (1, ())]).flatten ++ [(1, ())]
    ∃ world, World.run (accesses fun i ↦ (lists i).map .add) unobserved schedule = some world ∧
      (world.shared .requests).toNat = (Finset.univ.filter fun i ↦
        (requests i).LooksUp framework fun _ ↦ True).card ∧
      (world.shared .hits).toNat = (Finset.univ.filter fun i ↦
        (requests i).LooksUp framework service.Holds).card := by
  intro parts service framework requests lists schedule
  let plans : Fin 3 → Plan := ![.answer ⟨200, [("content-type", "text/plain")], [49]⟩ (lists 0),
    .answer ⟨200, [("content-type", "text/plain"), ("x-justkv-default", "1")], [48]⟩ (lists 1),
    .answer methodNotAllowed []]
  let elapsed : Fin 3 → ℕ := ![25000, 25001, 0]
  have hplans (i : Fin 3) : (requests i).plan framework service (elapsed i) 0 = .ok (plans i) := by
    match i with
    | 0 => decide +kernel
    | 1 => decide +kernel
    | 2 => decide +kernel
  have hlists : (fun i ↦ (plans i).accesses) = fun i ↦ (lists i).map .add := by
    funext i
    match i with
    | 0 => rfl
    | 1 => rfl
    | 2 => rfl
  have hperformed : (World.run (accesses fun i ↦ (plans i).accesses) unobserved schedule).map
      (fun world ↦ ((world.locals 0).performed, (world.locals 1).performed,
        (world.locals 2).performed)) = some (6, 7, 0) := by decide +kernel
  obtain ⟨world, hrun, hfinished⟩ := Option.map_eq_some_iff.mp hperformed
  simp only [Prod.mk.injEq] at hfinished
  obtain ⟨hrequests, hhits, _⟩ := traffic_accounting framework service requests elapsed (fun _ ↦ 0)
    plans hplans (by decide) (by decide +kernel) schedule world hrun fun i ↦
      match i with
      | 0 => hfinished.1
      | 1 => hfinished.2.1
      | 2 => hfinished.2.2
  exact ⟨world, hlists ▸ hrun, hrequests, hhits⟩

section Brackets

variable {ι : Type} [Fintype ι]

/-- The sample counts all lookups of keys with a property that are over in the first world, and no
others than those that have begun in the second. -/
def Bracketed (framework : Framework) (requests : ι → Request) (plans : ι → Plan)
    (before after : World ι Metrics (Progress Counter)) (lines : List Line) (name : String)
    (property : Bytes → Prop) [DecidablePred property] : Prop :=
  ∃ value, series name lines = [(none, value)] ∧
    (Finset.univ.filter fun i ↦ (before.locals i).performed = (plans i).accesses.length ∧
      (requests i).LooksUp framework property).card ≤ value ∧
    value ≤ (Finset.univ.filter fun i ↦ 0 < (after.locals i).performed ∧
      (requests i).LooksUp framework property).card

variable [DecidableEq ι] {framework : Framework} {service : Service} {requests : ι → Request}
  {elapsed uptime : ι → ℕ} {plans : ι → Plan} {before after : World ι Metrics (Progress Counter)}
  {j : ι}
  (hplans : ∀ i, (requests i).plan framework service (elapsed i) (uptime i) = .ok (plans i))
  (hcount : Fintype.card ι < 2 ^ 64)
  (hstart : Reaches (accesses fun i ↦ (plans i).accesses) unobserved before)
  (hmeanwhile : Reaches (accesses fun i ↦ (plans i).accesses) before after)
  (hscrape : plans j = .scrape) (hidle : (before.locals j).performed = 0)
  (hfinished : (after.locals j).performed = (plans j).accesses.length)

omit [Fintype ι] [DecidableEq ι] in
include hscrape hfinished in
/-- A scrape that has finished has loaded every counter. -/
theorem load_mem_scrape (cell : Counter) :
    .load cell ∈ (plans j).accesses.take (after.locals j).performed := by
  rw [hscrape] at hfinished ⊢
  rw [accesses_scrape, List.length_map] at hfinished
  exact load_mem_take hfinished cell

include hplans hcount hstart hmeanwhile hscrape hidle hfinished

theorem bracketed_of_loaded {cell : Counter} {property : Bytes → Prop} [DecidablePred property]
    (hbytes : cell ≠ .bytes) (hnanos : cell ≠ .sumNanos)
    (hcell : ∀ key bytes time, added cell (record (service.outcome key) bytes time) =
      if property key then 1 else 0) {lines : List Line} {name : String}
    (hseries : series name lines = [(none, ((after.locals j).loaded cell).toNat)]) :
    Bracketed framework requests plans before after lines name property := by
  have hlt := (sum_added_plan_le hplans hbytes hnanos).trans_lt hcount
  obtain ⟨hlower, hupper⟩ := loaded_bracket hstart hmeanwhile hlt hidle
    (load_mem_scrape hscrape hfinished cell)
  rw [sum_added_plan hplans hcell, Finset.filter_filter] at hlower hupper
  exact ⟨_, hseries, hlower, hupper⟩

/-- The buckets that a scrape has loaded fit in a word together. -/
theorem sum_loaded_buckets_lt : (Metrics.bucketCounts (after.locals j).loaded).sum < 2 ^ 64 := by
  rw [sum_bucketCounts]
  apply lt_of_le_of_lt _ hcount
  calc
    _ ≤ ∑ b, ∑ i, added (.bucket b) (additions (plans i).accesses) := by
      apply Finset.sum_le_sum
      intro b _
      have hle : ∑ i, added (.bucket b) (additions (plans i).accesses) ≤ Fintype.card ι :=
        sum_added_plan_le hplans Counter.noConfusion Counter.noConfusion
      obtain ⟨_, hupper⟩ := loaded_bracket hstart hmeanwhile (hle.trans_lt hcount) hidle
        (load_mem_scrape hscrape hfinished (.bucket b))
      exact hupper.trans (Finset.sum_le_sum_of_subset (Finset.filter_subset _ _))
    _ ≤ Fintype.card ι := sum_buckets_plan_le hplans

end Brackets

/-- Whatever other requests run at the same time, a scrape is answered, and it counts every lookup
that was over when it began and no lookup that had not begun when it ended. -/
theorem scrape_brackets {ι : Type} [Fintype ι] [DecidableEq ι] (framework : Framework)
    (service : Service) (requests : ι → Request) (elapsed uptime : ι → ℕ) (plans : ι → Plan)
    (hplans : ∀ i, (requests i).plan framework service (elapsed i) (uptime i) = .ok (plans i))
    (hcount : Fintype.card ι < 2 ^ 64) (before after : World ι Metrics (Progress Counter))
    (hstart : Reaches (accesses fun i ↦ (plans i).accesses) unobserved before)
    (hmeanwhile : Reaches (accesses fun i ↦ (plans i).accesses) before after) (j : ι)
    (hscrape : plans j = .scrape) (hidle : (before.locals j).performed = 0)
    (hfinished : (after.locals j).performed = (plans j).accesses.length) :
    ∃ lines response, metrics framework service (after.locals j).loaded (uptime j) = .ok response ∧
      response.body = lines.flatMap (fun line ↦ toBytes (line.write framework.showSeconds)) ∧
      Bracketed framework requests plans before after lines "justkv_requests_total"
        (fun _ ↦ True) ∧
      Bracketed framework requests plans before after lines "justkv_hits_total" service.Holds ∧
      Bracketed framework requests plans before after lines "justkv_misses_total"
        (fun key ↦ ¬service.Holds key) ∧
      Bracketed framework requests plans before after lines "justkv_defaults_served_total"
        (fun key ↦ ¬service.Holds key ∧ service.defaultValue.isSome) := by
  obtain ⟨lines, hrender, hreports⟩ := render_eq_ok (after.locals j).loaded
    (sum_loaded_buckets_lt hplans hcount hstart hmeanwhile hscrape hidle hfinished)
    (UInt64.ofNat service.keys) (UInt64.ofNat service.arenaBytes) (UInt64.ofNat (uptime j))
  refine ⟨lines, _, by rw [metrics, hrender]; rfl, rfl, ?_, ?_, ?_, ?_⟩
  · exact bracketed_of_loaded hplans hcount hstart hmeanwhile hscrape hidle hfinished (by decide)
      (by decide) (fun _ _ _ ↦ by simp) hreports.requests
  · exact bracketed_of_loaded hplans hcount hstart hmeanwhile hscrape hidle hfinished (by decide)
      (by decide) (fun _ _ _ ↦ by simp [outcome_eq_hit]) hreports.hits
  · exact bracketed_of_loaded hplans hcount hstart hmeanwhile hscrape hidle hfinished (by decide)
      (by decide) (fun _ _ _ ↦ by simp [outcome_eq_hit]) hreports.misses
  · exact bracketed_of_loaded hplans hcount hstart hmeanwhile hscrape hidle hfinished (by decide)
      (by decide) (fun _ _ _ ↦ by simp [outcome_eq_default]) hreports.defaults

/-- A scrape while one of two lookups is over and the other is not. -/
theorem scrape_brackets_in_progress :
    let parts : Parts := ⟨[97, 49], [⟨0, 1, 1, 1⟩], by decide, by
      intro entry hentry
      rw [List.mem_singleton.mp hentry]
      exact ⟨by decide, by decide⟩⟩
    let service : Service := ⟨⟨parts.store (chained _) fun _ ↦ 7, sound_store _ _ _, none,
      "text/plain", false⟩, 1, 2, "kv.csv", "csv", 0⟩
    let framework : Framework := ⟨percentDecode,
      fun segment ↦ fromUtf8 (percentDecode (toBytes segment)), fun _ ↦ [], id, fun _ ↦ "0",
      fun _ ↦ "0"⟩
    let requests : Fin 3 → Request := ![⟨some .get, ["kv", "a"], none⟩,
      ⟨some .get, ["kv", "b"], none⟩, ⟨some .get, ["metrics"], none⟩]
    let plans : Fin 3 → Plan := ![.answer ⟨200, [("content-type", "text/plain")], [49]⟩
      (record .hit 1 none), .answer notFound (record .miss 0 none), .scrape]
    let steps (i : Fin 3) (count : ℕ) : List (Fin 3 × Unit) := List.replicate count (i, ())
    ∃ before after lines response,
      World.run (accesses fun i ↦ (plans i).accesses) unobserved (steps 0 3) = some before ∧
      World.run (accesses fun i ↦ (plans i).accesses) before
        (steps 2 1 ++ steps 1 3 ++ steps 2 19) = some after ∧
      metrics framework service (after.locals 2).loaded 5 = .ok response ∧
      Bracketed framework requests plans before after lines "justkv_requests_total"
        (fun _ ↦ True) ∧
      Bracketed framework requests plans before after lines "justkv_hits_total" service.Holds := by
  intro parts service framework requests plans steps
  have hplans (i : Fin 3) : (requests i).plan framework service 0 5 = .ok (plans i) := by
    match i with
    | 0 => decide +kernel
    | 1 => decide +kernel
    | 2 => decide +kernel
  have hperformed : (World.run (accesses fun i ↦ (plans i).accesses) unobserved (steps 0 3)).bind
      (fun before ↦ (World.run (accesses fun i ↦ (plans i).accesses) before
        (steps 2 1 ++ steps 1 3 ++ steps 2 19)).map fun after ↦
          ((before.locals 2).performed, (after.locals 2).performed)) = some (0, 20) := by
    decide +kernel
  obtain ⟨before, hbefore, hrest⟩ := Option.bind_eq_some_iff.mp hperformed
  obtain ⟨after, hafter, hcounts⟩ := Option.map_eq_some_iff.mp hrest
  obtain ⟨hidle, hfinished⟩ := Prod.mk.inj hcounts
  obtain ⟨lines, response, hmetrics, _, hrequests, hhits, _⟩ := scrape_brackets framework service
    requests (fun _ ↦ 0) (fun _ ↦ 5) plans hplans (by decide) before after ⟨_, hbefore⟩
    ⟨_, hafter⟩ 2 rfl hidle hfinished
  exact ⟨before, after, lines, response, hbefore, hafter, hmetrics, hrequests, hhits⟩

end JustKV
