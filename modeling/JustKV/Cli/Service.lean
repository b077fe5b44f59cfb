import Mathlib.Data.Fintype.EquivFin
import JustKV.Cli.Serve
import JustKV.Server.Forms
import JustKV.Server.Router

/-!
# What a server says about its dataset

`cmd_serve` fills in the numbers that `/stats` and `/metrics` show when it builds its state.  They
are those of the dataset that lookups answer from, for CSV files and for artifacts of a build.
-/

open Checked Counters HashTable Utf8

namespace JustKV

open Compiled

def SourceFormat.asStr : SourceFormat → String
  | .csv => "csv"
  | .compiled => "compiled"

theorem sound_of_serveLoad {w : Width} {csv : CsvReader} {process : Process}
    {read : Path → Except IoError Bytes} {args : ServeArgs} {loaded : Loaded}
    (h : serveLoad csv process read w args.data args.parse = .ok (.ok loaded)) :
    loaded.store.Sound :=
  sound_of_load (serveLoad_eq_ok.mp h)

section Serve

variable (w : Width) (csv : CsvReader) (process : Process) (read : Path → Except IoError Bytes)
  (headerValue : String → Bool) (display : Path → String) (loadDuration : ℕ)

/-- `cmd_serve` up to the whole of the state; `display` writes a path, and the load has taken
`loadDuration` nanoseconds. -/
def cmdServe (args : ServeArgs) : Run (Except UInt8 Service) :=
  match h : serveLoad csv process read w args.data args.parse with
  | .ok (.ok loaded) =>
      if headerValue (args.typeOf loaded.flags) then
        pure (.ok
          { store := loaded.store
            sound := sound_of_serveLoad h
            defaultValue := args.defaultValue.map toBytes
            contentType := args.typeOf loaded.flags
            timing := !args.noMetrics
            keys := loaded.store.len
            arenaBytes := loaded.store.arenaLen
            source := display loaded.source
            format := loaded.format.asStr
            loadDuration })
      else pure (.error exitIo)
  | .ok (.error code) => pure (.error code)
  | .error fault => .error fault

variable {w : Width} {csv : CsvReader} {process : Process} {read : Path → Except IoError Bytes}
  {headerValue : String → Bool} {display : Path → String} {loadDuration : ℕ} {args : ServeArgs}
  {service : Service}

theorem cmdServe_eq_ok
    (h : cmdServe w csv process read headerValue display loadDuration args = .ok (.ok service)) :
    ∃ loaded, load w csv process read args.data (args.parse.loadOptions args.data) =
        .ok (.ok loaded) ∧
      service.store = loaded.store ∧ service.keys = loaded.store.len ∧
      service.arenaBytes = loaded.store.arenaLen ∧
      service.defaultValue = args.defaultValue.map toBytes := by
  unfold cmdServe at h
  split at h
  case h_2 => simp at h
  case h_3 => simp at h
  case h_1 loaded hload =>
    split at h
    case isTrue =>
      obtain rfl := Except.ok.inj (Except.ok.inj h)
      exact ⟨loaded, serveLoad_eq_ok.mp hload, rfl, rfl, rfl, rfl⟩
    case isFalse => simp at h

/-- Its part that lookups use is the state that decides the answers. -/
theorem serveState_of_cmdServe
    (h : cmdServe w csv process read headerValue display loadDuration args = .ok (.ok service)) :
    serveState w csv process read headerValue args = .ok (.ok service.toAppState) := by
  unfold cmdServe at h
  split at h
  case h_2 => simp at h
  case h_3 => simp at h
  case h_1 loaded hload =>
    unfold serveState
    split
    case h_1 hfault => simp [hfault] at hload
    case h_2 hcode => simp [hcode] at hload
    case h_3 loaded' hloaded =>
      obtain rfl : loaded' = loaded := by simpa [hloaded] using hload
      split at h
      case isTrue hheader =>
        obtain rfl := Except.ok.inj (Except.ok.inj h)
        dsimp only
        rw [if_pos hheader]
        rfl
      case isFalse => simp at h

/-- A dataset that loads is served if its content type is a header value. -/
theorem cmdServe_of_load (headerValue : String → Bool) (display : Path → String)
    (loadDuration : ℕ) (args : ServeArgs) {loaded : Loaded}
    (hload : load w csv process read args.data (args.parse.loadOptions args.data) =
      .ok (.ok loaded))
    (hheader : headerValue (args.typeOf loaded.flags) = true) :
    ∃ service, cmdServe w csv process read headerValue display loadDuration args =
      .ok (.ok service) := by
  have hserve := serveLoad_eq_ok.mpr hload
  unfold cmdServe
  split
  case h_2 hcode => simp [hcode] at hserve
  case h_3 hfault => simp [hfault] at hserve
  case h_1 loaded' hloaded =>
    obtain rfl : loaded' = loaded := by simpa [hloaded] using hserve
    rw [if_pos hheader]
    exact ⟨_, rfl⟩

end Serve

section Shape

variable {w : Width} {csv : CsvReader} {process : Process} {read : Path → Except IoError Bytes}
  {path : Path} {opts : LoadOptions} {data : Bytes} {loaded : Loaded}

/-- The store holds exactly these pairs, and counts them right. -/
structure Store.Shape (store : Store) (pairs : Dataset) : Prop where
  holds : store.pairs = pairs
  nodup : pairs.keys.Nodup
  len : store.len = pairs.length
  arenaLen : store.arenaLen = pairs.size
  size_le : pairs.size ≤ u32Max

theorem shape_of_parseCsv {csv' : CsvReader} {process' : Process} {source : Bytes}
    {opts' : LoadOptions} {parts : Parts} (layout : Layout Entry) (hasher : RandomState)
    (hparse : parseCsv csv' process' source opts' = .ok (.ok (parts.arena, parts.entries))) :
    ∃ pairs, (parts.store layout hasher).Shape pairs := by
  obtain ⟨pairs, haccepted, hparts⟩ := parseCsv_eq_ok_ok_iff.mp hparse
  obtain ⟨harena, hentries⟩ := Prod.mk.inj hparts
  refine ⟨pairs, ?_, haccepted.nodup, ?_, ?_, haccepted.size_le⟩
  · rw [pairs_store, Parts.pairs, harena, hentries]
    exact pairs_ofPairs pairs haccepted.size_le
  · rw [len_store, hentries, length_layoutFrom]
  · rw [arenaLen_store, harena, length_packed]

/-- A file that is no artifact or one of a build loads as the dataset it was parsed from. -/
theorem shape_of_load (hload : load w csv process read path opts = .ok (.ok loaded))
    (hread : read path = .ok data)
    (hfile : isCompiled data = false ∨
      ∃ (invocation : Invocation) (source : Bytes), invocation.Produces source data) :
    ∃ pairs, loaded.store.Shape pairs := by
  obtain ⟨parts, format, flags, hparts, rfl⟩ := parts_of_load hload hread
  rcases hfile with hmagic | ⟨invocation, source, hproduces⟩
  · exact shape_of_parseCsv _ _ ((loadParts_csv hmagic).mp hparts).1
  · obtain ⟨arena, entries, hparse, rfl⟩ := hproduces.eq_compiledBytes
    rw [← List.append_nil (compiledBytes arena entries invocation.flags)] at hparts
    obtain ⟨rfl, rfl, rfl⟩ := loadParts_artifact hparse hparts
    exact shape_of_parseCsv _ _ hparse

end Shape

section Reports

variable {loaded : Metrics} {lines : List Line}

/-- The lines of the buckets say nothing under another name. -/
theorem series_bucketLines {name : String} (hname : bucketName ≠ name) {start total : ℕ}
    {counts : List (String × UInt64)} (h : bucketLines start counts = .ok (lines, total)) :
    series name lines = [] := by
  induction counts generalizing start lines with
  | nil =>
    obtain ⟨rfl, -⟩ := Prod.mk.inj (Except.ok.inj h)
    rfl
  | cons count counts ih =>
    obtain ⟨sum, _, hrest⟩ := bind_eq_ok.mp h
    obtain ⟨⟨rest, last⟩, htail, hlines⟩ := bind_eq_ok.mp hrest
    obtain ⟨rfl, rfl⟩ := Prod.mk.inj (Except.ok.inj hlines)
    rw [series_sample, if_neg hname, ih htail]
    rfl

/-- The gauges of an exposition are its arguments. -/
theorem series_gauges {keys arenaBytes uptime : UInt64}
    (h : loaded.render keys arenaBytes uptime = .ok lines) :
    series "justkv_keys" lines = [(none, keys.toNat)] ∧
      series "justkv_arena_bytes" lines = [(none, arenaBytes.toNat)] := by
  obtain ⟨⟨bounded, sum⟩, hbounded, hrest⟩ := bind_eq_ok.mp h
  obtain ⟨total, _, hlines⟩ := bind_eq_ok.mp hrest
  obtain rfl := Except.ok.inj hlines
  have hkeys : series "justkv_keys" bounded = [] := series_bucketLines (by decide) hbounded
  have harena : series "justkv_arena_bytes" bounded = [] := series_bucketLines (by decide) hbounded
  simp [exposition, counterLines, gaugeLines, bucketName, countName, hkeys, harena]

end Reports

/-- A store without a default answers some key with status 404. -/
theorem exists_missing_iff {state : AppState} {pairs : Dataset} (hshape : state.store.Shape pairs) :
    (∃ key method elapsed response list,
      lookup state key method elapsed = .ok (response, list) ∧ response.status = 404) ↔
      state.defaultValue = none := by
  constructor
  · rintro ⟨key, method, elapsed, response, list, hlookup, hstatus⟩
    obtain ⟨answer, hget, _⟩ := get_answers state.sound key
    rw [response_of_lookup hget hlookup] at hstatus
    cases answer with
    | some value => simp [AppState.response] at hstatus
    | none =>
      cases hdefault : state.defaultValue with
      | none => rfl
      | some value => simp [AppState.response, hdefault] at hstatus
  · intro hdefault
    obtain ⟨key, hkey⟩ := Infinite.exists_notMem_finset pairs.keys.toFinset
    obtain ⟨response, hlookup⟩ := lookup_eq_ok state key .get 0
    refine ⟨key, .get, 0, response, _, hlookup, ?_⟩
    have hnot : ¬state.Holds key := by
      rw [AppState.Holds, hshape.holds]
      exact fun hmem ↦ hkey (List.mem_toFinset.mpr hmem)
    exact ((contract_of_lookup hlookup).missing hnot hdefault).1

/-- What `/stats` and `/metrics` say about the dataset is what lookups answer from: the number of
keys that have a value, the length of all these keys and values, and whether a lookup can fail. -/
theorem service_reports_dataset (w : Width) (csv : CsvReader) (process : Process)
    (read : Path → Except IoError Bytes) (headerValue : String → Bool) (display : Path → String)
    (loadDuration : ℕ) (args : ServeArgs) (data : Bytes) (service : Service)
    (hread : read args.data = .ok data)
    (hfile : isCompiled data = false ∨
      ∃ (invocation : Invocation) (source : Bytes), invocation.Produces source data)
    (hserve : cmdServe w csv process read headerValue display loadDuration args =
      .ok (.ok service)) :
    ∃ pairs : Dataset, pairs.keys.Nodup ∧
      (∀ key, ∃ answer, service.store.get key = .ok answer ∧
        ∀ value, answer = some value ↔ (key, value) ∈ pairs) ∧
      (∀ (loaded : Metrics) uptime lines, loaded.render (UInt64.ofNat service.keys)
          (UInt64.ofNat service.arenaBytes) uptime = .ok lines →
        series "justkv_keys" lines = [(none, pairs.length)] ∧
          series "justkv_arena_bytes" lines = [(none, pairs.size)]) ∧
      ∀ framework uptime,
        ("keys", toString pairs.length) ∈ statsMembers framework service uptime ∧
        ("arena_bytes", toString pairs.size) ∈ statsMembers framework service uptime ∧
        (("default_value_configured", "false") ∈ statsMembers framework service uptime ↔
          ∃ key method elapsed response list,
            lookup service.toAppState key method elapsed = .ok (response, list) ∧
              response.status = 404) := by
  obtain ⟨loaded, hload, hstore, hkeys, harena, _⟩ := cmdServe_eq_ok hserve
  obtain ⟨pairs, hshape⟩ := shape_of_load hload hread hfile
  rw [hshape.len] at hkeys
  rw [hshape.arenaLen] at harena
  rw [← hstore] at hshape
  have hmax : u32Max < 2 ^ 64 := by decide
  have hlength : pairs.length < 2 ^ 64 :=
    (length_lt_of_nodup hshape.nodup hshape.size_le).trans (by decide)
  have hsize : pairs.size < 2 ^ 64 := hshape.size_le.trans_lt hmax
  refine ⟨pairs, hshape.nodup, fun key ↦ ?_, fun values uptime lines hrender ↦ ?_,
    fun framework uptime ↦ ⟨?_, ?_, ?_⟩⟩
  · have hanswers := get_eq_some_iff service.sound (hshape.holds.symm ▸ hshape.nodup) key
    rwa [hshape.holds] at hanswers
  · obtain ⟨hkeySeries, harenaSeries⟩ := series_gauges hrender
    rw [hkeySeries, harenaSeries, hkeys, harena, UInt64.toNat_ofNat_of_lt' hlength,
      UInt64.toNat_ofNat_of_lt' hsize]
    exact ⟨rfl, rfl⟩
  · simp [statsMembers, hkeys]
  · simp [statsMembers, harena]
  · rw [exists_missing_iff hshape]
    cases hdefault : service.defaultValue with
    | none => simp [statsMembers, hdefault, show toString false = "false" from rfl]
    | some value => simp [statsMembers, hdefault, show toString true = "true" from rfl]

/-- A CSV file of one row, served without a default. -/
theorem service_reports_dataset_row :
    ∃ service, cmdServe .w64 Csv.grammar default (fun _ ↦ .ok [97, 44, 49, 10]) (fun _ ↦ true)
        (fun _ ↦ "kv.csv") 0 default = .ok (.ok service) ∧
      ∃ pairs : Dataset, (∀ key, ∃ answer, service.store.get key = .ok answer ∧
          ∀ value, answer = some value ↔ (key, value) ∈ pairs) ∧
        ∀ framework uptime,
          ("keys", toString pairs.length) ∈ statsMembers framework service uptime := by
  have hparse : parseCsv Csv.grammar default [97, 44, 49, 10]
      (ParseArgs.loadOptions default []) = .ok (.ok ([97, 49], [⟨0, 1, 1, 1⟩])) := by
    decide +kernel
  obtain ⟨parts, _, _, hload⟩ := load_csv .w64 default (fun _ ↦ .ok [97, 44, 49, 10]) [] rfl
    (by decide) hparse
  obtain ⟨service, hserve⟩ := cmdServe_of_load (fun _ ↦ true) (fun _ ↦ "kv.csv") 0 default hload rfl
  obtain ⟨pairs, _, hanswers, _, hstats⟩ := service_reports_dataset .w64 Csv.grammar default _ _ _ 0
    default _ service rfl (Or.inl (by decide)) hserve
  exact ⟨service, hserve, pairs, hanswers, fun framework uptime ↦ (hstats framework uptime).1⟩

end JustKV
