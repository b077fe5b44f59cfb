import JustKV.Cli.Agreement
import JustKV.Server.Handlers

/-!
# The content type of a server

Without an explicit content type the server picks one by the binary flag of the file it loaded,
and the flag was set where the file was parsed: by this load for CSV, by an earlier build for a
compiled file.  So bodies that are labelled as UTF-8 by default are UTF-8, whatever the options of
the two runs.
-/

open Checked Counters HashTable Interleaving Utf8

namespace JustKV

open Compiled

/-- Some run of `cmd_build`, among any others with the same output, reads `source`, and just after
it has renamed its scratch file the output holds `bytes`. -/
def Invocation.Produces (invocation : Invocation) (source bytes : Bytes) : Prop :=
  ∃ (ι : Type) (_ : DecidableEq ι) (out : Path) (invocations : ι → Invocation)
    (initial : FileSystem) (schedule : List (ι × BuildEvent)) (world : World ι (Disk ι) Build)
    (i : ι), invocations i = invocation ∧
    (∀ result, (i, .read result) ∈ schedule → result = .ok source) ∧
    (launched initial).run (cmdBuild out invocations) (schedule ++ [(i, .rename true)]) =
      some world ∧
    world.shared.fs out = some bytes

/-- What a build produces is the compiled file of the parts its source parses to. -/
theorem Invocation.Produces.eq_compiledBytes {invocation : Invocation} {source bytes : Bytes}
    (h : invocation.Produces source bytes) :
    ∃ arena entries, parseCsv invocation.csv invocation.process source
        (invocation.parse.loadOptions invocation.data) = .ok (.ok (arena, entries)) ∧
      bytes = compiledBytes arena entries invocation.flags := by
  obtain ⟨ι, _, out, invocations, initial, schedule, world, i, rfl, hreads, hrun, hout⟩ := h
  rw [World.run, List.foldlM_append] at hrun
  obtain ⟨middle, hmiddle, hlast⟩ := Option.bind_eq_some_iff.mp hrun
  obtain ⟨disk, next, hstep, rfl⟩ := step_eq_some.mp (by simpa using hlast)
  obtain ⟨op, hop, _, rfl⟩ := step_of_cmdBuild hstep
  have h : Intact out invocations initial middle := intact_run hmiddle
  have hprogress := h.progress i
  cases hphase : (middle.locals i).phase with
  | finalizing tmp =>
    obtain ⟨rfl, rfl⟩ : some (FsOp.rename tmp out) = op ∧ _ := by
      simpa [Build.step, hphase] using hop
    have hne : tmp ≠ out := (h.owned.new i tmp (by simp only [hphase]; rfl)).1
    simp only [Build.Progress, hphase] at hprogress
    rw [shared_advance, fs_after, Option.elim_some, FsOp.apply_rename_target hne, hprogress] at hout
    obtain ⟨parts, hsome, rfl⟩ := Option.map_eq_some_iff.mp hout
    obtain ⟨data, hread, hparse⟩ := parts_of_run hmiddle hsome
    obtain rfl : data = source := Except.ok.inj (hreads _ hread)
    exact ⟨parts.1, parts.2, hparse, rfl⟩
  | _ => simp [Build.step, hphase] at hop

/-! ## The state of the server -/

/-- The options of `serve` that decide its answers. -/
structure ServeArgs where
  data : Path
  defaultValue : Option String
  contentType : Option String
  noMetrics : Bool
  parse : ParseArgs
  deriving DecidableEq, Repr

instance : Inhabited ServeArgs := ⟨⟨[], none, none, false, default⟩⟩

def defaultContentType : String := "text/plain; charset=utf-8"

def binaryContentType : String := "application/octet-stream"

/-- Every loaded store is sound. -/
theorem sound_of_load {w : Width} {csv : CsvReader} {process : Process}
    {read : Path → Except IoError Bytes} {path : Path} {opts : LoadOptions} {loaded : Loaded}
    (h : load w csv process read path opts = .ok (.ok loaded)) : loaded.store.Sound := by
  cases hread : read path with
  | error error => simp [load, hread] at h
  | ok data =>
    obtain ⟨parts, format, flags, _, rfl⟩ := parts_of_load h hread
    exact sound_store parts _ _

theorem serveLoad_eq_ok {w : Width} {csv : CsvReader} {process : Process}
    {read : Path → Except IoError Bytes} {path : Path} {parse : ParseArgs} {loaded : Loaded} :
    serveLoad csv process read w path parse = .ok (.ok loaded) ↔
      load w csv process read path (parse.loadOptions path) = .ok (.ok loaded) := by
  rw [serveLoad, bind_eq_ok]
  constructor
  · rintro ⟨result, hload, hresult⟩
    cases result with
    | ok loaded' =>
      obtain rfl : loaded' = loaded := by simpa using hresult
      exact hload
    | error failure => cases failure <;> simp at hresult
  · intro hload
    exact ⟨_, hload, rfl⟩

/-- The content type of a dataset that was loaded with these flags. -/
def ServeArgs.typeOf (args : ServeArgs) (flags : UInt32) : String :=
  let binary := flags &&& flagBinary ≠ 0
  args.contentType.getD (if binary then binaryContentType else defaultContentType)

section Serve

variable (w : Width) (csv : CsvReader) (process : Process) (read : Path → Except IoError Bytes)
  (headerValue : String → Bool)

/-- `cmd_serve` up to the state it hands to the router; `headerValue` says which texts
`HeaderValue::from_str` takes. -/
def serveState (args : ServeArgs) : Run (Except UInt8 AppState) :=
  match h : serveLoad csv process read w args.data args.parse with
  | .error fault => .error fault
  | .ok (.error code) => pure (.error code)
  | .ok (.ok loaded) =>
      let contentType := args.typeOf loaded.flags
      if headerValue contentType then
        pure (.ok
          { store := loaded.store
            sound := sound_of_load (serveLoad_eq_ok.mp h)
            defaultValue := args.defaultValue.map toBytes
            contentType
            timing := !args.noMetrics })
      else pure (.error exitIo)

end Serve

section State

variable {w : Width} {csv : CsvReader} {process : Process} {read : Path → Except IoError Bytes}
  {headerValue : String → Bool} {args : ServeArgs}

theorem serveState_eq_ok {state : AppState}
    (h : serveState w csv process read headerValue args = .ok (.ok state)) :
    ∃ loaded, load w csv process read args.data (args.parse.loadOptions args.data) =
        .ok (.ok loaded) ∧
      state.store = loaded.store ∧ state.defaultValue = args.defaultValue.map toBytes ∧
      state.contentType = args.typeOf loaded.flags := by
  unfold serveState at h
  split at h
  case h_1 => simp at h
  case h_2 => simp at h
  case h_3 loaded hload =>
    dsimp only at h
    split at h
    case isTrue =>
      obtain rfl := Except.ok.inj (Except.ok.inj h)
      exact ⟨loaded, serveLoad_eq_ok.mp hload, rfl, rfl, rfl⟩
    case isFalse => simp at h

/-- A dataset that loads is served if its content type is a header value. -/
theorem serveState_of_load (headerValue : String → Bool) (args : ServeArgs) {loaded : Loaded}
    (hload : load w csv process read args.data (args.parse.loadOptions args.data) =
      .ok (.ok loaded))
    (hheader : headerValue (args.typeOf loaded.flags) = true) :
    ∃ state, serveState w csv process read headerValue args = .ok (.ok state) := by
  have hserve := serveLoad_eq_ok.mpr hload
  unfold serveState
  split
  case h_1 hfault => simp [hfault] at hserve
  case h_2 hcode => simp [hcode] at hserve
  case h_3 loaded' hloaded =>
    obtain rfl : loaded' = loaded := by simpa [hloaded] using hserve
    rw [if_pos hheader]
    exact ⟨_, rfl⟩

end State

/-! ## What a server answers -/

/-- The store holds the dataset that a parse with these options accepted, and the flags say whether
binary values were allowed. -/
structure Loaded.From (loaded : Loaded) (opts : LoadOptions) (delivery : Delivery) : Prop where
  accepted : Accepted opts delivery loaded.store.pairs
  flags : loaded.flags = if opts.allowBinary then flagBinary else 0

theorem accepted_of_parseCsv {csv : CsvReader} {process : Process} {data : Bytes}
    {opts : LoadOptions} {parts : Parts}
    (h : parseCsv csv process data opts = .ok (.ok (parts.arena, parts.entries))) :
    Accepted opts (csv ⟨opts.delimiter, opts.hasHeader⟩ data) parts.pairs := by
  obtain ⟨pairs, haccepted, harena, hentries⟩ := parts_of_parseCsv h
  have hpairs : parts.pairs = pairs := by
    rw [Parts.pairs, ← harena, ← hentries]
    exact haccepted.pairs_parts
  rwa [hpairs]

section From

variable {w : Width} {csv : CsvReader} {process : Process} {read : Path → Except IoError Bytes}
  {path : Path} {opts : LoadOptions} {data : Bytes} {loaded : Loaded}

theorem from_csv (hload : load w csv process read path opts = .ok (.ok loaded))
    (hread : read path = .ok data) (hmagic : isCompiled data = false) :
    loaded.From opts (csv ⟨opts.delimiter, opts.hasHeader⟩ data) := by
  obtain ⟨parts, format, flags, hparts, rfl⟩ := parts_of_load hload hread
  obtain ⟨hparse, _, hflags⟩ := (loadParts_csv hmagic).mp hparts
  refine ⟨?_, hflags⟩
  rw [pairs_store]
  exact accepted_of_parseCsv hparse

/-- The options of the load do not matter for an artifact, only those of its build. -/
theorem from_artifact {invocation : Invocation} {source : Bytes}
    (hload : load w csv process read path opts = .ok (.ok loaded))
    (hread : read path = .ok data) (hproduces : invocation.Produces source data) :
    let opts := invocation.parse.loadOptions invocation.data
    loaded.From opts (invocation.csv ⟨opts.delimiter, opts.hasHeader⟩ source) := by
  obtain ⟨parts, format, flags, hparts, rfl⟩ := parts_of_load hload hread
  obtain ⟨arena, entries, hparse, rfl⟩ := hproduces.eq_compiledBytes
  rw [← List.append_nil (compiledBytes arena entries invocation.flags)] at hparts
  obtain ⟨rfl, rfl, rfl⟩ := loadParts_artifact hparse hparts
  refine ⟨?_, rfl⟩
  rw [pairs_store]
  exact accepted_of_parseCsv hparse

end From

section Answers

variable {opts : LoadOptions} {delivery : Delivery} {loaded : Loaded} {args : ServeArgs}
  {state : AppState}

theorem typeOf_from (h : loaded.From opts delivery) (hcontent : args.contentType = none) :
    args.typeOf loaded.flags = if opts.allowBinary then binaryContentType else defaultContentType := by
  rw [ServeArgs.typeOf, hcontent, h.flags]
  cases opts.allowBinary <;> rfl

/-- Without binary values, everything a lookup answers with status 200 is UTF-8. -/
theorem utf8_of_lookup (h : loaded.From opts delivery) (hbinary : opts.allowBinary = false)
    (hstore : state.store = loaded.store)
    (hdefault : state.defaultValue = args.defaultValue.map toBytes) {key : Bytes}
    {method : Method} {elapsed : ℕ} {response : Response} {list : List (Increment Counter)}
    (hlookup : lookup state key method elapsed = .ok (response, list))
    (hstatus : response.status = 200) : (fromUtf8 response.body).isSome := by
  obtain ⟨answer, hget, hanswer⟩ := get_answers state.sound key
  rw [response_of_lookup hget hlookup] at hstatus ⊢
  cases answer with
  | some value =>
    have hmem : (key, value) ∈ loaded.store.pairs := by rwa [hstore] at hanswer
    have hvalue : opts.allowBinary = true ∨ (fromUtf8 value).isSome := h.accepted.utf8 _ hmem
    exact hvalue.resolve_left (by simp [hbinary])
  | none =>
    cases htext : args.defaultValue with
    | none => simp [AppState.response, hdefault, htext] at hstatus
    | some text => simp [AppState.response, hdefault, htext, fromUtf8_toBytes]

/-- A delivered record has this value. -/
def Delivery.HasValue (delivery : Delivery) (value : Bytes) : Prop :=
  ∃ record ∈ delivery.records, ∃ key, record.fields = [key, value]

theorem typeOf_of_hasValue (h : loaded.From opts delivery) (hcontent : args.contentType = none)
    {value : Bytes} (hvalue : delivery.HasValue value) (hinvalid : fromUtf8 value = none) :
    args.typeOf loaded.flags = binaryContentType := by
  obtain ⟨record, hrecord, key, hfields⟩ := hvalue
  have hmem := (h.accepted.mem_iff key value).mpr ⟨record, hrecord, hfields⟩
  have hbinary : opts.allowBinary = true := by simpa [hinvalid] using h.accepted.utf8 _ hmem
  rw [typeOf_from h hcontent, if_pos hbinary]

end Answers

/-- Bodies labelled as UTF-8 by default are UTF-8, and one value that is not makes the default
binary, for CSV files and for artifacts of a build with any other options. -/
theorem default_content_type_sound (w : Width) (csv : CsvReader) (process : Process)
    (read : Path → Except IoError Bytes) (headerValue : String → Bool) (args : ServeArgs)
    (data : Bytes) (state : AppState) (hread : read args.data = .ok data)
    (hfile : isCompiled data = false ∨
      ∃ (invocation : Invocation) (source : Bytes), invocation.Produces source data)
    (hcontent : args.contentType = none)
    (hserve : serveState w csv process read headerValue args = .ok (.ok state)) :
    (state.contentType = defaultContentType →
      ∀ key method elapsed response list,
        lookup state key method elapsed = .ok (response, list) → response.status = 200 →
        (fromUtf8 response.body).isSome) ∧
    (isCompiled data = false → ∀ value,
      (csv ⟨(args.parse.loadOptions args.data).delimiter, args.parse.header⟩ data).HasValue value →
      fromUtf8 value = none → state.contentType = "application/octet-stream") ∧
    (∀ (invocation : Invocation) (source : Bytes), invocation.Produces source data → ∀ value,
      (invocation.csv ⟨(invocation.parse.loadOptions invocation.data).delimiter,
        invocation.parse.header⟩ source).HasValue value →
      fromUtf8 value = none → state.contentType = "application/octet-stream") := by
  obtain ⟨loaded, hload, hstore, hdefault, htype⟩ := serveState_eq_ok hserve
  refine ⟨?_, ?_, ?_⟩
  · intro hutf8 key method elapsed response list hlookup hstatus
    obtain ⟨opts, delivery, hfrom⟩ : ∃ opts delivery, loaded.From opts delivery := by
      rcases hfile with hmagic | ⟨invocation, source, hproduces⟩
      · exact ⟨_, _, from_csv hload hread hmagic⟩
      · exact ⟨_, _, from_artifact hload hread hproduces⟩
    have hbinary : opts.allowBinary = false := by
      rw [htype, typeOf_from hfrom hcontent] at hutf8
      cases hbinary : opts.allowBinary with
      | false => rfl
      | true => simp [hbinary, binaryContentType, defaultContentType] at hutf8
    exact utf8_of_lookup hfrom hbinary hstore hdefault hlookup hstatus
  · intro hmagic value hvalue hinvalid
    exact htype.trans (typeOf_of_hasValue (from_csv hload hread hmagic) hcontent hvalue hinvalid)
  · intro invocation source hproduces value hvalue hinvalid
    exact htype.trans
      (typeOf_of_hasValue (from_artifact hload hread hproduces) hcontent hvalue hinvalid)

/-- The row `a,FF` built with binary values allowed and served without. -/
theorem default_content_type_sound_artifact :
    ∃ state, serveState .w64 Csv.grammar default
        (fun _ ↦ .ok (compiledBytes [97, 255] [⟨0, 1, 1, 1⟩] flagBinary)) (fun _ ↦ true) default =
          .ok (.ok state) ∧
      state.contentType = "application/octet-stream" := by
  let out : Path := [.normal [107]]
  let invocation : Invocation := ⟨Csv.grammar, default, 7, [.normal [100]], ⟨none, false, true⟩⟩
  let source : Bytes := [97, 44, 255, 10]
  let schedule : List (Unit × BuildEvent) :=
    [((), .read (.ok source)), ((), .createNew none (.ok ()))] ++
    List.replicate 10 ((), .writeAll) ++ [((), .spill 90), ((), .flush)]
  have hparse : parseCsv Csv.grammar default source ⟨44, false, true⟩ =
      .ok (.ok ([97, 255], [⟨0, 1, 1, 1⟩])) := by decide +kernel
  have hout : ((launched fun _ ↦ none).run (cmdBuild out fun _ ↦ invocation)
      (schedule ++ [((), .rename true)])).map (fun world ↦ world.shared.fs out) =
        some (some (compiledBytes [97, 255] [⟨0, 1, 1, 1⟩] flagBinary)) := by decide +kernel
  obtain ⟨world, hrun, hfile⟩ := Option.map_eq_some_iff.mp hout
  have hproduces : invocation.Produces source
      (compiledBytes [97, 255] [⟨0, 1, 1, 1⟩] flagBinary) := by
    refine ⟨Unit, inferInstance, out, fun _ ↦ invocation, fun _ ↦ none, schedule, world, (), rfl,
      ?_, hrun, hfile⟩
    intro result hmem
    simpa [schedule] using hmem
  obtain ⟨parts, _, _, hload⟩ := load_artifact .w64 Csv.grammar default
    (fun _ ↦ .ok (compiledBytes [97, 255] [⟨0, 1, 1, 1⟩] flagBinary)) []
    (ParseArgs.loadOptions default []) hparse rfl (by decide)
  obtain ⟨state, hstate⟩ := serveState_of_load (fun _ ↦ true) default hload rfl
  refine ⟨state, hstate, ?_⟩
  exact (default_content_type_sound .w64 Csv.grammar default _ _ default _ state rfl
    (Or.inr ⟨invocation, source, hproduces⟩) rfl hstate).2.2 invocation source hproduces [255]
      ⟨⟨[[97], [255]], some 1⟩, by decide, [97], rfl⟩ (by decide)

end JustKV
