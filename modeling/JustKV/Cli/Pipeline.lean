import JustKV.Cli.BuildCompletes
import JustKV.Cli.Reproducible
import JustKV.Cli.Service

/-!
# From rows to answers

Rows that are written in any way, built by some process and served by another are what requests
are answered from.
-/

open Checked HashTable Interleaving PercentEncoding Utf8

namespace JustKV

open Compiled Csv

/-- A source that parses can be built, and there is one artifact of it. -/
theorem exists_produces {invocation : Invocation} {source arena : Bytes} {entries : List Entry}
    (hparse : parseCsv invocation.csv invocation.process source
      (invocation.parse.loadOptions invocation.data) = .ok (.ok (arena, entries))) :
    invocation.Produces source (compiledBytes arena entries invocation.flags) := by
  let out : Path := [.normal [107]]
  let initial : FileSystem := fun _ ↦ none
  have hlaunched : Intact out (fun _ : Unit ↦ invocation) initial (launched initial) :=
    intact_launched
  have hlocal : (launched initial : World Unit (Disk Unit) Build).locals () = ⟨none, .start⟩ := rfl
  have hfree : initial (scratchCandidate out invocation.pid
      ((none : Option UInt32).getD 0 + UInt32.ofNat 0)) = none := rfl
  obtain ⟨written, tmp, ⟨events, hsmooth, hevents⟩, hfinalizing⟩ :=
    onwards_written_of_start hlaunched source none hlocal hparse hfree
  have hintact := hlaunched.onwards ⟨events, hsmooth, hevents⟩
  obtain ⟨hout, _, hsome, _⟩ := hintact.owned.new () tmp (by rw [hfinalizing]; rfl)
  have hartifact := hintact.progress ()
  rw [hfinalizing] at hartifact
  have hstep : cmdBuild out (fun _ : Unit ↦ invocation) () (.rename true) written.shared
      (written.locals ()) = some (written.shared.perform () (.rename tmp out),
        ⟨some (arena, entries), .reporting⟩) := by
    rw [cmdBuild, hfinalizing]
    exact if_pos hsome
  obtain ⟨world, hrename, hdisk⟩ : ∃ world,
      written.step (cmdBuild out fun _ : Unit ↦ invocation) ((), .rename true) = some world ∧
      world.shared = written.shared.perform () (.rename tmp out) :=
    ⟨_, step_eq_some.mpr ⟨_, _, hstep, rfl⟩, rfl⟩
  refine ⟨Unit, inferInstance, out, fun _ ↦ invocation, initial, events.map fun event ↦ ((), event),
    world, (), rfl, fun result hmem ↦ ?_, ?_, ?_⟩
  · obtain ⟨event, hevent, hpair⟩ := List.mem_map.mp hmem
    obtain rfl := (Prod.mk.inj hpair).2
    exact hsmooth _ hevent
  · rw [World.run, List.foldlM_append]
    exact Option.bind_eq_some_iff.mpr ⟨written, hevents, by simpa using hrename⟩
  · rw [hdisk, fs_perform, FsOp.apply_rename_target hout]
    exact hartifact

/-- Every key can be asked for in a query. -/
theorem exists_query {decode : Bytes → Bytes} (hdecode : IsPercentDecoder decode) (key : Bytes) :
    ∃ q, keyFromQuery decode (some q) = some key := by
  obtain ⟨text, htext⟩ := exists_parameter ([107], key)
  have hamp := notMem_of_parameter htext
  obtain ⟨q, hq⟩ := exists_toBytes (ascii_of_parameter htext)
  refine ⟨q, ?_⟩
  have hsplit : text.splitOn 38 = [text] := by
    have hjoined := List.splitOn_intercalate 38 (by simpa using hamp) (List.cons_ne_nil text [])
    rwa [List.intercalate_singleton] at hjoined
  rw [keyFromQuery, Option.bind_some, hq, hsplit,
    findKey_parameters hdecode (.cons htext .nil)]
  rfl

/-- A request that asks for a key is answered by a lookup of the key. -/
theorem plan_of_key {framework : Framework} {service : Service} {request : Request} {key : Bytes}
    (hkey : request.key framework = some key) {answer : Option Bytes}
    (hget : service.store.get key = .ok answer) (elapsed uptime : ℕ) :
    ∃ increments, request.plan framework service elapsed uptime =
      .ok (.answer (service.response answer) increments) := by
  rcases plan_cases framework service request elapsed uptime with
    ⟨key', method, response, increments, hsame, _, hlookup, hplan⟩ | ⟨hnone, _⟩
  · obtain rfl := Option.some.inj (hsame.symm.trans hkey)
    rw [response_of_lookup hget hlookup] at hplan
    exact ⟨increments, hplan⟩
  · rw [hkey] at hnone
    cases hnone

/-- An artifact is served with the dataset it was built from. -/
theorem serves_artifact (w : Width) (csv : CsvReader) (process : Process)
    {read : Path → Except IoError Bytes} {headerValue : String → Bool} (display : Path → String)
    (loadDuration : ℕ) {args : ServeArgs} {csv' : CsvReader} {opts : LoadOptions}
    {source bytes : Bytes} {pairs : Dataset} {flags : UInt32}
    (haccepted : Accepted opts (csv' ⟨opts.delimiter, opts.hasHeader⟩ source) pairs)
    (hbytes : bytes = compiledBytes (packed pairs) (layoutFrom 0 pairs) flags)
    (hread : read args.data = .ok bytes)
    (hmachine : w = .w32 → bytes.length ≤ Width.isizeMax .w32)
    (hheader : headerValue (args.typeOf flags) = true) :
    ∃ service, cmdServe w csv process read headerValue display loadDuration args =
        .ok (.ok service) ∧
      service.contentType = args.typeOf flags ∧
      service.defaultValue = args.defaultValue.map toBytes ∧
      ∀ key, ∃ answer, service.store.get key = .ok answer ∧
        ∀ value, answer = some value ↔ (key, value) ∈ pairs := by
  have hparse : parseCsv csv' process source opts =
      .ok (.ok (packed pairs, layoutFrom 0 pairs)) :=
    parseCsv_eq_ok_ok_iff.mpr ⟨pairs, haccepted, rfl⟩
  subst hbytes
  obtain ⟨parts, harena, hentries, hload⟩ := load_artifact w csv process read args.data
    (args.parse.loadOptions args.data) hparse hread hmachine
  obtain ⟨service, hserve⟩ := cmdServe_of_load headerValue display loadDuration args hload hheader
  obtain ⟨loaded, hload', hstore, hdefault, htype⟩ :=
    serveState_eq_ok (serveState_of_cmdServe hserve)
  obtain rfl := Except.ok.inj (Except.ok.inj (hload'.symm.trans hload))
  have hpairs : service.store.pairs = pairs := by
    rw [hstore, pairs_store, Parts.pairs, harena, hentries]
    exact pairs_ofPairs pairs haccepted.size_le
  have hanswers := get_eq_some_iff service.sound (hpairs.symm ▸ haccepted.nodup)
  rw [hpairs] at hanswers
  exact ⟨service, hserve, htype, hdefault, hanswers⟩

/-- What a client has to get that asks for a key. -/
structure AnswersFrom (pairs : Dataset) (contentType : String) (defaultValue : Option String)
    (key : Bytes) (response : Response) : Prop where
  found : ∀ value, (key, value) ∈ pairs → response = ⟨200, [("content-type", contentType)], value⟩
  missing : key ∉ pairs.keys → defaultValue = none → response = ⟨404, [], []⟩
  defaulted : ∀ text, key ∉ pairs.keys → defaultValue = some text → response =
    ⟨200, [("content-type", contentType), ("x-justkv-default", "1")], toBytes text⟩

theorem answersFrom_response {state : AppState} {pairs : Dataset} {contentType : String}
    {defaultValue : Option String} {key : Bytes} {answer : Option Bytes}
    (htype : state.contentType = contentType)
    (hdefault : state.defaultValue = defaultValue.map toBytes)
    (hanswer : ∀ value, answer = some value ↔ (key, value) ∈ pairs) :
    AnswersFrom pairs contentType defaultValue key (state.response answer) := by
  have hnone (hmissing : key ∉ pairs.keys) : answer = none := by
    rw [Option.eq_none_iff_forall_ne_some]
    intro value hvalue
    exact hmissing (List.mem_map_of_mem (f := Prod.fst) ((hanswer value).mp hvalue))
  constructor
  case found =>
    intro value hvalue
    rw [(hanswer value).mpr hvalue, ← htype]
    rfl
  case missing =>
    intro hmissing htext
    simp [AppState.response, hnone hmissing, hdefault, htext]
  case defaulted =>
    intro text hmissing htext
    simp [AppState.response, hnone hmissing, hdefault, htext, htype]

/-- A dataset that is written in any way and built becomes one artifact, and every server of it
answers every request for a key by the pair of the key, or as for a missing key if there is none. -/
theorem rows_to_answers (invocation : Invocation) (pairs : Dataset) (header : List (List Bytes))
    (source : Bytes)
    (hcsv : Follows invocation.csv ⟨(invocation.parse.loadOptions invocation.data).delimiter,
      invocation.parse.header⟩)
    (hdelimiter : IsDelimiter (invocation.parse.loadOptions invocation.data).delimiter)
    (hheader : header.length = if invocation.parse.header then 1 else 0)
    (hsource : Renders (invocation.parse.loadOptions invocation.data).delimiter
      (header ++ pairs.map fun pair ↦ [pair.1, pair.2]) source)
    (hnodup : pairs.keys.Nodup) (hsize : pairs.size ≤ u32Max)
    (hutf8 : ∀ pair ∈ pairs, invocation.parse.allowBinary = true ∨ (fromUtf8 pair.2).isSome) :
    ∃ bytes, (∀ bytes', invocation.Produces source bytes' ↔ bytes' = bytes) ∧
      ∀ (w : Width) (csv : CsvReader) (process : Process) (read : Path → Except IoError Bytes)
        (headerValue : String → Bool) (display : Path → String) (loadDuration : ℕ)
        (args : ServeArgs), read args.data = .ok bytes →
        (w = .w32 → bytes.length ≤ Width.isizeMax .w32) →
        headerValue (args.typeOf invocation.flags) = true →
        ∃ service, cmdServe w csv process read headerValue display loadDuration args =
            .ok (.ok service) ∧
          ∀ (framework : Framework), IsPercentDecoder framework.decode → ∀ key,
            (∃ q, (Request.mk (some .get) ["kv"] (some q)).key framework = some key) ∧
            ∀ (request : Request) (elapsed uptime : ℕ), request.key framework = some key →
              ∃ response increments, request.plan framework service elapsed uptime =
                  .ok (.answer response increments) ∧
                AnswersFrom pairs (args.typeOf invocation.flags) args.defaultValue key
                  response := by
  have haccepted : Accepted (invocation.parse.loadOptions invocation.data)
      (invocation.csv ⟨(invocation.parse.loadOptions invocation.data).delimiter,
        (invocation.parse.loadOptions invocation.data).hasHeader⟩ source) pairs := by
    refine ⟨?_, (hcsv source).2, hnodup, hsize, hutf8⟩
    refine (hcsv source).1.trans ((fields_of_renders hdelimiter hsource _).trans ?_)
    by_cases hskips : invocation.parse.header = true
    · rw [if_pos hskips] at hheader ⊢
      rw [← hheader, List.drop_left]
    · rw [if_neg hskips] at hheader ⊢
      rw [List.length_eq_zero_iff.mp hheader, List.nil_append]
  have hparse : parseCsv invocation.csv invocation.process source
      (invocation.parse.loadOptions invocation.data) =
        .ok (.ok (packed pairs, layoutFrom 0 pairs)) :=
    parseCsv_eq_ok_ok_iff.mpr ⟨pairs, haccepted, rfl⟩
  refine ⟨compiledBytes (packed pairs) (layoutFrom 0 pairs) invocation.flags, fun bytes' ↦
    ⟨fun hproduces ↦ ?_, ?_⟩, ?_⟩
  · obtain ⟨arena, entries, hparse', rfl⟩ := hproduces.eq_compiledBytes
    obtain ⟨rfl, rfl⟩ := Prod.mk.inj (Except.ok.inj (Except.ok.inj (hparse'.symm.trans hparse)))
    rfl
  · rintro rfl
    exact exists_produces hparse
  · intro w csv process read headerValue display loadDuration args hread hmachine hheaderValue
    obtain ⟨service, hserve, htype, hdefault, hanswers⟩ := serves_artifact w csv process display
      loadDuration haccepted rfl hread hmachine hheaderValue
    refine ⟨service, hserve, fun framework hdecode key ↦ ⟨?_, fun request elapsed uptime hkey ↦ ?_⟩⟩
    · exact exists_query hdecode key
    · obtain ⟨answer, hget, hanswer⟩ := hanswers key
      obtain ⟨increments, hplan⟩ := plan_of_key hkey hget elapsed uptime
      exact ⟨_, increments, hplan, answersFrom_response htype hdefault hanswer⟩

/-- A quoted row with a tab after a header, built and asked for as `/kv/a`. -/
theorem rows_to_answers_tabs :
    let invocation : Invocation :=
      ⟨Csv.grammar, default, 7, [.normal [100]], ⟨some '\t', true, false⟩⟩
    let framework : Framework := ⟨percentDecode, some, fun _ ↦ [], id, fun _ ↦ "0", fun _ ↦ "0"⟩
    ∃ bytes service increments,
      invocation.Produces [107, 9, 118, 10, 34, 97, 34, 9, 49, 13, 10] bytes ∧
      cmdServe .w64 Csv.grammar default (fun _ ↦ .ok bytes) (fun _ ↦ true) (fun _ ↦ "kv.bin") 0
        default = .ok (.ok service) ∧
      Request.plan framework service ⟨some .get, ["kv", "a"], none⟩ 0 0 = .ok (.answer
        ⟨200, [("content-type", "text/plain; charset=utf-8")], [49]⟩ increments) := by
  intro invocation framework
  have hheader : RecordText 9 [[107], [118]] [107, 9, 118] :=
    .cons (.plain (by decide +kernel)) (.last (.plain (by decide +kernel)))
  have hrow : RecordText 9 [[97], [49]] [34, 97, 34, 9, 49] :=
    .cons (.quoted [97]) (.last (.plain (by decide +kernel)))
  have hsource : Renders 9 [[[107], [118]], [[97], [49]]]
      [107, 9, 118, 10, 34, 97, 34, 9, 49, 13, 10] :=
    .bare (.cons hheader (by simp) rfl (.cons hrow (by simp) rfl (.blank rfl .empty))) rfl
  obtain ⟨bytes, hproduces, hserves⟩ := rows_to_answers invocation [([97], [49])] [[[107], [118]]]
    [107, 9, 118, 10, 34, 97, 34, 9, 49, 13, 10] (follows_grammar _) (by decide +kernel) rfl hsource
    (by decide) (by decide) (by decide +kernel)
  obtain ⟨service, hserve, hanswers⟩ := hserves .w64 Csv.grammar default (fun _ ↦ .ok bytes)
    (fun _ ↦ true) (fun _ ↦ "kv.bin") 0 default rfl (by simp) rfl
  obtain ⟨response, increments, hplan, hresponse⟩ := (hanswers framework
    isPercentDecoder_percentDecode [97]).2 ⟨some .get, ["kv", "a"], none⟩ 0 0 (by decide +kernel)
  refine ⟨bytes, service, increments, (hproduces bytes).mpr rfl, hserve, ?_⟩
  have htype : (default : ServeArgs).typeOf invocation.flags = "text/plain; charset=utf-8" := by
    decide +kernel
  rw [hplan, hresponse.found [49] List.mem_cons_self, htype]

end JustKV
