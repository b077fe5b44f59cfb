import JustKV.Cli.BuildAtomic
import JustKV.Store.LoadDistinct

/-!
# Check, build and serve

What `check` accepts and `build` compiles is what `serve` answers from, in both formats, unless
the file starts with the magic bytes: `check` and `build` then still parse it as CSV, while
`serve` reads it as a compiled file.
-/

open Checked HashTable Interleaving

namespace JustKV

open Compiled

section Formats

variable {w : Width} {csv : CsvReader} {process : Process} {read : Path → Except IoError Bytes}
  {path : Path} {data arena : Bytes} {opts : LoadOptions} {entries : List Entry}

/-- Loading parts that are there ends in the store of these parts. -/
theorem load_of_loadParts {format : SourceFormat} {flags : UInt32} (hread : read path = .ok data)
    (h : loadParts w csv process data opts = .ok (.ok (arena, entries, format, flags))) :
    ∃ parts : Parts, parts.arena = arena ∧ parts.entries = entries ∧
      load w csv process read path opts =
        .ok (.ok ⟨parts.store process.tableLayout process.storeHasher, format, flags, path⟩) := by
  obtain ⟨parts, rfl, rfl⟩ := parts_of_loadParts h
  have hstore := fromParts_eq_ok parts process.tableLayout process.storeHasher
  refine ⟨parts, rfl, rfl, ?_⟩
  rw [load, hread]
  simp only [h, ok_bind, hstore, pure_eq_ok]

/-- Every load ends in the store of the parts of the file. -/
theorem parts_of_load {loaded : Loaded} (h : load w csv process read path opts = .ok (.ok loaded))
    (hread : read path = .ok data) :
    ∃ (parts : Parts) (format : SourceFormat) (flags : UInt32),
      loadParts w csv process data opts = .ok (.ok (parts.arena, parts.entries, format, flags)) ∧
      loaded = ⟨parts.store process.tableLayout process.storeHasher, format, flags, path⟩ := by
  have hload := h
  rw [load, hread] at hload
  obtain ⟨result, hparts, hresult⟩ := bind_eq_ok.mp hload
  cases result with
  | error failure => simp at hresult
  | ok result =>
    obtain ⟨arena, entries, format, flags⟩ := result
    obtain ⟨parts, rfl, rfl, hstore⟩ := load_of_loadParts hread hparts
    exact ⟨parts, format, flags, hparts, Except.ok.inj (Except.ok.inj (h.symm.trans hstore))⟩

/-- A file that one process can parse loads in every process. -/
theorem load_csv (w : Width) (process' : Process) (read : Path → Except IoError Bytes) (path : Path)
    (hread : read path = .ok data) (hmagic : isCompiled data = false)
    (h : parseCsv csv process data opts = .ok (.ok (arena, entries))) :
    ∃ parts : Parts, parts.arena = arena ∧ parts.entries = entries ∧
      load w csv process' read path opts =
        .ok (.ok ⟨parts.store process'.tableLayout process'.storeHasher, .csv,
          if opts.allowBinary then flagBinary else 0, path⟩) := by
  rw [parseCsv_process process'] at h
  exact load_of_loadParts hread ((loadParts_csv hmagic).mpr ⟨h, rfl, rfl⟩)

/-- The artifact of parsed parts loads under any options. -/
theorem load_artifact (w : Width) (csv' : CsvReader) (process' : Process)
    (read : Path → Except IoError Bytes) (path : Path) (opts' : LoadOptions) {flags : UInt32}
    (h : parseCsv csv process data opts = .ok (.ok (arena, entries)))
    (hread : read path = .ok (compiledBytes arena entries flags))
    (hmachine : w = .w32 → (compiledBytes arena entries flags).length ≤ Width.isizeMax .w32) :
    ∃ parts : Parts, parts.arena = arena ∧ parts.entries = entries ∧
      load w csv' process' read path opts' =
        .ok (.ok ⟨parts.store process'.tableLayout process'.storeHasher, .compiled, flags, path⟩) := by
  have hmagic := isCompiled_compiledBytes arena entries flags []
  have hclassify := classify_artifact flags h []
  rw [List.append_nil] at hmagic hclassify
  have hdecode : readCompiled w (compiledBytes arena entries flags) =
      .ok (.ok (arena, entries, flags)) := by
    rw [readCompiled_eq_ok hmachine, hclassify]
  exact load_of_loadParts hread ((loadParts_compiled hmagic).mpr ⟨hdecode, rfl⟩)

/-- Stores of the same parts with distinct keys are indistinguishable. -/
theorem stores_agree {left right : Parts} (harena : left.arena = right.arena)
    (hentries : left.entries = right.entries) (hnodup : (keysOf left.arena left.entries).Nodup)
    (layout layout' : Layout Entry) (hasher hasher' : RandomState) :
    (left.store layout hasher).len = (right.store layout' hasher').len ∧
      (left.store layout hasher).arenaLen = (right.store layout' hasher').arenaLen ∧
      ∀ key, ∃ answer, (left.store layout hasher).get key = .ok answer ∧
        (right.store layout' hasher').get key = .ok answer := by
  have hpairs : left.pairs = right.pairs := by rw [Parts.pairs, Parts.pairs, harena, hentries]
  have hleft : (left.store layout hasher).Sound := sound_store left layout hasher
  have hright : (right.store layout' hasher').Sound := sound_store right layout' hasher'
  refine ⟨by simp [hentries], by simp [harena], ?_⟩
  apply get_of_pairs_perm hleft hright
  · rw [pairs_store, pairs_store, hpairs]
  · rwa [pairs_store, keys_pairs]

end Formats

/-- Phases of a run that has not got past its parse. -/
def Phase.Idle : Phase → Prop
  | .start => True
  | .exited _ leftover => leftover = none
  | .crashed leftover => leftover = none
  | _ => False

theorem idle_step {out : Path} {invocation : Invocation} {build next : Build}
    {event : BuildEvent} {op : Option FsOp} {data : Bytes} {errors : List DataError}
    (hparse : parseCsv invocation.csv invocation.process data
      (invocation.parse.loadOptions invocation.data) = .ok (.error errors))
    (hread : ∀ result, event = .read result → result = .ok data) (hidle : build.phase.Idle)
    (hstep : build.step out invocation event = some (op, next)) :
    op = none ∧ next.phase.Idle := by
  obtain ⟨parts, phase⟩ := build
  cases phase with
  | start =>
    cases event with
    | read result =>
      obtain rfl := hread result rfl
      simp only [Build.step, parseValidated, hparse, ok_bind, pure_eq_ok, Option.some.injEq,
        Prod.mk.injEq] at hstep
      obtain ⟨rfl, rfl⟩ := hstep
      exact ⟨rfl, rfl⟩
    | crash =>
      obtain ⟨rfl, rfl⟩ := Prod.mk.inj (Option.some.inj hstep)
      exact ⟨rfl, rfl⟩
    | _ => simp [Build.step] at hstep
  | exited code leftover => cases event <;> simp [Build.step] at hstep
  | crashed leftover => cases event <;> simp [Build.step] at hstep
  | _ => exact hidle.elim

/-- A run that only ever reads a rejected file performs no operation. -/
theorem rejected_build_writes_nothing {ι : Type} [DecidableEq ι] {out : Path}
    {invocations : ι → Invocation} {initial : FileSystem} {schedule : List (ι × BuildEvent)}
    {world : World ι (Disk ι) Build} {i : ι} {data : Bytes} {errors : List DataError}
    (hparse : parseCsv (invocations i).csv (invocations i).process data
      ((invocations i).parse.loadOptions (invocations i).data) = .ok (.error errors))
    (hreads : ∀ result, (i, .read result) ∈ schedule → result = .ok data)
    (hrun : (launched initial).run (cmdBuild out invocations) schedule = some world) :
    ∀ op, (i, op) ∉ world.shared.history := by
  suffices h : (∀ op, (i, op) ∉ world.shared.history) ∧ (world.locals i).phase.Idle from h.1
  refine build_invariant (motive := fun world ↦
    (∀ op, (i, op) ∉ world.shared.history) ∧ (world.locals i).phase.Idle) ?_ hrun
    ⟨by simp [launched], trivial⟩
  intro before j event next op hmem hbefore hop
  by_cases hj : j = i
  · subst hj
    have hread : ∀ result, event = .read result → result = .ok data := by
      rintro result rfl
      exact hreads result hmem
    obtain ⟨rfl, hidle⟩ := idle_step hparse hread hbefore.2 hop
    rw [locals_advance_self]
    exact ⟨hbefore.1, hidle⟩
  · rw [locals_advance_of_ne (Ne.symm hj)]
    refine ⟨fun op' hmem ↦ ?_, hbefore.2⟩
    rcases mem_history_after.mp hmem with hold | ⟨hsame, _⟩
    · exact hbefore.1 op' hold
    · exact hj hsame.symm

/-- The two load paths are indistinguishable, whatever the processes and the later options.  At
64 bits no size is assumed; at 32 bits the artifact has to fit in memory to be read. -/
theorem load_paths_agree (invocation : Invocation) (data : Bytes) (opts : LoadOptions)
    (hopts : invocation.parse.loadOptions invocation.data = opts)
    (hmagic : isCompiled data = false) :
    (∀ errors, parseCsv invocation.csv invocation.process data opts = .ok (.error errors) →
      (∀ w process path, load w invocation.csv process (fun _ ↦ .ok data) path opts =
        .ok (.error (.data errors))) ∧
      ∀ (ι : Type) [DecidableEq ι] (out : Path) (invocations : ι → Invocation)
        (initial : FileSystem) (schedule : List (ι × BuildEvent))
        (world : World ι (Disk ι) Build) (i : ι), invocations i = invocation →
        (∀ result, (i, .read result) ∈ schedule → result = .ok data) →
        (launched initial).run (cmdBuild out invocations) schedule = some world →
        ∀ op, (i, op) ∉ world.shared.history) ∧
    (∀ arena entries,
      parseCsv invocation.csv invocation.process data opts = .ok (.ok (arena, entries)) →
      ∀ (w : Width) (process process' : Process) (csv' : CsvReader) (path path' : Path)
        (opts' : LoadOptions),
        (w = .w32 →
          (compiledBytes arena entries invocation.flags).length ≤ Width.isizeMax .w32) →
        ∃ loaded artifact,
          load w invocation.csv process (fun _ ↦ .ok data) path opts = .ok (.ok loaded) ∧
          load w csv' process' (fun _ ↦ .ok (compiledBytes arena entries invocation.flags)) path'
            opts' = .ok (.ok artifact) ∧
          artifact.format = .compiled ∧ artifact.flags = loaded.flags ∧
          artifact.store.len = loaded.store.len ∧
          artifact.store.arenaLen = loaded.store.arenaLen ∧
          ∀ key, ∃ answer, artifact.store.get key = .ok answer ∧
            loaded.store.get key = .ok answer) := by
  subst hopts
  refine ⟨fun errors hparse ↦ ⟨?_, ?_⟩, ?_⟩
  · intro w process path
    exact load_csv_error rfl hmagic ((parseCsv_process invocation.process).trans hparse)
  · intro ι _ out invocations initial schedule world i hi hreads hrun
    exact rejected_build_writes_nothing (hi ▸ hparse) hreads hrun
  · intro arena entries hparse w process process' csv' path path' opts' hmachine
    obtain ⟨left, harena, hentries, hload⟩ :=
      load_csv w process (fun _ ↦ .ok data) path rfl hmagic hparse
    obtain ⟨right, harena', hentries', hload'⟩ := load_artifact w csv' process'
      (fun _ ↦ .ok (compiledBytes arena entries invocation.flags)) path' opts' hparse rfl hmachine
    have hnodup : (keysOf right.arena right.entries).Nodup := by
      rw [harena', hentries']
      exact nodup_of_parseCsv hparse
    have hagree := stores_agree (harena'.trans harena.symm) (hentries'.trans hentries.symm) hnodup
      process'.tableLayout process.tableLayout process'.storeHasher process.storeHasher
    exact ⟨_, _, hload, hload', rfl, rfl, hagree⟩

/-- An accepted file of one row, compiled with binary values allowed and loaded without. -/
theorem load_paths_agree_binary :
    let invocation : Invocation := ⟨Csv.grammar, default, 7, [], ⟨none, false, true⟩⟩
    ∃ loaded artifact,
      load .w64 Csv.grammar default (fun _ ↦ .ok [97, 44, 255, 10]) [] ⟨44, false, true⟩ =
        .ok (.ok loaded) ∧
      load .w64 Csv.grammar default (fun _ ↦ .ok (compiledBytes [97, 255] [⟨0, 1, 1, 1⟩]
        invocation.flags)) [] default = .ok (.ok artifact) ∧
      artifact.flags = loaded.flags := by
  intro invocation
  have hparse : parseCsv Csv.grammar default [97, 44, 255, 10] ⟨44, false, true⟩ =
      .ok (.ok ([97, 255], [⟨0, 1, 1, 1⟩])) := by decide +kernel
  obtain ⟨loaded, artifact, hloaded, hartifact, _, hflags, _⟩ :=
    (load_paths_agree invocation [97, 44, 255, 10] ⟨44, false, true⟩ (by decide +kernel)
      (by decide)).2 _ _ hparse .w64 default default Csv.grammar [] [] default (by decide)
  exact ⟨loaded, artifact, hloaded, hartifact, hflags⟩

/-- The file `JUSTKV01,1` passes the check as a CSV file and is refused by `serve` as a truncated
compiled file. -/
theorem check_accepts_serve_refuses :
    let read : Path → Except IoError Bytes := fun _ ↦
      .ok [74, 85, 83, 84, 75, 86, 48, 49, 44, 49, 10]
    cmdCheck Csv.grammar default read [] default = .ok exitOk ∧
      serveLoad Csv.grammar default read .w64 [] default = .ok (.error exitInvalidData) := by
  intro read
  have hload : load .w64 Csv.grammar default read [] (ParseArgs.loadOptions default []) =
      .ok (.error (.compiled .truncated)) := by rfl
  refine ⟨by decide +kernel, ?_⟩
  rw [serveLoad, hload]
  rfl

/-- What the check accepts is served unless it starts with the magic bytes, and then the load is
that of a compiled file, whatever the options. -/
theorem check_implies_serve (w : Width) (csv : CsvReader) (checking serving : Process)
    (read : Path → Except IoError Bytes) (path : Path) (parse : ParseArgs) (data : Bytes)
    (hread : read path = .ok data)
    (hcheck : cmdCheck csv checking read path parse = .ok exitOk) :
    (isCompiled data = false →
      ∃ loaded arena entries, serveLoad csv serving read w path parse = .ok (.ok loaded) ∧
        parseCsv csv checking data (parse.loadOptions path) = .ok (.ok (arena, entries)) ∧
        ∀ layout hasher, ∃ store, Store.fromParts layout hasher arena entries = .ok store ∧
          ∀ key, ∃ answer, loaded.store.get key = .ok answer ∧ store.get key = .ok answer) ∧
    (isCompiled data = true → ∀ csv' process' opts,
      loadParts w csv' process' data opts =
        (readCompiled w data).map fun result ↦
          (result.mapError .compiled).map fun (arena, entries, flags) ↦
            (arena, entries, .compiled, flags)) := by
  constructor
  · intro hmagic
    obtain ⟨data', ⟨arena, entries⟩, hread', hparse⟩ := cmdCheck_eq_exitOk.mp hcheck
    obtain rfl : data = data' := Except.ok.inj (hread.symm.trans hread')
    obtain ⟨parts, rfl, rfl, hload⟩ := load_csv w serving read path hread hmagic hparse
    have hserve : serveLoad csv serving read w path parse = .ok (.ok
        ⟨parts.store serving.tableLayout serving.storeHasher, .csv,
          if (parse.loadOptions path).allowBinary then flagBinary else 0, path⟩) := by
      rw [serveLoad, hload]
      rfl
    refine ⟨_, _, _, hserve, hparse, fun layout hasher ↦ ?_⟩
    refine ⟨_, fromParts_eq_ok parts layout hasher, ?_⟩
    exact (stores_agree rfl rfl (nodup_of_parseCsv hparse) _ _ _ _).2.2
  · intro hmagic csv' process' opts
    rw [loadParts, if_pos hmagic]
    rcases readCompiled w data with fault | error | parts <;> rfl

/-- The check of a one-row file and the load that follows it. -/
theorem check_implies_serve_row :
    ∃ loaded arena entries,
      serveLoad Csv.grammar default (fun _ ↦ .ok [97, 44, 49, 10]) .w64 [] default =
        .ok (.ok loaded) ∧
      parseCsv Csv.grammar default [97, 44, 49, 10] (ParseArgs.loadOptions default []) =
        .ok (.ok (arena, entries)) := by
  have hcheck : cmdCheck Csv.grammar default (fun _ ↦ .ok [97, 44, 49, 10]) [] default =
      .ok exitOk := by decide +kernel
  obtain ⟨loaded, arena, entries, hserve, hparse, _⟩ := (check_implies_serve .w64 Csv.grammar
    default default (fun _ ↦ .ok [97, 44, 49, 10]) [] default _ rfl hcheck).1 (by decide)
  exact ⟨loaded, arena, entries, hserve, hparse⟩

end JustKV
