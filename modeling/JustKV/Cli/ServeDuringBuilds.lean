import JustKV.Cli.BuildReaders

/-!
# Serving while builds run

`fs::read` opens a file and takes many reads to see all of it, while builds publish new files under
the name that was opened.  What it returns is still what the name stood for at the moment it was
opened, so a server starts from one whole dataset, and from a new one if a build had succeeded by
then.
-/

open Checked Interleaving

namespace JustKV

open Compiled

variable {ι : Type} {commands : ι → Command} {initial : Volume} {world : World ι Volume Agent}
  {path : Path} {file : ℕ} {content : Bytes} {i : ι}

/-- A reading of this file, or one that has failed or has come to its end. -/
def Reading.Of (file : ℕ) (content : Bytes) : Reading → Prop
  | .idle => False
  | .reading file' data => file' = file ∧ data <+: content
  | .finished (.ok data) => data = content
  | .finished (.error _) => True

/-- A piece that is read prolongs what has been read. -/
theorem append_take_prefix {data content : Bytes} (h : data <+: content) (room : ℕ) :
    data ++ (content.drop data.length).take (room + 1) <+: content := by
  obtain ⟨rest, rfl⟩ := h
  rw [List.drop_left]
  exact (List.prefix_append_right_inj data).mpr (List.take_prefix _ rest)

/-- Nothing is left when a read returns nothing. -/
theorem eq_of_take_nil {data content : Bytes} (h : data <+: content) {room : ℕ}
    (hpiece : (content.drop data.length).take (room + 1) = []) : data = content := by
  obtain ⟨rest, rfl⟩ := h
  rw [List.drop_left, List.take_eq_nil_iff] at hpiece
  obtain rfl := hpiece.resolve_left (Nat.succ_ne_zero room)
  exact (List.append_nil data).symm

theorem Reading.Of.step {volume : Volume} {reading reading' : Reading} {event : ReadEvent}
    (h : reading.Of file (volume.contents file))
    (hstep : reading.step volume path event = some reading') :
    reading'.Of file (volume.contents file) := by
  unfold Reading.step at hstep
  split at hstep
  case h_1 => exact h.elim
  case h_2 => exact h.elim
  case h_3 file' data room =>
    obtain ⟨rfl, hprefix⟩ := h
    obtain rfl := Option.some.inj hstep
    split
    case isTrue hpiece => exact eq_of_take_nil hprefix hpiece
    case isFalse => exact ⟨rfl, append_take_prefix hprefix room⟩
  case h_4 =>
    obtain rfl := Option.some.inj hstep
    trivial
  case h_5 => simp at hstep

/-- Process `i` reads a file that has been seen under the path, whatever the path stands for by
now. -/
structure Reads (commands : ι → Command) (initial : Volume) (path : Path) (file : ℕ)
    (content : Bytes) (i : ι) (world : World ι Volume Agent) : Prop where
  consistent : Consistent commands initial world
  seen : Seen commands initial world path file
  unchanged : world.shared.contents file = content
  reading : (world.locals i).reading.Of file content

variable [DecidableEq ι]

theorem Reads.step (hseparate : Separate commands)
    (h : Reads commands initial path file content i world) {j : ι} {event : FileEvent}
    {volume : Volume} {next : Agent}
    (hstep : onVolume commands j event world.shared (world.locals j) = some (volume, next)) :
    Reads commands initial path file content i (world.advance j volume next) := by
  have hnext := consistent_step hseparate h.consistent hstep
  -- Only the reading of the process that steps can change.
  have hreading (hstepped : j = i → next.reading.Of file content) :
      ((world.advance j volume next).locals i).reading.Of file content := by
    by_cases hij : i = j
    · subst hij
      rw [locals_advance_self]
      exact hstepped rfl
    · rw [locals_advance_of_ne hij]
      exact h.reading
  rcases step_of_onVolume hstep with ⟨out, invocation, event', op, hcommand, _, hbuild, heffect,
    hsame⟩ | ⟨path', event', _, _, rfl, hread, hbuild, hhandle⟩
  · have hmove := move_of_step hbuild
    obtain ⟨hhandling, _⟩ := handling_of_move hcommand hmove (h.consistent.holding j) heffect
    obtain ⟨hseen, hcontents⟩ := h.consistent.seen_advance hcommand hmove hhandling h.seen
    refine ⟨hnext, hseen, hcontents.trans h.unchanged, hreading fun hij ↦ ?_⟩
    subst hij
    rw [hsame]
    exact h.reading
  · refine ⟨hnext, h.seen.read_advance hbuild hhandle, h.unchanged, hreading fun hij ↦ ?_⟩
    subst hij
    have hbefore := h.reading
    rw [← h.unchanged] at hbefore ⊢
    exact hbefore.step hread

/-- After the file has been opened, the reading is one of what the path stood for. -/
theorem reads_opened (hseparate : Separate commands) {opened : World ι Volume Agent}
    (h : Consistent commands initial opened) (hcommand : commands i = .serve path)
    (hpath : ¬Temporary commands path)
    (hstep : opened.step (onVolume commands) (i, .read (.openFile (.ok ()))) = some world) :
    ∃ file, opened.shared.entries path = some file ∧
      Reads commands initial path file (opened.shared.contents file) i world := by
  obtain ⟨volume, agent, hprogram, rfl⟩ := step_eq_some.mp hstep
  have hnext := consistent_step hseparate h hprogram
  rcases step_of_onVolume hprogram with ⟨_, _, _, _, _, hevent, _⟩ |
    ⟨path', event', hi, hevent, rfl, hread, hbuild, hhandle⟩
  · cases hevent
  · obtain rfl : path = path' := by simpa using hcommand.symm.trans hi
    obtain rfl := FileEvent.read.inj hevent
    cases hidle : (opened.locals i).reading with
    | idle =>
      rw [hidle] at hread
      obtain ⟨file, hentry, hreading⟩ := Option.map_eq_some_iff.mp hread
      have hseen := h.seen hseparate hpath hentry
      refine ⟨file, hentry, hnext, hseen.read_advance hbuild hhandle, rfl, ?_⟩
      rw [locals_advance_self, ← hreading]
      exact ⟨rfl, List.nil_prefix⟩
    | _ => simp [hidle, Reading.step] at hread

/-- In every interleaving of builds and readers, what `fs::read` returns is what the path stood for
at the moment it was opened, however many builds have published there since. -/
theorem read_is_atomic (commands : ι → Command) (hseparate : Separate commands) (initial : Volume)
    (i : ι) (path : Path) (hcommand : commands i = .serve path)
    (hpath : ¬Temporary commands path) (before after : List (ι × FileEvent))
    (opened world : World ι Volume Agent)
    (hopened : (mounted initial).run (onVolume commands) before = some opened)
    (hrun : opened.run (onVolume commands) ((i, .read (.openFile (.ok ()))) :: after) = some world)
    (data : Bytes) (hdata : (world.locals i).reading = .finished (.ok data)) :
    opened.shared.fs path = some data := by
  have hconsistent : Consistent commands initial opened :=
    consistent_of_reaches hseparate ⟨before, hopened⟩ consistent_mounted
  rw [World.run, List.foldlM_cons] at hrun
  obtain ⟨middle, hfirst, hrest⟩ := Option.bind_eq_some_iff.mp hrun
  obtain ⟨file, hentry, hreads⟩ := reads_opened hseparate hconsistent hcommand hpath hfirst
  have hlast : Reads commands initial path file (opened.shared.contents file) i world :=
    Reaches.invariant (fun _ _ _ _ _ _ h hstep ↦ h.step hseparate hstep) ⟨after, hrest⟩ hreads
  have hreading := hlast.reading
  rw [hdata] at hreading
  rw [Volume.fs, hentry, Option.map_some, show data = _ from hreading]

/-- A reader opens the old file, and reads it to its end after a build has replaced it. -/
theorem read_is_atomic_replaced :
    let out : Path := [.normal [107]]
    let invocation : Invocation := ⟨Csv.grammar, default, 7, [.normal [100]], default⟩
    let commands (reader : Bool) : Command := if reader then .serve out else .build out invocation
    let initial := (Volume.empty.create out).write 0 [1, 2]
    let before : List (Bool × FileEvent) :=
      [(false, .build (.read (.ok [97, 44, 49, 10]))),
        (false, .build (.createNew none (.ok ())))] ++
        List.replicate 10 (false, .build .writeAll) ++ [(false, .build (.spill 90))]
    let after : List (Bool × FileEvent) :=
      [(true, .read (.readSome 0)), (false, .build .flush), (false, .build (.rename true)),
        (true, .read (.readSome 7)), (true, .read (.readSome 7))]
    ∃ opened world, (mounted initial).run (onVolume commands) before = some opened ∧
      opened.run (onVolume commands) ((true, .read (.openFile (.ok ()))) :: after) = some world ∧
      (world.locals true).reading = .finished (.ok [1, 2]) ∧
      (world.shared.fs out).map List.length = some 42 ∧ opened.shared.fs out = some [1, 2] := by
  intro out invocation commands initial before after
  have hresults : ((mounted initial).run (onVolume commands) before).bind (fun opened ↦
      (opened.run (onVolume commands) ((true, .read (.openFile (.ok ()))) :: after)).map
        fun world ↦ ((world.locals true).reading, (world.shared.fs out).map List.length)) =
      some (.finished (.ok [1, 2]), some 42) := by decide +kernel
  obtain ⟨opened, hopened, hresult⟩ := Option.bind_eq_some_iff.mp hresults
  obtain ⟨world, hrun, hresult⟩ := Option.map_eq_some_iff.mp hresult
  obtain ⟨hreading, hlength⟩ := Prod.mk.inj hresult
  have hseparate : Separate commands := separate_build_and_server out out invocation
  have hout : ¬Temporary commands out := hseparate out ⟨false, invocation, rfl⟩
  exact ⟨opened, world, hopened, hrun, hreading, hlength, read_is_atomic commands hseparate initial
    true out rfl hout before after opened world hopened hrun [1, 2] hreading⟩

section Serve

variable {w : Width} {csv : CsvReader} {process : Process} {read : Path → Except IoError Bytes}
  {opts : LoadOptions} {loaded : Loaded}

/-- A loaded artifact holds the dataset of the source that was parsed for it. -/
theorem from_compiledBytes {invocation : Invocation} {source arena : Bytes} {entries : List Entry}
    (hload : load w csv process read path opts = .ok (.ok loaded))
    (hread : read path = .ok (compiledBytes arena entries invocation.flags))
    (hparse : parseCsv invocation.csv invocation.process source
      (invocation.parse.loadOptions invocation.data) = .ok (.ok (arena, entries))) :
    loaded.From (invocation.parse.loadOptions invocation.data) (invocation.csv
      ⟨(invocation.parse.loadOptions invocation.data).delimiter, invocation.parse.header⟩
        source) := by
  obtain ⟨parts, format, flags, hparts, rfl⟩ := parts_of_load hload hread
  rw [← List.append_nil (compiledBytes arena entries invocation.flags)] at hparts
  obtain ⟨rfl, rfl, rfl⟩ := loadParts_artifact hparse hparts
  refine ⟨?_, rfl⟩
  rw [pairs_store]
  exact accepted_of_parseCsv hparse

/-- A store of delivered records answers exactly these. -/
theorem Loaded.From.get_eq_some_iff {delivery : Delivery} (h : loaded.From opts delivery)
    (hsound : loaded.store.Sound) (key : Bytes) :
    ∃ answer, loaded.store.get key = .ok answer ∧ ∀ value, answer = some value ↔
      ∃ record ∈ delivery.records, record.fields = [key, value] := by
  obtain ⟨answer, hget, hanswer⟩ := JustKV.get_eq_some_iff hsound h.accepted.nodup key
  refine ⟨answer, hget, fun value ↦ ?_⟩
  rw [hanswer, h.accepted.mem_iff]

end Serve

/-- A server that starts among running builds serves what its path stood for when it opened it:
the file from before, but only if no build for the path had succeeded by then, or the dataset
that one build had read. -/
theorem server_starts_from_one_dataset (commands : ι → Command) (hseparate : Separate commands)
    (initial : Volume) (i : ι) (args : ServeArgs) (hcommand : commands i = .serve args.data)
    (hpath : ¬Temporary commands args.data) (before after : List (ι × FileEvent))
    (opened world : World ι Volume Agent)
    (hopened : (mounted initial).run (onVolume commands) before = some opened)
    (hrun : opened.run (onVolume commands) ((i, .read (.openFile (.ok ()))) :: after) = some world)
    (result : Except IoError Bytes) (hresult : (world.locals i).reading = .finished result)
    (w : Width) (csv : CsvReader) (process : Process) (headerValue : String → Bool)
    (state : AppState)
    (hstate : serveState w csv process (fun _ ↦ result) headerValue args = .ok (.ok state)) :
    ∃ data, result = .ok data ∧ opened.shared.fs args.data = some data ∧
      (initial.fs args.data = some data ∧
        (∀ j invocation, commands j = .build args.data invocation →
          ¬(opened.locals j).build.phase.Succeeded) ∨
        ∃ j invocation source, commands j = .build args.data invocation ∧
          (j, .build (.read (.ok source))) ∈ before ∧
          ∀ key, ∃ answer, state.store.get key = .ok answer ∧ ∀ value, answer = some value ↔
            ∃ record ∈ (invocation.csv
                ⟨(invocation.parse.loadOptions invocation.data).delimiter,
                  invocation.parse.header⟩ source).records, record.fields = [key, value]) := by
  obtain ⟨loaded, hload, hstore, _⟩ := serveState_eq_ok hstate
  cases result with
  | error error => simp [load] at hload
  | ok data =>
    have hdata := read_is_atomic commands hseparate initial i args.data hcommand hpath before after
      opened world hopened hrun data hresult
    have h : Consistent commands initial opened :=
      consistent_of_reaches hseparate ⟨before, hopened⟩ consistent_mounted
    obtain ⟨file, hentry, rfl⟩ := Option.map_eq_some_iff.mp hdata
    refine ⟨_, rfl, hdata, ?_⟩
    rcases (h.seen hseparate hpath hentry).origin with hinitial | ⟨_, hwhole⟩
    · left
      have hold := initial.entries_lt args.data file hinitial
      refine ⟨?_, fun j invocation hj hsucceeded ↦ ?_⟩
      · rw [Volume.fs, hinitial, Option.map_some, h.tended.kept file hold]
      · obtain ⟨file', hentry', hnew⟩ := h.succeeded j args.data invocation hj hsucceeded
        obtain rfl := Option.some.inj (hentry.symm.trans hentry')
        exact absurd hold (not_lt.mpr hnew)
    · right
      obtain ⟨j, invocation, source, arena, entries, hj, hsource, hparse, hbytes⟩ :=
        hwhole.source hopened
      have hfrom := from_compiledBytes hload (congrArg Except.ok hbytes) hparse
      refine ⟨j, invocation, source, hj, hsource, fun key ↦ ?_⟩
      rw [hstore]
      exact hfrom.get_eq_some_iff (sound_of_load hload) key

/-- A build of one row succeeds before a server opens its output. -/
theorem server_starts_from_one_dataset_built :
    let out : Path := [.normal [107]]
    let invocation : Invocation := ⟨Csv.grammar, default, 7, [.normal [100]], default⟩
    let commands (server : Bool) : Command := if server then .serve out else .build out invocation
    let args : ServeArgs := ⟨out, none, none, false, default⟩
    ∃ state, serveState .w64 Csv.grammar default
        (fun _ ↦ .ok (compiledBytes [97, 49] [⟨0, 1, 1, 1⟩] 0)) (fun _ ↦ true) args =
          .ok (.ok state) ∧
      ∃ j invocation source, commands j = .build out invocation ∧
        ∀ key, ∃ answer, state.store.get key = .ok answer ∧ ∀ value, answer = some value ↔
          ∃ record ∈ (invocation.csv
              ⟨(invocation.parse.loadOptions invocation.data).delimiter,
                invocation.parse.header⟩ source).records, record.fields = [key, value] := by
  intro out invocation commands args
  let before : List (Bool × FileEvent) :=
    [(false, .build (.read (.ok [97, 44, 49, 10]))), (false, .build (.createNew none (.ok ())))] ++
      List.replicate 10 (false, .build .writeAll) ++
    [(false, .build (.spill 90)), (false, .build .flush), (false, .build (.rename true))]
  let after : List (Bool × FileEvent) := [(true, .read (.readSome 90)), (true, .read (.readSome 0))]
  have hresults : ((mounted .empty).run (onVolume commands) before).bind (fun opened ↦
      (opened.run (onVolume commands) ((true, .read (.openFile (.ok ()))) :: after)).map
        fun world ↦ ((world.locals true).reading, (opened.locals false).build.phase)) =
      some (.finished (.ok (compiledBytes [97, 49] [⟨0, 1, 1, 1⟩] 0)), .reporting) := by
    decide +kernel
  obtain ⟨opened, hopened, hresult⟩ := Option.bind_eq_some_iff.mp hresults
  obtain ⟨world, hrun, hresult⟩ := Option.map_eq_some_iff.mp hresult
  obtain ⟨hreading, hphase⟩ := Prod.mk.inj hresult
  have hseparate : Separate commands := separate_build_and_server out out invocation
  have hparse : parseCsv Csv.grammar default [97, 44, 49, 10] ⟨44, false, false⟩ =
      .ok (.ok ([97, 49], [⟨0, 1, 1, 1⟩])) := by decide +kernel
  obtain ⟨parts, _, _, hload⟩ := load_artifact .w64 Csv.grammar default
    (fun _ ↦ .ok (compiledBytes [97, 49] [⟨0, 1, 1, 1⟩] 0)) out (ParseArgs.loadOptions default out)
    hparse rfl (by decide)
  obtain ⟨state, hstate⟩ := serveState_of_load (fun _ ↦ true) args hload rfl
  obtain ⟨data, _, _, ⟨_, hnone⟩ | ⟨j, invocation', source, hj, _, hanswers⟩⟩ :=
    server_starts_from_one_dataset commands hseparate .empty true args rfl
      (hseparate out ⟨false, invocation, rfl⟩) before after opened world hopened hrun _ hreading
      .w64 Csv.grammar default (fun _ ↦ true) state hstate
  · exact absurd (show (opened.locals false).build.phase.Succeeded by rw [hphase]; trivial)
      (hnone false invocation rfl)
  · exact ⟨state, hstate, j, invocation', source, hj, hanswers⟩

end JustKV
