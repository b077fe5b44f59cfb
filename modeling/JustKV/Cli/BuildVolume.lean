import JustKV.Cli.BuildProgress
import JustKV.Os.Publishing

/-!
# Builds and readers on one volume

Builds with any outputs and servers that read any files share a volume.  A build writes through the
file it has opened, and `fs::read` opens a file and reads it piece by piece while the builds go on.
The control flow of a build is that of its state machine; only the file system is finer.
-/

open Checked Interleaving Utf8

namespace JustKV

open Compiled

/-- Reading a whole file. -/
inductive Reading
  | idle
  | reading (file : ℕ) (data : Bytes)
  | finished (result : Except IoError Bytes)
  deriving DecidableEq

inductive ReadEvent
  | openFile (result : Except IoError Unit)
  | readSome (room : ℕ)
  | readFails (error : IoError)

/-- One step of `fs::read`; a read that returns nothing although there is room for a byte has met
the end of the file. -/
def Reading.step (volume : Volume) (path : Path) : Reading → ReadEvent → Option Reading
  | .idle, .openFile (.ok ()) => (volume.entries path).map fun file ↦ .reading file []
  | .idle, .openFile (.error error) => some (.finished (.error error))
  | .reading file data, .readSome room =>
      let piece := ((volume.contents file).drop data.length).take (room + 1)
      some (if piece = [] then .finished (.ok data) else .reading file (data ++ piece))
  | .reading _ _, .readFails error => some (.finished (.error error))
  | _, _ => none

inductive Command
  | build (out : Path) (invocation : Invocation)
  /-- Only the reading of the dataset is a matter of the volume. -/
  | serve (data : Path)

/-- A process: how far its build has come, the file it has created, and its reading. -/
structure Agent where
  build : Build
  handle : Option ℕ
  reading : Reading

inductive FileEvent
  | build (event : BuildEvent)
  | read (event : ReadEvent)

def Agent.step (volume : Volume) (agent : Agent) : Command → FileEvent → Option (Volume × Agent)
  | .build out invocation, .build event =>
      match agent.build.step out invocation event with
      | none => none
      | some (none, next) => some (volume, { agent with build := next })
      | some (some op, next) => (volume.perform agent.handle op).map fun result ↦
          (result.1, { agent with build := next, handle := result.2 })
  | .serve data, .read event => (agent.reading.step volume data event).map fun next ↦
      (volume, { agent with reading := next })
  | _, _ => none

/-- Commands over one volume. -/
def onVolume {ι : Type} (commands : ι → Command) : Program ι FileEvent Volume Agent :=
  fun i event volume agent ↦ agent.step volume (commands i) event

/-- Before any command has started. -/
def mounted {ι : Type} (initial : Volume) : World ι Volume Agent :=
  ⟨initial, fun _ ↦ ⟨.new, none, .idle⟩⟩

/-- The temporary name and the file of a process, while it has one. -/
def Agent.held (agent : Agent) : Option (Path × ℕ) :=
  agent.build.phase.scratch.bind fun tmp ↦ agent.handle.map fun file ↦ (tmp, file)

theorem Agent.held_eq_some {agent : Agent} {tmp : Path} {file : ℕ} :
    agent.held = some (tmp, file) ↔
      agent.build.phase.scratch = some tmp ∧ agent.handle = some file := by
  obtain ⟨build, handle, reading⟩ := agent
  simp only [Agent.held]
  cases build.phase.scratch <;> cases handle <;> simp

/-- A process that has a temporary name has the file open or had it open. -/
def Agent.Holding (agent : Agent) : Prop :=
  agent.build.phase.scratch.isSome → agent.handle.isSome

section Commands

variable {ι : Type} (commands : ι → Command)

def Outputs (path : Path) : Prop := ∃ i invocation, commands i = .build path invocation

/-- The names that scratch files may get. -/
def Temporary (path : Path) : Prop :=
  ∃ i out invocation nonce, commands i = .build out invocation ∧
    path = scratchCandidate out invocation.pid nonce

/-- No output is named like a scratch file. -/
def Separate : Prop := ∀ path, Outputs commands path → ¬Temporary commands path

end Commands

/-- Builds with one output never name a scratch file like it. -/
theorem separate_of_one_output {ι : Type} {commands : ι → Command} {out : Path}
    (h : ∀ i out' invocation, commands i = .build out' invocation → out' = out) :
    Separate commands := by
  rintro path ⟨i, invocation, hi⟩ ⟨j, out', invocation', nonce, hj, hpath⟩
  obtain rfl := h i path invocation hi
  obtain rfl := h j out' invocation' hj
  exact scratchCandidate_ne _ _ _ hpath.symm

theorem separate_build_and_server (out data : Path) (invocation : Invocation) :
    Separate fun server : Bool ↦ if server then .serve data else .build out invocation := by
  apply separate_of_one_output
  intro server out' invocation' h
  cases server with
  | false => exact (Command.build.inj h).1.symm
  | true => cases h

section Step

variable {ι : Type} {commands : ι → Command} {i : ι} {volume volume' : Volume}
  {agent next : Agent}

/-- The effect of the operation of a step, if it has one. -/
def Effect (volume : Volume) (handle : Option ℕ) (op : Option FsOp) (volume' : Volume)
    (handle' : Option ℕ) : Prop :=
  op = none ∧ volume' = volume ∧ handle' = handle ∨
    ∃ op', op = some op' ∧ volume.perform handle op' = some (volume', handle')

theorem step_of_onVolume {event : FileEvent}
    (h : onVolume commands i event volume agent = some (volume', next)) :
    (∃ out invocation event' op, commands i = .build out invocation ∧ event = .build event' ∧
      agent.build.step out invocation event' = some (op, next.build) ∧
      Effect volume agent.handle op volume' next.handle ∧ next.reading = agent.reading) ∨
    ∃ data event', commands i = .serve data ∧ event = .read event' ∧ volume' = volume ∧
      agent.reading.step volume data event' = some next.reading ∧ next.build = agent.build ∧
      next.handle = agent.handle := by
  unfold onVolume Agent.step at h
  split at h
  case h_1 out invocation event' hcommand =>
    left
    split at h
    case h_1 => simp at h
    case h_2 next' hstep =>
      obtain ⟨rfl, rfl⟩ := Prod.mk.inj (Option.some.inj h)
      exact ⟨out, invocation, event', none, hcommand, rfl, hstep, Or.inl ⟨rfl, rfl, rfl⟩, rfl⟩
    case h_3 op next' hstep =>
      obtain ⟨result, hperform, hresult⟩ := Option.map_eq_some_iff.mp h
      obtain ⟨rfl, rfl⟩ := Prod.mk.inj hresult
      exact ⟨out, invocation, event', some op, hcommand, rfl, hstep,
        Or.inr ⟨op, rfl, hperform⟩, rfl⟩
  case h_2 data event' hcommand =>
    right
    obtain ⟨reading, hreading, hresult⟩ := Option.map_eq_some_iff.mp h
    obtain ⟨rfl, rfl⟩ := Prod.mk.inj hresult
    exact ⟨data, event', hcommand, rfl, rfl, hreading, rfl, rfl⟩
  case h_3 => simp at h

/-- A move of a build handles the volume as it should, and keeps track of its file. -/
theorem handling_of_move {out : Path} {invocation : Invocation} {op : Option FsOp}
    (hcommand : commands i = .build out invocation)
    (hmove : Move out invocation agent.build op next.build) (hholding : agent.Holding)
    (heffect : Effect volume agent.handle op volume' next.handle) :
    Handling (Outputs commands) (Temporary commands) volume agent.held op volume' next.held ∧
      next.Holding := by
  obtain ⟨build, handle, reading⟩ := agent
  obtain ⟨build', handle', reading'⟩ := next
  dsimp only at hmove heffect
  have hrest (hop : op = none) (hscratch : build'.phase.scratch = build.phase.scratch) :
      Handling (Outputs commands) (Temporary commands) volume (Agent.held ⟨build, handle, reading⟩)
        op volume' (Agent.held ⟨build', handle', reading'⟩) ∧
        Agent.Holding ⟨build', handle', reading'⟩ := by
    obtain ⟨_, rfl, rfl⟩ | ⟨op', hop', _⟩ := heffect
    · have hheld :
          Agent.held ⟨build', handle', reading'⟩ = Agent.held ⟨build, handle', reading⟩ := by
        simp only [Agent.held, hscratch]
      rw [hop, hheld]
      refine ⟨.rest, fun hsome ↦ hholding ?_⟩
      rwa [hscratch] at hsome
    · simp [hop] at hop'
  have happend {tmp : Path} {bytes : Bytes} (hop : op = some (.append tmp bytes))
      (htmp : build.phase.scratch = some tmp) (htmp' : build'.phase.scratch = some tmp) :
      Handling (Outputs commands) (Temporary commands) volume (Agent.held ⟨build, handle, reading⟩)
        op volume' (Agent.held ⟨build', handle', reading'⟩) ∧
        Agent.Holding ⟨build', handle', reading'⟩ := by
    subst hop
    obtain ⟨hnone, _⟩ | ⟨op', hop', hperform⟩ := heffect
    · simp at hnone
    · obtain rfl := Option.some.inj hop'
      obtain ⟨file, hhandle, hresult⟩ := Option.map_eq_some_iff.mp hperform
      obtain ⟨rfl, rfl⟩ := Prod.mk.inj hresult
      have hheld : Agent.held ⟨build, handle, reading⟩ = some (tmp, file) :=
        Agent.held_eq_some.mpr ⟨htmp, hhandle⟩
      have hheld' : Agent.held ⟨build', handle, reading'⟩ = some (tmp, file) :=
        Agent.held_eq_some.mpr ⟨htmp', hhandle⟩
      have hwrite : Handling (Outputs commands) (Temporary commands) volume
          (some (tmp, file)) _ _ _ := .write rfl bytes
      rw [hheld, hheld']
      exact ⟨hwrite, fun _ ↦ by simp [hhandle]⟩
  cases hmove with
  | parsed => exact hrest rfl rfl
  | writeAll => exact hrest rfl rfl
  | flush => exact hrest rfl rfl
  | exit => exact hrest rfl rfl
  | quiet hscratch => exact hrest rfl hscratch
  | spill count => exact happend rfl rfl rfl
  | spillDropped count => exact happend rfl rfl rfl
  | create nonce =>
    obtain ⟨hnone, _⟩ | ⟨op', hop', hperform⟩ := heffect
    · simp at hnone
    · obtain rfl := Option.some.inj hop'
      obtain ⟨hfree, hresult⟩ := Option.ite_none_right_eq_some.mp hperform
      obtain ⟨rfl, rfl⟩ := Prod.mk.inj (Option.some.inj hresult)
      exact ⟨.create rfl hfree ⟨i, out, invocation, nonce, hcommand, rfl⟩, fun _ ↦ rfl⟩
  | @rename _ tmp =>
    obtain ⟨hnone, _⟩ | ⟨op', hop', hperform⟩ := heffect
    · simp at hnone
    · obtain rfl := Option.some.inj hop'
      obtain ⟨_, hresult⟩ := Option.ite_none_right_eq_some.mp hperform
      obtain ⟨rfl, rfl⟩ := Prod.mk.inj (Option.some.inj hresult)
      obtain ⟨file, rfl⟩ := Option.isSome_iff_exists.mp (hholding rfl)
      exact ⟨.publish rfl ⟨i, invocation, hcommand⟩, fun hsome ↦ by simp [Phase.scratch] at hsome⟩
  | @remove _ tmp =>
    obtain ⟨hnone, _⟩ | ⟨op', hop', hperform⟩ := heffect
    · simp at hnone
    · obtain rfl := Option.some.inj hop'
      obtain ⟨_, hresult⟩ := Option.ite_none_right_eq_some.mp hperform
      obtain ⟨rfl, rfl⟩ := Prod.mk.inj (Option.some.inj hresult)
      obtain ⟨file, rfl⟩ := Option.isSome_iff_exists.mp (hholding rfl)
      exact ⟨.discard rfl, fun hsome ↦ by simp [Phase.scratch] at hsome⟩

end Step

end JustKV
