import JustKV.Cli.BuildMoves
import JustKV.Os.Ownership

/-!
# Progress of a build

What a run has written, buffered and not yet written always makes up its artifact.  A move keeps
that, stays within the discipline of scratch files, leaves the scratch files of the other runs
alone, and changes the output only by publishing a whole artifact.
-/

open Checked Interleaving

namespace JustKV

open Compiled

/-- The bytes of the compiled file of a run, once it has parsed its input. -/
def Build.artifact (invocation : Invocation) (build : Build) : Option Bytes :=
  build.parts.map fun parts ↦ compiledBytes parts.1 parts.2 invocation.flags

/-- The bytes of a scratch file, the buffer and the pending chunks make up the artifact. -/
def Build.Progress (invocation : Invocation) (fs : FileSystem) (build : Build) : Prop :=
  match build.phase with
  | .start => build.parts = none
  | .writing tmp buffer pending => ∃ written, fs tmp = some written ∧
      build.artifact invocation = some (written ++ buffer ++ pending.flatten)
  | .finalizing tmp => fs tmp = build.artifact invocation
  | _ => True

section Progress

variable {out : Path} {invocation : Invocation} {build next : Build} {fs fs' : FileSystem}
  {op : Option FsOp}

theorem progress_of_inert {parts : Option (Bytes × List Entry)} {phase : Phase}
    (hinert : phase.Inert) : Build.Progress invocation fs ⟨parts, phase⟩ := by
  cases phase <;> first | exact trivial | exact hinert.elim

/-- Progress only looks at the run's own scratch file. -/
theorem progress_congr (hfs : ∀ tmp, build.phase.scratch = some tmp → fs' tmp = fs tmp)
    (h : build.Progress invocation fs) : build.Progress invocation fs' := by
  obtain ⟨parts, phase⟩ := build
  cases phase with
  | writing tmp buffer pending =>
    obtain ⟨written, hwritten, hartifact⟩ := h
    exact ⟨written, (hfs tmp rfl).trans hwritten, hartifact⟩
  | finalizing tmp => exact (hfs tmp rfl).trans h
  | _ => exact h

/-- A move keeps the artifact once there is one. -/
theorem Move.artifact (h : Move out invocation build op next)
    (hprogress : build.Progress invocation fs) {artifact : Bytes}
    (hartifact : build.artifact invocation = some artifact) :
    next.artifact invocation = some artifact := by
  cases h with
  | parsed =>
    have hparts := hprogress
    simp only [Build.Progress] at hparts
    simp [Build.artifact, hparts] at hartifact
  | _ => exact hartifact

/-- A move keeps the progress of its run. -/
theorem Move.progress (h : Move out invocation build op next)
    (hprogress : build.Progress invocation fs) :
    next.Progress invocation (op.elim fs fun op ↦ op.apply fs) := by
  cases h with
  | parsed => exact trivial
  | create nonce =>
    refine ⟨[], Function.update_self _ _ _, ?_⟩
    rfl
  | writeAll =>
    obtain ⟨written, hwritten, hartifact⟩ := hprogress
    exact ⟨written, hwritten, by simpa [Build.artifact] using hartifact⟩
  | spill count =>
    obtain ⟨written, hwritten, hartifact⟩ := hprogress
    rename_i tmp buffer pending
    refine ⟨written ++ buffer.take count, ?_, ?_⟩
    · simp [FsOp.apply, hwritten]
    · have hsplit : written ++ buffer.take count ++ buffer.drop count = written ++ buffer := by simp
      rw [hsplit]
      exact hartifact
  | flush =>
    obtain ⟨written, hwritten, hartifact⟩ := hprogress
    rw [List.append_nil, List.flatten_nil, List.append_nil] at hartifact
    exact hwritten.trans hartifact.symm
  | spillDropped count => exact trivial
  | rename => exact trivial
  | remove => exact trivial
  | exit => exact trivial
  | quiet hscratch hinert hrenamed => exact progress_of_inert hinert

end Progress

variable {ι : Type} {out : Path} {invocations : ι → Invocation}
  {initial : FileSystem}

/-- The disk after a step that may have performed an operation. -/
def Disk.after (disk : Disk ι) (i : ι) : Option FsOp → Disk ι
  | none => disk
  | some op => disk.perform i op

theorem fs_after (disk : Disk ι) (i : ι) (op : Option FsOp) :
    (disk.after i op).fs = op.elim disk.fs fun op ↦ op.apply disk.fs := by
  cases op <;> rfl

theorem mem_history_after {disk : Disk ι} {i j : ι} {op : Option FsOp} {other : FsOp} :
    (j, other) ∈ (disk.after i op).history ↔
      (j, other) ∈ disk.history ∨ j = i ∧ op = some other := by
  cases op with
  | none => simp [Disk.after]
  | some op => simp [Disk.after, mem_history_perform, eq_comm]

theorem step_of_cmdBuild {i : ι} {event : BuildEvent} {disk disk' : Disk ι} {build next : Build}
    (h : cmdBuild out invocations i event disk build = some (disk', next)) :
    ∃ op, build.step out (invocations i) event = some (op, next) ∧
      (∀ op', op = some op' → op'.Enabled disk.fs) ∧ disk' = disk.after i op := by
  unfold cmdBuild at h
  split at h
  case h_1 => simp at h
  case h_2 next' hstep =>
    obtain ⟨rfl, rfl⟩ := Prod.mk.inj (Option.some.inj h)
    exact ⟨none, hstep, by simp, rfl⟩
  case h_3 op next' hstep =>
    obtain ⟨henabled, hnext⟩ := Option.ite_none_right_eq_some.mp h
    obtain ⟨rfl, rfl⟩ := Prod.mk.inj (Option.some.inj hnext)
    refine ⟨some op, hstep, ?_, rfl⟩
    rintro op' ⟨⟩
    exact henabled

section Move

variable {invocation : Invocation} {build next : Build} {op : Option FsOp} {disk : Disk ι}
  {scratch : ι → Option Path} {i : ι}

/-- The paths of a move are the scratch file of its run, a new name and the output. -/
theorem Move.paths (h : Move out invocation build op next) {op' : FsOp} (hop : op = some op')
    {path : Path} (hpath : path ∈ op'.paths) :
    build.phase.scratch = some path ∨ op' = .create path ∧ path ≠ out ∨
      path = out ∧ ∃ tmp, op' = .rename tmp out := by
  cases h <;> cases hop <;> simp only [FsOp.paths, List.mem_cons, List.not_mem_nil, or_false] at hpath
  case create nonce =>
    exact Or.inr (Or.inl ⟨by rw [hpath], hpath ▸ scratchCandidate_ne out invocation.pid nonce⟩)
  case spill => exact Or.inl (by rw [hpath]; rfl)
  case spillDropped => exact Or.inl (by rw [hpath]; rfl)
  case remove => exact Or.inl (by rw [hpath]; rfl)
  case rename =>
    rcases hpath with rfl | rfl
    · exact Or.inl rfl
    · exact Or.inr (Or.inr ⟨rfl, _, rfl⟩)

theorem after_of_notMem {path : Path} (h : ∀ op', op = some op' → path ∉ op'.paths) :
    (disk.after i op).fs path = disk.fs path := by
  cases op with
  | none => rfl
  | some op => exact FsOp.apply_of_notMem_paths (h op rfl)

/-- A move stays within the discipline of scratch files. -/
theorem Move.owned [DecidableEq ι] (h : Move out invocation build op next)
    (howned : Owned out initial disk scratch) (hi : scratch i = build.phase.scratch)
    (henabled : ∀ op', op = some op' → op'.Enabled disk.fs) :
    Owned out initial (disk.after i op) (Function.update scratch i next.phase.scratch) := by
  have hquiet {same : Option Path} (hsame : same = scratch i) :
      Owned out initial disk (Function.update scratch i same) := by
    rwa [hsame, Function.update_eq_self]
  have happend {tmp : Path} (bytes : Bytes) (htmp : scratch i = some tmp) :
      Owned out initial (disk.perform i (.append tmp bytes))
        (Function.update scratch i (some tmp)) := by
    obtain ⟨hout, hinitial, hsome, hcreated⟩ := howned.new i tmp htmp
    refine howned.hold rfl ?_ hout hinitial (Or.inr htmp) ?_
      (mem_history_perform.mpr (Or.inl hcreated))
    · simpa [FsOp.apply] using hsome
    · intro j hj hother
      exact hj (howned.own j i tmp hother htmp)
  cases h with
  | parsed => exact hquiet hi.symm
  | writeAll => exact hquiet hi.symm
  | flush => exact hquiet hi.symm
  | exit => exact hquiet hi.symm
  | quiet hscratch => exact hquiet (hscratch.trans hi.symm)
  | spill count => exact happend _ hi
  | spillDropped count => exact happend _ hi
  | create nonce =>
    have hout := scratchCandidate_ne out invocation.pid nonce
    obtain ⟨hinitial, hfree⟩ := howned.free hout (henabled _ rfl)
    refine howned.hold rfl ?_ hout hinitial (Or.inl hi) (fun j _ ↦ hfree j)
      (mem_history_perform.mpr (Or.inr ⟨rfl, rfl⟩))
    rw [FsOp.apply, Function.update_self]
    rfl
  | rename =>
    have hout := (howned.new i _ hi).1
    refine howned.release hi ?_ (FsOp.apply_rename_source hout) fun _ ↦ ⟨_, rfl⟩
    simp [FsOp.paths]
  | remove =>
    have hout := (howned.new i _ hi).1
    refine howned.release hi ?_ (Function.update_self _ _ _) ?_
    · simp [FsOp.paths]
    · simpa [FsOp.paths] using fun hsame ↦ absurd hsame.symm hout

/-- A move leaves the scratch files of the other runs alone. -/
theorem Move.frame (h : Move out invocation build op next)
    (howned : Owned out initial disk scratch) (hi : scratch i = build.phase.scratch)
    (henabled : ∀ op', op = some op' → op'.Enabled disk.fs) {j : ι} (hj : j ≠ i) {path : Path}
    (hpath : scratch j = some path) : (disk.after i op).fs path = disk.fs path := by
  obtain ⟨hout, _, hsome, _⟩ := howned.new j path hpath
  apply after_of_notMem
  intro op' hop hmem
  rcases h.paths hop hmem with hown | ⟨rfl, _⟩ | ⟨rfl, _⟩
  · exact hj (howned.own j i path hpath (hi.trans hown))
  · have hfree : disk.fs path = none := henabled _ hop
    simp [hfree] at hsome
  · exact hout rfl

/-- A move leaves the output alone or publishes the artifact of its run. -/
theorem Move.output (h : Move out invocation build op next)
    (howned : Owned out initial disk scratch) (hi : scratch i = build.phase.scratch)
    (hprogress : build.Progress invocation disk.fs) :
    (disk.after i op).fs out = disk.fs out ∨
      ∃ artifact, next.artifact invocation = some artifact ∧
        (disk.after i op).fs out = some artifact := by
  by_cases hrename : ∃ tmp, op = some (.rename tmp out)
  · right
    obtain ⟨tmp, rfl⟩ := hrename
    cases h
    case rename parts =>
      obtain ⟨hout, _, hsome, _⟩ := howned.new i tmp hi
      obtain ⟨artifact, hcontent⟩ := Option.isSome_iff_exists.mp hsome
      have hartifact : disk.fs tmp = Build.artifact invocation ⟨parts, .reporting⟩ := hprogress
      refine ⟨artifact, hartifact.symm.trans hcontent, ?_⟩
      exact (FsOp.apply_rename_target hout).trans hcontent
  · left
    apply after_of_notMem
    intro op' hop hmem
    rcases h.paths hop hmem with hown | ⟨_, hout⟩ | ⟨_, tmp, rfl⟩
    · exact (howned.new i out (hi.trans hown)).1 rfl
    · exact hout rfl
    · exact hrename ⟨tmp, hop⟩

end Move

end JustKV
