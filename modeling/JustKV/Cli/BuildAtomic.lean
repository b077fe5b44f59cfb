import JustKV.Cli.BuildProgress

/-!
# Builds replace their output atomically

Any number of runs with one output path share a disk, each may fail or crash at any step, and
their steps interleave freely.  At every moment the output holds what it held before or one whole
artifact, and nothing else that existed before is touched.
-/

open Checked Interleaving

namespace JustKV

open Compiled

variable {ι : Type} [DecidableEq ι] {out : Path} {invocations : ι → Invocation}
  {initial : FileSystem}

/-- What holds at every moment of any interleaving of builds. -/
structure Intact (out : Path) (invocations : ι → Invocation) (initial : FileSystem)
    (world : World ι (Disk ι) Build) : Prop where
  owned : Owned out initial world.shared fun i ↦ (world.locals i).phase.scratch
  progress : ∀ i, (world.locals i).Progress (invocations i) world.shared.fs
  output : world.shared.fs out = initial out ∨
    ∃ i artifact, (world.locals i).artifact (invocations i) = some artifact ∧
      world.shared.fs out = some artifact
  renamed : ∀ i tmp, (i, .rename tmp out) ∈ world.shared.history →
    (world.locals i).phase.MayHaveRenamed
  succeeded : ∀ i, (world.locals i).phase.Succeeded →
    ∃ tmp, (i, .rename tmp out) ∈ world.shared.history

omit [DecidableEq ι] in
theorem intact_launched : Intact out invocations initial (launched initial) where
  owned := owned_launched
  progress i := rfl
  output := Or.inl rfl
  renamed i tmp h := by simp [launched] at h
  succeeded i h := h.elim

section Step

variable {invocation : Invocation} {build next : Build} {op : Option FsOp}

/-- Only a rename makes a run one that has renamed. -/
theorem Move.mayHaveRenamed (h : Move out invocation build op next) :
    (build.phase.MayHaveRenamed ∨ ∃ tmp, op = some (.rename tmp out)) →
      next.phase.MayHaveRenamed := by
  rintro (hbefore | ⟨tmp, rfl⟩)
  · cases h with
    | quiet _ _ hrenamed => exact hrenamed hbefore
    | exit => exact rfl
    | rename => exact trivial
    | _ => exact hbefore.elim
  · cases h
    exact trivial

theorem not_succeeded_of_inert {phase : Phase} (h : phase.Inert) : ¬phase.Succeeded := by
  cases phase <;> first | exact h | exact h.elim

/-- A run succeeds by its rename and keeps the success. -/
theorem Move.succeeded (h : Move out invocation build op next) (hnext : next.phase.Succeeded) :
    build.phase.Succeeded ∨ ∃ tmp, op = some (.rename tmp out) := by
  cases h with
  | rename => exact Or.inr ⟨_, rfl⟩
  | exit => exact Or.inl trivial
  | remove => exact absurd hnext exitIo_ne_exitOk
  | quiet _ hinert _ => exact absurd hnext (not_succeeded_of_inert hinert)
  | _ => exact hnext.elim

variable {world : World ι (Disk ι) Build} {i : ι} (h : Intact out invocations initial world)
  (hmove : Move out (invocations i) (world.locals i) op next)
  (henabled : ∀ op', op = some op' → op'.Enabled world.shared.fs)

include h hmove

include henabled in
theorem Intact.owned_advance : Owned out initial (world.shared.after i op) fun j ↦
    ((world.advance i (world.shared.after i op) next).locals j).phase.scratch := by
  have hscratch : (fun j ↦
      ((world.advance i (world.shared.after i op) next).locals j).phase.scratch) =
        Function.update (fun j ↦ (world.locals j).phase.scratch) i next.phase.scratch := by
    funext j
    exact Function.apply_update (fun _ build ↦ build.phase.scratch) world.locals i next j
  rw [hscratch]
  exact hmove.owned h.owned rfl henabled

include henabled in
theorem Intact.progress_advance : ∀ j,
    ((world.advance i (world.shared.after i op) next).locals j).Progress (invocations j)
      (world.shared.after i op).fs := by
  apply (forall_locals_advance fun j (build : Build) ↦
    build.Progress (invocations j) (world.shared.after i op).fs).mpr
  constructor
  · rw [fs_after]
    exact hmove.progress (h.progress i)
  · intro j hj
    exact progress_congr (fun tmp ↦ hmove.frame h.owned rfl henabled hj) (h.progress j)

theorem Intact.output_advance : (world.shared.after i op).fs out = initial out ∨
    ∃ j artifact, ((world.advance i (world.shared.after i op) next).locals j).artifact
        (invocations j) = some artifact ∧
      (world.shared.after i op).fs out = some artifact := by
  have hkeeps : ∀ j artifact, (world.locals j).artifact (invocations j) = some artifact →
      ((world.advance i (world.shared.after i op) next).locals j).artifact (invocations j) =
        some artifact := by
    apply (forall_locals_advance fun j (build : Build) ↦ ∀ artifact,
      (world.locals j).artifact (invocations j) = some artifact →
        build.artifact (invocations j) = some artifact).mpr
    exact ⟨fun _ ↦ hmove.artifact (h.progress i), fun _ _ _ ↦ id⟩
  rcases hmove.output h.owned rfl (h.progress i) with hsame | ⟨artifact, hartifact, hout⟩
  · rw [hsame]
    exact h.output.imp_right fun ⟨j, artifact, hartifact, hout⟩ ↦
      ⟨j, artifact, hkeeps j artifact hartifact, hout⟩
  · exact Or.inr ⟨i, artifact, by rwa [locals_advance_self], hout⟩

theorem Intact.renamed_advance : ∀ j tmp,
    (j, .rename tmp out) ∈ (world.shared.after i op).history →
      ((world.advance i (world.shared.after i op) next).locals j).phase.MayHaveRenamed := by
  apply (forall_locals_advance fun j (build : Build) ↦ ∀ tmp,
    (j, .rename tmp out) ∈ (world.shared.after i op).history → build.phase.MayHaveRenamed).mpr
  constructor
  · intro tmp hmem
    apply hmove.mayHaveRenamed
    rcases mem_history_after.mp hmem with hold | ⟨_, hop⟩
    · exact Or.inl (h.renamed i tmp hold)
    · exact Or.inr ⟨tmp, hop⟩
  · intro j hj tmp hmem
    rcases mem_history_after.mp hmem with hold | ⟨hsame, _⟩
    · exact h.renamed j tmp hold
    · exact absurd hsame hj

theorem Intact.succeeded_advance : ∀ j,
    ((world.advance i (world.shared.after i op) next).locals j).phase.Succeeded →
      ∃ tmp, (j, .rename tmp out) ∈ (world.shared.after i op).history := by
  have hold (j : ι) (hsucceeded : (world.locals j).phase.Succeeded) :
      ∃ tmp, (j, .rename tmp out) ∈ (world.shared.after i op).history := by
    obtain ⟨tmp, hmem⟩ := h.succeeded j hsucceeded
    exact ⟨tmp, mem_history_after.mpr (Or.inl hmem)⟩
  apply (forall_locals_advance fun j (build : Build) ↦ build.phase.Succeeded →
    ∃ tmp, (j, .rename tmp out) ∈ (world.shared.after i op).history).mpr
  constructor
  · intro hsucceeded
    rcases hmove.succeeded hsucceeded with hbefore | ⟨tmp, hop⟩
    · exact hold i hbefore
    · exact ⟨tmp, mem_history_after.mpr (Or.inr ⟨rfl, hop⟩)⟩
  · exact fun j _ ↦ hold j

omit h hmove

/-- One step of any run keeps the invariant. -/
theorem intact_step {event : BuildEvent} {disk : Disk ι}
    (h : Intact out invocations initial world)
    (hstep : cmdBuild out invocations i event world.shared (world.locals i) = some (disk, next)) :
    Intact out invocations initial (world.advance i disk next) := by
  obtain ⟨op, hevent, henabled, rfl⟩ := step_of_cmdBuild hstep
  have hmove := move_of_step hevent
  constructor
  case owned => exact h.owned_advance hmove henabled
  case progress => exact h.progress_advance hmove henabled
  case output => exact h.output_advance hmove
  case renamed => exact h.renamed_advance hmove
  case succeeded => exact h.succeeded_advance hmove

end Step

section Run

variable {schedule : List (ι × BuildEvent)} {world : World ι (Disk ι) Build}

/-- At every moment of every interleaving the invariant holds. -/
theorem intact_run
    (hrun : (launched initial).run (cmdBuild out invocations) schedule = some world) :
    Intact out invocations initial world :=
  run_invariant (fun _ _ _ _ _ hbefore hstep ↦ intact_step hbefore hstep) hrun intact_launched

/-- What holds at the start and survives every step of a build that the schedule has holds at every
moment of it. -/
theorem build_invariant {motive : World ι (Disk ι) Build → Prop}
    (hstep : ∀ before i event next op, (i, event) ∈ schedule → motive before →
      (before.locals i).step out (invocations i) event = some (op, next) →
      motive (before.advance i (before.shared.after i op) next))
    (hrun : (launched initial).run (cmdBuild out invocations) schedule = some world)
    (hstart : motive (launched initial)) : motive world := by
  refine run_invariant_of ?_ hrun hstart
  intro before i event disk next hmem hbefore hnext
  obtain ⟨op, hop, _, rfl⟩ := step_of_cmdBuild hnext
  exact hstep before i event next op hmem hbefore hop

/-- What a run has parsed it has read in the course of the schedule. -/
theorem parts_of_run
    (hrun : (launched initial).run (cmdBuild out invocations) schedule = some world) {i : ι}
    {parts : Bytes × List Entry} (hparts : (world.locals i).parts = some parts) :
    ∃ data, (i, .read (.ok data)) ∈ schedule ∧
      parseCsv (invocations i).csv (invocations i).process data
        ((invocations i).parse.loadOptions (invocations i).data) = .ok (.ok parts) := by
  revert parts hparts
  refine build_invariant (motive := fun world ↦ ∀ {parts}, (world.locals i).parts = some parts →
    ∃ data, (i, .read (.ok data)) ∈ schedule ∧
      parseCsv (invocations i).csv (invocations i).process data
        ((invocations i).parse.loadOptions (invocations i).data) = .ok (.ok parts)) ?_ hrun ?_
  · intro before j event next op hmem hbefore hop parts hparts
    by_cases hj : i = j
    · subst hj
      rw [locals_advance_self] at hparts
      rcases parts_of_step hop hparts with hold | ⟨data, rfl, hparse⟩
      · exact hbefore hold
      · exact ⟨data, hmem, hparse⟩
    · rw [locals_advance_of_ne hj] at hparts
      exact hbefore hparts
  · intro parts hparts
    simp [launched, Build.new] at hparts

end Run

omit [DecidableEq ι] in
/-- A run that has exited and left no file behind owns none of the files it created. -/
theorem Intact.created_gone {world : World ι (Disk ι) Build}
    (h : Intact out invocations initial world) {i : ι} {code : UInt8} {path : Path}
    (hphase : (world.locals i).phase = .exited code none)
    (hcreate : (i, .create path) ∈ world.shared.history) :
    world.shared.fs path = none ∨ ∃ j ≠ i, (world.locals j).phase.scratch = some path := by
  obtain ⟨hout, hinitial⟩ := h.owned.created hcreate
  by_cases howner : ∃ j, (world.locals j).phase.scratch = some path
  · obtain ⟨j, hj⟩ := howner
    refine Or.inr ⟨j, ?_, hj⟩
    rintro rfl
    simp [hphase, Phase.scratch] at hj
  · left
    rw [h.owned.others path hout fun j hj ↦ howner ⟨j, hj⟩, hinitial]

/-- At every moment of every interleaving of builds with one output path, whichever of them fail
or crash, the output is what it was or one whole artifact of data that its run has read, and no path
is touched but the output and new scratch files.  A run that exits with a failure and could remove
its scratch file has left nothing behind and has not replaced the output; one that exits with
success has. -/
theorem build_replaces_atomically (out : Path) (invocations : ι → Invocation)
    (initial : FileSystem) (schedule : List (ι × BuildEvent)) (world : World ι (Disk ι) Build)
    (hrun : (launched initial).run (cmdBuild out invocations) schedule = some world) :
    (world.shared.fs out = initial out ∨ ∃ i data arena entries,
      (i, .read (.ok data)) ∈ schedule ∧
      parseCsv (invocations i).csv (invocations i).process data
        ((invocations i).parse.loadOptions (invocations i).data) = .ok (.ok (arena, entries)) ∧
      world.shared.fs out = some (compiledBytes arena entries (invocations i).flags)) ∧
    (∀ i op, (i, op) ∈ world.shared.history →
      (out ∈ op.paths → ∃ tmp, op = .rename tmp out) ∧
      ∀ path ∈ op.paths, path ≠ out →
        initial path = none ∧ (i, .create path) ∈ world.shared.history) ∧
    (∀ path, path ≠ out → initial path ≠ none → world.shared.fs path = initial path) ∧
    (∀ i code, (world.locals i).phase = .exited code none → code ≠ exitOk →
      (∀ path, (i, .create path) ∈ world.shared.history →
        world.shared.fs path = none ∨ ∃ j ≠ i, (world.locals j).phase.scratch = some path) ∧
      ∀ tmp, (i, .rename tmp out) ∉ world.shared.history) ∧
    (∀ i leftover, (world.locals i).phase = .exited exitOk leftover →
      ∃ tmp, (i, .rename tmp out) ∈ world.shared.history) := by
  have h : Intact out invocations initial world := intact_run hrun
  refine ⟨?_, ?_, ?_, ?_, ?_⟩
  · refine h.output.imp_right ?_
    rintro ⟨i, artifact, hartifact, hout⟩
    obtain ⟨parts, hparts, rfl⟩ := Option.map_eq_some_iff.mp hartifact
    obtain ⟨data, hread, hparse⟩ := parts_of_run hrun hparts
    exact ⟨i, data, parts.1, parts.2, hread, hparse, hout⟩
  · intro i op hop
    refine ⟨h.owned.renames i op hop, fun path hpath hout ↦ ?_⟩
    exact (h.owned.touched i op hop path hpath).resolve_left hout
  · intro path hout hexists
    apply h.owned.others path hout
    intro i hi
    exact hexists (h.owned.new i path hi).2.1
  · intro i code hphase hcode
    refine ⟨fun path ↦ h.created_gone hphase, fun tmp hrename ↦ ?_⟩
    have hrenamed := h.renamed i tmp hrename
    rw [hphase] at hrenamed
    exact hcode hrenamed
  · intro i leftover hphase
    exact h.succeeded i (by rw [hphase]; rfl)

/-- Two runs of which one finds a name taken, fails in the middle of its file and cleans up, while
the other succeeds. -/
theorem build_replaces_atomically_two_runs :
    let out : Path := [.normal [107]]
    let invocation (pid : UInt32) : Invocation :=
      ⟨Csv.grammar, default, pid, [.normal [100]], default⟩
    let invocations (second : Bool) := invocation (if second then 8 else 7)
    let taken := scratchCandidate out 7 0
    let initial : FileSystem := fun path ↦
      if path = out then some [1] else if path = taken then some [2] else none
    let data : Bytes := [97, 44, 49, 10]
    let writes (second : Bool) := List.replicate 10 (second, BuildEvent.writeAll)
    let schedule := [(false, .read (.ok data)), (true, .read (.ok data)),
        (false, .createNew none (.error .alreadyExists)), (false, .createNew none (.ok ())),
        (true, .createNew (some 3) (.ok ()))] ++ writes true ++ writes false ++
      [(true, .spill 90), (false, .spill 5), (false, .writeFails), (true, .flush),
        (false, .spill 2), (true, .rename true), (false, .drop), (true, .exit),
        (false, .remove true)]
    ∃ world, (launched initial).run (cmdBuild out invocations) schedule = some world ∧
      (world.locals false).phase = .exited exitIo none ∧
      world.shared.fs taken = some [2] ∧
      (∀ tmp, (false, .rename tmp out) ∉ world.shared.history) ∧
      ∃ tmp, (true, .rename tmp out) ∈ world.shared.history := by
  intro out invocation invocations taken initial data writes schedule
  have hphases : ((launched initial).run (cmdBuild out invocations) schedule).map
      (fun world ↦ ((world.locals false).phase, (world.locals true).phase)) =
        some (.exited exitIo none, .exited exitOk none) := by decide +kernel
  obtain ⟨world, hrun, hphase⟩ := Option.map_eq_some_iff.mp hphases
  obtain ⟨hfalse, htrue⟩ := Prod.mk.inj hphase
  obtain ⟨_, _, hothers, hfailed, hsucceeded⟩ :=
    build_replaces_atomically out invocations initial schedule world hrun
  refine ⟨world, hrun, hfalse, ?_, (hfailed false exitIo hfalse (by decide)).2,
    hsucceeded true none htrue⟩
  exact hothers taken (by decide +kernel) (by decide +kernel)

end JustKV
