import JustKV.Cli.BuildEnds

/-!
# Builds come to an end

Apart from the writes with which the buffer reaches the file, a run takes a number of steps that
its artifact bounds.  At every moment of every interleaving it can go on alone to its end, and if
nothing has failed and a name is free, this end is a success.
-/

open Checked FixedWidth Interleaving

namespace JustKV

open Compiled

/-- How many buffers are handed to the writer. -/
def Build.chunks (invocation : Invocation) (build : Build) : ℕ :=
  match build.parts with
  | some (arena, entries) => (writeCompiled arena entries invocation.flags).length
  | none => 0

/-- A bound on the steps that are left of a run, once it has parsed its data. -/
def Build.left (invocation : Invocation) (build : Build) : ℕ :=
  match build.phase with
  | .start => 1
  | .creating attempt => maxAttempts - attempt + build.chunks invocation + 4
  | .writing _ _ pending => pending.length + 3
  | .dropping _ _ => 2
  | .finalizing _ => 2
  | .removing _ => 1
  | .reporting => 1
  | .exited _ _ => 0
  | .crashed _ => 0

/-- A bound on all steps of a run. -/
def Build.bound (build : Build) : ℕ :=
  match build.parts with
  | some (_, entries) => 1011 + 4 * entries.length
  | none => 1

def BuildEvent.isSpill : BuildEvent → Bool
  | .spill _ => true
  | _ => false

variable {out : Path} {invocation : Invocation} {build next : Build} {event : BuildEvent}

theorem length_writeCompiled (arena : Bytes) (entries : List Entry) (flags : UInt32) :
    (writeCompiled arena entries flags).length = 6 + 4 * entries.length := by
  have hentries : (entries.flatMap fun entry ↦ [toLeBytes entry.kOff, toLeBytes entry.kLen,
      toLeBytes entry.vOff, toLeBytes entry.vLen]).length = 4 * entries.length := by
    rw [List.length_flatMap]
    simp [Nat.mul_comm]
  rw [writeCompiled, List.length_append, List.length_append, hentries]
  simp
  omega

/-- A run that is live has a step left. -/
theorem left_pos (hlive : ¬build.phase.IsOver) : 1 ≤ build.left invocation := by
  obtain ⟨parts, phase⟩ := build
  cases phase with
  | exited code leftover => exact (hlive trivial).elim
  | crashed leftover => exact (hlive trivial).elim
  | _ => simp [Build.left]

/-- A step other than a spill uses up one of those that are left; the first one learns how many
there are. -/
theorem Transition.count_add_left_le {events : List BuildEvent}
    (h : Transition out invocation build event next)
    (hexplained : build.Explained invocation events)
    (hbefore : (events.countP fun event ↦ !event.isSpill) + build.left invocation ≤ build.bound) :
    ((events ++ [event]).countP fun event ↦ !event.isSpill) + next.left invocation ≤
      next.bound := by
  rw [List.countP_append, List.countP_singleton]
  cases h with
  | @parsed before data parts hparse =>
    obtain rfl : events = [] := hexplained
    have hlength := length_writeCompiled parts.1 parts.2 invocation.flags
    simp [Build.left, Build.chunks, Build.bound, BuildEvent.isSpill, maxAttempts, hlength]
    omega
  | created clock =>
    simp [Build.left, Build.chunks, Build.bound, BuildEvent.isSpill] at hbefore ⊢
    omega
  | occupied clock hattempt =>
    simp [Build.left, Build.chunks, Build.bound, BuildEvent.isSpill] at hbefore ⊢
    omega
  | @crashed parts phase hlive =>
    have hleft : 1 ≤ Build.left invocation ⟨parts, phase⟩ := left_pos hlive
    simp [Build.left, Build.bound, BuildEvent.isSpill] at hbefore hleft ⊢
    omega
  | _ =>
    simp [Build.left, Build.bound, BuildEvent.isSpill] at hbefore ⊢
    omega

/-! ## Going on alone -/

/-- The environment lets the run get on: it reads `source`, no operation fails and it does not
crash. -/
def BuildEvent.Smooth (source : Bytes) : BuildEvent → Prop
  | .read result => result = .ok source
  | .createNew _ result => result = .ok ()
  | .writeFails => False
  | .rename succeeds => succeeds = true
  | .remove succeeds => succeeds = true
  | .crash => False
  | _ => True

section Alone

variable {ι : Type} [DecidableEq ι] {invocations : ι → Invocation} {initial : FileSystem}
  {world world' : World ι (Disk ι) Build} {i : ι} {source : Bytes}

/-- Running alone with smooth events. -/
abbrev Onwards (out : Path) (invocations : ι → Invocation) (i : ι) (source : Bytes)
    (world world' : World ι (Disk ι) Build) : Prop :=
  Alone (cmdBuild out invocations) i (BuildEvent.Smooth source) world world'

variable (out invocations) in
theorem onwards_of_step {build next : Build} {op : Option FsOp} (source : Bytes)
    (event : BuildEvent) (hsmooth : event.Smooth source) (hlocal : world.locals i = build)
    (hstep : build.step out (invocations i) event = some (op, next))
    (henabled : ∀ op', op = some op' → op'.Enabled world.shared.fs) :
    ∃ world', Onwards out invocations i source world world' ∧ world'.locals i = next ∧
      world'.shared = world.shared.after i op := by
  refine ⟨_, Alone.of_step hsmooth ?_, locals_advance_self i _ _, shared_advance i _ _⟩
  rw [cmdBuild, hlocal, hstep]
  cases op with
  | none => rfl
  | some op => exact if_pos (henabled op rfl)

theorem Intact.onwards (h : Intact out invocations initial world)
    (honwards : Onwards out invocations i source world world') :
    Intact out invocations initial world' := by
  obtain ⟨events, _, hrun⟩ := honwards
  exact run_invariant (fun _ _ _ _ _ hbefore hstep ↦ intact_step hbefore hstep) hrun h

variable (out invocations) in
/-- All that is left of a file can be handed over. -/
theorem onwards_handed (source : Bytes) {parts : Option (Bytes × List Entry)} {tmp : Path}
    {buffer : Bytes} {pending : List Bytes}
    (hlocal : world.locals i = ⟨parts, .writing tmp buffer pending⟩) :
    ∃ world' buffer', Onwards out invocations i source world world' ∧
      world'.locals i = ⟨parts, .writing tmp buffer' []⟩ := by
  induction pending generalizing world buffer with
  | nil => exact ⟨world, buffer, Alone.refl, hlocal⟩
  | cons chunk pending ih =>
    obtain ⟨middle, hfirst, hmiddle, _⟩ :=
      onwards_of_step out invocations source .writeAll trivial hlocal rfl (by simp)
    obtain ⟨world', buffer', hrest, hlast⟩ := ih hmiddle
    exact ⟨world', buffer', hfirst.trans hrest, hlast⟩

section Intact

variable (h : Intact out invocations initial world) (source : Bytes)
  {parts : Option (Bytes × List Entry)} {tmp : Path} {buffer : Bytes} {pending : List Bytes}

include h

/-- A run that is writing can finish its file. -/
theorem onwards_written (hlocal : world.locals i = ⟨parts, .writing tmp buffer pending⟩) :
    ∃ world', Onwards out invocations i source world world' ∧
      world'.locals i = ⟨parts, .finalizing tmp⟩ := by
  obtain ⟨handed, buffer', hhanded, hrest⟩ := onwards_handed out invocations source hlocal
  have hspill : Build.step out (invocations i) ⟨parts, .writing tmp buffer' []⟩
      (.spill buffer'.length) = some (some (.append tmp buffer'), ⟨parts, .writing tmp [] []⟩) := by
    simp [Build.step]
  have hexists : (handed.shared.fs tmp).isSome := by
    have hprogress := (h.onwards hhanded).progress i
    rw [hrest] at hprogress
    obtain ⟨written, hwritten, _⟩ := hprogress
    rw [hwritten]
    rfl
  obtain ⟨spilled, hspilled, hempty, _⟩ :=
    onwards_of_step out invocations source (.spill buffer'.length) trivial hrest hspill
      (by rintro op' ⟨⟩; exact hexists)
  obtain ⟨world', hflushed, hlast, _⟩ :=
    onwards_of_step out invocations source .flush trivial hempty rfl (by simp)
  exact ⟨world', (hhanded.trans hspilled).trans hflushed, hlast⟩

/-- A run that has finished its file can publish it and succeed. -/
theorem onwards_published (hlocal : world.locals i = ⟨parts, .finalizing tmp⟩) :
    ∃ world', Onwards out invocations i source world world' ∧
      world'.locals i = ⟨parts, .exited exitOk none⟩ ∧
      ∃ artifact, (world'.locals i).artifact (invocations i) = some artifact ∧
        world'.shared.fs out = some artifact := by
  obtain ⟨hout, _, hsome, _⟩ := h.owned.new i tmp (by rw [hlocal]; rfl)
  obtain ⟨content, hcontent⟩ := Option.isSome_iff_exists.mp hsome
  have hprogress := h.progress i
  rw [hlocal] at hprogress
  have hartifact : Build.artifact (invocations i) ⟨parts, .finalizing tmp⟩ = some content :=
    hprogress.symm.trans hcontent
  obtain ⟨renamed, hrenamed, hreporting, hdisk⟩ :=
    onwards_of_step out invocations source (.rename true) rfl hlocal rfl
      (by rintro op' ⟨⟩; exact hsome)
  obtain ⟨world', hexited, hlast, hdisk'⟩ :=
    onwards_of_step out invocations source .exit trivial hreporting rfl (by simp)
  refine ⟨world', hrenamed.trans hexited, hlast, content, ?_, ?_⟩
  · rw [hlast]
    exact hartifact
  · rw [hdisk', hdisk]
    exact (FsOp.apply_rename_target hout).trans hcontent

/-- A run that finds a free name can finish its file. -/
theorem onwards_written_of_creating {parts : Bytes × List Entry} {attempt : ℕ}
    {clock : Option UInt32} (hlocal : world.locals i = ⟨some parts, .creating attempt⟩)
    (hfree : world.shared.fs (scratchCandidate out (invocations i).pid
      (clock.getD 0 + UInt32.ofNat attempt)) = none) :
    ∃ world' tmp, Onwards out invocations i source world world' ∧
      world'.locals i = ⟨some parts, .finalizing tmp⟩ := by
  obtain ⟨created, hcreated, hwriting, _⟩ := onwards_of_step out invocations source
    (.createNew clock (.ok ())) rfl hlocal rfl (by rintro op' ⟨⟩; exact hfree)
  obtain ⟨world', hwritten, hlast⟩ := onwards_written (h.onwards hcreated) source hwriting
  exact ⟨world', _, hcreated.trans hwritten, hlast⟩

/-- A run that can use its source and finds a free name can finish its file. -/
theorem onwards_written_of_start (clock : Option UInt32) {parts : Bytes × List Entry}
    {before : Option (Bytes × List Entry)}
    (hlocal : world.locals i = ⟨before, .start⟩)
    (hparse : parseCsv (invocations i).csv (invocations i).process source
      ((invocations i).parse.loadOptions (invocations i).data) = .ok (.ok parts))
    (hfree : world.shared.fs (scratchCandidate out (invocations i).pid
      (clock.getD 0 + UInt32.ofNat 0)) = none) :
    ∃ world' tmp, Onwards out invocations i source world world' ∧
      world'.locals i = ⟨some parts, .finalizing tmp⟩ := by
  have hvalidated : parseValidated (invocations i).csv (invocations i).process (fun _ ↦ .ok source)
      (invocations i).data (invocations i).parse = .ok (.ok parts) :=
    parseValidated_eq_ok.mpr ⟨source, rfl, hparse⟩
  have hread : Build.step out (invocations i) ⟨before, .start⟩ (.read (.ok source)) =
      some (none, ⟨some parts, .creating 0⟩) := by
    simp only [Build.step, hvalidated]
  obtain ⟨parsed, hparsed, hcreating, hdisk⟩ :=
    onwards_of_step out invocations source (.read (.ok source)) rfl hlocal hread (by simp)
  have hfree' : parsed.shared.fs (scratchCandidate out (invocations i).pid
      (clock.getD 0 + UInt32.ofNat 0)) = none := by
    rw [hdisk]
    exact hfree
  obtain ⟨world', tmp, hwritten, hlast⟩ :=
    onwards_written_of_creating (h.onwards hparsed) source hcreating hfree'
  exact ⟨world', tmp, hparsed.trans hwritten, hlast⟩

/-- A run that has failed can remove its scratch file and exit. -/
theorem onwards_of_removing (hlocal : world.locals i = ⟨parts, .removing tmp⟩) :
    ∃ world', Onwards out invocations i source world world' ∧
      world'.locals i = ⟨parts, .exited exitIo none⟩ := by
  have hsome := (h.owned.new i tmp (by rw [hlocal]; rfl)).2.2.1
  obtain ⟨world', hremoved, hlast, _⟩ := onwards_of_step out invocations source
    (.remove true) rfl hlocal rfl (by rintro op' ⟨⟩; exact hsome)
  exact ⟨world', hremoved, hlast⟩

theorem onwards_of_dropping (hlocal : world.locals i = ⟨parts, .dropping tmp buffer⟩) :
    ∃ world', Onwards out invocations i source world world' ∧
      world'.locals i = ⟨parts, .exited exitIo none⟩ := by
  obtain ⟨dropped, hdropped, hremoving, _⟩ :=
    onwards_of_step out invocations source .drop trivial hlocal rfl (by simp)
  obtain ⟨world', hremoved, hlast⟩ := onwards_of_removing (h.onwards hdropped) source hremoving
  exact ⟨world', hdropped.trans hremoved, hlast⟩

end Intact

/-- The run can go on alone to its end without a further failure: to exit code 2 if it has failed,
and otherwise to success, with its artifact as the output unless that had been published before. -/
def CanEnd (out : Path) (invocations : ι → Invocation) (i : ι) (source : Bytes)
    (failed published : Prop) (world : World ι (Disk ι) Build) : Prop :=
  ∃ world', Onwards out invocations i source world world' ∧
    (failed → (world'.locals i).phase = .exited exitIo none) ∧
    (¬failed → (world'.locals i).phase = .exited exitOk none ∧
      (¬published → ∃ artifact, (world'.locals i).artifact (invocations i) = some artifact ∧
        world'.shared.fs out = some artifact))

section CanEnd

variable {failed published : Prop} {parts : Option (Bytes × List Entry)}

theorem canEnd_of_written (h : Intact out invocations initial world) (hfine : ¬failed)
    (hwritten : ∃ world' tmp, Onwards out invocations i source world world' ∧
      world'.locals i = ⟨parts, .finalizing tmp⟩) :
    CanEnd out invocations i source failed published world := by
  obtain ⟨written, tmp, hwritten, hfinalizing⟩ := hwritten
  obtain ⟨world', hpublished, hlast, hout⟩ :=
    onwards_published (h.onwards hwritten) source hfinalizing
  exact ⟨world', hwritten.trans hpublished, fun hfails ↦ (hfine hfails).elim,
    fun _ ↦ ⟨by rw [hlast], fun _ ↦ hout⟩⟩

theorem canEnd_of_failure (hfails : failed)
    (h : ∃ world', Onwards out invocations i source world world' ∧
      world'.locals i = ⟨parts, .exited exitIo none⟩) :
    CanEnd out invocations i source failed published world := by
  obtain ⟨world', honwards, hlast⟩ := h
  exact ⟨world', honwards, fun _ ↦ by rw [hlast], fun hfine ↦ (hfine hfails).elim⟩

theorem canEnd_of_reporting (hfine : ¬failed) (hpublished : published)
    (hlocal : world.locals i = ⟨parts, .reporting⟩) :
    CanEnd out invocations i source failed published world := by
  obtain ⟨world', hexited, hlast, _⟩ :=
    onwards_of_step out invocations source .exit trivial hlocal rfl (by simp)
  exact ⟨world', hexited, fun hfails ↦ (hfine hfails).elim,
    fun _ ↦ ⟨by rw [hlast], fun hnot ↦ (hnot hpublished).elim⟩⟩

end CanEnd

/-- What the events of a run have decided tells how it can end. -/
theorem canEnd_of_explained (h : Intact out invocations initial world) {events : List BuildEvent}
    (hexplained : (world.locals i).Explained (invocations i) events)
    (hlive : ¬(world.locals i).phase.IsOver)
    (hsource : (world.locals i).phase = .start → ¬(invocations i).Rejects source)
    (hfree : ∀ attempt, (world.locals i).phase = .creating attempt ∨
        (world.locals i).phase = .start ∧ attempt = 0 →
      ∃ clock : Option UInt32, world.shared.fs (scratchCandidate out (invocations i).pid
        (clock.getD 0 + UInt32.ofNat attempt)) = none) :
    CanEnd out invocations i source (Failed events) (.rename true ∈ events) world := by
  obtain ⟨parts, phase, hlocal⟩ : ∃ parts phase, world.locals i = ⟨parts, phase⟩ := ⟨_, _, rfl⟩
  rw [hlocal] at hlive hsource hfree hexplained
  cases phase with
  | start =>
    obtain rfl : events = [] := hexplained
    obtain ⟨clock, hclock⟩ := hfree 0 (Or.inr ⟨rfl, rfl⟩)
    obtain ⟨parts', hparse⟩ := not_forall_not.mp (hsource rfl)
    exact canEnd_of_written h (summary_nil (invocations i)).failed.mp
      (onwards_written_of_start h source clock hlocal hparse hclock)
  | creating attempt =>
    obtain ⟨hopen, _, _, hparts⟩ := hexplained
    obtain ⟨parts', rfl⟩ := Option.isSome_iff_exists.mp hparts
    obtain ⟨clock, hclock⟩ := hfree attempt (Or.inl rfl)
    exact canEnd_of_written h hopen.failed.mp
      (onwards_written_of_creating h source hlocal hclock)
  | writing tmp buffer pending =>
    obtain ⟨world', hwritten, hlast⟩ := onwards_written h source hlocal
    exact canEnd_of_written h hexplained.failed.mp ⟨world', tmp, hwritten, hlast⟩
  | finalizing tmp =>
    exact canEnd_of_written h hexplained.failed.mp ⟨world, tmp, Alone.refl, hlocal⟩
  | dropping tmp buffer =>
    exact canEnd_of_failure (hexplained.failed.mpr trivial) (onwards_of_dropping h source hlocal)
  | removing tmp =>
    exact canEnd_of_failure (hexplained.failed.mpr trivial) (onwards_of_removing h source hlocal)
  | reporting =>
    exact canEnd_of_reporting hexplained.failed.mp (hexplained.renamed.mpr trivial) hlocal
  | exited code leftover => exact (hlive trivial).elim
  | crashed leftover => exact (hlive trivial).elim

/-- In every interleaving a run takes boundedly many steps, apart from the writes with which its
buffer reaches the file, and whenever it is not over it can end, given a usable source and a free
name if it still needs these. -/
theorem build_terminates (out : Path) (invocations : ι → Invocation) (initial : FileSystem)
    (schedule : List (ι × BuildEvent)) (world : World ι (Disk ι) Build)
    (hrun : (launched initial).run (cmdBuild out invocations) schedule = some world) (i : ι) :
    ((own i schedule).countP fun event ↦ !event.isSpill) ≤ (world.locals i).bound ∧
    ∀ source, ¬(world.locals i).phase.IsOver →
      ((world.locals i).phase = .start → ¬(invocations i).Rejects source) →
      (∀ attempt, (world.locals i).phase = .creating attempt ∨
          (world.locals i).phase = .start ∧ attempt = 0 →
        ∃ clock : Option UInt32, world.shared.fs (scratchCandidate out (invocations i).pid
          (clock.getD 0 + UInt32.ofNat attempt)) = none) →
      CanEnd out invocations i source (Failed (own i schedule)) ((i, .rename true) ∈ schedule)
        world := by
  have hexplained := explained_of_run hrun i
  constructor
  · have hcount : (world.locals i).Explained (invocations i) (own i schedule) ∧
        ((own i schedule).countP fun event ↦ !event.isSpill) +
          (world.locals i).left (invocations i) ≤ (world.locals i).bound := by
      refine follow_invariant (motive := fun events build ↦
        build.Explained (invocations i) events ∧
        (events.countP fun event ↦ !event.isSpill) + build.left (invocations i) ≤ build.bound)
        ⟨rfl, le_rfl⟩ ?_ (autonomous_cmdBuild.follow_own hrun i)
      rintro events before event after ⟨hbefore, hleft⟩ hstep
      have htransition := transition_of_ownStep hstep
      exact ⟨htransition.explained hbefore, htransition.count_add_left_le hbefore hleft⟩
    omega
  · intro source hlive hsource hfree
    rw [← mem_own]
    exact canEnd_of_explained (intact_run hrun) hexplained hlive hsource hfree

/-- A run that has found a name taken and written a part of its file. -/
theorem build_terminates_halfway :
    let out : Path := [.normal [107]]
    let invocation : Invocation := ⟨Csv.grammar, default, 7, [.normal [100]], default⟩
    let schedule : List (Unit × BuildEvent) :=
      [((), .read (.ok [97, 44, 49, 10])), ((), .createNew none (.error .alreadyExists)),
        ((), .createNew none (.ok ())), ((), .writeAll), ((), .spill 3), ((), .spill 0)]
    ∃ world world', (launched fun _ ↦ none).run (cmdBuild out fun _ ↦ invocation) schedule =
        some world ∧
      ((own () schedule).countP fun event ↦ !event.isSpill) ≤ (world.locals ()).bound ∧
      Onwards out (fun _ ↦ invocation) () [] world world' ∧
      (world'.locals ()).phase = .exited exitOk none := by
  intro out invocation schedule
  have hphases : ((launched fun _ ↦ none).run (cmdBuild out fun _ ↦ invocation) schedule).map
      (fun world ↦ (world.locals ()).phase) =
        some (.writing (scratchCandidate out 7 1) [84, 75, 86, 48, 49]
          ((writeCompiled [97, 49] [⟨0, 1, 1, 1⟩] 0).drop 1)) := by decide +kernel
  obtain ⟨world, hrun, hphase⟩ := Option.map_eq_some_iff.mp hphases
  obtain ⟨hcount, hends⟩ := build_terminates out _ _ schedule world hrun ()
  have hopen := explained_of_run hrun ()
  rw [Build.Explained, hphase] at hopen
  obtain ⟨world', honwards, _, hsuccess⟩ := hends [] (by rw [hphase]; exact id)
    (by rw [hphase]; simp) (by rw [hphase]; simp)
  exact ⟨world, world', hrun, hcount, honwards, (hsuccess hopen.failed.mp).1⟩

end Alone

end JustKV
