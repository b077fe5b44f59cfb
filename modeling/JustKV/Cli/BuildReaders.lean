import JustKV.Cli.BuildVolume
import JustKV.Cli.Serve

/-!
# Readers see whole files

Builds with different outputs and readers of any files interleave on one volume.  What an output
stands for is the file from before or one whole artifact, and a reader gets the content of one such
file even if the name is replaced while it reads.
-/

open Checked Interleaving

namespace JustKV

open Compiled

variable {ι : Type} {commands : ι → Command} {initial : Volume}

/-! ## The invariant -/

/-- What each process holds. -/
def heldIn (world : World ι Volume Agent) (i : ι) : Option (Path × ℕ) := (world.locals i).held

/-- The file is the whole artifact of a build with this output. -/
def Whole (commands : ι → Command) (world : World ι Volume Agent) (path : Path) (file : ℕ) : Prop :=
  ∃ i invocation, commands i = .build path invocation ∧
    (world.locals i).build.artifact invocation = some (world.shared.contents file)

/-- The file is closed, and the path stood for it at the start or it is an artifact for the path. -/
structure Seen (commands : ι → Command) (initial : Volume) (world : World ι Volume Agent)
    (path : Path) (file : ℕ) : Prop where
  closed : Closed world.shared (heldIn world) file
  origin : initial.entries path = some file ∨
    initial.next ≤ file ∧ Whole commands world path file

/-- What holds at every moment of builds and readers on one volume. -/
structure Consistent (commands : ι → Command) (initial : Volume)
    (world : World ι Volume Agent) : Prop where
  tended : Tended (Outputs commands) (Temporary commands) initial world.shared
    (heldIn world)
  holding : ∀ i, (world.locals i).Holding
  progress : ∀ i out invocation, commands i = .build out invocation →
    (world.locals i).build.Progress invocation world.shared.fs
  whole : ∀ path file, Outputs commands path → world.shared.entries path = some file →
    initial.next ≤ file → Whole commands world path file
  succeeded : ∀ i out invocation, commands i = .build out invocation →
    (world.locals i).build.phase.Succeeded →
      ∃ file, world.shared.entries out = some file ∧ initial.next ≤ file

theorem consistent_mounted : Consistent commands initial (mounted initial) where
  tended := tended_initial
  holding _ h := by simp [mounted, Build.new, Phase.scratch] at h
  progress _ _ _ _ := rfl
  whole path file _ hentry hnew := absurd (initial.entries_lt path file hentry) (not_lt.mpr hnew)
  succeeded _ _ _ _ h := h.elim

variable {world : World ι Volume Agent}

/-- What a path stands for that is not temporary. -/
theorem Consistent.seen (h : Consistent commands initial world) (hseparate : Separate commands)
    {path : Path} {file : ℕ} (hpath : ¬Temporary commands path)
    (hentry : world.shared.entries path = some file) : Seen commands initial world path file := by
  have hold (hinitial : initial.entries path = some file) : Seen commands initial world path file :=
    ⟨h.tended.closed_initial (initial.entries_lt path file hinitial), Or.inl hinitial⟩
  by_cases hout : Outputs commands path
  · rcases h.tended.published path hout with hsame | ⟨file', hfile, hnew⟩
    · exact hold (hsame.symm.trans hentry)
    · obtain rfl := Option.some.inj (hentry.symm.trans hfile)
      exact ⟨h.tended.closed hseparate hout hentry hnew,
        Or.inr ⟨hnew, h.whole path file hout hentry hnew⟩⟩
  · apply hold
    rw [← h.tended.others path hout, hentry]
    intro i other hi
    exact hpath (h.tended.named i path other hi).2.2.1

/-- Its content is what the path held at the start, or one whole artifact. -/
theorem Seen.content {path : Path} {file : ℕ} (hseen : Seen commands initial world path file)
    (h : Consistent commands initial world) :
    initial.fs path = some (world.shared.contents file) ∨
      Whole commands world path file := by
  refine hseen.origin.imp (fun hinitial ↦ ?_) And.right
  rw [Volume.fs, hinitial, Option.map_some,
    h.tended.kept file (initial.entries_lt path file hinitial)]

section Build

variable [DecidableEq ι] {i : ι} {out : Path} {invocation : Invocation} {op : Option FsOp}
  {volume : Volume} {next : Agent} (h : Consistent commands initial world)
  (hcommand : commands i = .build out invocation)
  (hmove : Move out invocation (world.locals i).build op next.build)
  (hseparate : Separate commands)
  (hhandling : Handling (Outputs commands) (Temporary commands) world.shared (heldIn world i) op
    volume next.held)

theorem heldIn_advance : heldIn (world.advance i volume next) =
    Function.update (heldIn world) i next.held := by
  funext j
  exact Function.apply_update (fun _ agent ↦ Agent.held agent) world.locals i next j

include h hcommand hmove

/-- The artifacts that there are stay. -/
theorem Consistent.artifact_advance {j : ι} {invocation' : Invocation} {out' : Path}
    (hj : commands j = .build out' invocation') {artifact : Bytes}
    (hartifact : (world.locals j).build.artifact invocation' = some artifact) :
    ((world.advance i volume next).locals j).build.artifact invocation' = some artifact := by
  by_cases hij : j = i
  · subst hij
    obtain ⟨rfl, rfl⟩ := by simpa using hj.symm.trans hcommand
    rw [locals_advance_self]
    exact hmove.artifact (h.progress j _ _ hcommand) hartifact
  · rwa [locals_advance_of_ne hij]

include hhandling

/-- A file that has been seen stays as it is. -/
theorem Consistent.seen_advance {path : Path} {file : ℕ}
    (hseen : Seen commands initial world path file) :
    Seen commands initial (world.advance i volume next) path file ∧
      volume.contents file = world.shared.contents file := by
  obtain ⟨hclosed, hcontents⟩ := hseen.closed.step hhandling
  refine ⟨⟨?_, ?_⟩, hcontents⟩
  · rw [heldIn_advance]
    exact hclosed
  · refine hseen.origin.imp_right fun ⟨hnew, j, invocation', hj, hartifact⟩ ↦ ⟨hnew, ?_⟩
    refine ⟨j, invocation', hj, ?_⟩
    rw [shared_advance, hcontents]
    exact h.artifact_advance hcommand hmove hj hartifact

include hseparate

/-- A build goes on, and the scratch files of the others are left alone. -/
theorem Consistent.progress_advance : ∀ j out' invocation', commands j = .build out' invocation' →
    ((world.advance i volume next).locals j).build.Progress invocation' volume.fs := by
  intro j out' invocation' hj
  by_cases hij : j = i
  · subst hij
    obtain ⟨rfl, rfl⟩ := by simpa using hj.symm.trans hcommand
    rw [locals_advance_self, Handling.fs hhandling h.tended]
    exact hmove.progress (h.progress j _ _ hcommand)
  · rw [locals_advance_of_ne hij]
    refine progress_congr (fun tmp htmp ↦ ?_) (h.progress j out' invocation' hj)
    obtain ⟨file, hfile⟩ := Option.isSome_iff_exists.mp (h.holding j (by rw [htmp]; rfl))
    have hheld : heldIn world j = some (tmp, file) := Agent.held_eq_some.mpr ⟨htmp, hfile⟩
    have hstays := (h.tended.step hseparate hhandling).named j tmp file
      (held_update.mpr (Or.inr ⟨hij, hheld⟩))
    have hcontents := hhandling.contents (h.tended.lt_next hheld) fun tmp' hi ↦
      hij (h.tended.unique hheld hi)
    simp only [Volume.fs, hstays.1, (h.tended.named j tmp file hheld).1, Option.map_some, hcontents]

omit [DecidableEq ι] in
/-- An output keeps its file or gets the artifact of the build. -/
theorem Consistent.output_advance {path : Path} (hpath : Outputs commands path) :
    volume.entries path = world.shared.entries path ∨
      path = out ∧ (∃ tmp, op = some (.rename tmp out)) ∧ ∃ file, volume.entries path = some file ∧
        initial.next ≤ file ∧
        next.build.artifact invocation = some (volume.contents file) := by
  rcases hhandling.output (fun tmp file hi ↦
    ⟨(h.tended.named i tmp file hi).1, (h.tended.named i tmp file hi).2.2.1⟩) hseparate hpath
    with hsame | ⟨tmp, file, rfl, hheld, hentry⟩
  · exact Or.inl hsame
  · right
    obtain ⟨hname, hnew, _⟩ := h.tended.named i tmp file hheld
    have hprogress := h.progress i out invocation hcommand
    have hcontents := hhandling.contents_of_rename
    generalize (world.locals i).build = before at hmove hprogress
    generalize next.build = after at hmove
    cases hmove
    case rename parts =>
      refine ⟨rfl, ⟨tmp, rfl⟩, file, hentry, hnew, ?_⟩
      have hartifact : world.shared.fs tmp = Build.artifact invocation ⟨parts, .reporting⟩ :=
        hprogress
      rw [← hartifact, hcontents, Volume.fs, hname, Option.map_some]

theorem Consistent.whole_advance : ∀ path file, Outputs commands path →
    volume.entries path = some file → initial.next ≤ file →
      Whole commands (world.advance i volume next) path file := by
  intro path file hpath hentry hnew
  rcases h.output_advance hcommand hmove hseparate hhandling hpath
    with hsame | ⟨rfl, _, file', hfile, _, hartifact⟩
  · have hbefore : world.shared.entries path = some file := hsame.symm.trans hentry
    have hseen : Seen commands initial world path file :=
      ⟨h.tended.closed hseparate hpath hbefore hnew,
        Or.inr ⟨hnew, h.whole path file hpath hbefore hnew⟩⟩
    rcases (h.seen_advance hcommand hmove hhandling hseen).1.origin with hold | ⟨_, hwhole⟩
    · exact absurd (initial.entries_lt path file hold) (not_lt.mpr hnew)
    · exact hwhole
  · obtain rfl := Option.some.inj (hfile.symm.trans hentry)
    refine ⟨i, invocation, hcommand, ?_⟩
    rw [locals_advance_self, shared_advance]
    exact hartifact

theorem Consistent.succeeded_advance : ∀ j out' invocation',
    commands j = .build out' invocation' →
      ((world.advance i volume next).locals j).build.phase.Succeeded →
        ∃ file, volume.entries out' = some file ∧ initial.next ≤ file := by
  intro j out' invocation' hj hsucceeded
  have hout : Outputs commands out' := ⟨j, invocation', hj⟩
  have hkept (hbefore : ∃ file, world.shared.entries out' = some file ∧ initial.next ≤ file) :
      ∃ file, volume.entries out' = some file ∧ initial.next ≤ file := by
    rcases h.output_advance hcommand hmove hseparate hhandling hout
      with hsame | ⟨_, _, file, hfile, hnew, _⟩
    · rw [hsame]
      exact hbefore
    · exact ⟨file, hfile, hnew⟩
  by_cases hij : j = i
  · subst hij
    obtain ⟨rfl, rfl⟩ := by simpa using hj.symm.trans hcommand
    rw [locals_advance_self] at hsucceeded
    rcases hmove.succeeded hsucceeded with hbefore | ⟨tmp, rfl⟩
    · exact hkept (h.succeeded j _ _ hcommand hbefore)
    · obtain ⟨file, hheld⟩ := hhandling.holds
      have htemporary := (h.tended.named j tmp file hheld).2.2.1
      obtain ⟨file', hheld', hentry⟩ := hhandling.renamed
        (fun tmp file hi ↦ (h.tended.named j tmp file hi).1)
        fun hsame ↦ hseparate _ hout (hsame ▸ htemporary)
      exact ⟨file', hentry, (h.tended.named j tmp file' hheld').2.1⟩
  · rw [locals_advance_of_ne hij] at hsucceeded
    exact hkept (h.succeeded j out' invocation' hj hsucceeded)

/-- A step of a build keeps the invariant. -/
theorem Consistent.build_advance (hholding : next.Holding) :
    Consistent commands initial (world.advance i volume next) := by
  constructor
  case tended =>
    rw [heldIn_advance]
    exact h.tended.step hseparate hhandling
  case holding =>
    apply (forall_locals_advance fun _ (agent : Agent) ↦ agent.Holding).mpr
    exact ⟨hholding, fun j _ ↦ h.holding j⟩
  case progress => exact h.progress_advance hcommand hmove hseparate hhandling
  case whole => exact h.whole_advance hcommand hmove hseparate hhandling
  case succeeded => exact h.succeeded_advance hcommand hmove hseparate hhandling

end Build

section Read

variable [DecidableEq ι] {i : ι} {next : Agent}
  (hbuild : next.build = (world.locals i).build) (hhandle : next.handle = (world.locals i).handle)

include hbuild

theorem build_advance_eq (j : ι) :
    ((world.advance i world.shared next).locals j).build = (world.locals j).build := by
  by_cases hij : j = i
  · subst hij
    rw [locals_advance_self, hbuild]
  · rw [locals_advance_of_ne hij]

theorem whole_advance_iff {path : Path} {file : ℕ} :
    Whole commands (world.advance i world.shared next) path file ↔
      Whole commands world path file := by
  simp only [Whole, build_advance_eq hbuild, shared_advance]

include hhandle

theorem heldIn_advance_eq : heldIn (world.advance i world.shared next) = heldIn world := by
  have hheld : next.held = heldIn world i := by rw [Agent.held, hbuild, hhandle, heldIn, Agent.held]
  rw [heldIn_advance, hheld, Function.update_eq_self]

/-- A step that changes no build and no file changes nothing that is seen. -/
theorem Seen.read_advance {path : Path} {file : ℕ} (h : Seen commands initial world path file) :
    Seen commands initial (world.advance i world.shared next) path file where
  closed := by
    rw [heldIn_advance_eq hbuild hhandle]
    exact h.closed
  origin := h.origin.imp_right fun hnew ↦ ⟨hnew.1, (whole_advance_iff hbuild).mpr hnew.2⟩

/-- A step of a reader keeps the invariant. -/
theorem Consistent.read_advance (h : Consistent commands initial world) :
    Consistent commands initial (world.advance i world.shared next) where
  tended := by
    rw [heldIn_advance_eq hbuild hhandle]
    exact h.tended
  holding := by
    apply (forall_locals_advance fun _ (agent : Agent) ↦ agent.Holding).mpr
    refine ⟨?_, fun j _ ↦ h.holding j⟩
    rw [Agent.Holding, hbuild, hhandle]
    exact h.holding i
  progress j := by
    rw [build_advance_eq hbuild]
    exact h.progress j
  whole path file hpath hentry hnew :=
    (whole_advance_iff hbuild).mpr (h.whole path file hpath hentry hnew)
  succeeded j := by
    rw [build_advance_eq hbuild]
    exact h.succeeded j

end Read

section Runs

variable [DecidableEq ι] (hseparate : Separate commands)

include hseparate

theorem consistent_step {i : ι} {event : FileEvent} {volume : Volume} {next : Agent}
    (h : Consistent commands initial world)
    (hstep : onVolume commands i event world.shared (world.locals i) = some (volume, next)) :
    Consistent commands initial (world.advance i volume next) := by
  rcases step_of_onVolume hstep with
    ⟨out, invocation, event', op, hcommand, _, hbuild, heffect, _⟩ |
    ⟨path, event', _, _, rfl, _, hbuild, hhandle⟩
  · have hmove := move_of_step hbuild
    obtain ⟨hhandling, hholding⟩ := handling_of_move hcommand hmove (h.holding i) heffect
    exact h.build_advance hcommand hmove hseparate hhandling hholding
  · exact h.read_advance hbuild hhandle

/-- At every moment of every interleaving the invariant holds. -/
theorem consistent_of_reaches {world' : World ι Volume Agent}
    (hreach : Reaches (onVolume commands) world world')
    (h : Consistent commands initial world) : Consistent commands initial world' :=
  Reaches.invariant (fun _ _ _ _ _ _ hbefore hstep ↦ consistent_step hseparate hbefore hstep)
    hreach h

end Runs

/-- What a build has parsed it has read in the course of the run. -/
theorem parts_of_volume_run [DecidableEq ι] {schedule : List (ι × FileEvent)}
    (hrun : (mounted initial).run (onVolume commands) schedule = some world) {i : ι} {out : Path}
    {invocation : Invocation} (hcommand : commands i = .build out invocation)
    {parts : Bytes × List Entry} (hparts : (world.locals i).build.parts = some parts) :
    ∃ source, (i, .build (.read (.ok source))) ∈ schedule ∧
      parseCsv invocation.csv invocation.process source
        (invocation.parse.loadOptions invocation.data) = .ok (.ok parts) := by
  revert parts hparts
  refine run_invariant_of (motive := fun world ↦
    ∀ {parts}, (world.locals i).build.parts = some parts →
      ∃ source, (i, .build (.read (.ok source))) ∈ schedule ∧
        parseCsv invocation.csv invocation.process source
          (invocation.parse.loadOptions invocation.data) = .ok (.ok parts))
    ?_ hrun fun {parts} h ↦ by simp [mounted, Build.new] at h
  intro before j event volume next hevent hbefore hstep parts hparts
  by_cases hij : i = j
  · subst hij
    rw [locals_advance_self] at hparts
    rcases step_of_onVolume hstep with ⟨out', invocation', event', op, hi, rfl, hbuild, _⟩ |
      ⟨_, _, _, _, _, _, hbuild, _⟩
    · obtain ⟨rfl, rfl⟩ := by simpa using hi.symm.trans hcommand
      rcases parts_of_step hbuild hparts with hold | ⟨source, rfl, hparse⟩
      · exact hbefore hold
      · exact ⟨source, hevent, hparse⟩
    · rw [hbuild] at hparts
      exact hbefore hparts
  · rw [locals_advance_of_ne hij] at hparts
    exact hbefore hparts

/-- A whole file is the artifact of what its build has read. -/
theorem Whole.source [DecidableEq ι] {schedule : List (ι × FileEvent)}
    (hrun : (mounted initial).run (onVolume commands) schedule = some world) {path : Path}
    {file : ℕ} (h : Whole commands world path file) :
    ∃ i invocation source arena entries, commands i = .build path invocation ∧
      (i, .build (.read (.ok source))) ∈ schedule ∧
      parseCsv invocation.csv invocation.process source
        (invocation.parse.loadOptions invocation.data) = .ok (.ok (arena, entries)) ∧
      world.shared.contents file = compiledBytes arena entries invocation.flags := by
  obtain ⟨i, invocation, hcommand, hartifact⟩ := h
  obtain ⟨parts, hparts, hbytes⟩ := Option.map_eq_some_iff.mp hartifact
  obtain ⟨source, hsource, hparse⟩ := parts_of_volume_run hrun hcommand hparts
  exact ⟨i, invocation, source, parts.1, parts.2, hcommand, hsource, hparse, hbytes.symm⟩

end JustKV
