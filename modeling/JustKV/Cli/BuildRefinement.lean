import JustKV.Cli.BuildReaders
import JustKV.Library.Simulation

/-!
# Builds on a volume refine builds on a map

Builds that write through open files on a volume do what builds do that write to paths of a map
from paths to contents, as long as they have one output: the map is what the names stand for.
-/

open Checked Interleaving

namespace JustKV

/-- What a command is given if it is a build. -/
def Command.invocation : Command → Invocation
  | .build _ invocation => invocation
  | .serve _ => ⟨Csv.grammar, default, 0, [], default⟩

/-- The events of the builds. -/
def buildEvents {ι : Type} : ι × FileEvent → List (ι × BuildEvent)
  | (i, .build event) => [(i, event)]
  | (_, .read _) => []

variable {ι : Type} [DecidableEq ι] {commands : ι → Command} {initial : Volume} {out : Path}

/-- The map is what the names stand for, and the builds have come equally far. -/
structure Abstracts (commands : ι → Command) (initial : Volume) (world : World ι Volume Agent)
    (abstract : World ι (Disk ι) Build) : Prop where
  consistent : Consistent commands initial world
  fs : abstract.shared.fs = world.shared.fs
  locals : ∀ i, abstract.locals i = (world.locals i).build

theorem simulates_cmdBuild
    (hout : ∀ i out' invocation, commands i = .build out' invocation → out' = out) :
    Simulates (onVolume commands) (cmdBuild out fun i ↦ (commands i).invocation) buildEvents
      (Abstracts commands initial) := by
  rintro world ⟨i, event⟩ next abstract hrelated hstep
  obtain ⟨volume, agent, hprogram, rfl⟩ := step_eq_some.mp hstep
  have hseparate := separate_of_one_output hout
  have hnext := consistent_step hseparate hrelated.consistent hprogram
  rcases step_of_onVolume hprogram with ⟨out', invocation, event', op, hcommand, rfl, hbuild,
    heffect, _⟩ | ⟨path, event', _, rfl, rfl, _, hbuild, _⟩
  · obtain rfl := hout i out' invocation hcommand
    have hmove := move_of_step hbuild
    have hhandling : Handling (Outputs commands) (Temporary commands) world.shared (heldIn world i)
        op volume agent.held :=
      (handling_of_move hcommand hmove (hrelated.consistent.holding i) heffect).1
    have henabled := Handling.enabled hhandling hrelated.consistent.tended
    have hfs := Handling.fs hhandling hrelated.consistent.tended
    have hspec : cmdBuild out' (fun i ↦ (commands i).invocation) i event' abstract.shared
        (abstract.locals i) = some (abstract.shared.after i op, agent.build) := by
      rw [cmdBuild, hrelated.locals i, hcommand, Command.invocation, hbuild]
      cases op with
      | none => rfl
      | some op =>
        have hop := henabled op rfl
        rw [← hrelated.fs] at hop
        exact if_pos hop
    have habstract : abstract.step (cmdBuild out' fun i ↦ (commands i).invocation) (i, event') =
        some (abstract.advance i (abstract.shared.after i op) agent.build) :=
      step_eq_some.mpr ⟨_, _, hspec, rfl⟩
    refine ⟨abstract.advance i (abstract.shared.after i op) agent.build, ?_, hnext, ?_, ?_⟩
    · rw [World.run, buildEvents, List.foldlM_cons, habstract]
      rfl
    · rw [shared_advance, shared_advance, fs_after, hfs, hrelated.fs]
    · intro j
      by_cases hij : j = i
      · subst hij
        rw [locals_advance_self, locals_advance_self]
      · rw [locals_advance_of_ne hij, locals_advance_of_ne hij, hrelated.locals j]
  · refine ⟨abstract, rfl, hnext, hrelated.fs, fun j ↦ ?_⟩
    rw [hrelated.locals j, build_advance_eq hbuild]

/-- Every run of builds with one output on a volume, with readers in between, is a run of the same
builds on the map of what its names stand for. -/
theorem volume_refines_map (commands : ι → Command) (out : Path)
    (hout : ∀ i out' invocation, commands i = .build out' invocation → out' = out)
    (initial : Volume) (schedule : List (ι × FileEvent)) (world : World ι Volume Agent)
    (hrun : (mounted initial).run (onVolume commands) schedule = some world) :
    ∃ abstract, (launched initial.fs).run (cmdBuild out fun i ↦ (commands i).invocation)
        (schedule.flatMap buildEvents) = some abstract ∧
      abstract.shared.fs = world.shared.fs ∧
      ∀ i, abstract.locals i = (world.locals i).build := by
  have hstart : Abstracts commands initial (mounted initial) (launched initial.fs) :=
    ⟨consistent_mounted, rfl, fun _ ↦ rfl⟩
  obtain ⟨abstract, habstract, hrelated⟩ := (simulates_cmdBuild hout).run hstart hrun
  exact ⟨abstract, habstract, hrelated.fs, hrelated.locals⟩

/-- A build and a reader that has opened the old file before it is replaced. -/
theorem volume_refines_map_replaced :
    let out : Path := [.normal [107]]
    let invocation : Invocation := ⟨Csv.grammar, default, 7, [.normal [100]], default⟩
    let commands (reader : Bool) : Command := if reader then .serve out else .build out invocation
    let initial := (Volume.empty.create out).write 0 [1]
    let build event : Bool × FileEvent := (false, .build event)
    let read event : Bool × FileEvent := (true, .read event)
    let schedule := [build (.read (.ok [97, 44, 49, 10])), build (.createNew none (.ok ())),
        read (.openFile (.ok ()))] ++ List.replicate 10 (build .writeAll) ++
      [build (.spill 90), build .flush, build (.rename true), read (.readSome 8),
        read (.readSome 8), build .exit]
    ∃ world abstract, (mounted initial).run (onVolume commands) schedule = some world ∧
      (world.locals true).reading = .finished (.ok [1]) ∧
      (launched initial.fs).run (cmdBuild out fun i ↦ (commands i).invocation)
        (schedule.flatMap buildEvents) = some abstract ∧
      abstract.shared.fs = world.shared.fs ∧
      (abstract.locals false).phase = .exited exitOk none := by
  intro out invocation commands initial build read schedule
  have hresults : ((mounted initial).run (onVolume commands) schedule).map
      (fun world ↦ ((world.locals true).reading, (world.locals false).build.phase)) =
        some (.finished (.ok [1]), .exited exitOk none) := by decide +kernel
  obtain ⟨world, hrun, hresult⟩ := Option.map_eq_some_iff.mp hresults
  obtain ⟨hreading, hphase⟩ := Prod.mk.inj hresult
  have hout (i : Bool) (out' : Path) (invocation' : Invocation)
      (hi : commands i = .build out' invocation') : out' = out := by
    cases i with
    | false =>
      obtain ⟨rfl, -⟩ := by simpa [commands] using hi
      rfl
    | true => simp [commands] at hi
  obtain ⟨abstract, habstract, hfs, hlocals⟩ :=
    volume_refines_map commands out hout initial schedule world hrun
  exact ⟨world, abstract, hrun, hreading, habstract, hfs, by rw [hlocals, hphase]⟩

end JustKV
