import JustKV.Cli.BuildAtomic
import JustKV.Library.OwnSteps

/-!
# How a build ends

The exit code of a build says what happened in it: the output was replaced, the data was rejected,
or an operation failed.
-/

open Checked Interleaving

namespace JustKV

open Compiled

/-- The run cannot use these bytes. -/
def Invocation.Rejects (invocation : Invocation) (data : Bytes) : Prop :=
  ∀ parts, parseCsv invocation.csv invocation.process data
    (invocation.parse.loadOptions invocation.data) ≠ .ok (.ok parts)

def Phase.IsOver : Phase → Prop
  | .exited _ _ => True
  | .crashed _ => True
  | _ => False

/-- Every step of a run with the event that it takes. -/
inductive Transition (out : Path) (invocation : Invocation) : Build → BuildEvent → Build → Prop
  | unreadable {parts : Option (Bytes × List Entry)} (error : IoError) :
      Transition out invocation ⟨parts, .start⟩ (.read (.error error))
        ⟨parts, .exited exitIo none⟩
  | rejected {parts : Option (Bytes × List Entry)} {data : Bytes}
      (hrejects : invocation.Rejects data) :
      Transition out invocation ⟨parts, .start⟩ (.read (.ok data))
        ⟨parts, .exited exitInvalidData none⟩
  | parsed {before : Option (Bytes × List Entry)} {data : Bytes} {parts : Bytes × List Entry}
      (hparse : parseCsv invocation.csv invocation.process data
        (invocation.parse.loadOptions invocation.data) = .ok (.ok parts)) :
      Transition out invocation ⟨before, .start⟩ (.read (.ok data)) ⟨some parts, .creating 0⟩
  | created {parts : Bytes × List Entry} {attempt : ℕ} (clock : Option UInt32) :
      Transition out invocation ⟨some parts, .creating attempt⟩ (.createNew clock (.ok ()))
        ⟨some parts, .writing
          (scratchCandidate out invocation.pid (clock.getD 0 + UInt32.ofNat attempt)) []
          (writeCompiled parts.1 parts.2 invocation.flags)⟩
  | occupied {parts : Option (Bytes × List Entry)} {attempt : ℕ} (clock : Option UInt32)
      (hattempt : attempt + 1 < maxAttempts) :
      Transition out invocation ⟨parts, .creating attempt⟩
        (.createNew clock (.error .alreadyExists)) ⟨parts, .creating (attempt + 1)⟩
  | exhausted {parts : Option (Bytes × List Entry)} {attempt : ℕ} (clock : Option UInt32)
      (hattempt : maxAttempts ≤ attempt + 1) :
      Transition out invocation ⟨parts, .creating attempt⟩
        (.createNew clock (.error .alreadyExists)) ⟨parts, .exited exitIo none⟩
  | uncreatable {parts : Option (Bytes × List Entry)} {attempt : ℕ} (clock : Option UInt32)
      (message : String) :
      Transition out invocation ⟨parts, .creating attempt⟩
        (.createNew clock (.error (.other message))) ⟨parts, .exited exitIo none⟩
  | handed {parts : Option (Bytes × List Entry)} {tmp : Path} {buffer chunk : Bytes}
      {pending : List Bytes} :
      Transition out invocation ⟨parts, .writing tmp buffer (chunk :: pending)⟩ .writeAll
        ⟨parts, .writing tmp (buffer ++ chunk) pending⟩
  | spilled {parts : Option (Bytes × List Entry)} {tmp : Path} {buffer : Bytes}
      {pending : List Bytes} (count : ℕ) :
      Transition out invocation ⟨parts, .writing tmp buffer pending⟩ (.spill count)
        ⟨parts, .writing tmp (buffer.drop count) pending⟩
  | flushed {parts : Option (Bytes × List Entry)} {tmp : Path} :
      Transition out invocation ⟨parts, .writing tmp [] []⟩ .flush ⟨parts, .finalizing tmp⟩
  | unwritable {parts : Option (Bytes × List Entry)} {tmp : Path} {buffer : Bytes}
      {pending : List Bytes} :
      Transition out invocation ⟨parts, .writing tmp buffer pending⟩ .writeFails
        ⟨parts, .dropping tmp buffer⟩
  | spilledDropped {parts : Option (Bytes × List Entry)} {tmp : Path} {buffer : Bytes}
      (count : ℕ) :
      Transition out invocation ⟨parts, .dropping tmp buffer⟩ (.spill count)
        ⟨parts, .dropping tmp (buffer.drop count)⟩
  | dropped {parts : Option (Bytes × List Entry)} {tmp : Path} {buffer : Bytes} :
      Transition out invocation ⟨parts, .dropping tmp buffer⟩ .drop ⟨parts, .removing tmp⟩
  | renamed {parts : Option (Bytes × List Entry)} {tmp : Path} :
      Transition out invocation ⟨parts, .finalizing tmp⟩ (.rename true) ⟨parts, .reporting⟩
  | notRenamed {parts : Option (Bytes × List Entry)} {tmp : Path} :
      Transition out invocation ⟨parts, .finalizing tmp⟩ (.rename false) ⟨parts, .removing tmp⟩
  | removed {parts : Option (Bytes × List Entry)} {tmp : Path} :
      Transition out invocation ⟨parts, .removing tmp⟩ (.remove true)
        ⟨parts, .exited exitIo none⟩
  | notRemoved {parts : Option (Bytes × List Entry)} {tmp : Path} :
      Transition out invocation ⟨parts, .removing tmp⟩ (.remove false)
        ⟨parts, .exited exitIo (some tmp)⟩
  | exited {parts : Option (Bytes × List Entry)} :
      Transition out invocation ⟨parts, .reporting⟩ .exit ⟨parts, .exited exitOk none⟩
  | crashed {parts : Option (Bytes × List Entry)} {phase : Phase} (hlive : ¬phase.IsOver) :
      Transition out invocation ⟨parts, phase⟩ .crash ⟨parts, .crashed phase.scratch⟩

variable {out : Path} {invocation : Invocation} {build next : Build} {event : BuildEvent}

theorem transition_of_read {parts : Option (Bytes × List Entry)} {result : Except IoError Bytes}
    {op : Option FsOp}
    (h : Build.step out invocation ⟨parts, .start⟩ (.read result) = some (op, next)) :
    Transition out invocation ⟨parts, .start⟩ (.read result) next := by
  simp only [Build.step, parseValidated_eq] at h
  cases result with
  | error error =>
    cases h
    exact .unreadable error
  | ok data =>
    dsimp only at h
    cases hparse : CsvLoader.outcome (invocation.parse.loadOptions invocation.data) (invocation.csv
        ⟨(invocation.parse.loadOptions invocation.data).delimiter,
          (invocation.parse.loadOptions invocation.data).hasHeader⟩ data) with
    | ok parts' =>
      rw [hparse] at h
      cases h
      apply Transition.parsed
      rw [parseCsv_eq_ok, hparse]
    | error problems =>
      rw [hparse] at h
      cases h
      apply Transition.rejected
      intro parts'
      rw [parseCsv_eq_ok, hparse]
      simp

theorem transition_of_createNew {parts : Option (Bytes × List Entry)} {attempt : ℕ}
    {clock : Option UInt32} {result : Except IoError Unit} {op : Option FsOp}
    (h : Build.step out invocation ⟨parts, .creating attempt⟩ (.createNew clock result) =
      some (op, next)) :
    Transition out invocation ⟨parts, .creating attempt⟩ (.createNew clock result) next := by
  simp only [Build.step] at h
  split at h
  case h_1 => cases h; exact .created clock
  case h_2 => simp at h
  case h_3 =>
    cases h
    by_cases hattempt : attempt + 1 < maxAttempts
    · rw [if_pos hattempt]
      exact .occupied clock hattempt
    · rw [if_neg hattempt]
      exact .exhausted clock (not_lt.mp hattempt)
  case h_4 message => cases h; exact .uncreatable clock message

theorem transition_of_step {op : Option FsOp}
    (h : build.step out invocation event = some (op, next)) :
    Transition out invocation build event next := by
  obtain ⟨parts, phase⟩ := build
  unfold Build.step at h
  split at h
  case h_1 result hphase => subst hphase; exact transition_of_read h
  case h_2 hphase => subst hphase; exact transition_of_createNew h
  case h_14 => simp at h
  case h_15 => simp at h
  case h_16 _ _ hexited hcrashed =>
    cases h
    apply Transition.crashed
    cases phase with
    | exited code leftover => exact (hexited code leftover rfl).elim
    | crashed leftover => exact (hcrashed leftover rfl).elim
    | _ => exact id
  case h_17 => simp at h
  all_goals
    rename_i hphase
    cases h
  case h_3 => subst hphase; exact .handed
  case h_4 count => subst hphase; exact .spilled count
  case h_5 => subst hphase; exact .flushed
  case h_6 => subst hphase; exact .unwritable
  case h_7 count => subst hphase; exact .spilledDropped count
  case h_8 => subst hphase; exact .dropped
  case h_9 => subst hphase; exact .renamed
  case h_10 => subst hphase; exact .notRenamed
  case h_11 => subst hphase; exact .removed
  case h_12 => subst hphase; exact .notRemoved
  case h_13 => subst hphase; exact .exited

/-! ## What happened in a run -/

/-- An operation fails, for another reason than an occupied name. -/
def BuildEvent.IsFailure : BuildEvent → Prop
  | .read (.error _) => True
  | .createNew _ (.error (.other _)) => True
  | .writeFails => True
  | .rename false => True
  | _ => False

def BuildEvent.isOccupied : BuildEvent → Bool
  | .createNew _ (.error .alreadyExists) => true
  | _ => false

/-- The run has read bytes that it cannot use. -/
def Invocation.Rejected (invocation : Invocation) (events : List BuildEvent) : Prop :=
  ∃ data, .read (.ok data) ∈ events ∧ invocation.Rejects data

/-- An operation has failed, or all names were taken. -/
def Failed (events : List BuildEvent) : Prop :=
  (∃ event ∈ events, event.IsFailure) ∨ maxAttempts ≤ events.countP BuildEvent.isOccupied

/-- What the events of a run amount to. -/
structure Summary (invocation : Invocation) (events : List BuildEvent)
    (renamed rejected failed abandoned : Prop) : Prop where
  renamed : .rename true ∈ events ↔ renamed
  rejected : invocation.Rejected events ↔ rejected
  failed : Failed events ↔ failed
  abandoned : .remove false ∈ events ↔ abandoned

/-- Nothing has been decided. -/
abbrev Open (invocation : Invocation) (events : List BuildEvent) : Prop :=
  Summary invocation events False False False False

/-- The events explain how far the run has come. -/
def Build.Explained (invocation : Invocation) (events : List BuildEvent) (build : Build) : Prop :=
  match build.phase with
  | .start => events = []
  | .creating attempt => Open invocation events ∧ attempt < maxAttempts ∧
      events.countP BuildEvent.isOccupied = attempt ∧ build.parts.isSome
  | .writing _ _ _ => Open invocation events
  | .finalizing _ => Open invocation events
  | .dropping _ _ => Summary invocation events False False True False
  | .removing _ => Summary invocation events False False True False
  | .reporting => Summary invocation events True False False False
  | .exited code leftover => (code = exitOk ∨ code = exitInvalidData ∨ code = exitIo) ∧
      Summary invocation events (code = exitOk) (code = exitInvalidData) (code = exitIo)
        (leftover ≠ none)
  | .crashed _ => True

section Summary

variable {events : List BuildEvent} {renamed rejected failed abandoned : Prop}

theorem summary_nil (invocation : Invocation) : Open invocation [] where
  renamed := by simp
  rejected := by simp [Invocation.Rejected]
  failed := by simp [Failed, maxAttempts]
  abandoned := by simp

theorem rejected_append : invocation.Rejected (events ++ [event]) ↔
    invocation.Rejected events ∨ ∃ data, event = .read (.ok data) ∧ invocation.Rejects data := by
  simp only [Invocation.Rejected, List.mem_append, List.mem_singleton, or_and_right, exists_or,
    eq_comm]

theorem failed_append (hoccupied : event.isOccupied = false) :
    Failed (events ++ [event]) ↔ Failed events ∨ event.IsFailure := by
  simp only [Failed, List.mem_append, List.mem_singleton, or_and_right, exists_or,
    exists_eq_left, List.countP_append, List.countP_singleton, hoccupied]
  simp only [Bool.false_eq_true, if_false, Nat.add_zero, or_right_comm]

/-- What one more event adds. -/
theorem Summary.append (h : Summary invocation events renamed rejected failed abandoned)
    (event : BuildEvent) (hoccupied : event.isOccupied = false) :
    Summary invocation (events ++ [event]) (renamed ∨ event = .rename true)
      (rejected ∨ ∃ data, event = .read (.ok data) ∧ invocation.Rejects data)
      (failed ∨ event.IsFailure) (abandoned ∨ event = .remove false) where
  renamed := by rw [List.mem_append, List.mem_singleton, h.renamed, eq_comm]
  rejected := by rw [rejected_append, h.rejected]
  failed := by rw [failed_append hoccupied, h.failed]
  abandoned := by rw [List.mem_append, List.mem_singleton, h.abandoned, eq_comm]

/-- Events that decide nothing. -/
def BuildEvent.isNeutral : BuildEvent → Bool
  | .createNew _ (.ok ()) => true
  | .writeAll => true
  | .spill _ => true
  | .flush => true
  | .drop => true
  | .remove true => true
  | .exit => true
  | _ => false

theorem Summary.neutral (h : Summary invocation events renamed rejected failed abandoned)
    (event : BuildEvent) (hevent : event.isNeutral = true) :
    Summary invocation (events ++ [event]) renamed rejected failed abandoned := by
  have hquiet : event.isOccupied = false ∧ event ≠ .rename true ∧
      (∀ data, event ≠ .read (.ok data)) ∧ ¬event.IsFailure ∧ event ≠ .remove false := by
    unfold BuildEvent.isNeutral at hevent
    split at hevent <;> simp [BuildEvent.isOccupied, BuildEvent.IsFailure] at hevent ⊢
  obtain ⟨hoccupied, hrename, hread, hfine, hremove⟩ := hquiet
  simpa [hrename, hread, hfine, hremove] using h.append event hoccupied

theorem Summary.fail (h : Summary invocation events renamed rejected failed abandoned)
    (event : BuildEvent) (hevent : event.IsFailure) :
    Summary invocation (events ++ [event]) renamed rejected True abandoned := by
  have hquiet : event.isOccupied = false ∧ event ≠ .rename true ∧
      (∀ data, event ≠ .read (.ok data)) ∧ event ≠ .remove false := by
    unfold BuildEvent.IsFailure at hevent
    split at hevent <;> simp [BuildEvent.isOccupied] at hevent ⊢
  obtain ⟨hoccupied, hrename, hread, hremove⟩ := hquiet
  simpa [hrename, hread, hevent, hremove] using h.append event hoccupied

/-- An occupied name decides nothing before the last attempt, and then the run has failed. -/
theorem Open.occupied (h : Open invocation events) {attempt : ℕ}
    (hcount : events.countP BuildEvent.isOccupied = attempt) (clock : Option UInt32) :
    Summary invocation (events ++ [.createNew clock (.error .alreadyExists)]) False False
      (maxAttempts ≤ attempt + 1) False := by
  have hfine : ¬∃ other ∈ events, other.IsFailure := fun hfails ↦ h.failed.mp (Or.inl hfails)
  constructor
  case renamed => simp [h.renamed]
  case rejected => simp [rejected_append, h.rejected]
  case abandoned => simp [h.abandoned]
  case failed =>
    rw [Failed, List.countP_append, hcount]
    constructor
    · rintro (⟨other, hother, hfails⟩ | hmany)
      · rcases List.mem_append.mp hother with hother | hother
        · exact (hfine ⟨other, hother, hfails⟩).elim
        · rw [List.mem_singleton.mp hother] at hfails
          exact hfails.elim
      · exact hmany
    · exact Or.inr

/-- An exit code follows from what has been decided. -/
theorem explained_exited {parts : Option (Bytes × List Entry)} {code : UInt8}
    {leftover : Option Path} (h : Summary invocation events renamed rejected failed abandoned)
    (hcode : code = exitOk ∨ code = exitInvalidData ∨ code = exitIo)
    (hrenamed : renamed ↔ code = exitOk) (hrejected : rejected ↔ code = exitInvalidData)
    (hfailed : failed ↔ code = exitIo) (habandoned : abandoned ↔ leftover ≠ none) :
    Build.Explained invocation events ⟨parts, .exited code leftover⟩ :=
  ⟨hcode, h.renamed.trans hrenamed, h.rejected.trans hrejected, h.failed.trans hfailed,
    h.abandoned.trans habandoned⟩

/-- Every step keeps the explanation. -/
theorem Transition.explained (h : Transition out invocation build event next)
    (hbefore : build.Explained invocation events) :
    next.Explained invocation (events ++ [event]) := by
  have hio : exitIo ≠ exitOk ∧ exitIo ≠ exitInvalidData := by decide
  have hdata : exitInvalidData ≠ exitOk ∧ exitInvalidData ≠ exitIo := by decide
  cases h with
  | unreadable error =>
    obtain rfl : events = [] := hbefore
    have hnext := (summary_nil invocation).fail (.read (.error error)) trivial
    exact explained_exited hnext (by simp) (by simp [hio]) (by simp [hio]) (by simp) (by simp)
  | @rejected _ data hrejects =>
    obtain rfl : events = [] := hbefore
    have hnext := (summary_nil invocation).append (.read (.ok data)) rfl
    exact explained_exited hnext (by simp) (by simp [hdata]) (by simpa using hrejects)
      (by simp [hdata, BuildEvent.IsFailure]) (by simp)
  | @parsed _ data parts hparse =>
    obtain rfl : events = [] := hbefore
    have haccepts : ¬invocation.Rejects data := fun hrejects ↦ hrejects parts hparse
    have hnext := (summary_nil invocation).append (.read (.ok data)) rfl
    exact ⟨by simpa [BuildEvent.IsFailure, haccepts] using hnext, by decide, rfl, rfl⟩
  | created clock => exact hbefore.1.neutral _ rfl
  | @occupied _ attempt clock hattempt =>
    obtain ⟨hopen, _, hcount, hparts⟩ := hbefore
    have hnext := hopen.occupied hcount clock
    refine ⟨by simpa only [not_le.mpr hattempt] using hnext, hattempt, ?_, hparts⟩
    rw [List.countP_append, hcount]
    rfl
  | exhausted clock hattempt =>
    obtain ⟨hopen, _, hcount, _⟩ := hbefore
    have hnext := hopen.occupied hcount clock
    exact explained_exited hnext (by simp) (by simp [hio]) (by simp [hio]) (by simp [hattempt])
      (by simp)
  | uncreatable clock message =>
    have hnext := hbefore.1.fail (.createNew clock (.error (.other message))) trivial
    exact explained_exited hnext (by simp) (by simp [hio]) (by simp [hio]) (by simp) (by simp)
  | handed => exact Summary.neutral hbefore _ rfl
  | spilled count => exact Summary.neutral hbefore _ rfl
  | flushed => exact Summary.neutral hbefore _ rfl
  | unwritable => exact Summary.fail hbefore _ trivial
  | spilledDropped count => exact Summary.neutral hbefore _ rfl
  | dropped => exact Summary.neutral hbefore _ rfl
  | renamed =>
    have hnext := Summary.append hbefore (.rename true) rfl
    simpa [Build.Explained, BuildEvent.IsFailure] using hnext
  | notRenamed => exact Summary.fail hbefore _ trivial
  | removed =>
    have hnext := Summary.neutral hbefore (.remove true) rfl
    exact explained_exited hnext (by simp) (by simp [hio]) (by simp [hio]) (by simp) (by simp)
  | notRemoved =>
    have hnext := Summary.append hbefore (.remove false) rfl
    exact explained_exited hnext (by simp) (by simp [hio]) (by simp [hio]) (by simp) (by simp)
  | exited =>
    have hnext := Summary.neutral hbefore .exit rfl
    exact explained_exited hnext (by simp) (by simp) (by simp [hdata.1.symm]) (by simp [hio.1.symm])
      (by simp)
  | crashed hlive => exact trivial

end Summary

section Runs

variable {ι : Type} {invocations : ι → Invocation}

/-- The step of a run, wherever the disk lets it happen. -/
def ownStep (out : Path) (invocations : ι → Invocation) (i : ι) (event : BuildEvent)
    (build : Build) : Option Build :=
  (build.step out (invocations i) event).map Prod.snd

theorem autonomous_cmdBuild : Autonomous (cmdBuild out invocations) (ownStep out invocations) := by
  intro i event disk build disk' next hstep
  obtain ⟨op, hop, _⟩ := step_of_cmdBuild hstep
  rw [ownStep, hop]
  rfl

theorem transition_of_ownStep {i : ι} {before after : Build}
    (h : ownStep out invocations i event before = some after) :
    Transition out (invocations i) before event after := by
  obtain ⟨⟨op, next⟩, hop, rfl⟩ := Option.map_eq_some_iff.mp h
  exact transition_of_step hop

variable [DecidableEq ι] {initial : FileSystem} {schedule : List (ι × BuildEvent)}
  {world : World ι (Disk ι) Build}

/-- In every interleaving the events of a run explain how far it has come. -/
theorem explained_of_run
    (hrun : (launched initial).run (cmdBuild out invocations) schedule = some world) (i : ι) :
    (world.locals i).Explained (invocations i) (own i schedule) := by
  have hfollow := autonomous_cmdBuild.follow_own hrun i
  refine follow_invariant (motive := fun events build ↦ build.Explained (invocations i) events) rfl
    ?_ hfollow
  intro events before event after hbefore hstep
  exact (transition_of_ownStep hstep).explained hbefore

/-- In every interleaving of builds, with whatever failures, the exit code of a run says what
happened in it, and a scratch file stays behind exactly if its removal failed: then it is there
under a name that was free before, and otherwise a file that the run created is gone, though another
run may have taken its name. -/
theorem build_exit_code (out : Path) (invocations : ι → Invocation) (initial : FileSystem)
    (schedule : List (ι × BuildEvent)) (world : World ι (Disk ι) Build)
    (hrun : (launched initial).run (cmdBuild out invocations) schedule = some world) (i : ι)
    (code : UInt8) (leftover : Option Path)
    (hphase : (world.locals i).phase = .exited code leftover) :
    (code = exitOk ∨ code = exitInvalidData ∨ code = exitIo) ∧
    (code = exitOk ↔ (i, .rename true) ∈ schedule) ∧
    (code = exitOk ↔ ∃ tmp, (i, .rename tmp out) ∈ world.shared.history) ∧
    (code = exitInvalidData ↔ ∃ data, (i, .read (.ok data)) ∈ schedule ∧
      ∀ parts, parseCsv (invocations i).csv (invocations i).process data
        ((invocations i).parse.loadOptions (invocations i).data) ≠ .ok (.ok parts)) ∧
    (code = exitIo ↔ (∃ event, (i, event) ∈ schedule ∧ event.IsFailure) ∨
      maxAttempts ≤ (own i schedule).countP BuildEvent.isOccupied) ∧
    (leftover ≠ none ↔ (i, .remove false) ∈ schedule) ∧
    (∀ tmp, leftover = some tmp → initial tmp = none ∧ (world.shared.fs tmp).isSome ∧
      (i, .create tmp) ∈ world.shared.history) ∧
    (leftover = none → ∀ path, (i, .create path) ∈ world.shared.history →
      world.shared.fs path = none ∨ ∃ j ≠ i, (world.locals j).phase.scratch = some path) := by
  have hintact : Intact out invocations initial world := intact_run hrun
  have hexplained := explained_of_run hrun i
  rw [Build.Explained, hphase] at hexplained
  obtain ⟨hcode, hsummary⟩ := hexplained
  refine ⟨hcode, ?_, ?_, ?_, ?_, ?_, ?_, ?_⟩
  · rw [← hsummary.renamed, mem_own]
  · constructor
    · rintro rfl
      exact hintact.succeeded i (by rw [hphase]; rfl)
    · rintro ⟨tmp, hrename⟩
      have hrenamed := hintact.renamed i tmp hrename
      rwa [hphase] at hrenamed
  · rw [← hsummary.rejected]
    simp only [Invocation.Rejected, mem_own, Invocation.Rejects]
  · rw [← hsummary.failed]
    simp only [Failed, mem_own]
  · rw [← hsummary.abandoned, mem_own]
  · rintro tmp rfl
    have hscratch : (world.locals i).phase.scratch = some tmp := by rw [hphase]; rfl
    exact (hintact.owned.new i tmp hscratch).2
  · rintro rfl path hcreate
    exact hintact.created_gone hphase hcreate

/-- A run that cannot publish its file, nor remove it, next to one that rejects its data. -/
theorem build_exit_code_two_runs :
    let out : Path := [.normal [107]]
    let invocation : Invocation := ⟨Csv.grammar, default, 7, [.normal [100]], default⟩
    let schedule : List (Bool × BuildEvent) :=
      [(false, .read (.ok [97, 44, 49, 10])), (true, .read (.ok [97, 10])),
        (false, .createNew none (.ok ()))] ++ List.replicate 10 (false, .writeAll) ++
      [(false, .spill 90), (false, .flush), (false, .rename false), (false, .remove false)]
    ∃ world tmp, (launched fun _ ↦ none).run (cmdBuild out fun _ ↦ invocation) schedule =
        some world ∧
      (world.locals false).phase = .exited exitIo (some tmp) ∧ (world.shared.fs tmp).isSome ∧
      (∀ tmp', (false, .rename tmp' out) ∉ world.shared.history) ∧
      ∃ data, (true, .read (.ok data)) ∈ schedule ∧
        ∀ parts, parseCsv invocation.csv invocation.process data
          (invocation.parse.loadOptions invocation.data) ≠ .ok (.ok parts) := by
  intro out invocation schedule
  have hphases : ((launched fun _ ↦ none).run (cmdBuild out fun _ ↦ invocation) schedule).map
      (fun world ↦ ((world.locals false).phase, (world.locals true).phase)) =
        some (.exited exitIo (some (scratchCandidate out 7 0)), .exited exitInvalidData none) := by
    decide +kernel
  obtain ⟨world, hrun, hphase⟩ := Option.map_eq_some_iff.mp hphases
  obtain ⟨hfalse, htrue⟩ := Prod.mk.inj hphase
  obtain ⟨_, _, hok, _, _, _, hleft, _⟩ :=
    build_exit_code out _ _ schedule world hrun false exitIo _ hfalse
  obtain ⟨_, _, _, hinvalid, _⟩ :=
    build_exit_code out _ _ schedule world hrun true exitInvalidData _ htrue
  refine ⟨world, _, hrun, hfalse, (hleft _ rfl).2.1, fun tmp hrename ↦ ?_, hinvalid.mp rfl⟩
  exact absurd (hok.mpr ⟨tmp, hrename⟩) (by decide)

end Runs

end JustKV
