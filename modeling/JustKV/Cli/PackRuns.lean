import JustKV.Cli.BuildContext
import JustKV.Library.Interleaving

/-!
# Packaging several datasets at once

Every run of `pack.sh` puts its copy of a dataset at the root of the repository, which is the
context of all image builds, and names it by its process id.  Process ids are used again, names of
datasets repeat, and a run that is killed leaves its copy behind.  Still the build stage of a run
finds one file, which is the copy of this run.
-/

open Interleaving Utf8

namespace JustKV

/-- The files at the root of the context, and which run each process id belongs to. -/
structure Host (ι : Type) where
  context : Bytes → Option Bytes
  running : ℕ → Option ι

section Host

variable {ι : Type} (host : Host ι)

def Host.put (file : Bytes) (content : Option Bytes) : Host ι :=
  { host with context := Function.update host.context file content }

def Host.exit (pid : ℕ) : Host ι :=
  { host with running := Function.update host.running pid none }

end Host

/-- How far a run has come, with its process id and what it has copied. -/
inductive PackRun
  | new
  | validated (pid : ℕ)
  | copying (pid : ℕ) (written : Bytes)
  | staged (pid : ℕ) (content : Bytes)
  | built (pid : ℕ) (content : Bytes) (input : Bytes → Option Bytes)
  | ended

def PackRun.pid : PackRun → Option ℕ
  | .new | .ended => none
  | .validated pid | .copying pid _ | .staged pid _ | .built pid _ _ => some pid

/-- What the copy of a run holds, once the run has opened it. -/
def PackRun.copy : PackRun → Option (ℕ × Bytes)
  | .copying pid content | .staged pid content | .built pid content _ => some (pid, content)
  | _ => none

inductive PackEvent
  /-- A process has validated the dataset. -/
  | start (pid : ℕ)
  | openCopy
  | copySome (bytes : Bytes)
  | copied
  | build
  /-- The trap removes the copy when the script ends. -/
  | cleanup
  /-- `cp` fails before the trap is set, or the process is killed. -/
  | stop
  /-- Another program changes a file of the repository. -/
  | change (file : Bytes) (content : Option Bytes)

section Steps

variable {ι : Type} (copies : Bytes → Bytes → Bool)

/-- One step of run `i` for a dataset with this name. -/
def packStep (name : Bytes) (i : ι) (host : Host ι) :
    PackEvent → PackRun → Option (Host ι × PackRun)
  | .start pid, .new =>
      if (host.running pid).isNone then
        some ({ host with running := Function.update host.running pid (some i) }, .validated pid)
      else none
  | .openCopy, .validated pid => some (host.put (ctxData pid name) (some []), .copying pid [])
  | .copySome bytes, .copying pid written =>
      some (host.put (ctxData pid name) (some (written ++ bytes)), .copying pid (written ++ bytes))
  | .copied, .copying pid content => some (host, .staged pid content)
  | .build, .staged pid content =>
      some (host, .built pid content (buildInput copies host.context (ctxData pid name)))
  | .cleanup, .staged pid _ => some ((host.put (ctxData pid name) none).exit pid, .ended)
  | .cleanup, .built pid _ _ => some ((host.put (ctxData pid name) none).exit pid, .ended)
  | .stop, run => run.pid.map fun pid ↦ (host.exit pid, .ended)
  | _, _ => none

/-- Runs for datasets with these names, and other programs. -/
def packs (name : ι → Bytes) : Program (Option ι) PackEvent (Host ι) PackRun
  | some i, event, host, run => packStep copies (name i) i host event run
  | none, .change file content, host, run => some (host.put file content, run)
  | none, _, _, _ => none

/-- Before any run. -/
def unpacked (initial : Bytes → Option Bytes) : World (Option ι) (Host ι) PackRun :=
  ⟨⟨initial, fun _ ↦ none⟩, fun _ ↦ .new⟩

end Steps

/-- A step of a run, with what the run must have come to. -/
inductive PackMove {ι : Type} (copies : Bytes → Bytes → Bool) (name : Bytes) (i : ι)
    (host : Host ι) (run : PackRun) : PackEvent → Host ι → PackRun → Prop
  | start {pid : ℕ} (hrun : run = .new) (hfree : host.running pid = none) :
      PackMove copies name i host run (.start pid)
        { host with running := Function.update host.running pid (some i) } (.validated pid)
  | write {event : PackEvent} {pid : ℕ} (hpid : run.pid = some pid) (content : Bytes) :
      PackMove copies name i host run event (host.put (ctxData pid name) (some content))
        (.copying pid content)
  | copied {pid : ℕ} {content : Bytes} (hcopy : run.copy = some (pid, content)) :
      PackMove copies name i host run .copied host (.staged pid content)
  | build {pid : ℕ} {content : Bytes} (hcopy : run.copy = some (pid, content)) :
      PackMove copies name i host run .build host
        (.built pid content (buildInput copies host.context (ctxData pid name)))
  | cleanup {pid : ℕ} (hpid : run.pid = some pid) :
      PackMove copies name i host run .cleanup ((host.put (ctxData pid name) none).exit pid) .ended
  | stop {pid : ℕ} (hpid : run.pid = some pid) :
      PackMove copies name i host run .stop (host.exit pid) .ended

section Moves

variable {ι : Type} {copies : Bytes → Bytes → Bool} {name : Bytes} {i : ι} {host host' : Host ι}
  {event : PackEvent} {run next : PackRun} {pid : ℕ} {content : Bytes}

theorem move_of_packStep (h : packStep copies name i host event run = some (host', next)) :
    PackMove copies name i host run event host' next := by
  unfold packStep at h
  split at h
  case h_1 pid =>
    split at h
    case isTrue hfree =>
      obtain ⟨rfl, rfl⟩ := Prod.mk.inj (Option.some.inj h)
      exact .start rfl (Option.isNone_iff_eq_none.mp hfree)
    case isFalse => cases h
  case h_8 =>
    obtain ⟨pid, hpid, hnext⟩ := Option.map_eq_some_iff.mp h
    obtain ⟨rfl, rfl⟩ := Prod.mk.inj hnext
    exact .stop hpid
  case h_9 => cases h
  all_goals obtain ⟨rfl, rfl⟩ := Prod.mk.inj (Option.some.inj h)
  case h_2 => exact .write rfl []
  case h_3 bytes pid written => exact .write rfl (written ++ bytes)
  case h_4 => exact .copied rfl
  case h_5 => exact .build rfl
  case h_6 => exact .cleanup rfl
  case h_7 => exact .cleanup rfl

theorem pid_of_copy (h : run.copy = some (pid, content)) : run.pid = some pid := by
  cases run with
  | new => cases h
  | validated => cases h
  | copying => exact congrArg (Option.map Prod.fst) h
  | staged => exact congrArg (Option.map Prod.fst) h
  | built => exact congrArg (Option.map Prod.fst) h
  | ended => cases h

/-- A run changes no file but its copy. -/
theorem PackMove.context_of_ne (h : PackMove copies name i host run event host' next)
    {file : Bytes} (hfile : ∀ pid, run.pid = some pid → file ≠ ctxData pid name) :
    host'.context file = host.context file := by
  cases h with
  | start => rfl
  | write hpid content => exact Function.update_of_ne (hfile _ hpid) _ _
  | copied => rfl
  | build => rfl
  | cleanup hpid => exact Function.update_of_ne (hfile _ hpid) _ _
  | stop => rfl

end Moves

/-! ## Runs stay apart -/

/-- A directory with one file. -/
def soleFile (file content other : Bytes) : Option Bytes :=
  if other = file then some content else none

/-- Every process id belongs to one run, and the copy of a run holds what the run has copied. -/
structure Apart {ι : Type} (name : ι → Bytes) (host : Host ι) (runs : ι → PackRun) : Prop where
  running : ∀ i pid, (runs i).pid = some pid → host.running pid = some i
  copy : ∀ i pid content, (runs i).copy = some (pid, content) →
    host.context (ctxData pid (name i)) = some content
  input : ∀ i pid content input, runs i = .built pid content input →
    input = soleFile (ctxData pid (name i)) content

section Apart

variable {ι : Type} {copies : Bytes → Bytes → Bool} {name : ι → Bytes} {i j : ι}
  {host host' : Host ι} {event : PackEvent} {runs : ι → PackRun} {next : PackRun} {pid pid' : ℕ}
  {content : Bytes}

/-- The copies of two runs have different names. -/
theorem Apart.ctxData_ne (h : Apart name host runs) (hij : j ≠ i) (hi : (runs i).pid = some pid)
    (hj : (runs j).copy = some (pid', content)) :
    ctxData pid' (name j) ≠ ctxData pid (name i) := by
  intro hsame
  obtain rfl := pid_of_ctxData_eq hsame
  have hrunning := h.running j pid' (pid_of_copy hj)
  rw [h.running i pid' hi] at hrunning
  exact hij (Option.some.inj hrunning).symm

theorem Apart.running_of_ne (h : Apart name host runs)
    (hmove : PackMove copies (name i) i host (runs i) event host' next) (hij : j ≠ i)
    (hj : (runs j).pid = some pid) : host'.running pid = some j := by
  have hrunning := h.running j pid hj
  have hother {pid' : ℕ} (hi : (runs i).pid = some pid') : pid ≠ pid' := by
    rintro rfl
    rw [h.running i pid hi] at hrunning
    exact hij (Option.some.inj hrunning).symm
  cases hmove with
  | start hrun hfree =>
    rw [← hrunning]
    apply Function.update_of_ne
    rintro rfl
    rw [hfree] at hrunning
    cases hrunning
  | write => exact hrunning
  | copied => exact hrunning
  | build => exact hrunning
  | cleanup hpid => exact (Function.update_of_ne (hother hpid) _ _).trans hrunning
  | stop hpid => exact (Function.update_of_ne (hother hpid) _ _).trans hrunning

theorem Apart.running_self (h : Apart name host runs)
    (hmove : PackMove copies (name i) i host (runs i) event host' next)
    (hnext : next.pid = some pid) : host'.running pid = some i := by
  cases hmove with
  | start =>
    obtain rfl := Option.some.inj hnext
    exact Function.update_self _ _ _
  | write hpid =>
    obtain rfl := Option.some.inj hnext
    exact h.running i _ hpid
  | copied hcopy =>
    obtain rfl := Option.some.inj hnext
    exact h.running i _ (pid_of_copy hcopy)
  | build hcopy =>
    obtain rfl := Option.some.inj hnext
    exact h.running i _ (pid_of_copy hcopy)
  | cleanup => cases hnext
  | stop => cases hnext

theorem Apart.copy_self (h : Apart name host runs)
    (hmove : PackMove copies (name i) i host (runs i) event host' next)
    (hnext : next.copy = some (pid, content)) :
    host'.context (ctxData pid (name i)) = some content := by
  cases hmove with
  | start => cases hnext
  | write =>
    obtain ⟨rfl, rfl⟩ := Prod.mk.inj (Option.some.inj hnext)
    exact Function.update_self _ _ _
  | copied hcopy => exact h.copy i pid content (hcopy.trans hnext)
  | build hcopy => exact h.copy i pid content (hcopy.trans hnext)
  | cleanup => cases hnext
  | stop => cases hnext

theorem Apart.input_self (hcopies : TakesNames copies) (h : Apart name host runs)
    (hmove : PackMove copies (name i) i host (runs i) event host' next)
    {input : Bytes → Option Bytes} (hnext : next = .built pid content input) :
    input = soleFile (ctxData pid (name i)) content := by
  cases hmove with
  | build hcopy =>
    obtain ⟨rfl, rfl, rfl⟩ := PackRun.built.inj hnext
    funext file
    rw [buildInput_ctxData hcopies, soleFile]
    split
    case isTrue hfile => rw [hfile, h.copy i _ _ hcopy]
    case isFalse => rfl
  | start => cases hnext
  | write => cases hnext
  | copied => cases hnext
  | cleanup => cases hnext
  | stop => cases hnext

/-- What other programs change is no copy. -/
theorem Apart.change (h : Apart name host runs) {file : Bytes} (hfile : ¬packStem <+: file)
    (written : Option Bytes) : Apart name (host.put file written) runs where
  running := h.running
  copy j pid content hj := by
    rw [← h.copy j pid content hj]
    apply Function.update_of_ne
    rintro rfl
    exact hfile (ctxData_begins pid (name j))
  input := h.input

variable [DecidableEq ι]

/-- A step of one run keeps all runs apart. -/
theorem Apart.step (hcopies : TakesNames copies) (h : Apart name host runs)
    (hmove : PackMove copies (name i) i host (runs i) event host' next) :
    Apart name host' (Function.update runs i next) where
  running := by
    apply (Function.forall_update_iff runs fun j run ↦
      ∀ pid, run.pid = some pid → host'.running pid = some j).mpr
    exact ⟨fun _ hpid ↦ h.running_self hmove hpid, fun _ hij _ hj ↦ h.running_of_ne hmove hij hj⟩
  copy := by
    apply (Function.forall_update_iff runs fun j run ↦ ∀ pid content,
      run.copy = some (pid, content) → host'.context (ctxData pid (name j)) = some content).mpr
    refine ⟨fun _ _ hcopy ↦ h.copy_self hmove hcopy, fun j hij pid content hj ↦ ?_⟩
    rw [hmove.context_of_ne fun _ hpid ↦ h.ctxData_ne hij hpid hj]
    exact h.copy j pid content hj
  input := by
    apply (Function.forall_update_iff runs fun j run ↦ ∀ pid content input,
      run = .built pid content input → input = soleFile (ctxData pid (name j)) content).mpr
    exact ⟨fun _ _ _ hnext ↦ h.input_self hcopies hmove hnext, fun j _ ↦ h.input j⟩

end Apart

/-- Among the files that are named like copies, those that were not there before are copies of
runs. -/
def Tidy {ι : Type} (name : ι → Bytes) (initial : Bytes → Option Bytes) (host : Host ι)
    (runs : ι → PackRun) : Prop :=
  ∀ file, packStem <+: file → initial file = none →
    (∀ i pid content, (runs i).copy = some (pid, content) → file ≠ ctxData pid (name i)) →
      host.context file = none

section Tidy

variable {ι : Type} {copies : Bytes → Bytes → Bool} {name : ι → Bytes} {i : ι}
  {initial : Bytes → Option Bytes} {host host' : Host ι} {event : PackEvent} {runs : ι → PackRun}
  {next : PackRun}

theorem Tidy.change (h : Tidy name initial host runs) {file : Bytes} (hfile : ¬packStem <+: file)
    (written : Option Bytes) : Tidy name initial (host.put file written) runs := by
  intro other hstem hinitial hnone
  rw [← h other hstem hinitial hnone]
  apply Function.update_of_ne
  rintro rfl
  exact hfile hstem

variable [DecidableEq ι]

/-- Only a run that is stopped leaves its copy behind. -/
theorem Tidy.step (h : Tidy name initial host runs)
    (hmove : PackMove copies (name i) i host (runs i) event host' next) (hevent : event ≠ .stop) :
    Tidy name initial host' (Function.update runs i next) := by
  intro file hstem hfile hnone
  have hothers (j : ι) (hij : j ≠ i) (pid : ℕ) (content : Bytes)
      (hj : (runs j).copy = some (pid, content)) : file ≠ ctxData pid (name j) := by
    apply hnone j pid content
    rwa [Function.update_of_ne hij]
  have hself (pid : ℕ) (content : Bytes) (hcopy : next.copy = some (pid, content)) :
      file ≠ ctxData pid (name i) := by
    apply hnone i pid content
    rwa [Function.update_self]
  have hkept (hcopy : ∀ pid content, (runs i).copy = some (pid, content) →
      file ≠ ctxData pid (name i)) : host.context file = none := by
    apply h file hstem hfile
    intro j pid content hj
    by_cases hij : j = i
    · subst hij
      exact hcopy pid content hj
    · exact hothers j hij pid content hj
  cases hmove with
  | start hrun =>
    apply hkept
    intro pid content hcopy
    rw [hrun] at hcopy
    cases hcopy
  | @write _ pid hpid content =>
    have hne := hself pid content rfl
    refine (Function.update_of_ne hne _ _).trans (hkept fun pid' content' hcopy ↦ ?_)
    obtain rfl := Option.some.inj (hpid.symm.trans (pid_of_copy hcopy))
    exact hne
  | copied hcopy => exact hkept fun _ _ hcopy' ↦ hself _ _ (hcopy.symm.trans hcopy')
  | build hcopy => exact hkept fun _ _ hcopy' ↦ hself _ _ (hcopy.symm.trans hcopy')
  | @cleanup pid hpid =>
    by_cases hcopy : file = ctxData pid (name i)
    · rw [hcopy]
      exact Function.update_self _ _ _
    · refine (Function.update_of_ne hcopy _ _).trans (hkept fun pid' content' hcopy' ↦ ?_)
      obtain rfl := Option.some.inj (hpid.symm.trans (pid_of_copy hcopy'))
      exact hcopy
  | stop => exact absurd rfl hevent

end Tidy

section Schedules

variable {ι : Type} {copies : Bytes → Bytes → Bool} {name : ι → Bytes}
  {initial : Bytes → Option Bytes} {schedule : List (Option ι × PackEvent)}
  {world : World (Option ι) (Host ι) PackRun}

theorem step_of_packs {index : Option ι} {event : PackEvent} {host host' : Host ι}
    {run next : PackRun} (h : packs copies name index event host run = some (host', next)) :
    (∃ file content, index = none ∧ event = .change file content ∧
      host' = host.put file content ∧ next = run) ∨
    ∃ i, index = some i ∧ PackMove copies (name i) i host run event host' next := by
  unfold packs at h
  split at h
  case h_1 event host run i => exact Or.inr ⟨i, rfl, move_of_packStep h⟩
  case h_2 host run file content =>
    obtain ⟨rfl, rfl⟩ := Prod.mk.inj (Option.some.inj h)
    exact Or.inl ⟨file, content, rfl, rfl, rfl, rfl⟩
  case h_3 => cases h

theorem apart_unpacked : Apart name ⟨initial, fun _ ↦ none⟩ fun _ ↦ .new where
  running _ _ h := by cases h
  copy _ _ _ h := by cases h
  input _ _ _ _ h := by cases h

variable [DecidableEq ι]

/-- A property of the files and the runs that every step keeps holds at every moment: induction
over the schedule. -/
theorem packs_invariant {motive : Host ι → (ι → PackRun) → Prop}
    (hmove : ∀ i host runs event host' next, (some i, event) ∈ schedule → motive host runs →
      PackMove copies (name i) i host (runs i) event host' next →
      motive host' (Function.update runs i next))
    (hchange : ∀ host runs file content, (none, .change file content) ∈ schedule →
      motive host runs → motive (host.put file content) runs)
    (hrun : (unpacked initial).run (packs copies name) schedule = some world)
    (hstart : motive ⟨initial, fun _ ↦ none⟩ fun _ ↦ .new) :
    motive world.shared (world.locals ∘ some) := by
  refine run_invariant_of (motive := fun world ↦ motive world.shared (world.locals ∘ some)) ?_ hrun
    hstart
  intro before index event shared next hevent hbefore hstep
  rcases step_of_packs hstep with ⟨file, content, rfl, rfl, rfl, rfl⟩ | ⟨i, rfl, hnext⟩
  · rw [World.advance, Function.update_eq_self]
    exact hchange _ _ file content hevent hbefore
  · rw [World.advance, Function.update_comp_eq_of_injective _ (Option.some_injective ι)]
    exact hmove i _ _ event shared next hevent hbefore hnext

/-- Other programs do not touch files that are named like copies. -/
def Outside (schedule : List (Option ι × PackEvent)) : Prop :=
  ∀ file content, (none, .change file content) ∈ schedule → ¬packStem <+: file

theorem apart_of_run (hcopies : TakesNames copies)
    (hrun : (unpacked initial).run (packs copies name) schedule = some world)
    (houtside : Outside schedule) : Apart name world.shared (world.locals ∘ some) := by
  refine packs_invariant (motive := Apart name) ?_ ?_ hrun apart_unpacked
  · exact fun i host runs event host' next _ h hmove ↦ h.step hcopies hmove
  · exact fun host runs file content hmem h ↦ h.change (houtside file content hmem) content

theorem tidy_of_run (hrun : (unpacked initial).run (packs copies name) schedule = some world)
    (houtside : Outside schedule) (hstop : ∀ i, (some i, .stop) ∉ schedule) :
    Tidy name initial world.shared (world.locals ∘ some) := by
  refine packs_invariant (motive := Tidy name initial) ?_ ?_ hrun fun _ _ hfile _ ↦ hfile
  · intro i host runs event host' next hmem h hmove
    apply h.step hmove
    rintro rfl
    exact hstop i hmem
  · exact fun host runs file content hmem h ↦ h.change (houtside file content hmem) content

/-- Runs change no file that is not named like a copy. -/
theorem context_of_run (hrun : (unpacked initial).run (packs copies name) schedule = some world)
    {file : Bytes} (hfile : ¬packStem <+: file)
    (hchange : ∀ content, (none, .change file content) ∉ schedule) :
    world.shared.context file = initial file := by
  refine packs_invariant (motive := fun host _ ↦ host.context file = initial file) ?_ ?_ hrun rfl
  · intro i host runs event host' next _ h hmove
    rw [← h]
    apply hmove.context_of_ne
    rintro pid _ rfl
    exact hfile (ctxData_begins pid (name i))
  · intro host runs other content hmem h
    rw [← h]
    apply Function.update_of_ne
    rintro rfl
    exact hchange content hmem

end Schedules

/-- Whatever the datasets are called, however the runs are interleaved and process ids are used
again, the build stage of a run finds one file, which is the copy of this run.  Runs change nothing
else, and runs that end on their own leave no copy behind. -/
theorem packs_stay_apart {ι : Type} [DecidableEq ι] (copies : Bytes → Bytes → Bool)
    (hcopies : TakesNames copies) (name : ι → Bytes) (initial : Bytes → Option Bytes)
    (schedule : List (Option ι × PackEvent)) (world : World (Option ι) (Host ι) PackRun)
    (hrun : (unpacked initial).run (packs copies name) schedule = some world)
    (houtside : Outside schedule) :
    (∀ i pid content input, world.locals (some i) = .built pid content input →
      ∀ file, input file = if file = ctxData pid (name i) then some content else none) ∧
    (∀ file, ¬packStem <+: file → (∀ content, (none, .change file content) ∉ schedule) →
      world.shared.context file = initial file) ∧
    ((∀ i, (some i, .stop) ∉ schedule) →
      (∀ i, world.locals (some i) = .new ∨ world.locals (some i) = .ended) →
        ∀ file, packStem <+: file → initial file = none → world.shared.context file = none) := by
  refine ⟨fun i pid content input hbuilt file ↦ ?_, fun file hfile hchange ↦
    context_of_run hrun hfile hchange, fun hstop hover file hstem hfile ↦ ?_⟩
  · have hinput := (apart_of_run hcopies hrun houtside).input i pid content input hbuilt
    rw [hinput]
    rfl
  · apply tidy_of_run hrun houtside hstop file hstem hfile
    intro i pid content hcopy
    have hlocal : (world.locals (some i)).copy = some (pid, content) := hcopy
    rcases hover i with hnew | hend
    · rw [hnew] at hlocal
      cases hlocal
    · rw [hend] at hlocal
      cases hlocal

/-- Two runs at once for datasets with one name. -/
theorem packs_stay_apart_same_name :
    let name : Bool → Bytes := fun _ ↦ toBytes "kv.tsv"
    let copies : Bytes → Bytes → Bool := fun source file ↦ source == file
    let schedule : List (Option Bool × PackEvent) :=
      [(some false, .start 7), (some true, .start 12), (some false, .openCopy),
        (none, .change (toBytes "README.md") none), (some true, .openCopy),
        (some true, .copySome [98]), (some false, .copySome [97]), (some false, .copied),
        (some false, .build)]
    ∃ world input, (unpacked fun _ ↦ none).run (packs copies name) schedule = some world ∧
      world.locals (some false) = .built 7 [97] input ∧
      input (ctxData 7 (toBytes "kv.tsv")) = some [97] ∧
      input (ctxData 12 (toBytes "kv.tsv")) = none := by
  intro name copies schedule
  have hcopies : TakesNames copies := fun source file _ ↦ beq_iff_eq.trans eq_comm
  have houtside : Outside schedule := by
    intro file content hmem
    obtain ⟨rfl, _⟩ : file = toBytes "README.md" ∧ content = none := by
      simpa [schedule] using hmem
    decide
  obtain ⟨world, input, hrun, hbuilt⟩ : ∃ world input,
      (unpacked fun _ ↦ none).run (packs copies name) schedule = some world ∧
        world.locals (some false) = .built 7 [97] input := ⟨_, _, rfl, rfl⟩
  have hinput := (packs_stay_apart copies hcopies name (fun _ ↦ none) schedule world hrun
    houtside).1 false 7 [97] input hbuilt
  refine ⟨world, input, hrun, hbuilt, ?_, ?_⟩
  · exact (hinput _).trans (if_pos rfl)
  · exact (hinput _).trans (if_neg (by decide))

end JustKV
