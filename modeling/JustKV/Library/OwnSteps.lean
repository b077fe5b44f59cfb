import Mathlib.Data.List.Induction
import JustKV.Library.Interleaving

/-!
# What a process does on its own

When the shared state only decides whether a process can step, and not where the step leads, the
local state of a process in any interleaving is what its own events make of it.  So a property of
one process over its own history is proved without the others, and a process can be let run alone
from any world.
-/

namespace Interleaving

variable {ι ε σ τ : Type}

/-- The local state after some events, if they can happen in this order. -/
def follow (step : ε → τ → Option τ) (start : τ) (events : List ε) : Option τ :=
  events.foldlM (fun state event ↦ step event state) start

section Follow

variable {step : ε → τ → Option τ} {start state : τ}

theorem follow_append (events others : List ε) :
    follow step start (events ++ others) =
      (follow step start events).bind fun state ↦ follow step state others := by
  rw [follow, List.foldlM_append]
  rfl

theorem follow_singleton (event : ε) : follow step start [event] = step event start := by
  simp [follow]

/-- What holds of the empty history and survives every event holds of every history: induction
from its last event. -/
theorem follow_invariant {motive : List ε → τ → Prop} (hstart : motive [] start)
    (hstep : ∀ events before event after, motive events before →
      step event before = some after → motive (events ++ [event]) after)
    {events : List ε} (h : follow step start events = some state) : motive events state := by
  induction events using List.reverseRecOn generalizing state with
  | nil =>
    obtain rfl : start = state := by simpa [follow] using h
    exact hstart
  | append_singleton events event ih =>
    rw [follow_append] at h
    obtain ⟨before, hbefore, hlast⟩ := Option.bind_eq_some_iff.mp h
    rw [follow_singleton] at hlast
    exact hstep events before event state (ih hbefore) hlast

end Follow

variable [DecidableEq ι]

/-- The events of one process, in order. -/
def own (i : ι) (schedule : List (ι × ε)) : List ε :=
  schedule.filterMap fun event ↦ if event.1 = i then some event.2 else none

theorem mem_own {i : ι} {schedule : List (ι × ε)} {event : ε} :
    event ∈ own i schedule ↔ (i, event) ∈ schedule := by
  simp [own]

/-- The shared state does not decide where a step leads. -/
def Autonomous (program : Program ι ε σ τ) (step : ι → ε → τ → Option τ) : Prop :=
  ∀ i event shared state shared' next, program i event shared state = some (shared', next) →
    step i event state = some next

variable {program : Program ι ε σ τ} {step : ι → ε → τ → Option τ} {world world' : World ι σ τ}

/-- In every interleaving a process is where its own events lead. -/
theorem Autonomous.follow_own (h : Autonomous program step) {schedule : List (ι × ε)}
    (hrun : world.run program schedule = some world') (i : ι) :
    follow (step i) (world.locals i) (own i schedule) = some (world'.locals i) := by
  induction schedule generalizing world with
  | nil =>
    obtain rfl : world = world' := by simpa [World.run] using hrun
    rfl
  | cons event rest ih =>
    rw [World.run, List.foldlM_cons] at hrun
    obtain ⟨middle, hmiddle, hrest⟩ := Option.bind_eq_some_iff.mp hrun
    obtain ⟨shared, next, hprogram, rfl⟩ := step_eq_some.mp hmiddle
    have hlater := ih hrest
    by_cases hi : event.1 = i
    · subst hi
      rw [locals_advance_self] at hlater
      have hown : own event.1 (event :: rest) = [event.2] ++ own event.1 rest := by simp [own]
      rw [hown, follow_append, follow_singleton, h _ _ _ _ _ _ hprogram]
      exact hlater
    · rw [locals_advance_of_ne (Ne.symm hi)] at hlater
      have hown : own i (event :: rest) = own i rest := by simp [own, hi]
      rwa [hown]

/-- Process `i` can get from one world to the other by allowed events, with no other process
stepping. -/
def Alone (program : Program ι ε σ τ) (i : ι) (allowed : ε → Prop) (world world' : World ι σ τ) :
    Prop :=
  ∃ events : List ε, (∀ event ∈ events, allowed event) ∧
    world.run program (events.map fun event ↦ (i, event)) = some world'

variable {i : ι} {allowed : ε → Prop}

theorem Alone.refl : Alone program i allowed world world :=
  ⟨[], by simp, rfl⟩

theorem Alone.trans {world'' : World ι σ τ} (h : Alone program i allowed world world')
    (h' : Alone program i allowed world' world'') : Alone program i allowed world world'' := by
  obtain ⟨events, hallowed, hrun⟩ := h
  obtain ⟨events', hallowed', hrun'⟩ := h'
  refine ⟨events ++ events', fun event hevent ↦ ?_, ?_⟩
  · exact (List.mem_append.mp hevent).elim (hallowed event) (hallowed' event)
  · rw [World.run, List.map_append, List.foldlM_append]
    exact Option.bind_eq_some_iff.mpr ⟨world', hrun, hrun'⟩

theorem Alone.of_step {event : ε} {shared : σ} {next : τ} (hallowed : allowed event)
    (hstep : program i event world.shared (world.locals i) = some (shared, next)) :
    Alone program i allowed world (world.advance i shared next) := by
  refine ⟨[event], by simpa using hallowed, ?_⟩
  have hnext : world.step program (i, event) = some (world.advance i shared next) :=
    step_eq_some.mpr ⟨shared, next, hstep, rfl⟩
  simp [World.run, hnext]

end Interleaving
