import Mathlib.Data.List.Basic
import Mathlib.Logic.Function.Basic

/-!
# Interleaved processes over a shared state

Processes act on a shared state one indivisible step at a time, and each keeps a local state of
its own.  A schedule is a list of events, each naming the process that steps; what the
environment decides, such as whether an operation fails, is part of the event.  A property that
every step preserves holds at every moment of every schedule.
-/

namespace Interleaving

/-- What a process does on an event: a new shared and a new local state, if it can step. -/
abbrev Program (ι ε σ τ : Type) := ι → ε → σ → τ → Option (σ × τ)

/-- The shared state and the local state of every process. -/
structure World (ι σ τ : Type) where
  shared : σ
  locals : ι → τ

variable {ι ε σ τ : Type} [DecidableEq ι] (program : Program ι ε σ τ)

/-- The world after process `i` has stepped to the given states. -/
def World.advance (world : World ι σ τ) (i : ι) (shared : σ) (next : τ) : World ι σ τ :=
  ⟨shared, Function.update world.locals i next⟩

def World.step (world : World ι σ τ) (event : ι × ε) : Option (World ι σ τ) :=
  (program event.1 event.2 world.shared (world.locals event.1)).map fun states ↦
    world.advance event.1 states.1 states.2

/-- The world after a schedule, if every event of it can happen. -/
def World.run (world : World ι σ τ) (schedule : List (ι × ε)) : Option (World ι σ τ) :=
  schedule.foldlM (World.step program) world

variable {program} {world world' : World ι σ τ}

@[simp] theorem shared_advance (i : ι) (shared : σ) (next : τ) :
    (world.advance i shared next).shared = shared := rfl

@[simp] theorem locals_advance_self (i : ι) (shared : σ) (next : τ) :
    (world.advance i shared next).locals i = next :=
  Function.update_self _ _ _

theorem locals_advance_of_ne {i j : ι} (h : j ≠ i) (shared : σ) (next : τ) :
    (world.advance i shared next).locals j = world.locals j :=
  Function.update_of_ne h _ _

/-- A step that changes nothing leaves the world as it is. -/
theorem advance_self (world : World ι σ τ) (i : ι) :
    world.advance i world.shared (world.locals i) = world := by
  rw [World.advance, Function.update_eq_self]

/-- Every process has a property after a step if the one that stepped has it now and the others had
it before. -/
theorem forall_locals_advance (property : ι → τ → Prop) {i : ι} {shared : σ} {next : τ} :
    (∀ j, property j ((world.advance i shared next).locals j)) ↔
      property i next ∧ ∀ j, j ≠ i → property j (world.locals j) :=
  Function.forall_update_iff world.locals property

theorem step_eq_some {event : ι × ε} : world.step program event = some world' ↔
    ∃ shared next, program event.1 event.2 world.shared (world.locals event.1) =
        some (shared, next) ∧ world' = world.advance event.1 shared next := by
  rw [World.step, Option.map_eq_some_iff]
  constructor
  · rintro ⟨⟨shared, next⟩, hprogram, rfl⟩
    exact ⟨shared, next, hprogram, rfl⟩
  · rintro ⟨shared, next, hprogram, rfl⟩
    exact ⟨(shared, next), hprogram, rfl⟩

/-- What holds at the start and survives every step that the schedule has holds at every moment of
it. -/
theorem run_invariant_of {motive : World ι σ τ → Prop} {schedule : List (ι × ε)}
    (hstep : ∀ before i event shared next, (i, event) ∈ schedule → motive before →
      program i event before.shared (before.locals i) = some (shared, next) →
      motive (before.advance i shared next))
    (hrun : world.run program schedule = some world') (hstart : motive world) : motive world' := by
  induction schedule generalizing world with
  | nil =>
    obtain rfl : world = world' := by simpa [World.run] using hrun
    exact hstart
  | cons event rest ih =>
    obtain ⟨middle, hmiddle, hrest⟩ : ∃ middle, world.step program event = some middle ∧
        middle.run program rest = some world' := by
      simpa [World.run, List.foldlM_cons, Option.bind_eq_some_iff] using hrun
    obtain ⟨shared, next, hprogram, rfl⟩ := step_eq_some.mp hmiddle
    have hnext : motive (world.advance event.1 shared next) :=
      hstep world event.1 event.2 shared next List.mem_cons_self hstart hprogram
    refine ih ?_ hrest hnext
    intro before i event shared next hmem
    exact hstep before i event shared next (List.mem_cons_of_mem _ hmem)

/-- What holds at the start and survives every step holds at every moment. -/
theorem run_invariant {motive : World ι σ τ → Prop}
    (hstep : ∀ before i event shared next, motive before →
      program i event before.shared (before.locals i) = some (shared, next) →
      motive (before.advance i shared next))
    {schedule : List (ι × ε)} (hrun : world.run program schedule = some world')
    (hstart : motive world) : motive world' :=
  run_invariant_of (fun before i event shared next _ ↦ hstep before i event shared next) hrun
    hstart

/-- Some schedule leads from one world to the other. -/
def Reaches (program : Program ι ε σ τ) (world world' : World ι σ τ) : Prop :=
  ∃ schedule, world.run program schedule = some world'

theorem Reaches.refl (program : Program ι ε σ τ) (world : World ι σ τ) :
    Reaches program world world :=
  ⟨[], rfl⟩

theorem Reaches.trans {first second third : World ι σ τ} (h : Reaches program first second)
    (h' : Reaches program second third) : Reaches program first third := by
  obtain ⟨schedule, hrun⟩ := h
  obtain ⟨schedule', hrun'⟩ := h'
  refine ⟨schedule ++ schedule', ?_⟩
  rw [World.run, List.foldlM_append]
  exact Option.bind_eq_some_iff.mpr ⟨second, hrun, hrun'⟩

theorem Reaches.step {world'' : World ι σ τ} (h : Reaches program world world') {event : ι × ε}
    (hstep : world'.step program event = some world'') : Reaches program world world'' :=
  h.trans ⟨[event], by simp [World.run, hstep]⟩

theorem Reaches.advance (h : Reaches program world world') {i : ι} {event : ε} {shared : σ}
    {next : τ} (hstep : program i event world'.shared (world'.locals i) = some (shared, next)) :
    Reaches program world (world'.advance i shared next) := by
  have hnext : world'.step program (i, event) = some (world'.advance i shared next) :=
    step_eq_some.mpr ⟨shared, next, hstep, rfl⟩
  exact h.step hnext

/-- What holds at a world and survives every step of a world reachable from it holds at all of
these. -/
theorem Reaches.invariant {motive : World ι σ τ → Prop}
    (hstep : ∀ before i event shared next, Reaches program world before → motive before →
      program i event before.shared (before.locals i) = some (shared, next) →
      motive (before.advance i shared next))
    (h : Reaches program world world') (hstart : motive world) : motive world' := by
  obtain ⟨schedule, hrun⟩ := h
  have hboth : Reaches program world world' ∧ motive world' := by
    refine run_invariant (motive := fun world' ↦ Reaches program world world' ∧ motive world') ?_
      hrun ⟨Reaches.refl program world, hstart⟩
    intro before i event shared next hbefore hprogram
    obtain ⟨hreach, hmotive⟩ := hbefore
    exact ⟨hreach.advance hprogram, hstep before i event shared next hreach hmotive hprogram⟩
  exact hboth.2

end Interleaving
