import JustKV.Library.Interleaving

/-!
# Simulation of interleaved programs

A program refines another when every step of the first is matched by events of the second that
lead to a related world.  A whole run is then matched by the translated schedule, so what holds of
every run of the specification holds of the program as far as related worlds tell.
-/

namespace Interleaving

variable {ι κ ε ε' σ σ' τ τ' : Type} [DecidableEq ι] [DecidableEq κ]

/-- Every step of the program is matched by the translated events of the specification. -/
def Simulates (program : Program ι ε σ τ) (spec : Program κ ε' σ' τ')
    (translate : ι × ε → List (κ × ε')) (relation : World ι σ τ → World κ σ' τ' → Prop) : Prop :=
  ∀ world event next abstract, relation world abstract → world.step program event = some next →
    ∃ abstract', abstract.run spec (translate event) = some abstract' ∧ relation next abstract'

variable {program : Program ι ε σ τ} {spec : Program κ ε' σ' τ'}
  {translate : ι × ε → List (κ × ε')} {relation : World ι σ τ → World κ σ' τ' → Prop}
  {world world' : World ι σ τ} {abstract : World κ σ' τ'}

/-- A run is matched by the run of its translated schedule: induction over the schedule. -/
theorem Simulates.run (h : Simulates program spec translate relation)
    (hstart : relation world abstract) {schedule : List (ι × ε)}
    (hrun : world.run program schedule = some world') :
    ∃ abstract', abstract.run spec (schedule.flatMap translate) = some abstract' ∧
      relation world' abstract' := by
  induction schedule generalizing world abstract with
  | nil =>
    obtain rfl : world = world' := by simpa [World.run] using hrun
    exact ⟨abstract, rfl, hstart⟩
  | cons event rest ih =>
    obtain ⟨middle, hmiddle, hrest⟩ : ∃ middle, world.step program event = some middle ∧
        middle.run program rest = some world' := by
      simpa [World.run, List.foldlM_cons, Option.bind_eq_some_iff] using hrun
    obtain ⟨abstract', hfirst, hrelated⟩ := h world event middle abstract hstart hmiddle
    obtain ⟨abstract'', hlast, hrelated'⟩ := ih hrelated hrest
    refine ⟨abstract'', ?_, hrelated'⟩
    rw [World.run, List.flatMap_cons, List.foldlM_append]
    exact Option.bind_eq_some_iff.mpr ⟨abstract', hfirst, hlast⟩

end Interleaving
