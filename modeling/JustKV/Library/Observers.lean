import JustKV.Library.Counters

/-!
# Loads of moving counters

Some processes add to a bank of counters while others load counters from it one at a time.  Loads
do not change the bank, so leaving them out turns every run into a run of the increments.  A
counter that does not wrap never decreases, hence every value that is loaded between two moments
lies between the counter's values at these moments.
-/

open Interleaving

namespace Counters

/-- One atomic access to the bank. -/
inductive Access (κ : Type)
  | add (increment : Increment κ)
  | load (cell : κ)

/-- How many accesses a process has performed, and the last value it loaded from each counter. -/
structure Progress (κ : Type) where
  performed : ℕ
  loaded : Bank κ

variable {ι κ : Type}

def Access.increment? : Access κ → Option (Increment κ)
  | .add increment => some increment
  | .load _ => none

/-- The increments among some accesses. -/
def additions (list : List (Access κ)) : List (Increment κ) := list.filterMap Access.increment?

/-- The number of increments among the performed accesses. -/
def additionsDone (list : List (Access κ)) (performed : ℕ) : ℕ :=
  (additions (list.take performed)).length

theorem additions_take (list : List (Access κ)) (performed : ℕ) :
    additions (list.take performed) = (additions list).take (additionsDone list performed) := by
  have hprefix : additions (list.take performed) <+: additions list :=
    (List.take_prefix performed list).filterMap Access.increment?
  exact List.prefix_iff_eq_take.mp hprefix

theorem additionsDone_succ {list : List (Access κ)} {performed : ℕ} {access : Access κ}
    (h : list[performed]? = some access) :
    additionsDone list (performed + 1) =
      additionsDone list performed + access.increment?.toList.length := by
  rw [additionsDone, List.take_add_one, h, additions, List.filterMap_append, List.length_append]
  cases access <;> rfl

/-- The increment that comes next is the one that the next access performs. -/
theorem getElem?_additions {list : List (Access κ)} {performed : ℕ} {increment : Increment κ}
    (h : list[performed]? = some (.add increment)) :
    (additions list)[additionsDone list performed]? = some increment := by
  have hdrop : list.drop performed = .add increment :: list.drop (performed + 1) := by
    obtain ⟨hlt, hget⟩ := List.getElem?_eq_some_iff.mp h
    rw [List.drop_eq_getElem_cons hlt, hget]
  have hsplit : additions list =
      additions (list.take performed) ++ increment :: additions (list.drop (performed + 1)) := by
    calc
      _ = additions (list.take performed ++ list.drop performed) := by rw [List.take_append_drop]
      _ = _ := by
        rw [hdrop, additions, List.filterMap_append]
        rfl
  rw [hsplit, additionsDone, List.getElem?_append_right le_rfl, Nat.sub_self]
  rfl

variable [DecidableEq κ]

/-- The processes that perform the given accesses in order. -/
def accesses (lists : ι → List (Access κ)) : Program ι Unit (Bank κ) (Progress κ) :=
  fun i _ bank progress ↦
    (lists i)[progress.performed]?.map fun access ↦
      match access with
      | .add increment => (fetchAdd bank increment, ⟨progress.performed + 1, progress.loaded⟩)
      | .load cell =>
        (bank, ⟨progress.performed + 1, Function.update progress.loaded cell (bank cell)⟩)

/-- Nothing has been counted, performed or loaded. -/
def unobserved : World ι (Bank κ) (Progress κ) := ⟨fun _ ↦ 0, fun _ ↦ ⟨0, fun _ ↦ 0⟩⟩

/-- The world without the loads. -/
def withoutLoads (lists : ι → List (Access κ)) (world : World ι (Bank κ) (Progress κ)) :
    World ι (Bank κ) ℕ :=
  ⟨world.shared, fun i ↦ additionsDone (lists i) (world.locals i).performed⟩

variable {lists : ι → List (Access κ)}
  {world world' : World ι (Bank κ) (Progress κ)}

/-- What one access does: a step of the increments, or a load that leaves the bank alone. -/
theorem access_cases {i : ι} {bank : Bank κ} {progress : Progress κ}
    (h : accesses lists i () world.shared (world.locals i) = some (bank, progress)) :
    progress.performed = (world.locals i).performed + 1 ∧
    ((∃ increment, (lists i)[(world.locals i).performed]? = some (.add increment) ∧
        bank = fetchAdd world.shared increment ∧ progress.loaded = (world.locals i).loaded) ∨
      ∃ cell, (lists i)[(world.locals i).performed]? = some (.load cell) ∧ bank = world.shared ∧
        progress.loaded =
          Function.update (world.locals i).loaded cell (world.shared cell)) := by
  obtain ⟨access, haccess, hstep⟩ := Option.map_eq_some_iff.mp h
  cases access with
  | add increment =>
    obtain ⟨rfl, rfl⟩ := Prod.mk.inj hstep
    exact ⟨rfl, Or.inl ⟨increment, haccess, rfl, rfl⟩⟩
  | load cell =>
    obtain ⟨rfl, rfl⟩ := Prod.mk.inj hstep
    exact ⟨rfl, Or.inr ⟨cell, haccess, rfl, rfl⟩⟩

variable [DecidableEq ι]

omit [DecidableEq κ] in
theorem withoutLoads_advance {i : ι} {bank : Bank κ} {progress : Progress κ} :
    withoutLoads lists (world.advance i bank progress) =
      (withoutLoads lists world).advance i bank (additionsDone (lists i) progress.performed) := by
  have hlocals :
      (fun j ↦ additionsDone (lists j) ((world.advance i bank progress).locals j).performed) =
      Function.update (withoutLoads lists world).locals i
        (additionsDone (lists i) progress.performed) := by
    funext j
    exact Function.apply_update (fun j (progress : Progress κ) ↦
      additionsDone (lists j) progress.performed) world.locals i progress j
  rw [withoutLoads, hlocals]
  rfl

theorem performed_of_step {i : ι} (hstep : world.step (accesses lists) (i, ()) = some world') :
    (world'.locals i).performed = (world.locals i).performed + 1 := by
  obtain ⟨bank, progress, hnext, rfl⟩ := step_eq_some.mp hstep
  rw [locals_advance_self]
  exact (access_cases hnext).1

/-- Just after a load a process knows the value of the counter. -/
theorem loaded_of_step {i : ι} {cell : κ}
    (hload : (lists i)[(world.locals i).performed]? = some (.load cell))
    (hstep : world.step (accesses lists) (i, ()) = some world') :
    (world'.locals i).loaded cell = world'.shared cell := by
  obtain ⟨bank, progress, hnext, rfl⟩ := step_eq_some.mp hstep
  rw [locals_advance_self, shared_advance]
  obtain ⟨_, ⟨increment, hlist, _⟩ | ⟨other, hlist, rfl, hloaded⟩⟩ := access_cases hnext
  · simp [hlist] at hload
  · obtain rfl : other = cell := by simpa [hlist] using hload
    rw [hloaded, Function.update_self]

/-- A run with its loads left out is a run of the increments. -/
theorem reaches_withoutLoads (h : Reaches (accesses lists) world world') :
    Reaches (increments fun i ↦ additions (lists i)) (withoutLoads lists world)
      (withoutLoads lists world') := by
  refine Reaches.invariant (motive := fun world' ↦
    Reaches (increments fun i ↦ additions (lists i)) (withoutLoads lists world)
      (withoutLoads lists world')) ?_ h (Reaches.refl _ _)
  intro before i _ bank progress _ hbefore hstep
  obtain ⟨hperformed, ⟨increment, hlist, rfl, _⟩ | ⟨cell, hlist, rfl, _⟩⟩ := access_cases hstep
  · have hnext : increments (fun i ↦ additions (lists i)) i () before.shared
        ((withoutLoads lists before).locals i) = some (fetchAdd before.shared increment,
          additionsDone (lists i) (before.locals i).performed + 1) := by
      rw [increments, withoutLoads, getElem?_additions hlist]
      rfl
    rw [withoutLoads_advance, hperformed, additionsDone_succ hlist]
    exact hbefore.advance hnext
  · rw [withoutLoads_advance, hperformed, additionsDone_succ hlist]
    exact (advance_self (withoutLoads lists before) i).symm ▸ hbefore

section Moments

variable [Fintype ι]

/-- What a counter holds: the sum of the increments that have been performed. -/
theorem toNat_observed (h : Reaches (accesses lists) unobserved world) {cell : κ}
    (htotal : ∑ i, added cell (additions (lists i)) < 2 ^ 64) :
    (world.shared cell).toNat =
      tally (fun i ↦ additions (lists i)) (withoutLoads lists world).locals cell := by
  obtain ⟨schedule, hrun⟩ := reaches_withoutLoads h
  have hfresh : withoutLoads lists unobserved = fresh := by
    rw [withoutLoads, fresh]
    simp [unobserved, additionsDone, additions]
  rw [hfresh] at hrun
  exact toNat_shared_of_lt hrun htotal

omit [Fintype ι] in
/-- A process never goes back. -/
theorem performed_le (h : Reaches (accesses lists) world world') (i : ι) :
    (world.locals i).performed ≤ (world'.locals i).performed := by
  refine Reaches.invariant (motive := fun world' ↦
    (world.locals i).performed ≤ (world'.locals i).performed) ?_ h le_rfl
  intro before j _ bank progress _ hbefore hstep
  have hperformed := (access_cases hstep).1
  by_cases hj : i = j
  · subst hj
    rw [locals_advance_self]
    omega
  · rwa [locals_advance_of_ne hj]

variable (hstart : Reaches (accesses lists) unobserved world)
  (h : Reaches (accesses lists) world world') {cell : κ}
  (htotal : ∑ i, added cell (additions (lists i)) < 2 ^ 64)

include hstart h htotal

/-- A counter never decreases. -/
theorem shared_le : (world.shared cell).toNat ≤ (world'.shared cell).toNat := by
  rw [toNat_observed hstart htotal, toNat_observed (hstart.trans h) htotal]
  apply tally_mono
  intro i
  exact ((List.take_prefix_take_left (performed_le h i)).filterMap _).length_le

/-- What a process has loaded since a moment at which it had not started lies between the values
the counter had then and has now. -/
theorem loaded_between {i : ι} (hidle : (world.locals i).performed = 0)
    (hload : .load cell ∈ (lists i).take (world'.locals i).performed) :
    (world.shared cell).toNat ≤ ((world'.locals i).loaded cell).toNat ∧
      ((world'.locals i).loaded cell).toNat ≤ (world'.shared cell).toNat := by
  revert hload
  refine Reaches.invariant (motive := fun world' ↦
    .load cell ∈ (lists i).take (world'.locals i).performed →
      (world.shared cell).toNat ≤ ((world'.locals i).loaded cell).toNat ∧
        ((world'.locals i).loaded cell).toNat ≤ (world'.shared cell).toNat) ?_ h ?_
  · intro before j _ bank progress hbefore hproperty hstep hload
    have hmoved := shared_le (hstart.trans hbefore) ((Reaches.refl _ before).advance hstep) htotal
    rw [shared_advance] at hmoved ⊢
    by_cases hj : i = j
    · subst hj
      rw [locals_advance_self] at hload ⊢
      obtain ⟨hperformed, hcase⟩ := access_cases hstep
      rw [hperformed, List.take_add_one] at hload
      rcases hcase with ⟨increment, hlist, _, hloaded⟩ | ⟨other, hlist, rfl, hloaded⟩
      · have hearlier : .load cell ∈ (lists i).take (before.locals i).performed := by
          simpa [hlist] using hload
        rw [hloaded]
        exact ⟨(hproperty hearlier).1, (hproperty hearlier).2.trans hmoved⟩
      · rw [hloaded]
        by_cases hcell : cell = other
        · subst hcell
          rw [Function.update_self]
          exact ⟨shared_le hstart hbefore htotal, le_rfl⟩
        · have hearlier : .load cell ∈ (lists i).take (before.locals i).performed := by
            simpa [hlist, hcell] using hload
          rw [Function.update_of_ne hcell]
          exact hproperty hearlier
    · rw [locals_advance_of_ne hj] at hload ⊢
      exact ⟨(hproperty hload).1, (hproperty hload).2.trans hmoved⟩
  · rw [hidle, List.take_zero]
    simp

/-- What a process loads after another has finished loading is not below what that one got. -/
theorem loaded_le_loaded {i j : ι} (hload : .load cell ∈ (lists i).take (world.locals i).performed)
    (hidle : (world.locals j).performed = 0)
    (hload' : .load cell ∈ (lists j).take (world'.locals j).performed) :
    ((world.locals i).loaded cell).toNat ≤ ((world'.locals j).loaded cell).toNat := by
  calc
    _ ≤ (world.shared cell).toNat := (loaded_between (Reaches.refl _ _) hstart htotal rfl hload).2
    _ ≤ _ := (loaded_between hstart h htotal hidle hload').1

end Moments

section Whole

variable [Fintype ι] {cell : κ}

section Moment

variable (h : Reaches (accesses lists) unobserved world)
  (htotal : ∑ i, added cell (additions (lists i)) < 2 ^ 64)

include h htotal

/-- A counter has all that the finished processes add. -/
theorem finished_le_shared :
    ∑ i with (world.locals i).performed = (lists i).length, added cell (additions (lists i)) ≤
      (world.shared cell).toNat := by
  rw [toNat_observed h htotal]
  calc
    _ = ∑ i with (world.locals i).performed = (lists i).length,
        added cell (additions ((lists i).take (world.locals i).performed)) := by
      apply Finset.sum_congr rfl
      intro i hi
      rw [(Finset.mem_filter.mp hi).2, List.take_length]
    _ ≤ ∑ i, added cell (additions ((lists i).take (world.locals i).performed)) :=
      Finset.sum_le_sum_of_subset (Finset.filter_subset _ _)
    _ = _ := Finset.sum_congr rfl fun i _ ↦ congrArg (added cell) (additions_take _ _)

/-- A counter has nothing but what the processes that have started add. -/
theorem shared_le_started :
    (world.shared cell).toNat ≤
      ∑ i with 0 < (world.locals i).performed, added cell (additions (lists i)) := by
  rw [toNat_observed h htotal, Finset.sum_filter]
  apply Finset.sum_le_sum
  intro i _
  split
  case isTrue => exact added_take_le cell _ _
  case isFalse hidle =>
    have htake : (additions (lists i)).take ((withoutLoads lists world).locals i) = [] := by
      have hnone : (world.locals i).performed = 0 := by omega
      rw [withoutLoads, ← additions_take, hnone]
      rfl
    rw [htake]
    exact Nat.zero_le 0

/-- When all processes have finished, a counter has all that they add. -/
theorem shared_of_finished (hfinished : ∀ i, (world.locals i).performed = (lists i).length) :
    (world.shared cell).toNat = ∑ i, added cell (additions (lists i)) := by
  apply le_antisymm
  · exact (shared_le_started h htotal).trans
      (Finset.sum_le_sum_of_subset (Finset.filter_subset _ _))
  · have hle := finished_le_shared h htotal
    rwa [Finset.filter_true_of_mem fun i _ ↦ hfinished i] at hle

end Moment

/-- What a process loads has all that was added by processes that had finished when it started, and
nothing but what is added by processes that have started by now. -/
theorem loaded_bracket (hstart : Reaches (accesses lists) unobserved world)
    (h : Reaches (accesses lists) world world')
    (htotal : ∑ i, added cell (additions (lists i)) < 2 ^ 64) {j : ι}
    (hidle : (world.locals j).performed = 0)
    (hload : .load cell ∈ (lists j).take (world'.locals j).performed) :
    ∑ i with (world.locals i).performed = (lists i).length, added cell (additions (lists i)) ≤
        ((world'.locals j).loaded cell).toNat ∧
      ((world'.locals j).loaded cell).toNat ≤
        ∑ i with 0 < (world'.locals i).performed, added cell (additions (lists i)) := by
  obtain ⟨hlower, hupper⟩ := loaded_between hstart h htotal hidle hload
  exact ⟨(finished_le_shared hstart htotal).trans hlower,
    hupper.trans (shared_le_started (hstart.trans h) htotal)⟩

end Whole

end Counters
