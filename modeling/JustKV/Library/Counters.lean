import Mathlib.Algebra.BigOperators.Group.Finset.Basic
import Mathlib.Algebra.BigOperators.Group.List.Basic
import Mathlib.Algebra.GroupWithZero.Nat
import Mathlib.Algebra.Order.BigOperators.Group.Finset
import JustKV.Library.Interleaving

/-!
# Counters under concurrent increments

Processes share a bank of 64-bit counters.  Each performs a fixed list of increments in order, one
indivisible `fetch_add` at a time, so after any schedule every counter is the sum over the
processes of what their performed increments added to it, modulo the word size.  Inequalities
between counters that hold in every process after every prefix of its list hold in the bank at
every moment.
-/

open Interleaving

namespace Counters

abbrev Bank (κ : Type) := κ → UInt64

/-- A counter and the amount to add to it. -/
abbrev Increment (κ : Type) := κ × ℕ

variable {ι κ : Type}

/-- After every prefix of the list, what it counts `behind` is covered by the slack and by what it
counts `ahead`. -/
def Leads (ahead behind : Increment κ → ℕ) (slack : ℕ) (list : List (Increment κ)) : Prop :=
  ∀ performed, ((list.take performed).map behind).sum ≤
    slack + ((list.take performed).map ahead).sum

variable {ahead behind : Increment κ → ℕ}

@[simp] theorem leads_nil (slack : ℕ) : Leads ahead behind slack [] := by
  intro performed
  simp

/-- The increments of a list can be judged one by one. -/
@[simp] theorem leads_cons {slack : ℕ} {increment : Increment κ} {list : List (Increment κ)} :
    Leads ahead behind slack (increment :: list) ↔
      behind increment ≤ slack + ahead increment ∧
        Leads ahead behind (slack + ahead increment - behind increment) list := by
  constructor
  · intro h
    have hhead : behind increment ≤ slack + ahead increment := by simpa using h 1
    refine ⟨hhead, fun performed ↦ ?_⟩
    have htail := h (performed + 1)
    rw [List.take_succ_cons, List.map_cons, List.map_cons, List.sum_cons, List.sum_cons] at htail
    omega
  · rintro ⟨hhead, htail⟩ performed
    cases performed with
    | zero => simp
    | succ performed =>
      have hrest := htail performed
      rw [List.take_succ_cons, List.map_cons, List.map_cons, List.sum_cons, List.sum_cons]
      omega

variable [DecidableEq κ]

def fetchAdd (bank : Bank κ) (increment : Increment κ) : Bank κ :=
  Function.update bank increment.1 (bank increment.1 + UInt64.ofNat increment.2)

/-- The processes that perform the given increments; the local state counts the performed ones. -/
def increments (lists : ι → List (Increment κ)) : Program ι Unit (Bank κ) ℕ :=
  fun i _ bank performed ↦
    (lists i)[performed]?.map fun increment ↦ (fetchAdd bank increment, performed + 1)

/-- Nothing has been counted and nothing performed. -/
def fresh : World ι (Bank κ) ℕ := ⟨fun _ ↦ 0, fun _ ↦ 0⟩

/-- What an increment adds to a counter. -/
def Increment.on (increment : Increment κ) (cell : κ) : ℕ :=
  if increment.1 = cell then increment.2 else 0

/-- What a list of increments adds to a counter. -/
def added (cell : κ) (list : List (Increment κ)) : ℕ :=
  (list.map fun increment ↦ increment.on cell).sum

@[simp] theorem added_nil (cell : κ) : added cell [] = 0 := rfl

@[simp] theorem added_cons (cell : κ) (increment : Increment κ) (list : List (Increment κ)) :
    added cell (increment :: list) = increment.on cell + added cell list := rfl

theorem added_append (cell : κ) (left right : List (Increment κ)) :
    added cell (left ++ right) = added cell left + added cell right := by
  simp [added]

theorem added_take_le (cell : κ) (list : List (Increment κ)) (performed : ℕ) :
    added cell (list.take performed) ≤ added cell list := by
  calc
    _ ≤ added cell (list.take performed) + added cell (list.drop performed) := Nat.le_add_right _ _
    _ = added cell (list.take performed ++ list.drop performed) := (added_append cell _ _).symm
    _ = added cell list := by rw [List.take_append_drop]

theorem added_take_mono (cell : κ) (list : List (Increment κ)) {performed performed' : ℕ}
    (h : performed ≤ performed') :
    added cell (list.take performed) ≤ added cell (list.take performed') := by
  have htake := added_take_le cell (list.take performed') performed
  rwa [List.take_take, min_eq_left h] at htake

theorem added_take_succ {list : List (Increment κ)} {performed : ℕ} {increment : Increment κ}
    (h : list[performed]? = some increment) (cell : κ) :
    added cell (list.take (performed + 1)) =
      added cell (list.take performed) + increment.on cell := by
  rw [List.take_add_one, h, added_append]
  rfl

theorem toNat_fetchAdd (bank : Bank κ) (increment : Increment κ) (cell : κ) :
    (fetchAdd bank increment cell).toNat =
      ((bank cell).toNat + increment.on cell) % 2 ^ 64 := by
  rw [fetchAdd, Increment.on]
  by_cases hcell : increment.1 = cell
  · subst hcell
    rw [Function.update_self, if_pos rfl, UInt64.toNat_add, UInt64.toNat_ofNat', Nat.add_mod_mod]
  · rw [Function.update_of_ne (Ne.symm hcell), if_neg hcell, Nat.add_zero,
      Nat.mod_eq_of_lt (bank cell).toNat_lt]

/-- Performing a list alone adds to every counter what the list adds. -/
theorem toNat_foldl_fetchAdd (list : List (Increment κ)) (bank : Bank κ) (cell : κ) :
    (list.foldl fetchAdd bank cell).toNat = ((bank cell).toNat + added cell list) % 2 ^ 64 := by
  induction list generalizing bank with
  | nil => simp [Nat.mod_eq_of_lt (bank cell).toNat_lt]
  | cons increment list ih =>
    calc
      _ = (((bank cell).toNat + increment.on cell) % 2 ^ 64 + added cell list) % 2 ^ 64 := by
        rw [List.foldl_cons, ih, toNat_fetchAdd]
      _ = ((bank cell).toNat + added cell (increment :: list)) % 2 ^ 64 := by
        rw [Nat.mod_add_mod, added_cons, Nat.add_assoc]

/-- Lists that add the same to a counter change it the same way. -/
theorem foldl_fetchAdd_congr {left right : List (Increment κ)} {cell : κ}
    (h : added cell left = added cell right) (bank : Bank κ) :
    left.foldl fetchAdd bank cell = right.foldl fetchAdd bank cell := by
  apply UInt64.toNat_inj.mp
  rw [toNat_foldl_fetchAdd, toNat_foldl_fetchAdd, h]

section Bank

variable [Fintype ι] {lists : ι → List (Increment κ)}
  {schedule : List (ι × Unit)} {world : World ι (Bank κ) ℕ}

/-- What the performed increments have added to a counter. -/
def tally (lists : ι → List (Increment κ)) (performed : ι → ℕ) (cell : κ) : ℕ :=
  ∑ i, added cell ((lists i).take (performed i))

theorem tally_le (lists : ι → List (Increment κ)) (performed : ι → ℕ) (cell : κ) :
    tally lists performed cell ≤ ∑ i, added cell (lists i) :=
  Finset.sum_le_sum fun i _ ↦ added_take_le cell (lists i) (performed i)

theorem tally_mono (lists : ι → List (Increment κ)) {performed performed' : ι → ℕ}
    (h : ∀ i, performed i ≤ performed' i) (cell : κ) :
    tally lists performed cell ≤ tally lists performed' cell :=
  Finset.sum_le_sum fun i _ ↦ added_take_mono cell (lists i) (h i)

/-- When every process has performed all of its list, the counters are the totals. -/
theorem tally_of_finished {performed : ι → ℕ} (h : ∀ i, performed i = (lists i).length)
    (cell : κ) : tally lists performed cell = ∑ i, added cell (lists i) :=
  Finset.sum_congr rfl fun i _ ↦ by rw [h i, List.take_length]

variable [DecidableEq ι]

theorem tally_advance (performed : ι → ℕ) {i : ι} {increment : Increment κ}
    (h : (lists i)[performed i]? = some increment) (cell : κ) :
    tally lists (Function.update performed i (performed i + 1)) cell =
      tally lists performed cell + increment.on cell := by
  have hrest : ∀ j ∈ Finset.univ.erase i,
      added cell ((lists j).take (Function.update performed i (performed i + 1) j)) =
        added cell ((lists j).take (performed j)) := fun j hj ↦ by
    rw [Function.update_of_ne (Finset.ne_of_mem_erase hj)]
  calc
    _ = added cell ((lists i).take (performed i + 1)) +
        ∑ j ∈ Finset.univ.erase i, added cell ((lists j).take (performed j)) := by
      rw [tally, ← Finset.add_sum_erase _ _ (Finset.mem_univ i), Finset.sum_congr rfl hrest,
        Function.update_self]
    _ = added cell ((lists i).take (performed i)) + increment.on cell +
        ∑ j ∈ Finset.univ.erase i, added cell ((lists j).take (performed j)) := by
      rw [added_take_succ h]
    _ = added cell ((lists i).take (performed i)) +
        ∑ j ∈ Finset.univ.erase i, added cell ((lists j).take (performed j)) +
          increment.on cell := Nat.add_right_comm _ _ _
    _ = tally lists performed cell + increment.on cell := by
      rw [Finset.add_sum_erase _ (fun j ↦ added cell ((lists j).take (performed j)))
        (Finset.mem_univ i), tally]

/-- Every counter is the sum of what has been performed, modulo the word size. -/
theorem toNat_shared (hrun : fresh.run (increments lists) schedule = some world) (cell : κ) :
    (world.shared cell).toNat = tally lists world.locals cell % 2 ^ 64 := by
  refine run_invariant (motive := fun world ↦
    (world.shared cell).toNat = tally lists world.locals cell % 2 ^ 64) ?_ hrun ?_
  · intro before i _ bank performed hbefore hstep
    obtain ⟨increment, hincrement, hnext⟩ := Option.map_eq_some_iff.mp hstep
    obtain ⟨rfl, rfl⟩ := Prod.mk.inj hnext
    calc
      (fetchAdd before.shared increment cell).toNat =
          (tally lists before.locals cell % 2 ^ 64 + increment.on cell) % 2 ^ 64 := by
        rw [toNat_fetchAdd, hbefore]
      _ = (tally lists before.locals cell + increment.on cell) % 2 ^ 64 := Nat.mod_add_mod _ _ _
      _ = tally lists (Function.update before.locals i (before.locals i + 1)) cell % 2 ^ 64 := by
        rw [tally_advance before.locals hincrement]
  · simp [fresh, tally]

/-- A counter whose total fits in a word never wraps. -/
theorem toNat_shared_of_lt (hrun : fresh.run (increments lists) schedule = some world) {cell : κ}
    (htotal : ∑ i, added cell (lists i) < 2 ^ 64) :
    (world.shared cell).toNat = tally lists world.locals cell := by
  rw [toNat_shared hrun, Nat.mod_eq_of_lt ((tally_le lists world.locals cell).trans_lt htotal)]

end Bank

end Counters
