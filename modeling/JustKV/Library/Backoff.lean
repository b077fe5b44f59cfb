import Mathlib.Algebra.BigOperators.Group.List.Basic
import Mathlib.Tactic.Ring

/-!
# Exponential backoff

The delay doubles with every failure in a row until it reaches a ceiling.  All but a few failures
then take the ceiling's time, so their number is bounded by the time that has been waited.
-/

namespace Backoff

/-- The delay after the failure that `n` others precede in a row. -/
def delay (ceiling n : ℕ) : ℕ := min (2 ^ n) ceiling

/-- The delays of `n` failures in a row. -/
def delays (ceiling n : ℕ) : List ℕ := (List.range n).map (delay ceiling)

variable {ceiling : ℕ}

theorem delay_succ (n : ℕ) : min (delay ceiling n * 2) ceiling = delay ceiling (n + 1) := by
  rw [delay, delay, pow_succ]
  omega

theorem delay_le (n : ℕ) : delay ceiling n ≤ ceiling := min_le_right _ _

theorem delay_pos (h : 0 < ceiling) (n : ℕ) : 0 < delay ceiling n :=
  lt_min (Nat.two_pow_pos n) h

theorem delays_succ (n : ℕ) : delays ceiling (n + 1) = delays ceiling n ++ [delay ceiling n] := by
  rw [delays, List.range_succ, List.map_append]
  rfl

@[simp] theorem length_delays (n : ℕ) : (delays ceiling n).length = n := by
  simp [delays]

theorem mem_delays {n wait : ℕ} (h : wait ∈ delays ceiling n) (hceiling : 0 < ceiling) :
    0 < wait ∧ wait ≤ ceiling := by
  obtain ⟨k, _, rfl⟩ := List.mem_map.mp h
  exact ⟨delay_pos hceiling k, delay_le k⟩

/-- After as many failures as it takes to reach the ceiling, each costs the ceiling: induction over
the failures. -/
theorem mul_le_sum_delays {steps : ℕ} (h : ceiling ≤ 2 ^ steps) (n : ℕ) :
    ceiling * n ≤ (delays ceiling n).sum + ceiling * steps := by
  induction n with
  | zero => simp
  | succ n ih =>
    rw [delays_succ, List.sum_append, List.sum_singleton]
    by_cases hn : steps ≤ n
    · have hdelay : delay ceiling n = ceiling :=
        min_eq_right (h.trans (Nat.pow_le_pow_right (by decide) hn))
      calc
        ceiling * (n + 1) = ceiling * n + ceiling := by ring
        _ ≤ (delays ceiling n).sum + ceiling * steps + ceiling := by omega
        _ = (delays ceiling n).sum + delay ceiling n + ceiling * steps := by rw [hdelay]; ring
    · calc
        ceiling * (n + 1) ≤ ceiling * steps := Nat.mul_le_mul_left ceiling (by omega)
        _ ≤ _ := Nat.le_add_left _ _

end Backoff
