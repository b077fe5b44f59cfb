import Mathlib.Algebra.BigOperators.Intervals
import Mathlib.Algebra.Order.BigOperators.Group.Finset

/-!
# Numerals

The first numerals are written under each other.  The column of `b ^ k` has a digit in all of them
but the first `b ^ k`, so the digits are counted column by column.

In a text a decimal numeral ends where its digits end, so it can be told from what stands before or
after it.
-/

open Finset

namespace Decimal

section Lengths

variable {b : ℕ}

theorem exists_of_mem_toDigits (hb : 1 < b) {n : ℕ} {char : Char} (h : char ∈ Nat.toDigits b n) :
    ∃ digit < b, char = Nat.digitChar digit := by
  induction n using Nat.strongRecOn with
  | ind n ih =>
    rw [Nat.toDigits_eq_if hb] at h
    split at h
    case isTrue hlt => exact ⟨n, hlt, List.mem_singleton.mp h⟩
    case isFalse hge =>
      rcases List.mem_append.mp h with hrest | hlast
      · exact ih (n / b) (Nat.div_lt_self (by omega) hb) hrest
      · exact ⟨n % b, Nat.mod_lt n (by omega), List.mem_singleton.mp hlast⟩

/-- A numeral has its last digit and one digit for each higher power that is not above its value. -/
theorem length_toDigits_eq (hb : 1 < b) (columns : ℕ) {n : ℕ} (hn : n < b ^ (columns + 1)) :
    (Nat.toDigits b n).length = 1 + ∑ k ∈ range columns, if b ^ (k + 1) ≤ n then 1 else 0 := by
  induction columns generalizing n with
  | zero =>
    rw [zero_add, pow_one] at hn
    rw [Nat.toDigits_of_lt_base hn]
    rfl
  | succ columns ih =>
    rw [Nat.toDigits_eq_if hb, sum_range_succ', zero_add, pow_one]
    by_cases hlt : n < b
    · have hnone (k : ℕ) : ¬b ^ (k + 1) ≤ n := by
        have hpow : b ≤ b ^ (k + 1) := Nat.le_self_pow (Nat.succ_ne_zero k) b
        omega
      simp [hlt, hnone]
    · have hdiv : n / b < b ^ (columns + 1) := by
        apply Nat.div_lt_of_lt_mul
        rwa [← pow_succ']
      have hcolumn (k : ℕ) : b ^ (k + 1 + 1) ≤ n ↔ b ^ (k + 1) ≤ n / b := by
        rw [Nat.le_div_iff_mul_le (by omega), pow_succ]
      rw [if_neg hlt, List.length_append, ih hdiv, if_pos (by omega)]
      simp only [hcolumn, List.length_singleton]
      omega

/-- The digits of the first numerals, column by column. -/
theorem sum_length_toDigits (hb : 1 < b) {columns n : ℕ} (hn : n ≤ b ^ (columns + 1)) :
    ∑ i ∈ range n, (Nat.toDigits b i).length = n + ∑ k ∈ range columns, (n - b ^ (k + 1)) := by
  induction n with
  | zero => simp
  | succ n ih =>
    have hcolumn (k : ℕ) : n + 1 - b ^ (k + 1) =
        n - b ^ (k + 1) + if b ^ (k + 1) ≤ n then 1 else 0 := by
      split <;> omega
    rw [sum_range_succ, ih (by omega), length_toDigits_eq hb _ hn, sum_congr rfl fun k _ ↦ hcolumn k,
      sum_add_distrib]
    omega

end Lengths

theorem toDigits_injective : Function.Injective (Nat.toDigits 10) :=
  Function.LeftInverse.injective (g := fun digits ↦ Nat.ofDigitChars 10 digits 0) fun _ ↦
    Nat.ofDigitChars_ten_toDigits

/-- What comes before the first element outside a class is determined by the whole. -/
theorem append_inj_of_stop {α : Type*} {p : α → Bool} {left left' rest rest' : List α}
    {stop stop' : α} (hleft : ∀ x ∈ left, p x) (hleft' : ∀ x ∈ left', p x) (hstop : p stop = false)
    (hstop' : p stop' = false) (h : left ++ stop :: rest = left' ++ stop' :: rest') :
    left = left' ∧ stop :: rest = stop' :: rest' := by
  have htake (front : List α) (hfront : ∀ x ∈ front, p x) {last : α} (hlast : p last = false)
      (back : List α) : (front ++ last :: back).takeWhile p = front := by
    rw [List.takeWhile_append_of_pos hfront, List.takeWhile_cons_of_neg (by simp [hlast]),
      List.append_nil]
  have hsame : left = left' := by
    calc
      left = (left ++ stop :: rest).takeWhile p := (htake left hleft hstop rest).symm
      _ = (left' ++ stop' :: rest').takeWhile p := by rw [h]
      _ = left' := htake left' hleft' hstop' rest'
  rw [hsame] at h
  exact ⟨hsame, List.append_cancel_left h⟩

theorem isDigit_toDigits {n : ℕ} : ∀ char ∈ Nat.toDigits 10 n, char.isDigit :=
  fun _ hmem ↦ Nat.isDigit_of_mem_toDigits (by omega) (by omega) hmem

theorem toNat_of_isDigit {char : Char} (h : char.isDigit) :
    48 ≤ char.toNat ∧ char.toNat ≤ 57 := by
  simp only [Char.isDigit, Bool.and_eq_true, decide_eq_true_eq, ge_iff_le, UInt32.le_iff_toNat_le]
    at h
  exact h

theorem toList_toString (n : ℕ) : (toString n).toList = Nat.toDigits 10 n := by
  rw [Nat.toString_eq_repr, Nat.toList_repr]

theorem toString_injective : Function.Injective (toString : ℕ → String) := by
  intro m n h
  apply toDigits_injective
  rw [← toList_toString, ← toList_toString, h]

theorem toNat_of_mem_toString {char : Char} {n : ℕ} (h : char ∈ (toString n).toList) :
    48 ≤ char.toNat ∧ char.toNat ≤ 57 := by
  rw [toList_toString] at h
  exact toNat_of_isDigit (isDigit_toDigits char h)

theorem notMem_toString {char : Char} (hchar : char.isDigit = false) (n : ℕ) :
    char ∉ (toString n).toList := by
  intro hmem
  rw [toList_toString] at hmem
  rw [isDigit_toDigits char hmem] at hchar
  cases hchar

theorem numeral_append_inj {m n : ℕ} {stop : Char} {rest rest' : List Char}
    (hstop : stop.isDigit = false)
    (h : Nat.toDigits 10 m ++ stop :: rest = Nat.toDigits 10 n ++ stop :: rest') :
    m = n ∧ rest = rest' := by
  obtain ⟨hdigits, hrest⟩ := append_inj_of_stop isDigit_toDigits isDigit_toDigits hstop hstop h
  exact ⟨toDigits_injective hdigits, (List.cons.inj hrest).2⟩

theorem append_numeral_inj {m n : ℕ} {stop : Char} {left left' : List Char}
    (hstop : stop.isDigit = false)
    (h : left ++ stop :: Nat.toDigits 10 m = left' ++ stop :: Nat.toDigits 10 n) :
    left = left' ∧ m = n := by
  have hreverse {k : ℕ} : ∀ char ∈ (Nat.toDigits 10 k).reverse, char.isDigit :=
    fun char hmem ↦ isDigit_toDigits char (List.mem_reverse.mp hmem)
  have hmirror : (Nat.toDigits 10 m).reverse ++ stop :: left.reverse =
      (Nat.toDigits 10 n).reverse ++ stop :: left'.reverse := by
    simpa using congrArg List.reverse h
  obtain ⟨hdigits, hrest⟩ := append_inj_of_stop hreverse hreverse hstop hstop hmirror
  exact ⟨List.reverse_injective (List.cons.inj hrest).2,
    toDigits_injective (List.reverse_injective hdigits)⟩

end Decimal
