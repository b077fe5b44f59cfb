import Mathlib.Algebra.BigOperators.Group.List.Basic
import Mathlib.Algebra.GroupWithZero.Nat
import Mathlib.Data.FinEnum
import JustKV.Library.DistinctLists
import JustKV.Store.Lookup

/-!
# Packing pairs into an arena

The loader appends key and value of every pair to the arena and remembers where they went.  As
long as the arena stays within `u32`, the windows of the entries tile it in order and read back
exactly the pairs that were packed.
-/

open Checked

namespace JustKV

/-- The arena of a dataset: key and value of every pair, one after another. -/
def packed (pairs : Dataset) : Bytes := pairs.flatMap fun pair ↦ pair.1 ++ pair.2

/-- The entry of a pair whose key goes to the given offset. -/
def entryAt (off : ℕ) (pair : Bytes × Bytes) : Entry :=
  ⟨UInt32.ofNat off, UInt32.ofNat pair.1.length, UInt32.ofNat (off + pair.1.length),
    UInt32.ofNat pair.2.length⟩

/-- The entries of a dataset packed from the given offset on. -/
def layoutFrom : ℕ → Dataset → List Entry
  | _, [] => []
  | off, pair :: rest => entryAt off pair :: layoutFrom (off + (pair.1.length + pair.2.length)) rest

@[simp] theorem packed_cons (pair : Bytes × Bytes) (pairs : Dataset) :
    packed (pair :: pairs) = pair.1 ++ pair.2 ++ packed pairs := rfl

@[simp] theorem size_nil : Dataset.size [] = 0 := rfl

@[simp] theorem size_cons (pair : Bytes × Bytes) (pairs : Dataset) :
    Dataset.size (pair :: pairs) = pair.1.length + pair.2.length + Dataset.size pairs := rfl

theorem size_append (left right : Dataset) :
    Dataset.size (left ++ right) = left.size + right.size := by
  simp [Dataset.size]

@[simp] theorem length_packed (pairs : Dataset) : (packed pairs).length = pairs.size := by
  induction pairs with
  | nil => rfl
  | cons pair pairs ih => rw [packed_cons, List.length_append, List.length_append, ih, size_cons]

@[simp] theorem length_layoutFrom (off : ℕ) (pairs : Dataset) :
    (layoutFrom off pairs).length = pairs.length := by
  induction pairs generalizing off with
  | nil => rfl
  | cons pair pairs ih => rw [layoutFrom, List.length_cons, ih, List.length_cons]

theorem layoutFrom_append_singleton (off : ℕ) (pairs : Dataset) (pair : Bytes × Bytes) :
    layoutFrom off (pairs ++ [pair]) = layoutFrom off pairs ++ [entryAt (off + pairs.size) pair] := by
  induction pairs generalizing off with
  | nil => rfl
  | cons head pairs ih =>
    rw [List.cons_append, layoutFrom, ih, layoutFrom, size_cons, Nat.add_assoc off]
    rfl

/-- A window at the seams of the arena is the part between them. -/
theorem window_append (before middle after : Bytes) (h : before.length + middle.length ≤ u32Max) :
    window (before ++ middle ++ after) (UInt32.ofNat before.length) (UInt32.ofNat middle.length) =
      middle := by
  unfold u32Max at h
  rw [window, toNat_ofNat_of_lt (by omega), toNat_ofNat_of_lt (by omega), List.append_assoc,
    List.drop_left, List.take_left]

section Entry

variable (before after : Bytes) (pair : Bytes × Bytes)
  (h : before.length + (pair.1.length + pair.2.length) ≤ u32Max)

include h

theorem pair_entryAt :
    (entryAt before.length pair).pair (before ++ (pair.1 ++ pair.2) ++ after) = pair := by
  have hkey := window_append before pair.1 (pair.2 ++ after) (by omega)
  have hvalue := window_append (before ++ pair.1) pair.2 after (by rw [List.length_append]; omega)
  rw [List.length_append] at hvalue
  apply Prod.ext
  · simpa [Entry.pair, entryAt] using hkey
  · simpa [Entry.pair, entryAt] using hvalue

theorem inRange_entryAt :
    (entryAt before.length pair).InRange (before ++ (pair.1 ++ pair.2) ++ after) := by
  unfold u32Max at h
  constructor
  · simp only [entryAt, List.length_append]
    rw [toNat_ofNat_of_lt (by omega), toNat_ofNat_of_lt (by omega)]
    omega
  · simp only [entryAt, List.length_append]
    rw [toNat_ofNat_of_lt (by omega), toNat_ofNat_of_lt (by omega)]
    omega

end Entry

/-- The windows of packed pairs lie in the arena and read the pairs back. -/
theorem layoutFrom_spec (before after : Bytes) (pairs : Dataset)
    (h : before.length + pairs.size ≤ u32Max) :
    (layoutFrom before.length pairs).map (Entry.pair (before ++ packed pairs ++ after)) = pairs ∧
      ∀ entry ∈ layoutFrom before.length pairs,
        entry.InRange (before ++ packed pairs ++ after) := by
  induction pairs generalizing before with
  | nil => simp [layoutFrom]
  | cons pair pairs ih =>
    rw [size_cons] at h
    have harena : before ++ packed (pair :: pairs) ++ after =
        before ++ (pair.1 ++ pair.2) ++ (packed pairs ++ after) := by simp
    have hnext : before ++ packed (pair :: pairs) ++ after =
        before ++ (pair.1 ++ pair.2) ++ packed pairs ++ after := by simp
    have hlength : before.length + (pair.1.length + pair.2.length) =
        (before ++ (pair.1 ++ pair.2)).length := by simp
    obtain ⟨hpairs, hrange⟩ := ih (before ++ (pair.1 ++ pair.2)) (by rw [← hlength]; omega)
    rw [layoutFrom, hlength]
    constructor
    · rw [List.map_cons, harena, pair_entryAt before _ pair (by omega), ← harena, hnext, hpairs]
    · intro entry hentry
      rcases List.mem_cons.mp hentry with rfl | htail
      · rw [harena]
        exact inRange_entryAt before _ pair (by omega)
      · rw [hnext]
        exact hrange entry htail

/-- The parts of a dataset that fits in `u32` offsets. -/
def Parts.ofPairs (pairs : Dataset) (h : pairs.size ≤ u32Max) : Parts where
  arena := packed pairs
  entries := layoutFrom 0 pairs
  arena_le := by rwa [length_packed]
  inRange := by simpa using (layoutFrom_spec [] [] pairs (by simpa using h)).2

@[simp] theorem pairs_ofPairs (pairs : Dataset) (h : pairs.size ≤ u32Max) :
    (Parts.ofPairs pairs h).pairs = pairs := by
  simpa [Parts.pairs, Parts.ofPairs] using (layoutFrom_spec [] [] pairs (by simpa using h)).1

theorem card_byte : Fintype.card UInt8 = 256 :=
  FinEnum.card_eq_fintypeCard.symm

theorem sum_length_keys_le (pairs : Dataset) : (pairs.keys.map List.length).sum ≤ pairs.size := by
  induction pairs with
  | nil => exact le_rfl
  | cons pair pairs ih =>
    simp only [Dataset.keys, List.map_cons, List.sum_cons, size_cons] at ih ⊢
    omega

/-- Pairwise distinct keys that fit in `u32` offsets also have `u32` indices. -/
theorem length_lt_of_nodup {pairs : Dataset} (hnodup : pairs.keys.Nodup)
    (h : pairs.size ≤ u32Max) : pairs.length < 2 ^ 32 := by
  have hcount := DistinctLists.length_le_half_sum hnodup
  have hcard := card_byte
  have hsum := sum_length_keys_le pairs
  have hlength : pairs.keys.length = pairs.length := List.length_map _
  unfold u32Max at h
  omega

end JustKV
