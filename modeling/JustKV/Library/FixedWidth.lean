import Mathlib.Data.List.Basic
import Mathlib.Tactic.Ring

/-!
# Fixed-width little-endian records in byte strings

A record codec turns values into exactly `width` bytes and back.  The records of a list are
written one after another; record `i` of a byte string is then found by its offset alone.  The
laws go both ways: reading what was written gives the values back, and writing what was read
gives the bytes back.
-/

namespace FixedWidth

/-- The four little-endian bytes of a word. -/
def toLeBytes (n : UInt32) : List UInt8 :=
  [UInt8.ofNat n.toNat, UInt8.ofNat (n.toNat / 2 ^ 8), UInt8.ofNat (n.toNat / 2 ^ 16),
    UInt8.ofNat (n.toNat / 2 ^ 24)]

/-- The word with the four given little-endian bytes. -/
def fromLeBytes (b₀ b₁ b₂ b₃ : UInt8) : UInt32 :=
  UInt32.ofNat (b₀.toNat + 2 ^ 8 * b₁.toNat + 2 ^ 16 * b₂.toNat + 2 ^ 24 * b₃.toNat)

@[simp] theorem length_toLeBytes (n : UInt32) : (toLeBytes n).length = 4 := rfl

/-- The word read from the first four bytes; missing bytes read as zero. -/
def word (bytes : List UInt8) : UInt32 :=
  fromLeBytes (bytes.getD 0 0) (bytes.getD 1 0) (bytes.getD 2 0) (bytes.getD 3 0)

@[simp] theorem word_toLeBytes_append (n : UInt32) (rest : List UInt8) :
    word (toLeBytes n ++ rest) = n := by
  have hn := n.toNat_lt
  apply UInt32.toNat_inj.mp
  simp only [word, toLeBytes, fromLeBytes, List.cons_append, List.getD_cons_zero,
    List.getD_cons_succ, UInt8.toNat_ofNat', UInt32.toNat_ofNat']
  omega

theorem word_take {n : ℕ} (h : 4 ≤ n) (bytes : List UInt8) : word (bytes.take n) = word bytes := by
  have hget {i : ℕ} (hi : i < 4) : (bytes.take n).getD i 0 = bytes.getD i 0 := by
    rw [List.getD_eq_getElem?_getD, List.getElem?_take_of_lt (by omega),
      ← List.getD_eq_getElem?_getD]
  rw [word, hget (by omega), hget (by omega), hget (by omega), hget (by omega), word]

theorem toLeBytes_word {bytes : List UInt8} (h : bytes.length = 4) :
    toLeBytes (word bytes) = bytes := by
  match bytes, h with
  | [b₀, b₁, b₂, b₃], _ =>
    have h₀ := b₀.toNat_lt
    have h₁ := b₁.toNat_lt
    have h₂ := b₂.toNat_lt
    have h₃ := b₃.toNat_lt
    have hsum : b₀.toNat + 2 ^ 8 * b₁.toNat + 2 ^ 16 * b₂.toNat + 2 ^ 24 * b₃.toNat < 2 ^ 32 := by
      omega
    simp only [toLeBytes, word, fromLeBytes, List.getD_cons_zero, List.getD_cons_succ,
      UInt32.toNat_ofNat', Nat.mod_eq_of_lt hsum, List.cons.injEq, and_true]
    refine ⟨?_, ?_, ?_, ?_⟩ <;> apply UInt8.toNat_inj.mp <;>
      simp only [UInt8.toNat_ofNat'] <;> omega

/-- Writing the word at an offset gives its four bytes back. -/
theorem toLeBytes_word_drop (bytes : List UInt8) (off : ℕ) (h : off + 4 ≤ bytes.length) :
    toLeBytes (word (bytes.drop off)) = (bytes.drop off).take 4 := by
  rw [← word_take le_rfl, toLeBytes_word]
  rw [List.length_take, List.length_drop]
  omega

/-- Words of a prefix that reaches past them are words of the whole. -/
theorem word_drop_take (n off : ℕ) (h : off + 4 ≤ n) (bytes : List UInt8) :
    word ((bytes.take n).drop off) = word (bytes.drop off) := by
  rw [List.drop_take, word_take (by omega)]

/-- A value as exactly `width` bytes, and back. -/
structure Codec (α : Type) where
  width : ℕ
  encode : α → List UInt8
  decode : List UInt8 → α
  length_encode : ∀ value, (encode value).length = width
  decode_encode_append : ∀ value rest, decode (encode value ++ rest) = value
  encode_decode : ∀ bytes, bytes.length = width → encode (decode bytes) = bytes
  decode_take : ∀ bytes, decode (bytes.take width) = decode bytes

variable {α : Type} (codec : Codec α)

/-- The records of a list, one after another. -/
def Codec.encodeAll (values : List α) : List UInt8 := values.flatMap codec.encode

@[simp] theorem encodeAll_nil : codec.encodeAll [] = [] := rfl

@[simp] theorem encodeAll_cons (value : α) (values : List α) :
    codec.encodeAll (value :: values) = codec.encode value ++ codec.encodeAll values := rfl

@[simp] theorem length_encodeAll (values : List α) :
    (codec.encodeAll values).length = codec.width * values.length := by
  induction values with
  | nil => rfl
  | cons value values ih =>
    calc
      _ = codec.width + codec.width * values.length := by
        rw [encodeAll_cons, List.length_append, ih, codec.length_encode]
      _ = codec.width * (value :: values).length := by
        rw [List.length_cons]
        ring

/-- Record `i` of a byte string. -/
def Codec.recordAt (bytes : List UInt8) (i : ℕ) : α := codec.decode (bytes.drop (codec.width * i))

/-- Reading record `i` of written records gives value `i` back, whatever follows. -/
theorem recordAt_encodeAll {values : List α} {i : ℕ} {value : α} (h : values[i]? = some value)
    (rest : List UInt8) : codec.recordAt (codec.encodeAll values ++ rest) i = value := by
  induction values generalizing i with
  | nil => simp at h
  | cons head tail ih =>
    cases i with
    | zero =>
      obtain rfl : head = value := by simpa using h
      rw [Codec.recordAt, Nat.mul_zero, List.drop_zero, encodeAll_cons, List.append_assoc,
        codec.decode_encode_append]
    | succ i =>
      have hdrop : (codec.encodeAll (head :: tail) ++ rest).drop (codec.width * (i + 1)) =
          (codec.encodeAll tail ++ rest).drop (codec.width * i) := by
        rw [encodeAll_cons, List.append_assoc, Nat.mul_succ, Nat.add_comm,
          ← codec.length_encode head, List.drop_length_add_append]
      calc
        _ = codec.recordAt (codec.encodeAll tail ++ rest) i := by
          rw [Codec.recordAt, hdrop, Codec.recordAt]
        _ = value := ih (by simpa using h)

/-- Writing the first `count` records that were read gives their bytes back. -/
theorem encodeAll_recordAt (bytes : List UInt8) (count : ℕ)
    (h : codec.width * count ≤ bytes.length) :
    codec.encodeAll ((List.range count).map (codec.recordAt bytes)) =
      bytes.take (codec.width * count) := by
  induction count with
  | zero => simp
  | succ count ih =>
    rw [Nat.mul_succ] at h
    have hrecord : codec.encode (codec.recordAt bytes count) =
        (bytes.drop (codec.width * count)).take codec.width := by
      rw [Codec.recordAt, ← codec.decode_take, codec.encode_decode]
      rw [List.length_take, List.length_drop]
      omega
    calc
      _ = codec.encodeAll ((List.range count).map (codec.recordAt bytes)) ++
          codec.encode (codec.recordAt bytes count) := by
        simp [List.range_succ, Codec.encodeAll]
      _ = bytes.take (codec.width * count) ++
          (bytes.drop (codec.width * count)).take codec.width := by rw [ih (by omega), hrecord]
      _ = bytes.take (codec.width * (count + 1)) := by rw [← List.take_add, Nat.mul_succ]

end FixedWidth
