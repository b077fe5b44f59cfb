import Mathlib.Data.List.Basic

/-!
# UTF-8 validation and lossy decoding

Validation is Lean's own: a byte string is valid when it is the encoding of a string.  Lossy
decoding keeps the characters of a byte string and replaces every maximal ill-formed piece of it
by one replacement character.
-/

namespace Utf8

/-- `str::from_utf8`. -/
def fromUtf8 (bytes : List UInt8) : Option String := String.fromUTF8? ⟨bytes.toArray⟩

/-- The bytes of a string. -/
def toBytes (text : String) : List UInt8 := text.toByteArray.data.toList

/-- The encoding of a string reads back as that string. -/
theorem fromUtf8_toBytes (text : String) : fromUtf8 (toBytes text) = some text := by
  have hbytes : (⟨(toBytes text).toArray⟩ : ByteArray) = text.toByteArray := by
    simp [toBytes]
  rw [fromUtf8, hbytes, String.fromUTF8?, dif_pos text.isValidUTF8]
  rfl

/-- Only the encoding of a string reads back as that string. -/
theorem toBytes_of_fromUtf8 {bytes : List UInt8} {text : String} (h : fromUtf8 bytes = some text) :
    toBytes text = bytes := by
  rw [fromUtf8, String.fromUTF8?] at h
  split at h
  case isTrue hvalid =>
    rw [← Option.some.inj h]
    rfl
  case isFalse => cases h

theorem toBytes_injective : Function.Injective toBytes := by
  intro left right h
  have hread := fromUtf8_toBytes left
  rw [h, fromUtf8_toBytes] at hread
  exact (Option.some.inj hread).symm

theorem toBytes_append (left right : String) :
    toBytes (left ++ right) = toBytes left ++ toBytes right := by
  rw [toBytes, String.toByteArray_append, ByteArray.data_append, Array.toList_append]
  rfl

/-- ASCII bytes are the encoding of some string. -/
theorem exists_toBytes {bytes : List UInt8} (h : ∀ byte ∈ bytes, byte < 128) :
    ∃ text, toBytes text = bytes := by
  have hchar : ∀ n : Fin 128, toBytes (String.singleton (Char.ofNat n)) = [UInt8.ofNat n] := by
    decide +kernel
  induction bytes with
  | nil => exact ⟨"", rfl⟩
  | cons byte bytes ih =>
    obtain ⟨text, htext⟩ := ih fun other hother ↦ h other (List.mem_cons_of_mem _ hother)
    have hbyte := hchar ⟨byte.toNat, h byte List.mem_cons_self⟩
    rw [UInt8.ofNat_toNat] at hbyte
    refine ⟨String.singleton (Char.ofNat byte.toNat) ++ text, ?_⟩
    rw [toBytes_append, hbyte, htext, List.singleton_append]

theorem toBytes_eq_flatMap (text : String) :
    toBytes text = text.toList.flatMap String.utf8EncodeChar := by
  calc
    toBytes text = (text.toList.flatMap String.utf8EncodeChar).toByteArray.data.toList := by
      rw [toBytes, ← List.utf8Encode, ← String.toByteArray_ofList, String.ofList_toList]
    _ = text.toList.flatMap String.utf8EncodeChar := by simp

/-- ASCII text has one byte for each character. -/
theorem toBytes_of_ascii {text : String} (h : ∀ char ∈ text.toList, char.toNat < 128) :
    toBytes text = text.toList.map fun char ↦ UInt8.ofNat char.toNat := by
  have hchar : ∀ char ∈ text.toList,
      String.utf8EncodeChar char = [UInt8.ofNat char.toNat] := by
    intro char hmem
    apply String.utf8EncodeChar_eq_singleton
    rw [Char.utf8Size_eq_one_iff, UInt32.le_iff_toNat_le]
    exact Nat.le_of_lt_succ (h char hmem)
  rw [toBytes_eq_flatMap, List.flatMap_congr hchar, ← List.map_eq_flatMap]

def isContinuation (byte : UInt8) : Bool := 0x80 ≤ byte && byte ≤ 0xBF

/-- The second bytes that may follow a leading byte of a three- or four-byte sequence. -/
def isSecond (lead second : UInt8) : Bool :=
  if lead = 0xE0 then 0xA0 ≤ second && second ≤ 0xBF
  else if lead = 0xED then 0x80 ≤ second && second ≤ 0x9F
  else if lead = 0xF0 then 0x90 ≤ second && second ≤ 0xBF
  else if lead = 0xF4 then 0x80 ≤ second && second ≤ 0x8F
  else isContinuation second

/-- The payload bits of a continuation byte. -/
def payload (byte : UInt8) : ℕ := byte.toNat % 64

/-- The character at the head of the input, or none when it is ill-formed, and the number of
bytes after the leading one that belong to it.  Missing bytes read as zero. -/
def decodeHead (lead : UInt8) (rest : List UInt8) : Option Char × ℕ :=
  let b₁ := rest.getD 0 0
  let b₂ := rest.getD 1 0
  let b₃ := rest.getD 2 0
  if lead < 0x80 then (some (Char.ofNat lead.toNat), 0)
  else if 0xC2 ≤ lead && lead ≤ 0xDF then
    if isContinuation b₁ then (some (Char.ofNat (lead.toNat % 32 * 64 + payload b₁)), 1)
    else (none, 0)
  else if 0xE0 ≤ lead && lead ≤ 0xEF then
    if !isSecond lead b₁ then (none, 0)
    else if !isContinuation b₂ then (none, 1)
    else (some (Char.ofNat ((lead.toNat % 16 * 64 + payload b₁) * 64 + payload b₂)), 2)
  else if 0xF0 ≤ lead && lead ≤ 0xF4 then
    if !isSecond lead b₁ then (none, 0)
    else if !isContinuation b₂ then (none, 1)
    else if !isContinuation b₃ then (none, 2)
    else (some (Char.ofNat
      (((lead.toNat % 8 * 64 + payload b₁) * 64 + payload b₂) * 64 + payload b₃)), 3)
  else (none, 0)

/-- The characters of the input after its first `skip` bytes. -/
def lossyChars : ℕ → List UInt8 → List Char
  | _, [] => []
  | skip + 1, _ :: rest => lossyChars skip rest
  | 0, lead :: rest =>
      let head := decodeHead lead rest
      head.1.getD (Char.ofNat 0xFFFD) :: lossyChars head.2 rest

/-- `String::from_utf8_lossy`: valid input is returned as it is. -/
def fromUtf8Lossy (bytes : List UInt8) : String :=
  match fromUtf8 bytes with
  | some text => text
  | none => String.ofList (lossyChars 0 bytes)

theorem fromUtf8Lossy_of_valid {bytes : List UInt8} {text : String}
    (h : fromUtf8 bytes = some text) : fromUtf8Lossy bytes = text := by
  rw [fromUtf8Lossy, h]

example : lossyChars 0 [0x61, 0xE2, 0x82, 0xFF, 0xC3, 0xA9] =
    ['a', Char.ofNat 0xFFFD, Char.ofNat 0xFFFD, 'é'] := by decide

end Utf8
