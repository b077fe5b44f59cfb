import Mathlib.Data.List.Basic
import JustKV.Library.Utf8

/-!
# Percent-encoded text

A text encodes a byte string when it is made of one piece for each byte: the byte itself, a
substitute for it, or `%` and two hexadecimal digits.  A percent decoder is described by what it
does at the head of its input, so a piece is read back whatever follows it, and a separator that
occurs in no piece occurs in no encoded text.
-/

namespace PercentEncoding

/-- The character `%`. -/
def percent : UInt8 := 37

/-- The value of a hexadecimal digit in either case. -/
def hexValue (digit : UInt8) : Option UInt8 :=
  if 48 ≤ digit ∧ digit ≤ 57 then some (digit - 48)
  else if 65 ≤ digit ∧ digit ≤ 70 then some (digit - 55)
  else if 97 ≤ digit ∧ digit ≤ 102 then some (digit - 87)
  else none

/-- The byte that two hexadecimal digits stand for. -/
def hexByte (high low : UInt8) : Option UInt8 :=
  (hexValue high).bind fun h ↦ (hexValue low).map fun l ↦ 16 * h + l

def isAlphanumeric (byte : UInt8) : Bool :=
  decide (48 ≤ byte ∧ byte ≤ 57 ∨ 65 ≤ byte ∧ byte ≤ 90 ∨ 97 ≤ byte ∧ byte ≤ 122)

theorem isAlphanumeric_of_hexValue {digit value : UInt8} (h : hexValue digit = some value) :
    isAlphanumeric digit = true := by
  apply decide_eq_true
  rw [hexValue] at h
  split_ifs at h with hdigit hupper hlower
  · exact Or.inl hdigit
  · exact Or.inr (Or.inl ⟨hupper.1, UInt8.le_trans hupper.2 (by decide)⟩)
  · exact Or.inr (Or.inr ⟨hlower.1, UInt8.le_trans hlower.2 (by decide)⟩)

theorem isAlphanumeric_of_hexByte {high low byte : UInt8} (h : hexByte high low = some byte) :
    isAlphanumeric high = true ∧ isAlphanumeric low = true := by
  obtain ⟨value, hhigh, hrest⟩ := Option.bind_eq_some_iff.mp h
  obtain ⟨value', hlow, _⟩ := Option.map_eq_some_iff.mp hrest
  exact ⟨isAlphanumeric_of_hexValue hhigh, isAlphanumeric_of_hexValue hlow⟩

/-- The upper-case digit with a value below sixteen. -/
def hexDigit (value : UInt8) : UInt8 := if value < 10 then 48 + value else 55 + value

/-- A property of bytes can be checked on all 256 of them. -/
theorem forall_byte {motive : UInt8 → Prop} (h : ∀ n : Fin 256, motive (UInt8.ofNat n))
    (byte : UInt8) : motive byte := by
  have hbyte := h ⟨byte.toNat, byte.toNat_lt⟩
  rwa [UInt8.ofNat_toNat] at hbyte

/-- Every byte has an escape. -/
theorem hexByte_hexDigit (byte : UInt8) :
    hexByte (hexDigit (byte / 16)) (hexDigit (byte % 16)) = some byte :=
  forall_byte (motive := fun byte ↦
    hexByte (hexDigit (byte / 16)) (hexDigit (byte % 16)) = some byte) (by decide +kernel) byte

/-- `%XX` for the byte. -/
def IsEscape (byte : UInt8) (piece : List UInt8) : Prop :=
  ∃ high low, hexByte high low = some byte ∧ piece = [percent, high, low]

/-- The text is one piece for each byte, each of them allowed by the code. -/
inductive Encodes (code : UInt8 → List UInt8 → Prop) : List UInt8 → List UInt8 → Prop
  | nil : Encodes code [] []
  | cons {byte : UInt8} {piece bytes text : List UInt8} (hpiece : code byte piece)
      (hrest : Encodes code bytes text) : Encodes code (byte :: bytes) (piece ++ text)

section Encodes

variable {code : UInt8 → List UInt8 → Prop} {bytes text : List UInt8}

/-- What holds of the bytes of every piece holds of the bytes of the text. -/
theorem Encodes.forall_mem {property : UInt8 → Prop}
    (hcode : ∀ byte piece, code byte piece → ∀ char ∈ piece, property char)
    (h : Encodes code bytes text) : ∀ char ∈ text, property char := by
  induction h with
  | nil => simp
  | cons hpiece _ ih =>
    intro char hchar
    rcases List.mem_append.mp hchar with hmem | hmem
    · exact hcode _ _ hpiece char hmem
    · exact ih char hmem

/-- A code with a piece for every byte encodes every byte string. -/
theorem exists_encodes (hcode : ∀ byte, ∃ piece, code byte piece) (bytes : List UInt8) :
    ∃ text, Encodes code bytes text := by
  induction bytes with
  | nil => exact ⟨[], .nil⟩
  | cons byte bytes ih =>
    obtain ⟨piece, hpiece⟩ := hcode byte
    obtain ⟨text, htext⟩ := ih
    exact ⟨piece ++ text, .cons hpiece htext⟩

end Encodes

/-- What a percent decoder does: `%` and two hexadecimal digits become their byte, from left to
right, and every other byte stays. -/
structure IsPercentDecoder (decode : List UInt8 → List UInt8) : Prop where
  nil : decode [] = []
  escape : ∀ high low byte rest, hexByte high low = some byte →
    decode (percent :: high :: low :: rest) = byte :: decode rest
  literal : ∀ byte rest, (byte = percent → ∀ high low tail, rest = high :: low :: tail →
    hexByte high low = none) → decode (byte :: rest) = byte :: decode rest

theorem IsPercentDecoder.of_ne {decode : List UInt8 → List UInt8} (h : IsPercentDecoder decode)
    {byte : UInt8} (hbyte : byte ≠ percent) (rest : List UInt8) :
    decode (byte :: rest) = byte :: decode rest :=
  h.literal byte rest fun hpercent ↦ absurd hpercent hbyte

/-- A decoder reads an encoded text back, after a substitution of single bytes, if it reads back
every piece whatever follows. -/
theorem IsPercentDecoder.decode_encodes {decode : List UInt8 → List UInt8}
    (h : IsPercentDecoder decode) {code : UInt8 → List UInt8 → Prop} {substitute : UInt8 → UInt8}
    (hcode : ∀ byte piece rest, code byte piece →
      decode (piece.map substitute ++ rest) = byte :: decode rest)
    {bytes text : List UInt8} (htext : Encodes code bytes text) :
    decode (text.map substitute) = bytes := by
  induction htext with
  | nil => exact h.nil
  | cons hpiece _ ih => rw [List.map_append, hcode _ _ _ hpiece, ih]

/-- The decoder by recursion. -/
def percentDecode : List UInt8 → List UInt8
  | byte :: high :: low :: rest =>
    match if byte = percent then hexByte high low else none with
    | some decoded => decoded :: percentDecode rest
    | none => byte :: percentDecode (high :: low :: rest)
  | short => short

theorem isPercentDecoder_percentDecode : IsPercentDecoder percentDecode where
  nil := rfl
  escape high low byte rest h := by
    rw [percentDecode, if_pos rfl, h]
  literal byte rest h := by
    match rest, h with
    | [], _ => rfl
    | [_], _ => rfl
    | high :: low :: tail, h =>
      have hnone : (if byte = percent then hexByte high low else none) = none := by
        by_cases hbyte : byte = percent
        · rw [if_pos hbyte, h hbyte high low tail rfl]
        · rw [if_neg hbyte]
      rw [percentDecode, hnone]

/-- Kept bytes stand for themselves and all others are escaped. -/
def keepOrEscape (keep : UInt8 → Bool) (byte : UInt8) (piece : List UInt8) : Prop :=
  if keep byte then piece = [byte] else IsEscape byte piece

section KeepOrEscape

variable {keep : UInt8 → Bool}

theorem exists_keepOrEscape (keep : UInt8 → Bool) (byte : UInt8) :
    ∃ piece, keepOrEscape keep byte piece := by
  by_cases hkeep : keep byte = true
  · exact ⟨[byte], by rw [keepOrEscape, if_pos hkeep]⟩
  · have hescape : IsEscape byte [percent, hexDigit (byte / 16), hexDigit (byte % 16)] :=
      ⟨_, _, hexByte_hexDigit byte, rfl⟩
    exact ⟨_, by rwa [keepOrEscape, if_neg hkeep]⟩

/-- The text has no bytes but kept ones and `%`. -/
theorem keep_of_mem (halphanumeric : ∀ char, isAlphanumeric char = true → keep char = true)
    {byte : UInt8} {piece : List UInt8} (h : keepOrEscape keep byte piece) {char : UInt8}
    (hchar : char ∈ piece) : char = percent ∨ keep char = true := by
  rw [keepOrEscape] at h
  split_ifs at h with hkeep
  · rw [h, List.mem_singleton] at hchar
    exact Or.inr (hchar ▸ hkeep)
  · obtain ⟨high, low, hbyte, rfl⟩ := h
    obtain ⟨hhigh, hlow⟩ := isAlphanumeric_of_hexByte hbyte
    simp only [List.mem_cons, List.not_mem_nil, or_false] at hchar
    rcases hchar with rfl | rfl | rfl
    · exact Or.inl rfl
    · exact Or.inr (halphanumeric _ hhigh)
    · exact Or.inr (halphanumeric _ hlow)

/-- A piece is read back if the substitution does not touch it and `%` is escaped. -/
theorem IsPercentDecoder.decode_keepOrEscape {decode : List UInt8 → List UInt8}
    (hdecode : IsPercentDecoder decode) (hpercent : keep percent = false)
    {byte : UInt8} {piece : List UInt8} (h : keepOrEscape keep byte piece) (rest : List UInt8) :
    decode (piece ++ rest) = byte :: decode rest := by
  rw [keepOrEscape] at h
  split_ifs at h with hkeep
  · have hne : byte ≠ percent := by
      rintro rfl
      exact Bool.false_ne_true (hpercent.symm.trans hkeep)
    rw [h]
    exact hdecode.of_ne hne rest
  · obtain ⟨high, low, hbyte, rfl⟩ := h
    exact hdecode.escape high low byte rest hbyte

end KeepOrEscape

/-! ## URLs and forms -/

/-- The unreserved bytes `0-9A-Za-z-._~`. -/
def isUnreserved (byte : UInt8) : Bool := isAlphanumeric byte || [45, 46, 95, 126].contains byte

/-- The code of a path segment: everything reserved is escaped. -/
abbrev urlCode : UInt8 → List UInt8 → Prop := keepOrEscape isUnreserved

theorem isUnreserved_of_isAlphanumeric {char : UInt8} (h : isAlphanumeric char = true) :
    isUnreserved char = true := by
  rw [isUnreserved, h, Bool.true_or]

theorem Encodes.unreserved {bytes text : List UInt8} (h : Encodes urlCode bytes text) :
    ∀ char ∈ text, char = percent ∨ isUnreserved char = true :=
  h.forall_mem fun _ _ hpiece _ hchar ↦
    keep_of_mem (fun _ ↦ isUnreserved_of_isAlphanumeric) hpiece hchar

theorem Encodes.ascii_of_url {bytes text : List UInt8} (h : Encodes urlCode bytes text) :
    ∀ char ∈ text, char < 128 := by
  have hall : ∀ char : UInt8, char = percent ∨ isUnreserved char = true → char < 128 :=
    forall_byte (by decide +kernel)
  exact fun char hchar ↦ hall char (h.unreserved char hchar)

theorem IsPercentDecoder.decode_url {decode : List UInt8 → List UInt8}
    (hdecode : IsPercentDecoder decode) {bytes text : List UInt8} (h : Encodes urlCode bytes text) :
    decode text = bytes := by
  have hcode : ∀ byte piece rest, urlCode byte piece →
      decode (piece.map id ++ rest) = byte :: decode rest := by
    intro byte piece rest hpiece
    rw [List.map_id]
    exact hdecode.decode_keepOrEscape (by decide) hpiece rest
  have hread := hdecode.decode_encodes hcode h
  rwa [List.map_id] at hread

/-- The bytes `0-9A-Za-z*-._`. -/
def isFormSafe (byte : UInt8) : Bool := isAlphanumeric byte || [42, 45, 46, 95].contains byte

/-- A space is `+`, safe bytes stand for themselves and all others are escaped. -/
def formCode (byte : UInt8) (piece : List UInt8) : Prop :=
  if byte = 32 then piece = [43] else keepOrEscape isFormSafe byte piece

/-- A `+` means a space. -/
def plusToSpace (byte : UInt8) : UInt8 := if byte = 43 then 32 else byte

theorem isFormSafe_of_isAlphanumeric {char : UInt8} (h : isAlphanumeric char = true) :
    isFormSafe char = true := by
  rw [isFormSafe, h, Bool.true_or]

theorem exists_formCode (byte : UInt8) : ∃ piece, formCode byte piece := by
  by_cases hspace : byte = 32
  · exact ⟨[43], by rw [formCode, if_pos hspace]⟩
  · obtain ⟨piece, hpiece⟩ := exists_keepOrEscape isFormSafe byte
    exact ⟨piece, by rwa [formCode, if_neg hspace]⟩

theorem formSafe_of_mem {byte : UInt8} {piece : List UInt8} (h : formCode byte piece)
    {char : UInt8} (hchar : char ∈ piece) :
    char = 43 ∨ char = percent ∨ isFormSafe char = true := by
  rw [formCode] at h
  split_ifs at h with hspace
  · rw [h, List.mem_singleton] at hchar
    exact Or.inl hchar
  · exact Or.inr (keep_of_mem (fun _ ↦ isFormSafe_of_isAlphanumeric) h hchar)

theorem Encodes.formSafe {bytes text : List UInt8} (h : Encodes formCode bytes text) :
    ∀ char ∈ text, char = 43 ∨ char = percent ∨ isFormSafe char = true :=
  h.forall_mem fun _ _ hpiece _ hchar ↦ formSafe_of_mem hpiece hchar

theorem Encodes.ascii_of_form {bytes text : List UInt8} (h : Encodes formCode bytes text) :
    ∀ char ∈ text, char < 128 := by
  have hall : ∀ char : UInt8, char = 43 ∨ char = percent ∨ isFormSafe char = true → char < 128 :=
    forall_byte (by decide +kernel)
  exact fun char hchar ↦ hall char (h.formSafe char hchar)

/-- Reading `+` as a space first cannot touch an escaped `+`. -/
theorem IsPercentDecoder.decode_form {decode : List UInt8 → List UInt8}
    (hdecode : IsPercentDecoder decode) {bytes text : List UInt8}
    (h : Encodes formCode bytes text) : decode (text.map plusToSpace) = bytes := by
  refine hdecode.decode_encodes (fun byte piece rest hpiece ↦ ?_) h
  by_cases hspace : byte = 32
  · rw [formCode, if_pos hspace] at hpiece
    subst hpiece hspace
    exact hdecode.of_ne (by decide) rest
  · rw [formCode, if_neg hspace] at hpiece
    have hplus : ∀ char ∈ piece, plusToSpace char = char := by
      intro char hchar
      apply if_neg
      rintro rfl
      have hkeep := keep_of_mem (fun _ ↦ isFormSafe_of_isAlphanumeric) hpiece hchar
      revert hkeep
      decide
    rw [List.map_congr_left hplus, List.map_id']
    exact hdecode.decode_keepOrEscape (by decide) hpiece rest

end PercentEncoding
