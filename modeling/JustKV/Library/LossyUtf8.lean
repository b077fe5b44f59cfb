import JustKV.Library.Utf8

/-!
# Lossy decoding, byte by byte

Lossy decoding gives back the text that some bytes encode, so the check for valid bytes at its
beginning changes nothing.  ASCII characters come from ASCII bytes only, so a lossily decoded text
begins with an ASCII text exactly when the bytes do.
-/

namespace Utf8

section Heads

variable {lead second : UInt8} {rest : List UInt8} {a p₁ p₂ p₃ : ℕ}

theorem isContinuation_iff {byte : UInt8} :
    isContinuation byte = true ↔ 128 ≤ byte.toNat ∧ byte.toNat ≤ 191 := by
  simp [isContinuation, UInt8.le_iff_toNat_le]

/-- Second bytes keep overlong forms, surrogates and what is too large out. -/
theorem isSecond_iff : isSecond lead second = true ↔
    128 ≤ second.toNat ∧ second.toNat ≤ 191 ∧ (lead.toNat = 0xE0 → 160 ≤ second.toNat) ∧
      (lead.toNat = 0xED → second.toNat ≤ 159) ∧ (lead.toNat = 0xF0 → 144 ≤ second.toNat) ∧
      (lead.toNat = 0xF4 → second.toNat ≤ 143) := by
  have hlead (byte : UInt8) : lead = byte ↔ lead.toNat = byte.toNat := UInt8.toNat_inj.symm
  unfold isSecond
  simp only [hlead, UInt8.reduceToNat, Bool.ite_eq_true_distrib, Bool.and_eq_true,
    decide_eq_true_eq, isContinuation_iff, UInt8.le_iff_toNat_le]
  split
  · omega
  split
  · omega
  split
  · omega
  split <;> omega

theorem decodeHead_one (h : lead.toNat < 128) (rest : List UInt8) :
    decodeHead lead rest = (some (Char.ofNat lead.toNat), 0) := by
  unfold decodeHead
  exact if_pos (UInt8.lt_iff_toNat_lt.mpr h)

theorem decodeHead_two (hlead : lead.toNat = 192 + a) (ha : 2 ≤ a ∧ a < 32)
    (h₁ : (rest.getD 0 0).toNat = 128 + p₁) (hp₁ : p₁ < 64) :
    decodeHead lead rest = (some (Char.ofNat (a * 64 + p₁)), 1) := by
  unfold decodeHead
  dsimp only
  rw [if_neg, if_pos, if_pos]
  · rw [hlead, payload, h₁]
    congr 3
    omega
  · exact isContinuation_iff.mpr (by omega)
  · simp only [Bool.and_eq_true, decide_eq_true_eq, UInt8.le_iff_toNat_le, UInt8.reduceToNat]
    omega
  · simp only [UInt8.lt_iff_toNat_lt, UInt8.reduceToNat]
    omega

theorem decodeHead_three (hlead : lead.toNat = 224 + a) (ha : a < 16)
    (h₁ : (rest.getD 0 0).toNat = 128 + p₁) (hp₁ : p₁ < 64)
    (h₂ : (rest.getD 1 0).toNat = 128 + p₂) (hp₂ : p₂ < 64)
    (hmin : 2048 ≤ (a * 64 + p₁) * 64 + p₂)
    (hvalid : (a * 64 + p₁) * 64 + p₂ < 0xD800 ∨ 0xDFFF < (a * 64 + p₁) * 64 + p₂) :
    decodeHead lead rest = (some (Char.ofNat ((a * 64 + p₁) * 64 + p₂)), 2) := by
  have hsecond : isSecond lead (rest.getD 0 0) = true := isSecond_iff.mpr (by omega)
  have hthird : isContinuation (rest.getD 1 0) = true := isContinuation_iff.mpr (by omega)
  unfold decodeHead
  dsimp only
  rw [if_neg, if_neg, if_pos, hsecond, hthird]
  · rw [hlead, payload, payload, h₁, h₂]
    simp only [Bool.not_true, Bool.false_eq_true, if_false]
    congr 3
    omega
  · simp only [Bool.and_eq_true, decide_eq_true_eq, UInt8.le_iff_toNat_le, UInt8.reduceToNat]
    omega
  · simp only [Bool.and_eq_true, decide_eq_true_eq, UInt8.le_iff_toNat_le, UInt8.reduceToNat]
    omega
  · simp only [UInt8.lt_iff_toNat_lt, UInt8.reduceToNat]
    omega

theorem decodeHead_four (hlead : lead.toNat = 240 + a) (ha : a < 8)
    (h₁ : (rest.getD 0 0).toNat = 128 + p₁) (hp₁ : p₁ < 64)
    (h₂ : (rest.getD 1 0).toNat = 128 + p₂) (hp₂ : p₂ < 64)
    (h₃ : (rest.getD 2 0).toNat = 128 + p₃) (hp₃ : p₃ < 64)
    (hmin : 65536 ≤ ((a * 64 + p₁) * 64 + p₂) * 64 + p₃)
    (hmax : ((a * 64 + p₁) * 64 + p₂) * 64 + p₃ < 0x110000) :
    decodeHead lead rest = (some (Char.ofNat (((a * 64 + p₁) * 64 + p₂) * 64 + p₃)), 3) := by
  have hsecond : isSecond lead (rest.getD 0 0) = true := isSecond_iff.mpr (by omega)
  have hthird : isContinuation (rest.getD 1 0) = true := isContinuation_iff.mpr (by omega)
  have hfourth : isContinuation (rest.getD 2 0) = true := isContinuation_iff.mpr (by omega)
  unfold decodeHead
  dsimp only
  rw [if_neg, if_neg, if_neg, if_pos, hsecond, hthird, hfourth]
  · rw [hlead, payload, payload, payload, h₁, h₂, h₃]
    simp only [Bool.not_true, Bool.false_eq_true, if_false]
    congr 3
    omega
  · simp only [Bool.and_eq_true, decide_eq_true_eq, UInt8.le_iff_toNat_le, UInt8.reduceToNat]
    omega
  · simp only [Bool.and_eq_true, decide_eq_true_eq, UInt8.le_iff_toNat_le, UInt8.reduceToNat]
    omega
  · simp only [Bool.and_eq_true, decide_eq_true_eq, UInt8.le_iff_toNat_le, UInt8.reduceToNat]
    omega
  · simp only [UInt8.lt_iff_toNat_lt, UInt8.reduceToNat]
    omega

end Heads

theorem toNat_ofNat_add {n width base : ℕ} (hn : n < width) (hbase : base + width ≤ 256) :
    (UInt8.ofNat (n + base)).toNat = base + n := by
  rw [UInt8.toNat_ofNat_of_lt' (by rw [UInt8.size]; omega), Nat.add_comm]

/-- The bytes of a character are decoded to it. -/
theorem decodeHead_encode (char : Char) (rest : List UInt8) :
    ∃ lead tail, String.utf8EncodeChar char = lead :: tail ∧
      decodeHead lead (tail ++ rest) = (some char, tail.length) := by
  have hvalid : char.val.toNat < 0xD800 ∨ 0xDFFF < char.val.toNat ∧ char.val.toNat < 0x110000 :=
    char.valid
  have hchar : Char.ofNat char.val.toNat = char := Char.ofNat_toNat char
  have htail (n : ℕ) : (UInt8.ofNat (n % 64 + 128)).toNat = 128 + n % 64 :=
    toNat_ofNat_add (Nat.mod_lt n (by omega)) (by omega)
  unfold String.utf8EncodeChar
  dsimp only
  generalize char.val.toNat = v at hvalid hchar
  split
  case isTrue hone =>
    have hlead : (UInt8.ofNat v).toNat = v := UInt8.toNat_ofNat_of_lt' (by rw [UInt8.size]; omega)
    refine ⟨_, _, rfl, ?_⟩
    rw [decodeHead_one (by omega), hlead, hchar]
    rfl
  split
  case isTrue htwo =>
    have hdecode : decodeHead (UInt8.ofNat (v / 64 % 32 + 192)) (UInt8.ofNat (v % 64 + 128) :: rest) =
        (some (Char.ofNat (v / 64 % 32 * 64 + v % 64)), 1) := by
      have hlead : (UInt8.ofNat (v / 64 % 32 + 192)).toNat = 192 + v / 64 % 32 :=
        toNat_ofNat_add (Nat.mod_lt _ (by omega)) (by omega)
      exact decodeHead_two hlead (by omega) (htail v) (by omega)
    have hvalue : v / 64 % 32 * 64 + v % 64 = v := by omega
    rw [hvalue, hchar] at hdecode
    exact ⟨_, _, rfl, hdecode⟩
  split
  case isTrue hthree =>
    have hvalue : (v / 4096 % 16 * 64 + v / 64 % 64) * 64 + v % 64 = v := by omega
    have hdecode : decodeHead (UInt8.ofNat (v / 4096 % 16 + 224))
        (UInt8.ofNat (v / 64 % 64 + 128) :: UInt8.ofNat (v % 64 + 128) :: rest) =
        (some (Char.ofNat ((v / 4096 % 16 * 64 + v / 64 % 64) * 64 + v % 64)), 2) := by
      have hlead : (UInt8.ofNat (v / 4096 % 16 + 224)).toNat = 224 + v / 4096 % 16 :=
        toNat_ofNat_add (Nat.mod_lt _ (by omega)) (by omega)
      exact decodeHead_three hlead (by omega) (htail (v / 64)) (by omega) (htail v) (by omega)
        (by omega) (by omega)
    rw [hvalue, hchar] at hdecode
    exact ⟨_, _, rfl, hdecode⟩
  case isFalse hfour =>
    have hvalue : ((v / 262144 % 8 * 64 + v / 4096 % 64) * 64 + v / 64 % 64) * 64 + v % 64 = v := by
      omega
    have hdecode : decodeHead (UInt8.ofNat (v / 262144 % 8 + 240))
        (UInt8.ofNat (v / 4096 % 64 + 128) :: UInt8.ofNat (v / 64 % 64 + 128) ::
          UInt8.ofNat (v % 64 + 128) :: rest) =
        (some (Char.ofNat (((v / 262144 % 8 * 64 + v / 4096 % 64) * 64 + v / 64 % 64) * 64 +
          v % 64)), 3) := by
      have hlead : (UInt8.ofNat (v / 262144 % 8 + 240)).toNat = 240 + v / 262144 % 8 :=
        toNat_ofNat_add (Nat.mod_lt _ (by omega)) (by omega)
      exact decodeHead_four hlead (by omega) (htail (v / 4096)) (by omega) (htail (v / 64))
        (by omega) (htail v) (by omega) (by omega) (by omega)
    rw [hvalue, hchar] at hdecode
    exact ⟨_, _, rfl, hdecode⟩

theorem lossyChars_append {tail rest : List UInt8} :
    lossyChars tail.length (tail ++ rest) = lossyChars 0 rest := by
  induction tail with
  | nil => rfl
  | cons byte tail ih => exact ih

/-- Lossy decoding loses nothing of a text. -/
theorem lossyChars_toBytes (text : String) : lossyChars 0 (toBytes text) = text.toList := by
  rw [toBytes_eq_flatMap]
  induction text.toList with
  | nil => rfl
  | cons char chars ih =>
    obtain ⟨lead, tail, hencode, hdecode⟩ :=
      decodeHead_encode char (chars.flatMap String.utf8EncodeChar)
    rw [List.flatMap_cons, hencode, List.cons_append, lossyChars, hdecode, lossyChars_append, ih]
    rfl

theorem fromUtf8Lossy_eq (bytes : List UInt8) :
    fromUtf8Lossy bytes = String.ofList (lossyChars 0 bytes) := by
  unfold fromUtf8Lossy
  split
  case h_1 text htext =>
    rw [← toBytes_of_fromUtf8 htext, lossyChars_toBytes, String.ofList_toList]
  case h_2 => rfl

section Ascii

theorem toNat_ofNat {n : ℕ} (hvalid : n < 0xD800 ∨ 0xDFFF < n ∧ n < 0x110000) :
    (Char.ofNat n).toNat = n := by
  rw [Char.ofNat, dif_pos hvalid]
  rfl

theorem le_toNat_ofNat {n : ℕ} (hle : 128 ≤ n)
    (hvalid : n < 0xD800 ∨ 0xDFFF < n ∧ n < 0x110000) : 128 ≤ (Char.ofNat n).toNat := by
  rwa [toNat_ofNat hvalid]

/-- What a byte outside ASCII leads is decoded to a character outside ASCII. -/
theorem decodeHead_of_le {lead : UInt8} (h : 128 ≤ lead.toNat) (rest : List UInt8) :
    128 ≤ ((decodeHead lead rest).1.getD (Char.ofNat 0xFFFD)).toNat := by
  have hreplacement : 128 ≤ (Char.ofNat 0xFFFD).toNat := by decide
  have hascii : ¬lead < 0x80 := by
    rw [UInt8.lt_iff_toNat_lt]
    exact Nat.not_lt.mpr h
  unfold decodeHead
  dsimp only
  rw [if_neg hascii]
  simp only [Bool.and_eq_true, decide_eq_true_eq, UInt8.le_iff_toNat_le, UInt8.reduceToNat]
  split
  case isTrue htwo =>
    split
    · apply le_toNat_ofNat <;> unfold payload <;> omega
    · exact hreplacement
  split
  case isTrue hthree =>
    cases hsecond : isSecond lead (rest.getD 0 0) with
    | false => exact hreplacement
    | true =>
      have hbounds := isSecond_iff.mp hsecond
      cases isContinuation (rest.getD 1 0) with
      | false => exact hreplacement
      | true => apply le_toNat_ofNat <;> unfold payload <;> omega
  split
  case isTrue hfour =>
    cases hsecond : isSecond lead (rest.getD 0 0) with
    | false => exact hreplacement
    | true =>
      have hbounds := isSecond_iff.mp hsecond
      cases isContinuation (rest.getD 1 0) with
      | false => exact hreplacement
      | true =>
        cases isContinuation (rest.getD 2 0) with
        | false => exact hreplacement
        | true => apply le_toNat_ofNat <;> unfold payload <;> omega
  case isFalse => exact hreplacement

/-- Lossy text begins with an ASCII character exactly when the bytes begin with that byte. -/
theorem prefix_lossyChars_cons {char : Char} (h : char.toNat < 128) {chars : List Char}
    {lead : UInt8} {rest : List UInt8} : char :: chars <+: lossyChars 0 (lead :: rest) ↔
      UInt8.ofNat char.toNat = lead ∧ chars <+: lossyChars 0 rest := by
  rw [lossyChars, List.cons_prefix_cons]
  by_cases hlead : lead.toNat < 128
  · have hchar : char = Char.ofNat lead.toNat ↔ UInt8.ofNat char.toNat = lead := by
      constructor
      · intro hsame
        rw [hsame, toNat_ofNat (Or.inl (by omega)), UInt8.ofNat_toNat]
      · intro hsame
        rw [← hsame, UInt8.toNat_ofNat_of_lt' (by rw [UInt8.size]; omega), Char.ofNat_toNat]
    rw [decodeHead_one hlead, ← hchar]
    rfl
  · have hother := decodeHead_of_le (Nat.not_lt.mp hlead) rest
    constructor
    · rintro ⟨hsame, _⟩
      rw [← hsame] at hother
      exact absurd h (Nat.not_lt.mpr hother)
    · rintro ⟨hsame, _⟩
      rw [← hsame, UInt8.toNat_ofNat_of_lt' (by rw [UInt8.size]; omega)] at hlead
      exact absurd h hlead

/-- Lossy text begins with an ASCII text exactly when the bytes do. -/
theorem prefix_lossyChars_iff {chars : List Char} (h : ∀ char ∈ chars, char.toNat < 128)
    {bytes : List UInt8} : chars <+: lossyChars 0 bytes ↔
      (chars.map fun char ↦ UInt8.ofNat char.toNat) <+: bytes := by
  induction chars generalizing bytes with
  | nil => simp
  | cons char chars ih =>
    obtain ⟨hchar, hchars⟩ := List.forall_mem_cons.mp h
    cases bytes with
    | nil => simp [lossyChars]
    | cons lead rest =>
      rw [prefix_lossyChars_cons hchar, ih hchars, List.map_cons, List.cons_prefix_cons]

/-- A lossily decoded text begins with an ASCII text exactly when the bytes begin with its bytes,
wherever they are cut afterwards. -/
theorem prefix_fromUtf8Lossy_take_iff {text : String} (h : ∀ char ∈ text.toList, char.toNat < 128)
    {cut : ℕ} (hcut : text.toList.length ≤ cut) (bytes : List UInt8) :
    text.toList <+: (fromUtf8Lossy (bytes.take cut)).toList ↔ toBytes text <+: bytes := by
  rw [fromUtf8Lossy_eq, String.toList_ofList, prefix_lossyChars_iff h, toBytes_of_ascii h]
  constructor
  · exact fun hbegins ↦ hbegins.trans (List.take_prefix cut bytes)
  · intro hbegins
    apply List.prefix_take_iff.mpr
    exact ⟨hbegins, by rwa [List.length_map]⟩

end Ascii

end Utf8
