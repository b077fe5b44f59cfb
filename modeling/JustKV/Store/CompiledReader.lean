import JustKV.Store.CompiledFormat

/-!
# Reading and writing the compiled format

The reader computes `classify` at either word size: no index is out of range and no sum wraps.
At 64 bits the `u32` counts bound every sum; at 32 bits the length of the data does.
-/

open Checked FixedWidth

namespace JustKV.Compiled

variable {w : Width} {data : Bytes}

theorem leU32_eq_ok {bytes : Bytes} (h : bytes.length = 4) : leU32 bytes = .ok (word bytes) := by
  match bytes, h with
  | [_, _, _, _], _ => rfl

theorem leU32_slice {lo hi : ℕ} (hseam : hi = lo + 4) (hhi : hi ≤ data.length) :
    (slice data lo hi >>= leU32) = .ok (word (data.drop lo)) := by
  have hlength : ((data.drop lo).take 4).length = 4 := by
    rw [List.length_take, List.length_drop]
    omega
  rw [slice_eq_ok (by omega) hhi, ok_bind, hseam, Nat.add_sub_cancel_left, leU32_eq_ok hlength,
    word_take le_rfl]

theorem countOf_lt (data : Bytes) : countOf data < 2 ^ 32 := (word (data.drop 12)).toNat_lt

theorem arenaLenOf_lt (data : Bytes) : arenaLenOf data < 2 ^ 32 := (word (data.drop 16)).toNat_lt

/-- An announced length that the data reaches is below the largest allocation. -/
theorem totalLen_le_isizeMax (hmachine : w = .w32 → data.length ≤ Width.isizeMax .w32)
    (h : totalLen data ≤ data.length) : totalLen data ≤ w.isizeMax := by
  cases w with
  | w32 => exact h.trans (hmachine rfl)
  | w64 =>
    have hcount := countOf_lt data
    have harena := arenaLenOf_lt data
    simp only [totalLen, headerLen, entryLen, Width.isizeMax]
    omega

/-- The checked sums are the exact ones, and an overflow of `usize` counts as cut off. -/
theorem checkedEnds_eq (w : Width) (data : Bytes) :
    checkedEnds w data (countOf data) (arenaLenOf data) =
    if totalLen data < w.size ∧ totalLen data ≤ data.length then
      .ok (headerLen + entryLen * countOf data, totalLen data)
    else .error .truncated := by
  have hmul : countOf data * entryLen = entryLen * countOf data := Nat.mul_comm _ _
  have htotal : totalLen data = headerLen + entryLen * countOf data + arenaLenOf data := rfl
  rw [checkedEnds]
  split
  case h_1 hends =>
    rw [if_neg]
    simp only [Option.bind_eq_none_iff, checkedMul, checkedAdd, Option.ite_none_right_eq_some,
      ite_eq_right_iff, reduceCtorEq] at hends
    intro h
    exact hends _ ⟨by omega, rfl⟩ (by omega)
  case h_2 entriesEnd hends =>
    obtain ⟨product, hproduct, hsum⟩ := Option.bind_eq_some_iff.mp hends
    simp only [checkedMul, checkedAdd, Option.ite_none_right_eq_some, Option.some.injEq]
      at hproduct hsum
    obtain rfl : entriesEnd = headerLen + entryLen * countOf data := by omega
    rw [checkedAdd, ← htotal]
    by_cases hsize : totalLen data < w.size
    · by_cases hlength : data.length < totalLen data
      · simp only [if_pos hsize, if_pos hlength]
        rw [if_neg (by omega)]
      · simp only [if_pos hsize, if_neg hlength]
        rw [if_pos ⟨hsize, not_lt.mp hlength⟩]
    · simp only [if_neg hsize]
      rw [if_neg (by omega)]

/-- The header as the reader decodes it. -/
def headerOf (data : Bytes) : Header :=
  ⟨flagsOf data, countOf data, arenaLenOf data, headerLen + entryLen * countOf data, totalLen data⟩

/-- The reader accepts a header exactly when the exact sizes do and `usize` can hold them. -/
theorem readHeader_eq_ok : readHeader w data = .ok (
    if totalLen data ≤ data.length ∧ w.size ≤ totalLen data ∧ classifyHeader data = .ok () then
      .error .truncated
    else (classifyHeader data).map fun _ ↦ headerOf data) := by
  rw [readHeader, classifyHeader]
  by_cases hmagic : isCompiled data = true
  case neg =>
    have hnot : ¬(magic.length ≤ data.length ∧ data.take magic.length = magic) :=
      fun h ↦ hmagic (isCompiled_iff.mpr h)
    rw [Bool.not_eq_true] at hmagic
    rw [hmagic, Bool.not_false, if_pos rfl]
    by_cases hlength : data.length < magic.length
    · simp [hlength, Except.map]
    · have htake : data.take magic.length ≠ magic := fun h ↦ hnot ⟨not_lt.mp hlength, h⟩
      simp [hlength, htake, Except.map]
  obtain ⟨hlength, htake⟩ := isCompiled_iff.mp hmagic
  rw [hmagic, Bool.not_true, if_neg Bool.false_ne_true, if_neg (not_lt.mpr hlength),
    if_neg (not_not.mpr htake)]
  by_cases hheader : data.length < headerLen
  · simp [hheader, Except.map]
  have hlong : 24 ≤ data.length := not_lt.mp hheader
  have hends := checkedEnds_eq w data
  rw [countOf, arenaLenOf] at hends
  simp only [if_neg hheader, leU32_slice rfl (show 12 ≤ data.length by omega),
    leU32_slice rfl (show 16 ≤ data.length by omega),
    leU32_slice rfl (show 20 ≤ data.length by omega), ok_bind, hends]
  by_cases htotal : data.length < totalLen data
  · simp [htotal, Except.map, not_le.mpr htotal]
  · by_cases hsize : totalLen data < w.size
    · simp [htotal, hheader, hsize, not_lt.mp htotal, not_le.mpr hsize, Except.map, headerOf,
        countOf, arenaLenOf, flagsOf]
    · simp [htotal, hheader, hsize, not_lt.mp htotal, not_lt.mp hsize]

/-- The announced entries are no longer than the data, before any of them is decoded. -/
theorem entries_le_of_classifyHeader (h : classifyHeader data = .ok ()) :
    entryLen * countOf data ≤ data.length := by
  have htotal := (classifyHeader_eq_ok.mp h).2.2
  unfold totalLen at htotal
  omega

theorem readEntry_eq_ok (hsize : totalLen data < w.size) (htotal : totalLen data ≤ data.length)
    {i : ℕ} (hi : i < countOf data) :
    readEntry w data i = .ok (entryCodec.recordAt (data.drop headerLen) i) := by
  have hmul : i * entryLen = entryLen * i := Nat.mul_comm _ _
  have hlast : headerLen + (entryLen * i + entryLen) ≤ totalLen data := by
    unfold totalLen entryLen
    omega
  have h₁₆ : headerLen + (entryLen * i + 16) ≤ totalLen data := hlast
  rw [readEntry, mul_eq_ok (by omega), ok_bind, hmul, add_eq_ok (by omega), ok_bind,
    add_eq_ok (by omega), ok_bind, add_eq_ok (by omega), ok_bind, add_eq_ok (by omega), ok_bind,
    add_eq_ok (by omega), ok_bind]
  simp only [leU32_slice rfl (show headerLen + entryLen * i + 4 ≤ data.length by omega),
    leU32_slice (show headerLen + entryLen * i + 8 = headerLen + entryLen * i + 4 + 4 from rfl)
      (show headerLen + entryLen * i + 8 ≤ data.length by omega),
    leU32_slice (show headerLen + entryLen * i + 12 = headerLen + entryLen * i + 8 + 4 from rfl)
      (show headerLen + entryLen * i + 12 ≤ data.length by omega),
    leU32_slice (show headerLen + entryLen * i + 16 = headerLen + entryLen * i + 12 + 4 from rfl)
      (show headerLen + entryLen * i + 16 ≤ data.length by omega), ok_bind, pure_eq_ok]
  simp only [Codec.recordAt, entryCodec, List.drop_drop]

/-- The window check is exact although it adds in `usize`. -/
theorem checkWindows_eq {arenaLen : ℕ} (harena : arenaLen < w.size) (i : ℕ) (entry : Entry) :
    checkWindows w arenaLen i entry =
      if entry.fits arenaLen then .ok () else .error (.outOfBounds i) := by
  unfold checkWindows checkedAdd
  by_cases hkey : entry.kOff.toNat + entry.kLen.toNat < w.size
  · by_cases hvalue : entry.vOff.toNat + entry.vLen.toNat < w.size
    · simp only [if_pos hkey, if_pos hvalue]
      by_cases hfits : entry.fits arenaLen = true
      · rw [if_pos hfits, if_neg]
        simp only [Entry.fits, Bool.and_eq_true, decide_eq_true_iff] at hfits
        simp only [Bool.or_eq_true, decide_eq_true_iff]
        omega
      · rw [if_neg hfits, if_pos]
        simp only [Entry.fits, Bool.and_eq_true, decide_eq_true_iff] at hfits
        simp only [Bool.or_eq_true, decide_eq_true_iff]
        omega
    · have hfits : entry.fits arenaLen = false := by
        rw [Entry.fits, Bool.and_eq_false_iff, decide_eq_false_iff_not, decide_eq_false_iff_not]
        omega
      simp only [if_pos hkey, if_neg hvalue, hfits, if_neg Bool.false_ne_true]
  · have hfits : entry.fits arenaLen = false := by
      rw [Entry.fits, Bool.and_eq_false_iff, decide_eq_false_iff_not, decide_eq_false_iff_not]
      omega
    simp only [if_neg hkey, hfits, if_neg Bool.false_ne_true]

/-- The loop stops at the first entry outside the arena and otherwise collects all of them. -/
theorem readEntries_eq_ok {arenaLen : ℕ} (harena : arenaLen < w.size) (i : ℕ)
    (before entries : List Entry)
    (hread : ∀ k entry, entries[k]? = some entry → readEntry w data (i + k) = .ok entry) :
    readEntries w data arenaLen entries.length i before =
      .ok (match firstOutside arenaLen entries with
        | some k => .error (.outOfBounds (i + k))
        | none => .ok (before ++ entries)) := by
  induction entries generalizing i before with
  | nil => simp [readEntries, firstOutside]
  | cons entry rest ih =>
    have hhead : readEntry w data i = .ok entry := hread 0 entry rfl
    have htail := ih (i + 1) (before ++ [entry]) fun k other hother ↦ by
      rw [Nat.add_assoc, Nat.add_comm 1 k]
      exact hread (k + 1) other hother
    rw [List.length_cons, readEntries, hhead, ok_bind, checkWindows_eq harena]
    by_cases hfits : entry.fits arenaLen = true
    · rw [if_pos hfits]
      simp only [htail, firstOutside, List.findIdx?_cons, hfits, Bool.not_true,
        if_neg Bool.false_ne_true]
      cases rest.findIdx? fun entry ↦ !entry.fits arenaLen with
      | none => simp
      | some k => simp [Nat.add_assoc, Nat.add_comm 1 k]
    · rw [if_neg hfits]
      simp [firstOutside, List.findIdx?_cons, Bool.eq_false_iff.mpr hfits]

/-- After an accepted header the reader reserves the entries and decides by their windows. -/
theorem readCompiled_of_classifyHeader (hsize : totalLen data < w.size)
    (hheader : classifyHeader data = .ok ()) :
    readCompiled w data = (withCapacity w entryLen (countOf data) >>= fun _ ↦ .ok (classify data)) := by
  have htotal := (classifyHeader_eq_ok.mp hheader).2.2
  have hlength : (entriesOf data).length = countOf data := by simp [entriesOf]
  have hread : ∀ k entry, (entriesOf data)[k]? = some entry →
      readEntry w data (0 + k) = .ok entry := by
    intro k entry hentry
    have hk : k < countOf data := hlength ▸ (List.getElem?_eq_some_iff.mp hentry).1
    rw [Nat.zero_add, readEntry_eq_ok hsize htotal hk]
    simpa [entriesOf, hk] using hentry
  have harena : arenaLenOf data < w.size := by
    unfold totalLen at hsize
    omega
  have hloop := readEntries_eq_ok harena 0 [] (entriesOf data) hread
  have hslice : slice data (headerLen + entryLen * countOf data) (totalLen data) =
      .ok (arenaOf data) := by
    rw [slice_eq_ok (by unfold totalLen; omega) htotal, totalLen, Nat.add_sub_cancel_left]
    rfl
  rw [hlength] at hloop
  rw [readCompiled, readHeader_eq_ok, if_neg (by omega), ok_bind, classify]
  simp only [hheader, Except.map, headerOf, hloop, ok_bind, hslice]
  congr 1
  funext _
  cases firstOutside (arenaLenOf data) (entriesOf data) with
  | none => rfl
  | some k => simp

/-- The reader computes the meaning of any data that the machine can hold. -/
theorem readCompiled_eq_ok (hmachine : w = .w32 → data.length ≤ Width.isizeMax .w32) :
    readCompiled w data = .ok (classify data) := by
  cases hheader : classifyHeader data with
  | error error =>
    rw [readCompiled, readHeader_eq_ok, hheader, if_neg (by simp), classify, hheader]
    rfl
  | ok _ =>
    have hmax := totalLen_le_isizeMax hmachine (classifyHeader_eq_ok.mp hheader).2.2
    have hcapacity : withCapacity w entryLen (countOf data) = .ok () :=
      withCapacity_eq_ok (by unfold totalLen at hmax; omega)
    rw [readCompiled_of_classifyHeader (hmax.trans_lt isizeMax_lt_size) hheader, hcapacity, ok_bind]

/-- What the reader accepts is what the data means. -/
theorem classify_of_readCompiled {parts : Bytes × List Entry × UInt32}
    (h : readCompiled w data = .ok (.ok parts)) : classify data = .ok parts := by
  cases hheader : classifyHeader data with
  | error error =>
    rw [readCompiled, readHeader_eq_ok, hheader, if_neg (by simp)] at h
    simp [Except.map] at h
  | ok _ =>
    by_cases hsize : totalLen data < w.size
    · rw [readCompiled_of_classifyHeader hsize hheader] at h
      obtain ⟨_, _, hparts⟩ := bind_eq_ok.mp h
      exact Except.ok.inj hparts
    · have htotal := (classifyHeader_eq_ok.mp hheader).2.2
      rw [readCompiled, readHeader_eq_ok, if_pos ⟨htotal, not_lt.mp hsize, hheader⟩] at h
      simp at h

end JustKV.Compiled
