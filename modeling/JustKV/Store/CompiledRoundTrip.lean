import JustKV.Store.CompiledReader

/-!
# Round trips through the compiled format

Reading undoes writing for arbitrary parts, whatever follows the file.  Writing undoes reading up
to the reserved word, which the reader ignores, and the bytes past the announced length.
-/

open Checked FixedWidth

namespace JustKV.Compiled

theorem compiledBytes_eq (arena : Bytes) (entries : List Entry) (flags : UInt32) :
    compiledBytes arena entries flags =
      magic ++ (toLeBytes flags ++ (toLeBytes (UInt32.ofNat entries.length) ++
        (toLeBytes (UInt32.ofNat arena.length) ++ (toLeBytes 0 ++
          (entryCodec.encodeAll entries ++ arena))))) := by
  have hentries : (entries.flatMap fun entry ↦ [toLeBytes entry.kOff, toLeBytes entry.kLen,
      toLeBytes entry.vOff, toLeBytes entry.vLen]).flatten = entryCodec.encodeAll entries := by
    induction entries with
    | nil => rfl
    | cons entry rest ih =>
      rw [List.flatMap_cons, List.flatten_append, ih, encodeAll_cons]
      rfl
  rw [compiledBytes, writeCompiled, List.flatten_append, List.flatten_append, hentries]
  simp

section Written

variable (arena : Bytes) (entries : List Entry) (flags : UInt32) (rest : Bytes)

theorem drop_header : (compiledBytes arena entries flags ++ rest).drop headerLen =
    entryCodec.encodeAll entries ++ (arena ++ rest) := by
  rw [compiledBytes_eq, ← List.append_assoc (entryCodec.encodeAll entries)]
  rfl

theorem length_compiledBytes : (compiledBytes arena entries flags).length =
    headerLen + entryLen * entries.length + arena.length := by
  rw [compiledBytes_eq]
  simp only [List.length_append, length_toLeBytes, length_encodeAll]
  change 8 + (4 + (4 + (4 + (4 + (16 * entries.length + arena.length))))) =
    24 + 16 * entries.length + arena.length
  omega

theorem flagsOf_compiledBytes : flagsOf (compiledBytes arena entries flags ++ rest) = flags := by
  rw [flagsOf, compiledBytes_eq]
  exact word_toLeBytes_append flags _

theorem isCompiled_compiledBytes : isCompiled (compiledBytes arena entries flags ++ rest) = true := by
  apply isCompiled_iff.mpr
  rw [compiledBytes_eq, List.append_assoc]
  exact ⟨by simp, List.take_left⟩

variable {arena entries}

theorem countOf_compiledBytes (h : entries.length < 2 ^ 32) :
    countOf (compiledBytes arena entries flags ++ rest) = entries.length := by
  rw [countOf, compiledBytes_eq]
  exact (congrArg UInt32.toNat (word_toLeBytes_append _ _)).trans (toNat_ofNat_of_lt h)

theorem arenaLenOf_compiledBytes (h : arena.length < 2 ^ 32) :
    arenaLenOf (compiledBytes arena entries flags ++ rest) = arena.length := by
  rw [arenaLenOf, compiledBytes_eq]
  exact (congrArg UInt32.toNat (word_toLeBytes_append _ _)).trans (toNat_ofNat_of_lt h)

theorem entriesOf_compiledBytes (h : entries.length < 2 ^ 32) :
    entriesOf (compiledBytes arena entries flags ++ rest) = entries := by
  rw [entriesOf, countOf_compiledBytes flags rest h, drop_header]
  apply List.ext_getElem?
  intro i
  by_cases hi : i < entries.length
  · rw [List.getElem?_map, List.getElem?_range hi, List.getElem?_eq_getElem hi, Option.map_some,
      recordAt_encodeAll entryCodec (List.getElem?_eq_getElem hi)]
  · rw [List.getElem?_eq_none (by simpa using hi), List.getElem?_eq_none (by simpa using hi)]

theorem arenaOf_compiledBytes (hentries : entries.length < 2 ^ 32) (harena : arena.length < 2 ^ 32) :
    arenaOf (compiledBytes arena entries flags ++ rest) = arena := by
  have hwidth : entryLen * entries.length = (entryCodec.encodeAll entries).length :=
    (length_encodeAll entryCodec entries).symm
  rw [arenaOf, arenaLenOf_compiledBytes flags rest harena, countOf_compiledBytes flags rest hentries,
    ← List.drop_drop, drop_header, hwidth, List.drop_left, List.take_left]

/-- A written file announces exactly its own length, whatever follows it. -/
theorem totalLen_compiledBytes (hentries : entries.length < 2 ^ 32)
    (harena : arena.length < 2 ^ 32) : totalLen (compiledBytes arena entries flags ++ rest) =
      (compiledBytes arena entries flags).length := by
  rw [totalLen, countOf_compiledBytes flags rest hentries,
    arenaLenOf_compiledBytes flags rest harena, length_compiledBytes]

theorem classifyHeader_compiledBytes (hentries : entries.length < 2 ^ 32)
    (harena : arena.length < 2 ^ 32) :
    classifyHeader (compiledBytes arena entries flags ++ rest) = .ok () := by
  apply classifyHeader_eq_ok.mpr
  refine ⟨isCompiled_compiledBytes arena entries flags rest, ?_, ?_⟩
  · rw [List.length_append, length_compiledBytes]
    omega
  · rw [totalLen_compiledBytes flags rest hentries harena, List.length_append]
    omega

/-- The meaning of a written file is the parts that were written, if they are in range. -/
theorem classify_compiledBytes (hentries : entries.length < 2 ^ 32)
    (harena : arena.length < 2 ^ 32) :
    classify (compiledBytes arena entries flags ++ rest) =
      match firstOutside arena.length entries with
      | some i => .error (.outOfBounds i)
      | none => .ok (arena, entries, flags) := by
  have hheader := classifyHeader_compiledBytes flags rest hentries harena
  cases hout : firstOutside arena.length entries with
  | some i =>
    simp only [classify, hheader, arenaLenOf_compiledBytes flags rest harena,
      entriesOf_compiledBytes flags rest hentries, hout]
  | none =>
    simp only [classify, hheader, arenaLenOf_compiledBytes flags rest harena,
      entriesOf_compiledBytes flags rest hentries, hout,
      arenaOf_compiledBytes flags rest hentries harena, flagsOf_compiledBytes]

end Written

theorem length_arenaOf {data : Bytes} (h : totalLen data ≤ data.length) :
    (arenaOf data).length = arenaLenOf data := by
  rw [arenaOf, List.length_take, List.length_drop]
  unfold totalLen at h
  omega

theorem take_add_word (data : Bytes) (off : ℕ) (h : off + 4 ≤ data.length) :
    data.take (off + 4) = data.take off ++ toLeBytes (word (data.drop off)) := by
  rw [List.take_add, toLeBytes_word_drop data off h]

/-- Writing the announced entries gives their bytes back. -/
theorem encodeAll_entriesOf {data : Bytes} (h : totalLen data ≤ data.length) :
    entryCodec.encodeAll (entriesOf data) =
      (data.drop headerLen).take (entryLen * countOf data) := by
  have hlength : entryLen * countOf data ≤ (data.drop headerLen).length := by
    rw [List.length_drop]
    unfold totalLen at h
    omega
  exact encodeAll_recordAt entryCodec (data.drop headerLen) (countOf data) hlength

/-- The bytes before the reserved word are the magic and the words of the header. -/
theorem take_header {data : Bytes} (hmagic : isCompiled data = true)
    (hlong : headerLen ≤ data.length) :
    data.take 20 = magic ++ (toLeBytes (flagsOf data) ++
      (toLeBytes (word (data.drop 12)) ++ toLeBytes (word (data.drop 16)))) := by
  have hlong : 24 ≤ data.length := hlong
  rw [take_add_word data 16 (by omega), take_add_word data 12 (by omega),
    take_add_word data 8 (by omega), ← (isCompiled_iff.mp hmagic).2, flagsOf]
  simp [magic]

/-- Writing the parts of a file gives its announced bytes back with the reserved word zeroed. -/
theorem compiledBytes_of_classify {data arena : Bytes} {entries : List Entry} {flags : UInt32}
    (h : classify data = .ok (arena, entries, flags)) :
    compiledBytes arena entries flags =
      (data.take 20 ++ [0, 0, 0, 0] ++ data.drop headerLen).take (totalLen data) := by
  obtain ⟨hheader, _, rfl, rfl, rfl⟩ := classify_eq_ok h
  obtain ⟨hmagic, hlong, htotal⟩ := classifyHeader_eq_ok.mp hheader
  have hcount : (entriesOf data).length = countOf data := by simp [entriesOf]
  have hseam : (data.take 20 ++ [0, 0, 0, 0]).length = headerLen := by
    have hlong : 24 ≤ data.length := hlong
    rw [List.length_append, List.length_take]
    change min 20 data.length + 4 = 24
    omega
  have hzero : toLeBytes 0 = [0, 0, 0, 0] := rfl
  calc
    _ = data.take 20 ++ [0, 0, 0, 0] ++
        ((data.drop headerLen).take (entryLen * countOf data) ++ arenaOf data) := by
      rw [compiledBytes_eq, hcount, length_arenaOf htotal, countOf, arenaLenOf,
        UInt32.ofNat_toNat, UInt32.ofNat_toNat, take_header hmagic hlong,
        encodeAll_entriesOf htotal, hzero]
      simp [countOf]
    _ = data.take 20 ++ [0, 0, 0, 0] ++
        (data.drop headerLen).take (entryLen * countOf data + arenaLenOf data) := by
      rw [List.take_add, List.drop_drop, arenaOf]
    _ = _ := by
      rw [totalLen, Nat.add_assoc, ← hseam, List.take_length_add_append, hseam]

/-- The reader accepts exactly the format and classifies every rejection; it has the file's
length as a bound before it reserves anything, and what it accepts is written back byte for byte
apart from the reserved word. -/
theorem readCompiled_exact (w : Width) (data : Bytes)
    (hmachine : w = .w32 → data.length ≤ Width.isizeMax .w32) :
    readCompiled w data = .ok (
      if data.length < 8 then .error .truncated
      else if data.take 8 ≠ magic then .error .badMagic
      else if data.length < 24 ∨ data.length < totalLen data then .error .truncated
      else match firstOutside (arenaLenOf data) (entriesOf data) with
        | some i => .error (.outOfBounds i)
        | none => .ok (arenaOf data, entriesOf data, flagsOf data)) ∧
    (∀ header, readHeader w data = .ok (.ok header) → 16 * header.count ≤ data.length) ∧
    ∀ arena entries flags, readCompiled w data = .ok (.ok (arena, entries, flags)) →
      compiledBytes arena entries flags =
        (data.take 20 ++ [0, 0, 0, 0] ++ data.drop 24).take (totalLen data) := by
  refine ⟨?_, ?_, ?_⟩
  · have hheader : classifyHeader data =
        if data.length < 8 then .error .truncated
        else if data.take 8 ≠ magic then .error .badMagic
        else if data.length < 24 ∨ data.length < totalLen data then .error .truncated
        else .ok () := rfl
    rw [readCompiled_eq_ok hmachine, classify, hheader]
    split_ifs <;> rfl
  · intro header hread
    rw [readHeader_eq_ok] at hread
    cases hheader : classifyHeader data with
    | error error => simp [hheader, Except.map] at hread
    | ok _ =>
      have hsize := (totalLen_le_isizeMax hmachine
        (classifyHeader_eq_ok.mp hheader).2.2).trans_lt isizeMax_lt_size
      rw [if_neg (by omega), hheader] at hread
      obtain rfl : headerOf data = header := by simpa [Except.map] using hread
      exact entries_le_of_classifyHeader hheader
  · intro arena entries flags hread
    rw [readCompiled_eq_ok hmachine] at hread
    exact compiledBytes_of_classify (Except.ok.inj hread)

/-- Trailing bytes and a reserved word in use: both are dropped when the file is written again. -/
theorem readCompiled_exact_reserved :
    let data := magic ++ [1, 0, 0, 0, 1, 0, 0, 0, 2, 0, 0, 0, 9, 9, 9, 9] ++
      [0, 0, 0, 0, 1, 0, 0, 0, 1, 0, 0, 0, 1, 0, 0, 0] ++ [107, 118] ++ [7]
    readCompiled .w32 data = .ok (.ok ([107, 118], [⟨0, 1, 1, 1⟩], 1)) ∧
      compiledBytes [107, 118] [⟨0, 1, 1, 1⟩] 1 =
        (data.take 20 ++ [0, 0, 0, 0] ++ data.drop 24).take 42 := by
  intro data
  have hread : readCompiled .w32 data = .ok (.ok ([107, 118], [⟨0, 1, 1, 1⟩], 1)) := by
    decide +kernel
  have hmachine : Width.w32 = .w32 → data.length ≤ Width.isizeMax .w32 := fun _ ↦ by decide
  exact ⟨hread, (readCompiled_exact .w32 data hmachine).2.2 _ _ _ hread⟩

/-- Reading a written file gives the written parts back, or the first of them out of range. -/
theorem readCompiled_compiledBytes (w : Width) (arena : Bytes) (entries : List Entry)
    (flags : UInt32) (rest : Bytes) (harena : arena.length < 2 ^ 32)
    (hentries : entries.length < 2 ^ 32)
    (hmachine : w = .w32 →
      (compiledBytes arena entries flags ++ rest).length ≤ Width.isizeMax .w32) :
    readCompiled w (compiledBytes arena entries flags ++ rest) = .ok (
      match entries.findIdx? fun entry ↦
          !(decide (entry.kOff.toNat + entry.kLen.toNat ≤ arena.length) &&
            decide (entry.vOff.toNat + entry.vLen.toNat ≤ arena.length)) with
      | some i => .error (.outOfBounds i)
      | none => .ok (arena, entries, flags)) := by
  rw [readCompiled_eq_ok hmachine, classify_compiledBytes flags rest hentries harena]
  rfl

/-- Windows that overlap and one that ends past the arena. -/
theorem readCompiled_compiledBytes_outside :
    readCompiled .w32 (compiledBytes [107, 118] [⟨0, 2, 1, 1⟩, ⟨0, 1, 2, 1⟩] 0 ++ [7]) =
      .ok (.error (.outOfBounds 1)) :=
  readCompiled_compiledBytes .w32 [107, 118] [⟨0, 2, 1, 1⟩, ⟨0, 1, 2, 1⟩] 0 [7] (by decide)
    (by decide) fun _ ↦ by decide +kernel

end JustKV.Compiled
