import JustKV.Store.CompiledRoundTrip

/-!
# Prefixes of compiled files

A compiled file announces its own length, and the reader checks it before it looks at anything
behind the header.  So whatever a write leaves when it stops early is read as cut off, and no file
is a proper prefix of another.
-/

open Checked FixedWidth

namespace JustKV.Compiled

/-- `write_all` of the buffers in order, to a writer that fails once it has taken `room` bytes:
everything, or what was written before the failing call could finish. -/
def writeAll : ℕ → List Bytes → Except Bytes Bytes
  | _, [] => .ok []
  | room, chunk :: chunks =>
    if room < chunk.length then .error (chunk.take room)
    else match writeAll (room - chunk.length) chunks with
      | .ok written => .ok (chunk ++ written)
      | .error written => .error (chunk ++ written)

/-- A failed write leaves a proper prefix of what was to be written. -/
theorem writeAll_eq_error {room : ℕ} {chunks : List Bytes} {written : Bytes}
    (h : writeAll room chunks = .error written) :
    room < chunks.flatten.length ∧ written = chunks.flatten.take room := by
  induction chunks generalizing room written with
  | nil => simp [writeAll] at h
  | cons chunk chunks ih =>
    rw [writeAll] at h
    rw [List.flatten_cons, List.length_append]
    by_cases hroom : room < chunk.length
    · rw [if_pos hroom, Except.error.injEq] at h
      exact ⟨by omega, by rw [← h, List.take_append_of_le_length hroom.le]⟩
    · rw [if_neg hroom] at h
      cases hrest : writeAll (room - chunk.length) chunks with
      | ok rest => simp [hrest] at h
      | error rest =>
        obtain ⟨hlength, hwritten⟩ := ih hrest
        rw [hrest, Except.error.injEq] at h
        refine ⟨by omega, ?_⟩
        rw [← h, hwritten, List.take_append, List.take_of_length_le (not_lt.mp hroom)]

/-- Below the length it announces, a file is cut off: its magic is still right or still too short. -/
theorem classifyHeader_take {data : Bytes} {n : ℕ} (hheader : classifyHeader data = .ok ())
    (hn : n < totalLen data) : classifyHeader (data.take n) = .error .truncated := by
  obtain ⟨hmagic, hlong, htotal⟩ := classifyHeader_eq_ok.mp hheader
  have hlength : (data.take n).length = n := by
    rw [List.length_take]
    omega
  rw [classifyHeader, hlength]
  by_cases hshort : n < magic.length
  · rw [if_pos hshort]
  have htake : (data.take n).take magic.length = magic := by
    rw [List.take_take, min_eq_left (not_lt.mp hshort), (isCompiled_iff.mp hmagic).2]
  rw [if_neg hshort, if_neg (not_not.mpr htake), if_pos]
  by_cases hheaderLen : n < headerLen
  · exact Or.inl hheaderLen
  -- From here on the words that announce the length are inside the prefix.
  have hinside : 24 ≤ n := not_lt.mp hheaderLen
  have hannounced : totalLen (data.take n) = totalLen data := by
    rw [totalLen, totalLen, countOf, countOf, arenaLenOf, arenaLenOf,
      word_drop_take n 12 (by omega), word_drop_take n 16 (by omega)]
  rw [hannounced]
  exact Or.inr hn

section Written

variable {arena : Bytes} {entries : List Entry} {flags : UInt32}

/-- Every proper prefix of a written file is read as cut off, at either word size. -/
theorem readCompiled_take (hentries : entries.length < 2 ^ 32) (harena : arena.length < 2 ^ 32)
    (w : Width) {n : ℕ} (hn : n < (compiledBytes arena entries flags).length) :
    readCompiled w ((compiledBytes arena entries flags).take n) = .ok (.error .truncated) := by
  have hheader := classifyHeader_compiledBytes flags [] hentries harena
  have htotal := totalLen_compiledBytes flags [] hentries harena
  rw [List.append_nil] at hheader htotal
  have hcut := classifyHeader_take hheader (htotal.symm ▸ hn)
  rw [readCompiled, readHeader_eq_ok, hcut, if_neg (by simp)]
  rfl

end Written

/-- Files are self-delimiting: the one that continues another is that other. -/
theorem eq_of_compiledBytes_prefix {arena arena' : Bytes} {entries entries' : List Entry}
    {flags flags' : UInt32} (harena : arena.length < 2 ^ 32) (hentries : entries.length < 2 ^ 32)
    (harena' : arena'.length < 2 ^ 32) (hentries' : entries'.length < 2 ^ 32)
    (h : compiledBytes arena' entries' flags' <+: compiledBytes arena entries flags) :
    compiledBytes arena' entries' flags' = compiledBytes arena entries flags := by
  obtain ⟨rest, hrest⟩ := h
  have htotal := totalLen_compiledBytes flags [] hentries harena
  have htotal' := totalLen_compiledBytes flags' rest hentries' harena'
  rw [List.append_nil] at htotal
  rw [hrest, htotal] at htotal'
  exact List.IsPrefix.eq_of_length ⟨rest, hrest⟩ htotal'.symm

/-- A cut-off artifact is never read as a dataset, nor as anything but cut off. -/
theorem readCompiled_cut_off (arena : Bytes) (entries : List Entry) (flags : UInt32)
    (harena : arena.length < 2 ^ 32) (hentries : entries.length < 2 ^ 32) :
    (∀ w n, n < (compiledBytes arena entries flags).length →
      readCompiled w ((compiledBytes arena entries flags).take n) = .ok (.error .truncated)) ∧
    (∀ w room written, writeAll room (writeCompiled arena entries flags) = .error written →
      readCompiled w written = .ok (.error .truncated)) ∧
    ∀ arena' entries' flags', arena'.length < 2 ^ 32 → entries'.length < 2 ^ 32 →
      compiledBytes arena' entries' flags' <+: compiledBytes arena entries flags →
      compiledBytes arena' entries' flags' = compiledBytes arena entries flags := by
  refine ⟨fun w n hn ↦ readCompiled_take hentries harena w hn, ?_, ?_⟩
  · intro w room written hwrite
    obtain ⟨hroom, rfl⟩ := writeAll_eq_error hwrite
    exact readCompiled_take hentries harena w hroom
  · intro arena' entries' flags' harena' hentries' hprefix
    exact eq_of_compiledBytes_prefix harena hentries harena' hentries' hprefix

/-- An arena that spells the magic, in a file cut inside its last entry. -/
theorem readCompiled_cut_off_entry :
    readCompiled .w32 ((compiledBytes magic [⟨0, 4, 4, 4⟩] 1).take 35) = .ok (.error .truncated) :=
  (readCompiled_cut_off magic [⟨0, 4, 4, 4⟩] 1 (by decide) (by decide)).1 .w32 35 (by decide)

end JustKV.Compiled
