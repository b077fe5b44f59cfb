import JustKV.Store.CsvRefinement

/-!
# The invariant of the parse loop

After every iteration the windows of the entries tile the arena, every entry has a line, and the
hash table holds exactly the indices of the entries, each under the hash of its key.  The arena
stays within `u32` by the size test; the indices do because distinct keys of bounded total length
are few.  So no cast loses a bit, and the closures given to the table read inside the arena.
-/

open Checked HashTable FirstOccurrence

namespace JustKV.CsvLoader

/-- Keys and values in turn cover the arena up to `stop`, without a gap or an overlap. -/
def Tiles (stop : ℕ) : ℕ → List Entry → Prop
  | off, [] => off = stop
  | off, entry :: rest =>
      entry.kOff.toNat = off ∧ entry.vOff.toNat = entry.kOff.toNat + entry.kLen.toNat ∧
        Tiles stop (entry.vOff.toNat + entry.vLen.toNat) rest

/-- The numbers of a packed entry are the ones that were cast. -/
theorem toNat_entryAt (off : ℕ) (pair : Bytes × Bytes)
    (h : off + (pair.1.length + pair.2.length) ≤ u32Max) :
    (entryAt off pair).kOff.toNat = off ∧ (entryAt off pair).kLen.toNat = pair.1.length ∧
      (entryAt off pair).vOff.toNat = off + pair.1.length ∧
      (entryAt off pair).vLen.toNat = pair.2.length := by
  unfold u32Max at h
  exact ⟨toNat_ofNat_of_lt (by omega), toNat_ofNat_of_lt (by omega), toNat_ofNat_of_lt (by omega),
    toNat_ofNat_of_lt (by omega)⟩

theorem tiles_layoutFrom (off : ℕ) (pairs : Dataset) (h : off + pairs.size ≤ u32Max) :
    Tiles (off + pairs.size) off (layoutFrom off pairs) := by
  induction pairs generalizing off with
  | nil => rfl
  | cons pair pairs ih =>
    rw [size_cons] at h
    obtain ⟨hkOff, hkLen, hvOff, hvLen⟩ := toNat_entryAt off pair (by omega)
    have hrest := ih (off + (pair.1.length + pair.2.length)) (by omega)
    have hstop : off + Dataset.size (pair :: pairs) =
        off + (pair.1.length + pair.2.length) + Dataset.size pairs := by
      rw [size_cons]
      omega
    have hnext : (entryAt off pair).vOff.toNat + (entryAt off pair).vLen.toNat =
        off + (pair.1.length + pair.2.length) := by omega
    rw [layoutFrom, Tiles, hnext, hstop]
    exact ⟨hkOff, by omega, hrest⟩

/-- Reading the key of an entry neither overflows nor leaves the arena. -/
def ParseState.Readable (state : ParseState) (i : UInt32) : Prop :=
  ∃ entry, state.entries[i.toNat]? = some entry ∧
    entry.kOff.toNat + entry.kLen.toNat ≤ u32Max ∧
    entry.kOff.toNat + entry.kLen.toNat ≤ state.arena.length

/-- What holds of the four accumulators and the table between two iterations. -/
structure LoopInvariant (hasher : RandomState) (state : ParseState) : Prop where
  tiles : Tiles state.arena.length 0 state.entries
  arena_le : state.arena.length ≤ u32Max
  lines : state.lines.length = state.entries.length
  keys : ∃ keys, state.entries.mapM (fun entry ↦ entry.key state.arena) = .ok keys ∧ keys.Nodup
  count : state.entries.length < 2 ^ 32
  indices : state.seen.elements.map UInt32.toNat = List.range state.entries.length
  filed : ∀ slot ∈ state.seen.slots, ∃ key, state.keyAt slot.2 = .ok key ∧
    slot.1 = hashBytes hasher key
  readable : ∀ i ∈ state.seen.elements, state.Readable i

section State

variable {layout : Layout UInt32} {hasher : RandomState} {opts : LoadOptions}
  {rows : List NumberedRow}

/-- The closures read the key of any packed pair by its index. -/
theorem readable_of_pairs {state : ParseState} {pairs : Dataset} (harena : state.arena = packed pairs)
    (hentries : state.entries = layoutFrom 0 pairs) (hnodup : pairs.keys.Nodup)
    (hsize : pairs.size ≤ u32Max) {i : ℕ} {pair : Bytes × Bytes} (h : pairs[i]? = some pair) :
    state.Readable (UInt32.ofNat i) := by
  let parts := Parts.ofPairs pairs hsize
  have hlength : i < (layoutFrom 0 pairs).length := by
    rw [length_layoutFrom]
    exact (List.getElem?_eq_some_iff.mp h).1
  have hrange : (layoutFrom 0 pairs)[i].InRange (packed pairs) :=
    parts.inRange _ (List.getElem_mem hlength)
  rw [ParseState.Readable, harena, hentries, toNat_index hnodup hsize h]
  exact ⟨_, List.getElem?_eq_getElem hlength, hrange.key_le.trans parts.arena_le, hrange.key_le⟩

/-- The keys that the entries of packed pairs name in the arena. -/
theorem mapM_key_layoutFrom {pairs : Dataset} (hsize : pairs.size ≤ u32Max) :
    (layoutFrom 0 pairs).mapM (fun entry ↦ entry.key (packed pairs)) = .ok pairs.keys := by
  let parts := Parts.ofPairs pairs hsize
  have hread : ∀ entry ∈ parts.entries,
      entry.key parts.arena = .ok (entry.pair parts.arena).1 := fun entry hentry ↦
    Entry.key_eq_ok parts.arena_le (parts.inRange entry hentry)
  have hkeys : (parts.entries.map fun entry ↦ (entry.pair parts.arena).1) = pairs.keys := by
    calc
      _ = parts.pairs.map Prod.fst := by rw [Parts.pairs, List.map_map]; rfl
      _ = pairs.keys := by rw [pairs_ofPairs, Dataset.keys]
  exact (mapM_eq_ok hread).trans (congrArg Except.ok hkeys)

/-- The indices in the table are those of the pairs, and none is cut by its cast. -/
theorem toNat_seenSlots {pairs : Dataset} (hcount : pairs.length < 2 ^ 32) :
    ((seenSlots hasher pairs).map Prod.snd).map UInt32.toNat = List.range pairs.length := by
  have hcast : ∀ i ∈ List.range pairs.length, (UInt32.toNat ∘ UInt32.ofNat) i = i :=
    fun i hi ↦ toNat_ofNat_of_lt ((List.mem_range.mp hi).trans hcount)
  calc
    _ = ((pairs.zipIdx.map Prod.snd).map UInt32.ofNat).map UInt32.toNat := by
      rw [seenSlots, List.map_map, List.map_map, List.map_map, List.map_map]
      rfl
    _ = (List.range pairs.length).map (UInt32.toNat ∘ UInt32.ofNat) := by
      rw [List.zipIdx_map_snd, List.map_map, List.range_eq_range']
    _ = List.range pairs.length := by rw [List.map_congr_left hcast, List.map_id']

theorem loopInvariant_stateOf (hsize : (keptPairs rows).size ≤ u32Max) (recLine : Option ℕ) :
    LoopInvariant hasher (stateOf layout hasher opts rows recLine) := by
  have hnodup := nodup_keptPairs rows
  have hcount := length_lt_of_nodup hnodup hsize
  constructor
  case tiles =>
    have htiles := tiles_layoutFrom 0 (keptPairs rows) (by omega)
    simpa [stateOf] using htiles
  case arena_le => simpa [stateOf] using hsize
  case lines => simp [stateOf, keptPairs]
  case keys => exact ⟨_, mapM_key_layoutFrom hsize, hnodup⟩
  case count => simpa [stateOf] using hcount
  case indices =>
    calc
      _ = List.range (keptPairs rows).length := toNat_seenSlots hcount
      _ = _ := by simp [stateOf]
  case filed =>
    intro slot hslot
    obtain ⟨i, pair, hpair, rfl⟩ := mem_seenSlots hslot
    exact ⟨pair.1, keyAt_eq_ok rfl rfl hnodup hsize hpair, rfl⟩
  case readable =>
    intro i hi
    obtain ⟨j, kept, hkept, rfl⟩ := (mem_elements_seen recLine).mp hi
    exact readable_of_pairs rfl rfl hnodup hsize (getElem?_keptPairs hkept)

end State

/-- The loop variables before and after an iteration, and the record that it read. -/
structure Iteration where
  before : ParseState
  record : Option ByteRecord
  after : ParseState

/-- The row was appended, and every number that was cast to `u32` is stored as it is. -/
structure Iteration.Appends (hasher : RandomState) (iteration : Iteration) (key value : Bytes) :
    Prop where
  arena : iteration.after.arena = iteration.before.arena ++ key ++ value
  entry : ∃ entry, iteration.after.entries = iteration.before.entries ++ [entry] ∧
    entry.kOff.toNat = iteration.before.arena.length ∧ entry.kLen.toNat = key.length ∧
    entry.vOff.toNat = (iteration.before.arena ++ key).length ∧ entry.vLen.toNat = value.length
  index : ∃ i, iteration.after.seen.slots =
    iteration.before.seen.slots ++ [(hashBytes hasher key, i)] ∧
    i.toNat = iteration.before.entries.length

/-- An iteration that keeps the invariant, casts without loss and gives the table closures that
read inside the arena: the one of the search before the row is appended, the other after. -/
structure Iteration.Sound (hasher : RandomState) (iteration : Iteration) : Prop where
  before : LoopInvariant hasher iteration.before
  after : LoopInvariant hasher iteration.after
  casts : iteration.after.entries = iteration.before.entries ∨
    ∃ record key value, iteration.record = some record ∧ record.fields = [key, value] ∧
      iteration.Appends hasher key value
  find : ∀ i ∈ iteration.before.seen.elements, iteration.before.Readable i
  rehash : ∀ i ∈ iteration.before.seen.elements, iteration.after.Readable i

section Step

variable {layout : Layout UInt32} {hasher : RandomState} {opts : LoadOptions}

/-- Most iterations only report. -/
theorem sound_of_report {state : ParseState} (h : LoopInvariant hasher state)
    (record : Option ByteRecord) (errors : List DataError) (recLine : Option ℕ) :
    Iteration.Sound hasher ⟨state, record, { state with errors, recLine }⟩ where
  before := h
  after := ⟨h.tiles, h.arena_le, h.lines, h.keys, h.count, h.indices, h.filed, h.readable⟩
  casts := Or.inl rfl
  find := h.readable
  rehash := h.readable

/-- Packing one more pair appends it. -/
theorem appends_pair {iteration : Iteration} {pairs : Dataset} {key value : Bytes}
    (harena : iteration.before.arena = packed pairs)
    (hentries : iteration.before.entries = layoutFrom 0 pairs)
    (hslots : iteration.before.seen.slots = seenSlots hasher pairs)
    (harena' : iteration.after.arena = packed (pairs ++ [(key, value)]))
    (hentries' : iteration.after.entries = layoutFrom 0 (pairs ++ [(key, value)]))
    (hslots' : iteration.after.seen.slots = seenSlots hasher (pairs ++ [(key, value)]))
    (hnodup : (pairs ++ [(key, value)]).keys.Nodup)
    (hsize : (pairs ++ [(key, value)]).size ≤ u32Max) : iteration.Appends hasher key value where
  arena := by
    rw [harena', harena]
    simp [packed]
  entry := by
    have hfits : 0 + pairs.size + (key.length + value.length) ≤ u32Max := by
      simp only [size_append, size_cons, size_nil] at hsize
      omega
    obtain ⟨hkOff, hkLen, hvOff, hvLen⟩ := toNat_entryAt (0 + pairs.size) (key, value) hfits
    refine ⟨_, ?_, ?_, hkLen, ?_, hvLen⟩
    · rw [hentries', hentries, layoutFrom_append_singleton]
    · rw [hkOff, harena, length_packed, Nat.zero_add]
    · rw [hvOff, harena, List.length_append, length_packed, Nat.zero_add]
  index := by
    have hlast : (pairs ++ [(key, value)])[pairs.length]? = some (key, value) :=
      List.getElem?_concat_length
    refine ⟨UInt32.ofNat pairs.length, ?_, ?_⟩
    · rw [hslots', hslots, seenSlots_append_singleton]
      rfl
    · rw [toNat_index hnodup hsize hlast, hentries, length_layoutFrom]

/-- A row that does not overflow is either dropped or appended. -/
theorem sound_of_fits {rows : List NumberedRow} (hsize : (keptPairs rows).size ≤ u32Max)
    (recLine : Option ℕ) (record : ByteRecord)
    (hfits : overflows rows (numberRow recLine record) = false) :
    Iteration.Sound hasher ⟨stateOf layout hasher opts rows recLine, some record,
      stateOf layout hasher opts (rows ++ [numberRow recLine record]) record.line⟩ := by
  have hbefore : LoopInvariant hasher (stateOf layout hasher opts rows recLine) :=
    loopInvariant_stateOf hsize recLine
  cases hfirst : isFirst NumberedRow.key? rows (numberRow recLine record) with
  | false =>
    rw [stateOf_append_of_not_isFirst hfirst]
    exact sound_of_report hbefore _ _ _
  | true =>
    have hsize' := size_keptPairs_append hsize hfits
    have hafter : LoopInvariant hasher
        (stateOf layout hasher opts (rows ++ [numberRow recLine record]) record.line) :=
      loopInvariant_stateOf hsize' record.line
    have hnodup := nodup_keptPairs (rows ++ [numberRow recLine record])
    obtain ⟨kept, hrow⟩ := exists_row?_of_isFirst hfirst
    rw [keptPairs_append_of_isFirst hfirst hrow] at hsize' hnodup
    rw [stateOf_append_of_isFirst hfirst hrow] at hafter ⊢
    refine ⟨hbefore, hafter, Or.inr ⟨record, kept.key, kept.value, rfl, fields_of_row? hrow, ?_⟩,
      hbefore.readable, fun i hi ↦ ?_⟩
    · exact appends_pair rfl rfl rfl rfl rfl rfl hnodup hsize'
    · obtain ⟨j, other, hother, rfl⟩ := (mem_elements_seen recLine).mp hi
      have hpair : (keptPairs rows ++ [kept.pair])[j]? = some other.pair := by
        rw [List.getElem?_append_left (List.getElem?_eq_some_iff.mp (getElem?_keptPairs hother)).1]
        exact getElem?_keptPairs hother
      exact readable_of_pairs rfl rfl hnodup hsize' hpair

end Step

section Loop

variable (hasher : RandomState) (opts : LoadOptions)

/-- The iterations of the loop, up to and with the one that leaves it. -/
def iterations (ending : ReaderEnd) : ParseState → List ByteRecord → Run (List Iteration)
  | state, [] =>
      match ending with
      | .endOfInput => pure [⟨state, none, state⟩]
      | .error message => pure [⟨state, none, state.pushError state.lineHint (.malformed message)⟩]
  | state, record :: rest => do
      match ← parseRecord hasher opts state record with
      | .next next =>
        let later ← iterations ending next rest
        pure (⟨state, some record, next⟩ :: later)
      | .stop last => pure [⟨state, some record, last⟩]

variable {hasher opts} {layout : Layout UInt32}

theorem iterations_sound (ending : ReaderEnd) (records : List ByteRecord) {rows : List NumberedRow}
    (hsize : (keptPairs rows).size ≤ u32Max) (recLine : Option ℕ) :
    ∃ trace last,
      iterations hasher opts ending (stateOf layout hasher opts rows recLine) records = .ok trace ∧
      trace.getLast? = some last ∧
      parseLoop hasher opts ending (stateOf layout hasher opts rows recLine) records =
        .ok last.after ∧
      ∀ iteration ∈ trace, iteration.Sound hasher := by
  have hbefore : LoopInvariant hasher (stateOf layout hasher opts rows recLine) :=
    loopInvariant_stateOf hsize recLine
  induction records generalizing rows recLine with
  | nil =>
    cases ending with
    | endOfInput =>
      refine ⟨_, _, rfl, rfl, rfl, List.forall_mem_singleton.mpr ?_⟩
      exact sound_of_report hbefore none _ _
    | error message =>
      refine ⟨_, _, rfl, rfl, rfl, List.forall_mem_singleton.mpr ?_⟩
      exact sound_of_report hbefore none _ _
  | cons record rest ih =>
    rw [iterations, parseLoop, parseRecord_eq_ok hsize, ok_bind, ok_bind]
    cases hoverflow : overflows rows (numberRow recLine record) with
    | true =>
      refine ⟨_, _, rfl, rfl, rfl, List.forall_mem_singleton.mpr ?_⟩
      exact sound_of_report hbefore (some record) _ _
    | false =>
      have hsize' := size_keptPairs_append hsize hoverflow
      obtain ⟨later, last, htrace, hlast, hloop, hsound⟩ :=
        ih hsize' record.line (loopInvariant_stateOf hsize' record.line)
      simp only [if_neg Bool.false_ne_true, htrace, ok_bind, hloop]
      refine ⟨_, last, rfl, ?_, rfl, ?_⟩
      · rw [List.getLast?_cons, hlast, Option.getD_some]
      · exact List.forall_mem_cons.mpr ⟨sound_of_fits hsize recLine record hoverflow, hsound⟩

end Loop

/-- The loop returns on all records, whatever it reports, and each of its iterations keeps the
invariant, casts without loss and hands the table closures that read inside the arena. -/
theorem parseLoop_sound (layout : Layout UInt32) (hasher : RandomState) (opts : LoadOptions)
    (ending : ReaderEnd) (records : List ByteRecord) :
    ∃ trace last, iterations hasher opts ending (.new layout) records = .ok trace ∧
      trace.getLast? = some last ∧
      parseLoop hasher opts ending (.new layout) records = .ok last.after ∧
      ∀ iteration ∈ trace, iteration.Sound hasher := by
  have hsize : (keptPairs []).size ≤ u32Max := Nat.zero_le _
  have hnew : ParseState.new layout = stateOf layout hasher opts [] none := rfl
  rw [hnew]
  exact iterations_sound ending records hsize none

end JustKV.CsvLoader
