import JustKV.Store.CsvReport

/-!
# The parse loop refines the report

After a prefix of the rows the loop variables are `stateOf` of that prefix.  One pass through the
loop body either extends the prefix by its row or stops at a row that overflows, and by induction
the whole loop ends with the report.  No step of the loop can stop the program: every index and
every slice is in range and every cast to `u32` is lossless, because the kept keys are distinct
and the arena stays within `u32`.
-/

open Checked HashTable FirstOccurrence Utf8

namespace JustKV.CsvLoader

variable (layout : Layout UInt32) (hasher : RandomState) (opts : LoadOptions)

/-- The slots of `seen`: every pair's index under the hash of its key. -/
def seenSlots (pairs : Dataset) : Slots UInt32 :=
  pairs.zipIdx.map fun item ↦ (hasher item.1.1, UInt32.ofNat item.2)

/-- The loop variables after the given rows, none of which overflowed. -/
def stateOf (rows : List NumberedRow) (recLine : Option ℕ) : ParseState where
  arena := packed (keptPairs rows)
  entries := layoutFrom 0 (keptPairs rows)
  lines := (keptRows rows).map Row.line
  errors := (withEarlier [] rows).flatMap fun step ↦ rowErrors opts step.1 step.2
  seen := ⟨layout, seenSlots hasher (keptPairs rows)⟩
  recLine

variable {layout hasher opts}

theorem seenSlots_append_singleton (pairs : Dataset) (pair : Bytes × Bytes) :
    seenSlots hasher (pairs ++ [pair]) =
      seenSlots hasher pairs ++ [(hasher pair.1, UInt32.ofNat pairs.length)] := by
  simp [seenSlots, List.zipIdx_append]

theorem mem_seenSlots {pairs : Dataset} {slot : UInt64 × UInt32} (h : slot ∈ seenSlots hasher pairs) :
    ∃ i pair, pairs[i]? = some pair ∧ slot = (hasher pair.1, UInt32.ofNat i) := by
  obtain ⟨item, hitem, rfl⟩ := List.mem_map.mp h
  exact ⟨item.2, item.1, List.mem_zipIdx_iff_getElem?.mp hitem, rfl⟩

/-- Indices of pairs survive the cast to `u32`. -/
theorem toNat_index {pairs : Dataset} (hnodup : pairs.keys.Nodup) (hsize : pairs.size ≤ u32Max)
    {i : ℕ} {pair : Bytes × Bytes} (h : pairs[i]? = some pair) : (UInt32.ofNat i).toNat = i := by
  have hlength := length_lt_of_nodup hnodup hsize
  obtain ⟨hi, _⟩ := List.getElem?_eq_some_iff.mp h
  exact toNat_ofNat_of_lt (hi.trans hlength)

/-- Reading the key of an indexed entry out of the arena gives the pair's key. -/
theorem keyAt_eq_ok {state : ParseState} {pairs : Dataset} (harena : state.arena = packed pairs)
    (hentries : state.entries = layoutFrom 0 pairs) (hnodup : pairs.keys.Nodup)
    (hsize : pairs.size ≤ u32Max) {i : ℕ} {pair : Bytes × Bytes} (h : pairs[i]? = some pair) :
    state.keyAt (UInt32.ofNat i) = .ok pair.1 := by
  let parts := Parts.ofPairs pairs hsize
  have hpair : (parts.entries.map (Entry.pair parts.arena))[i]? = some pair := by
    rw [show parts.entries.map (Entry.pair parts.arena) = pairs from pairs_ofPairs pairs hsize, h]
  rw [List.getElem?_map] at hpair
  obtain ⟨entry, hentry, hvalue⟩ := Option.map_eq_some_iff.mp hpair
  have hrange := parts.inRange entry (List.mem_of_getElem? hentry)
  rw [ParseState.keyAt, harena, hentries, toNat_index hnodup hsize h]
  change (index parts.entries i >>= fun entry ↦ entry.key parts.arena) = _
  rw [index_eq_ok hentry, ok_bind, Entry.key_eq_ok parts.arena_le hrange, hvalue]

/-- The key of the pair with a given index. -/
def keyOfIndex (pairs : Dataset) (i : UInt32) : Bytes :=
  ((pairs[i.toNat]?).map Prod.fst).getD []

theorem keyOfIndex_eq {pairs : Dataset} (hnodup : pairs.keys.Nodup) (hsize : pairs.size ≤ u32Max)
    {i : ℕ} {pair : Bytes × Bytes} (h : pairs[i]? = some pair) :
    keyOfIndex pairs (UInt32.ofNat i) = pair.1 := by
  rw [keyOfIndex, toNat_index hnodup hsize h, h]
  rfl

section Step

variable {rows : List NumberedRow} (recLine : Option ℕ)

theorem getElem?_keptPairs {i : ℕ} {kept : Row} (h : (keptRows rows)[i]? = some kept) :
    (keptPairs rows)[i]? = some kept.pair := by
  rw [keptPairs, List.getElem?_map, h, Option.map_some]

/-- The seen-table holds the indices of the kept rows. -/
theorem mem_elements_seen {i : UInt32} :
    i ∈ (stateOf layout hasher opts rows recLine).seen.elements ↔
      ∃ (j : ℕ) (kept : Row), (keptRows rows)[j]? = some kept ∧ i = UInt32.ofNat j := by
  rw [mem_elements]
  constructor
  · rintro ⟨filed, hslot⟩
    obtain ⟨j, pair, hpair, hi⟩ := mem_seenSlots hslot
    rw [keptPairs, List.getElem?_map] at hpair
    obtain ⟨kept, hkept, _⟩ := Option.map_eq_some_iff.mp hpair
    exact ⟨j, kept, hkept, congrArg Prod.snd hi⟩
  · rintro ⟨j, kept, hkept, rfl⟩
    have hmem : (kept.pair, j) ∈ (keptPairs rows).zipIdx :=
      List.mem_zipIdx_iff_getElem?.mpr (getElem?_keptPairs hkept)
    exact ⟨hasher kept.key, List.mem_map.mpr ⟨(kept.pair, j), hmem, rfl⟩⟩

variable (hsize : (keptPairs rows).size ≤ u32Max)

include hsize

theorem filedBy_seen : (stateOf layout hasher opts rows recLine).seen.FiledBy hasher
    (keyOfIndex (keptPairs rows)) := by
  intro slot hslot
  obtain ⟨i, pair, hpair, rfl⟩ := mem_seenSlots hslot
  rw [keyOfIndex_eq (nodup_keptPairs rows) hsize hpair]

/-- Comparing the arena slice of a seen index compares the key of its pair. -/
theorem keyAt_seen (key : Bytes) {i : UInt32}
    (hi : i ∈ (stateOf layout hasher opts rows recLine).seen.elements) :
    (do
      let other ← (stateOf layout hasher opts rows recLine).keyAt i
      pure (decide (other = key)) : Run Bool) =
      .ok (decide (keyOfIndex (keptPairs rows) i = key)) := by
  obtain ⟨j, kept, hkept, rfl⟩ := (mem_elements_seen recLine).mp hi
  have hpair := getElem?_keptPairs hkept
  rw [keyAt_eq_ok rfl rfl (nodup_keptPairs rows) hsize hpair,
    keyOfIndex_eq (nodup_keptPairs rows) hsize hpair]
  rfl

variable (layout hasher opts) in
/-- The search for a repeated key finds the earliest row with that key. -/
theorem findDuplicate_eq_ok (key : Bytes) :
    ∃ found, (stateOf layout hasher opts rows recLine).findDuplicate hasher key = .ok found ∧
      match found with
      | none => firstWith NumberedRow.key? rows key = none
      | some i => ∃ first, firstWith NumberedRow.key? rows key = some first ∧
          index ((keptRows rows).map Row.line) i.toNat = .ok first.line := by
  have hnodup := nodup_keptPairs rows
  have hfiled : (stateOf layout hasher opts rows recLine).seen.FiledBy hasher
      (keyOfIndex (keptPairs rows)) := filedBy_seen recLine hsize
  obtain ⟨found, hfind, hsome, hnone⟩ := find_key hfiled fun i ↦ keyAt_seen recLine hsize key
  refine ⟨found, hfind, ?_⟩
  cases found with
  | none =>
    apply firstWith_eq_none_of_keptRows
    intro kept hkept
    obtain ⟨i, hi⟩ := List.mem_iff_getElem?.mp hkept
    have hne := hnone rfl _ ((mem_elements_seen recLine).mpr ⟨i, kept, hi, rfl⟩)
    rwa [keyOfIndex_eq hnodup hsize (getElem?_keptPairs hi)] at hne
  | some i =>
    obtain ⟨hi, hkey⟩ := hsome i rfl
    obtain ⟨j, kept, hkept, rfl⟩ := (mem_elements_seen recLine).mp hi
    have hpair := getElem?_keptPairs hkept
    rw [keyOfIndex_eq hnodup hsize hpair] at hkey
    obtain ⟨first, hfirst, hline⟩ := firstWith_of_mem_keptRows (List.mem_of_getElem? hkept)
    refine ⟨first, hkey ▸ hfirst, index_eq_ok ?_⟩
    rw [toNat_index hnodup hsize hpair, List.getElem?_map, hkept, hline, Option.map_some]

end Step

/-- Appending a row whose key is new extends the kept rows by it, whatever has been reported. -/
theorem append_eq_ok {rows : List NumberedRow} (recLine : Option ℕ) (errors : List DataError)
    (line : ℕ) {key value : Bytes} (hnew : firstWith NumberedRow.key? rows key = none)
    (hfits : (keptPairs rows).size + key.length + value.length ≤ u32Max) :
    ParseState.append hasher { stateOf layout hasher opts rows recLine with errors } line key value =
      .ok { stateOf layout hasher opts rows recLine with
        arena := packed (keptPairs rows ++ [(key, value)])
        entries := layoutFrom 0 (keptPairs rows ++ [(key, value)])
        lines := (keptRows rows).map Row.line ++ [line]
        errors
        seen := ⟨layout, seenSlots hasher (keptPairs rows ++ [(key, value)])⟩ } := by
  have hnodup : (keptPairs rows ++ [(key, value)]).keys.Nodup := by
    have hrow : isFirst NumberedRow.key? rows ⟨[key, value], line⟩ = true := by
      simp [isFirst, NumberedRow.key?, NumberedRow.row?, hnew]
    have hpairs : keptPairs (rows ++ [⟨[key, value], line⟩]) = keptPairs rows ++ [(key, value)] :=
      keptPairs_append_of_isFirst hrow rfl
    rw [← hpairs]
    exact nodup_keptPairs _
  have hsize : (keptPairs rows ++ [(key, value)]).size ≤ u32Max := by
    simp only [size_append, size_cons, size_nil]
    omega
  have harena : packed (keptPairs rows) ++ key ++ value =
      packed (keptPairs rows ++ [(key, value)]) := by
    simp [packed]
  have hentries : layoutFrom 0 (keptPairs rows) ++
      [⟨UInt32.ofNat (packed (keptPairs rows)).length, UInt32.ofNat key.length,
        UInt32.ofNat (packed (keptPairs rows) ++ key).length, UInt32.ofNat value.length⟩] =
      layoutFrom 0 (keptPairs rows ++ [(key, value)]) := by
    simp [layoutFrom_append_singleton, entryAt]
  simp only [ParseState.append, stateOf, harena, hentries]
  rw [insertUnique_eq_ok]
  · simp [seenSlots_append_singleton, hashBytes]
  · intro slot hslot
    obtain ⟨i, pair, hpair, rfl⟩ := mem_seenSlots hslot
    have hpair' : (keptPairs rows ++ [(key, value)])[i]? = some pair := by
      rw [List.getElem?_append_left (List.getElem?_eq_some_iff.mp hpair).1, hpair]
    rw [keyAt_eq_ok rfl rfl hnodup hsize hpair']
    rfl

theorem reportDuplicate_eq_ok {state : ParseState} {line : ℕ} {key : Bytes}
    {found : Option UInt32} {first : Option NumberedRow}
    (h : match found with
      | none => first = none
      | some i => ∃ row, first = some row ∧ index state.lines i.toNat = .ok row.line) :
    state.reportDuplicate line key found =
      .ok { state with errors := state.errors ++ (first.map fun row ↦
        (⟨line, .duplicateKey (fromUtf8Lossy key) row.line⟩ : DataError)).toList } := by
  cases found with
  | none =>
    obtain rfl : first = none := h
    simp [ParseState.reportDuplicate]
  | some i =>
    obtain ⟨row, rfl, hline⟩ := h
    simp [ParseState.reportDuplicate, ParseState.pushError, hline]

theorem reportValue_eq (state : ParseState) (line : ℕ) (value : Bytes) :
    state.reportValue opts line value =
      { state with errors := state.errors ++ valueErrors opts line value } := by
  unfold ParseState.reportValue valueErrors
  split
  · rfl
  · simp

/-! ## The loop -/

variable (layout hasher opts) in
/-- The loop variables once a row has been checked. -/
def checkedState (rows : List NumberedRow) (row : NumberedRow) (recLine : Option ℕ) : ParseState :=
  { stateOf layout hasher opts rows recLine with
    errors := (stateOf layout hasher opts rows recLine).errors ++ rowErrors opts rows row }

theorem stateOf_append_of_isFirst {rows : List NumberedRow} {row : NumberedRow} {kept : Row}
    (hfirst : isFirst NumberedRow.key? rows row = true) (hrow : row.row? = some kept)
    (recLine : Option ℕ) :
    stateOf layout hasher opts (rows ++ [row]) recLine =
      { checkedState layout hasher opts rows row recLine with
        arena := packed (keptPairs rows ++ [kept.pair])
        entries := layoutFrom 0 (keptPairs rows ++ [kept.pair])
        lines := (keptRows rows).map Row.line ++ [kept.line]
        seen := ⟨layout, seenSlots hasher (keptPairs rows ++ [kept.pair])⟩ } := by
  simp [stateOf, checkedState, keptPairs, keptRows_append_of_isFirst hfirst hrow,
    withEarlier_append, withEarlier]

theorem stateOf_append_of_not_isFirst {rows : List NumberedRow} {row : NumberedRow}
    (hfirst : isFirst NumberedRow.key? rows row = false) (recLine : Option ℕ) :
    stateOf layout hasher opts (rows ++ [row]) recLine =
      checkedState layout hasher opts rows row recLine := by
  simp [stateOf, checkedState, keptPairs, keptRows_append_of_not_isFirst hfirst,
    withEarlier_append, withEarlier]

/-- The checks of a row with two fields, and what is left to decide after them. -/
theorem parseRecord_checked {rows : List NumberedRow} (hsize : (keptPairs rows).size ≤ u32Max)
    (recLine : Option ℕ) {record : ByteRecord} {key value : Bytes}
    (hfields : record.fields = [key, value]) :
    parseRecord hasher opts (stateOf layout hasher opts rows recLine) record =
      if (firstWith NumberedRow.key? rows key).isSome then
        .ok (.next (checkedState layout hasher opts rows (numberRow recLine record) record.line))
      else if (keptPairs rows).size + key.length + value.length > u32Max then
        .ok (.stop ((checkedState layout hasher opts rows (numberRow recLine record)
          record.line).pushError (numberRow recLine record).line .tooLarge))
      else (checkedState layout hasher opts rows (numberRow recLine record) record.line).append
          hasher (numberRow recLine record).line key value >>= fun state ↦ .ok (.next state) := by
  have herrors : rowErrors opts rows (numberRow recLine record) =
      ((firstWith NumberedRow.key? rows key).map fun first ↦
        (⟨(numberRow recLine record).line, .duplicateKey (fromUtf8Lossy key) first.line⟩ :
          DataError)).toList ++ valueErrors opts (numberRow recLine record).line value := by
    rw [rowErrors, show (numberRow recLine record).fields = [key, value] from hfields]
  obtain ⟨found, hfind, hfound⟩ := findDuplicate_eq_ok layout hasher opts record.line hsize key
  have hsome : found.isSome = (firstWith NumberedRow.key? rows key).isSome := by
    cases found with
    | none => rw [show firstWith NumberedRow.key? rows key = none from hfound]; rfl
    | some i =>
      obtain ⟨first, hfirst, _⟩ := hfound
      rw [hfirst]
      rfl
  rw [parseRecord, hfields]
  change (ParseState.findDuplicate hasher (stateOf layout hasher opts rows record.line) key >>= _) = _
  rw [hfind, ok_bind, reportDuplicate_eq_ok hfound]
  simp only [ok_bind, reportValue_eq, pure_eq_ok, checkedState, hsome, herrors,
    ← List.append_assoc]
  simp only [stateOf, length_packed]
  rfl

/-- The loop body on a row with two fields. -/
theorem parseRecord_pair {rows : List NumberedRow} (hsize : (keptPairs rows).size ≤ u32Max)
    (recLine : Option ℕ) {record : ByteRecord} {key value : Bytes}
    (hfields : record.fields = [key, value]) :
    parseRecord hasher opts (stateOf layout hasher opts rows recLine) record =
      .ok (if overflows rows (numberRow recLine record) then
          .stop ((checkedState layout hasher opts rows (numberRow recLine record)
            record.line).pushError (numberRow recLine record).line .tooLarge)
        else .next (stateOf layout hasher opts
          (rows ++ [numberRow recLine record]) record.line)) := by
  have hrow : (numberRow recLine record).row? = some ⟨key, value, (numberRow recLine record).line⟩ :=
    row?_eq_some hfields
  have hkey : (numberRow recLine record).key? = some key := key?_eq_some hfields
  rw [parseRecord_checked hsize recLine hfields, overflows, hrow]
  cases hfirst : firstWith NumberedRow.key? rows key with
  | some first =>
    have hnot : isFirst NumberedRow.key? rows (numberRow recLine record) = false := by
      simp [isFirst, hkey, hfirst]
    rw [stateOf_append_of_not_isFirst hnot, hnot]
    rfl
  | none =>
    have hnew : isFirst NumberedRow.key? rows (numberRow recLine record) = true := by
      simp [isFirst, hkey, hfirst]
    rw [stateOf_append_of_isFirst hnew hrow, hnew]
    by_cases hfits : (keptPairs rows).size + key.length + value.length > u32Max
    · simp [hfits]
    · simp only [Option.isSome_none, if_neg Bool.false_ne_true, if_neg hfits]
      rw [checkedState, append_eq_ok record.line _ _ hfirst (Nat.le_of_not_lt hfits), ok_bind]
      simp [hfits, Row.pair]

variable (layout hasher opts) in
/-- The loop body on a row with another number of fields. -/
theorem parseRecord_other (rows : List NumberedRow) (recLine : Option ℕ) {record : ByteRecord}
    (hfields : ∀ key value, record.fields ≠ [key, value]) :
    overflows rows (numberRow recLine record) = false ∧
    parseRecord hasher opts (stateOf layout hasher opts rows recLine) record =
      .ok (.next (stateOf layout hasher opts
          (rows ++ [numberRow recLine record]) record.line)) := by
  have hrow : (numberRow recLine record).row? = none := by
    unfold NumberedRow.row? numberRow
    split
    case h_1 key value h => exact absurd h (hfields key value)
    case h_2 => rfl
  have hfirst : isFirst NumberedRow.key? rows (numberRow recLine record) = false := by
    simp [isFirst, NumberedRow.key?, hrow]
  have herrors : rowErrors opts rows (numberRow recLine record) =
      [⟨(numberRow recLine record).line, .wrongColumnCount record.fields.length⟩] := by
    unfold rowErrors numberRow
    split
    case h_1 key value h => exact absurd h (hfields key value)
    case h_2 => rfl
  constructor
  · rw [overflows, hrow]
  · rw [stateOf_append_of_not_isFirst hfirst, checkedState, herrors, parseRecord]
    split
    case h_1 key value h => exact absurd h (hfields key value)
    case h_2 => rfl

/-- The loop body on any record: the row either overflows or joins the rows before it. -/
theorem parseRecord_eq_ok {rows : List NumberedRow} (hsize : (keptPairs rows).size ≤ u32Max)
    (recLine : Option ℕ) (record : ByteRecord) :
    parseRecord hasher opts (stateOf layout hasher opts rows recLine) record =
      .ok (if overflows rows (numberRow recLine record) then
          .stop ((checkedState layout hasher opts rows (numberRow recLine record)
            record.line).pushError (numberRow recLine record).line .tooLarge)
        else .next (stateOf layout hasher opts (rows ++ [numberRow recLine record]) record.line)) := by
  by_cases hpair : ∃ key value, record.fields = [key, value]
  · obtain ⟨key, value, hfields⟩ := hpair
    exact parseRecord_pair hsize recLine hfields
  · obtain ⟨hfits, hnext⟩ := parseRecord_other layout hasher opts rows recLine
      fun key value hfields ↦ hpair ⟨key, value, hfields⟩
    rw [hnext, hfits]
    rfl

/-- A row that does not overflow keeps the arena within `u32`. -/
theorem size_keptPairs_append {rows : List NumberedRow} {row : NumberedRow}
    (hsize : (keptPairs rows).size ≤ u32Max) (hfits : overflows rows row = false) :
    (keptPairs (rows ++ [row])).size ≤ u32Max := by
  cases hfirst : isFirst NumberedRow.key? rows row with
  | false => rwa [keptPairs_append_of_not_isFirst hfirst]
  | true =>
    obtain ⟨kept, hrow⟩ := exists_row?_of_isFirst hfirst
    have hle : (keptPairs rows).size + kept.key.length + kept.value.length ≤ u32Max := by
      simpa [overflows, hrow, hfirst] using hfits
    rw [keptPairs_append_of_isFirst hfirst hrow]
    simp only [size_append, size_cons, size_nil, Row.pair]
    omega

variable (layout hasher opts) in
/-- The loop ends with the report, in the state of some prefix of the rows, which is all of them
when there is nothing to report. -/
theorem parseLoop_eq_ok (ending : ReaderEnd) (records : List ByteRecord) {rows : List NumberedRow}
    (hsize : (keptPairs rows).size ≤ u32Max) (recLine : Option ℕ) :
    ∃ last lastLine,
      parseLoop hasher opts ending (stateOf layout hasher opts rows recLine) records =
        .ok { stateOf layout hasher opts last lastLine with
          errors := (stateOf layout hasher opts rows recLine).errors ++
            reportFrom opts (endErrors (endLine recLine records) ending) rows
              (numberRows recLine records) } ∧
      (reportFrom opts (endErrors (endLine recLine records) ending) rows
        (numberRows recLine records) = [] → last = rows ++ numberRows recLine records) := by
  induction records generalizing rows recLine with
  | nil =>
    refine ⟨rows, recLine, ?_, fun _ ↦ by simp [numberRows]⟩
    cases ending with
    | endOfInput => simp [parseLoop, numberRows, endErrors, stateOf]
    | error message => rfl
  | cons record rest ih =>
    rw [parseLoop, parseRecord_eq_ok hsize, ok_bind, numberRows, reportFrom_cons, endLine_cons]
    cases hoverflow : overflows rows (numberRow recLine record) with
    | true =>
      refine ⟨rows, record.line, by simp [stateOf, checkedState, ParseState.pushError], ?_⟩
      simp
    | false =>
      obtain ⟨last, lastLine, hloop, hlast⟩ :=
        ih (size_keptPairs_append hsize hoverflow) record.line
      refine ⟨last, lastLine, ?_, ?_⟩
      · simp only [if_neg Bool.false_ne_true]
        rw [hloop]
        simp [stateOf, withEarlier_append, withEarlier]
      · intro hnil
        simp only [if_neg Bool.false_ne_true, List.append_eq_nil_iff] at hnil
        rw [hlast hnil.2, List.append_assoc, List.singleton_append]

end JustKV.CsvLoader

namespace JustKV

open CsvLoader

/-- What a parse returns, as a function of what the reader delivers. -/
def CsvLoader.outcome (opts : LoadOptions) (delivery : Delivery) :
    Except (List DataError) (Bytes × List Entry) :=
  if (report opts delivery).isEmpty then
    .ok (packed (keptPairs (numberRows none delivery.records)),
      layoutFrom 0 (keptPairs (numberRows none delivery.records)))
  else .error (report opts delivery)

/-- Parsing never stops the program, and its result depends on nothing but the delivery. -/
theorem parseCsv_eq_ok (csv : CsvReader) (process : Process) (data : Bytes) (opts : LoadOptions) :
    parseCsv csv process data opts =
      .ok (outcome opts (csv ⟨opts.delimiter, opts.hasHeader⟩ data)) := by
  let delivery := csv ⟨opts.delimiter, opts.hasHeader⟩ data
  have hsize : (keptPairs []).size ≤ u32Max := Nat.zero_le _
  obtain ⟨last, lastLine, hloop, hlast⟩ := parseLoop_eq_ok process.seenLayout process.parseHasher
    opts delivery.ending delivery.records hsize none
  have hfinish : ParseState.finish
      { stateOf process.seenLayout process.parseHasher opts last lastLine with
        errors := report opts delivery } = outcome opts delivery := by
    rw [ParseState.finish, outcome]
    cases hreport : report opts delivery with
    | nil =>
      rw [hlast hreport]
      rfl
    | cons error errors => rfl
  calc
    _ = (parseLoop process.parseHasher opts delivery.ending
        (stateOf process.seenLayout process.parseHasher opts [] none) delivery.records >>=
          fun state ↦ .ok state.finish) := rfl
    _ = .ok (outcome opts delivery) := by
      rw [hloop, ok_bind]
      exact congrArg Except.ok hfinish

/-- The result of a parse does not depend on the process. -/
theorem parseCsv_process {csv : CsvReader} {process : Process} {data : Bytes} {opts : LoadOptions}
    (other : Process) : parseCsv csv process data opts = parseCsv csv other data opts := by
  rw [parseCsv_eq_ok, parseCsv_eq_ok]

end JustKV
