import JustKV.Library.FirstOccurrence
import JustKV.Store.CsvLoader
import JustKV.Store.Packing

/-!
# The report of a parse

What a parse has to report, stated on the rows alone: every row is judged by the rows before it,
without arena, entries, indices or hash table.  The loop refines this description: after any
prefix of the rows that does not overflow, its four accumulators are functions of the rows kept
so far, and its error list is the report of that prefix.
-/

open Checked HashTable FirstOccurrence Utf8

namespace JustKV.CsvLoader

/-- A record with the line it is reported on. -/
structure NumberedRow where
  fields : List Bytes
  line : ℕ
  deriving DecidableEq, Repr

/-- The line of a record is its own position, or else the line after the record before it. -/
def numberRow (previous : Option ℕ) (record : ByteRecord) : NumberedRow :=
  ⟨record.fields, record.line.getD (previous.getD 0 + 1)⟩

def numberRows : Option ℕ → List ByteRecord → List NumberedRow
  | _, [] => []
  | previous, record :: rest => numberRow previous record :: numberRows record.line rest

/-- A row with exactly two fields. -/
structure Row where
  key : Bytes
  value : Bytes
  line : ℕ
  deriving DecidableEq, Repr

def Row.pair (row : Row) : Bytes × Bytes := (row.key, row.value)

def NumberedRow.row? (row : NumberedRow) : Option Row :=
  match row.fields with
  | [key, value] => some ⟨key, value, row.line⟩
  | _ => none

def NumberedRow.key? (row : NumberedRow) : Option Bytes := row.row?.map Row.key

/-- The two-field rows whose key no earlier two-field row has. -/
def keptRows (rows : List NumberedRow) : List Row :=
  (firsts NumberedRow.key? rows).filterMap NumberedRow.row?

def keptPairs (rows : List NumberedRow) : Dataset := (keptRows rows).map Row.pair

variable (opts : LoadOptions)

def valueErrors (line : ℕ) (value : Bytes) : List DataError :=
  if !opts.allowBinary && (fromUtf8 value).isNone then [⟨line, .invalidUtf8Value⟩] else []

/-- The problems of a row by itself and against the rows before it. -/
def rowErrors (earlier : List NumberedRow) (row : NumberedRow) : List DataError :=
  match row.fields with
  | [key, value] =>
      ((firstWith NumberedRow.key? earlier key).map fun first ↦
        (⟨row.line, .duplicateKey (fromUtf8Lossy key) first.line⟩ : DataError)).toList ++
      valueErrors opts row.line value
  | fields => [⟨row.line, .wrongColumnCount fields.length⟩]

/-- A kept row that does not fit behind the rows kept before it. -/
def overflows (earlier : List NumberedRow) (row : NumberedRow) : Bool :=
  match row.row? with
  | some kept =>
      isFirst NumberedRow.key? earlier row &&
        decide (u32Max < (keptPairs earlier).size + kept.key.length + kept.value.length)
  | none => false

/-- The problem the end of the reading adds. -/
def endErrors (line : ℕ) : ReaderEnd → List DataError
  | .endOfInput => []
  | .error message => [⟨line, .malformed message⟩]

/-- The report on `rows` coming after `earlier`: the problems of every row up to the first one
that overflows, which adds its own last problem, or else the problem of the end. -/
def reportFrom (atEnd : List DataError) (earlier rows : List NumberedRow) : List DataError :=
  let steps := withEarlier earlier rows
  (steps.takeWhile fun step ↦ !overflows step.1 step.2).flatMap
      (fun step ↦ rowErrors opts step.1 step.2) ++
    match steps.dropWhile fun step ↦ !overflows step.1 step.2 with
    | step :: _ => rowErrors opts step.1 step.2 ++ [⟨step.2.line, .tooLarge⟩]
    | [] => atEnd

/-- The line after the last record. -/
def endLine (previous : Option ℕ) (records : List ByteRecord) : ℕ :=
  ((records.getLast?.map ByteRecord.line).getD previous).getD 0 + 1

/-- The whole report on what a reader delivers. -/
def report (delivery : Delivery) : List DataError :=
  reportFrom opts (endErrors (endLine none delivery.records) delivery.ending) []
    (numberRows none delivery.records)

@[simp] theorem reportFrom_nil (atEnd : List DataError) (earlier : List NumberedRow) :
    reportFrom opts atEnd earlier [] = atEnd := rfl

theorem reportFrom_cons (atEnd : List DataError) (earlier rows : List NumberedRow)
    (row : NumberedRow) :
    reportFrom opts atEnd earlier (row :: rows) =
      rowErrors opts earlier row ++
        if overflows earlier row then [⟨row.line, .tooLarge⟩]
        else reportFrom opts atEnd (earlier ++ [row]) rows := by
  cases h : overflows earlier row <;> simp [reportFrom, withEarlier, h]

@[simp] theorem endLine_cons (previous : Option ℕ) (record : ByteRecord)
    (rest : List ByteRecord) : endLine previous (record :: rest) = endLine record.line rest := by
  cases rest with
  | nil => rfl
  | cons next rest => simp [endLine, List.getLast?_eq_some_getLast]

/-! ## Kept rows -/

theorem row?_eq_some {row : NumberedRow} {key value : Bytes} (h : row.fields = [key, value]) :
    row.row? = some ⟨key, value, row.line⟩ := by
  rw [NumberedRow.row?, h]

theorem key?_eq_some {row : NumberedRow} {key value : Bytes} (h : row.fields = [key, value]) :
    row.key? = some key := by
  rw [NumberedRow.key?, row?_eq_some h, Option.map_some]

theorem fields_of_row? {row : NumberedRow} {kept : Row} (h : row.row? = some kept) :
    row.fields = [kept.key, kept.value] := by
  unfold NumberedRow.row? at h
  split at h
  case h_1 key value hfields => rw [hfields, ← Option.some.inj h]
  case h_2 => simp at h

theorem exists_row?_of_isFirst {earlier : List NumberedRow} {row : NumberedRow}
    (h : isFirst NumberedRow.key? earlier row = true) : ∃ kept, row.row? = some kept := by
  cases hrow : row.row? with
  | none => simp [isFirst, NumberedRow.key?, hrow] at h
  | some kept => exact ⟨kept, rfl⟩

theorem keptRows_append_of_isFirst {earlier : List NumberedRow} {row : NumberedRow} {kept : Row}
    (hfirst : isFirst NumberedRow.key? earlier row = true) (hrow : row.row? = some kept) :
    keptRows (earlier ++ [row]) = keptRows earlier ++ [kept] := by
  rw [keptRows, firsts_append_singleton, hfirst, if_pos rfl, List.filterMap_append,
    List.filterMap_cons_some hrow, List.filterMap_nil]
  rfl

theorem keptRows_append_of_not_isFirst {earlier : List NumberedRow} {row : NumberedRow}
    (hfirst : isFirst NumberedRow.key? earlier row = false) :
    keptRows (earlier ++ [row]) = keptRows earlier := by
  rw [keptRows, firsts_append_singleton, hfirst, if_neg Bool.false_ne_true, List.append_nil]
  rfl

theorem keptPairs_append_of_isFirst {earlier : List NumberedRow} {row : NumberedRow} {kept : Row}
    (hfirst : isFirst NumberedRow.key? earlier row = true) (hrow : row.row? = some kept) :
    keptPairs (earlier ++ [row]) = keptPairs earlier ++ [kept.pair] := by
  rw [keptPairs, keptRows_append_of_isFirst hfirst hrow, List.map_append]
  rfl

theorem keptPairs_append_of_not_isFirst {earlier : List NumberedRow} {row : NumberedRow}
    (hfirst : isFirst NumberedRow.key? earlier row = false) :
    keptPairs (earlier ++ [row]) = keptPairs earlier := by
  rw [keptPairs, keptRows_append_of_not_isFirst hfirst, keptPairs]

theorem keys_keptPairs (rows : List NumberedRow) :
    (keptPairs rows).keys = (firsts NumberedRow.key? rows).filterMap NumberedRow.key? := by
  simp only [Dataset.keys, keptPairs, keptRows, List.map_filterMap]
  congr 1
  funext row
  cases h : row.row? <;> simp [NumberedRow.key?, Row.pair, h]

theorem nodup_keptPairs (rows : List NumberedRow) : (keptPairs rows).keys.Nodup :=
  keys_keptPairs rows ▸ nodup_firsts NumberedRow.key? rows

/-- The kept row with a given key is the earliest row with that key. -/
theorem find?_keptRows (rows : List NumberedRow) (key : Bytes) :
    (keptRows rows).find? (fun kept ↦ decide (kept.key = key)) =
      (firstWith NumberedRow.key? rows key).bind NumberedRow.row? := by
  have htest : (fun row : NumberedRow ↦ row.row?.any fun kept ↦ decide (kept.key = key)) =
      fun row ↦ decide (row.key? = some key) := by
    funext row
    cases h : row.row? <;> simp [NumberedRow.key?, h]
  rw [keptRows, List.find?_filterMap, htest]
  exact congrArg (Option.bind · NumberedRow.row?) (firstWith_firsts NumberedRow.key? rows key)

theorem line_of_row? {row : NumberedRow} {kept : Row} (h : row.row? = some kept) :
    kept.line = row.line := by
  unfold NumberedRow.row? at h
  split at h
  · rw [← Option.some.inj h]
  · simp at h

/-- A kept row is reported with the line of the earliest row with its key. -/
theorem firstWith_of_mem_keptRows {rows : List NumberedRow} {kept : Row}
    (h : kept ∈ keptRows rows) :
    ∃ first, firstWith NumberedRow.key? rows kept.key = some first ∧ first.line = kept.line := by
  have hsearch := find?_keptRows rows kept.key
  have hnodup := nodup_keptPairs rows
  rw [Dataset.keys, keptPairs, List.map_map] at hnodup
  cases hfound : (keptRows rows).find? fun other ↦ decide (other.key = kept.key) with
  | none => simpa using List.find?_eq_none.mp hfound kept h
  | some other =>
    have hkey : other.key = kept.key := of_decide_eq_true (List.find?_some
      (p := fun other : Row ↦ decide (other.key = kept.key)) hfound)
    obtain rfl := List.inj_on_of_nodup_map hnodup (List.mem_of_find?_eq_some hfound) h hkey
    rw [hfound] at hsearch
    obtain ⟨first, hfirst, hrow⟩ := Option.bind_eq_some_iff.mp hsearch.symm
    exact ⟨first, hfirst, (line_of_row? hrow).symm⟩

theorem firstWith_eq_none_of_keptRows {rows : List NumberedRow} {key : Bytes}
    (h : ∀ kept ∈ keptRows rows, kept.key ≠ key) : firstWith NumberedRow.key? rows key = none := by
  have hsearch := find?_keptRows rows key
  rw [List.find?_eq_none.mpr (by simpa using h)] at hsearch
  cases hfirst : firstWith NumberedRow.key? rows key with
  | none => rfl
  | some first =>
    -- A row with a key has two fields, so it cannot be lost on the way to the kept rows.
    obtain ⟨_, hkey⟩ := firstWith_eq_some hfirst
    rw [hfirst, Option.bind_some] at hsearch
    rw [NumberedRow.key?, ← hsearch] at hkey
    simp at hkey

end JustKV.CsvLoader
