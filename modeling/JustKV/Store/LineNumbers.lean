import JustKV.Csv.Located
import JustKV.Store.Defects

/-!
# Reported line numbers

The report on an input is compared with the report on the same rows under their real lines.  The
two differ exactly when a record that is named in the report, or that comes first with a repeated
key, stands behind a line end that its read has skipped.
-/

open Checked FirstOccurrence Utf8

namespace JustKV

open Csv CsvLoader

/-- The bytes of the rows that are kept: the first ones with their key. -/
def keptSize (rows : List (List Bytes)) : ℕ := rowsSize (firsts rowKey rows)

/-- A row whose key is new does not fit behind the rows kept before it. -/
def Oversized (earlier : List (List Bytes)) (row : List Bytes) : Prop :=
  isFirst rowKey earlier row = true ∧ u32Max < keptSize earlier + (row.map List.length).sum

/-- What is wrong with a row by itself or against the rows before it. -/
inductive Fault (opts : LoadOptions) (earlier : List (List Bytes)) (row : List Bytes) : Prop
  | columns (hlength : row.length ≠ 2)
  | duplicate {key : Bytes} (hkey : rowKey row = some key)
      (hearlier : ∃ other ∈ earlier, rowKey other = some key)
  | value {key value : Bytes} (hrow : row = [key, value]) (hbinary : opts.allowBinary = false)
      (hvalue : fromUtf8 value = none)

/-- The kept pairs are the first rows with their keys. -/
theorem map_pairRow_keptPairs (rows : List NumberedRow) :
    (keptPairs rows).map pairRow = firsts rowKey (rows.map NumberedRow.fields) := by
  have hkey : (fun row : NumberedRow ↦ rowKey row.fields) = NumberedRow.key? := by
    funext row
    exact (key?_eq_rowKey row).symm
  have hfields : ∀ row ∈ firsts NumberedRow.key? rows,
      row.row?.map (pairRow ∘ Row.pair) = some row.fields := by
    intro row hrow
    obtain ⟨kept, hkept⟩ : ∃ kept, row.row? = some kept := by
      simpa [NumberedRow.key?, Option.isSome_iff_exists] using isSome_of_mem_firsts _ hrow
    rw [hkept, Option.map_some, fields_of_row? hkept]
    rfl
  rw [firsts_map, hkey, keptPairs, keptRows, List.map_map, List.map_filterMap,
    List.filterMap_congr hfields]
  exact congrFun List.filterMap_eq_map' _

theorem size_keptPairs (rows : List NumberedRow) :
    (keptPairs rows).size = keptSize (rows.map NumberedRow.fields) := by
  rw [keptSize, ← map_pairRow_keptPairs, rowsSize_pairs]

theorem overflows_iff {earlier : List NumberedRow} {row : NumberedRow} :
    overflows earlier row = true ↔
      Oversized (earlier.map NumberedRow.fields) row.fields := by
  have hfirst : isFirst rowKey (earlier.map NumberedRow.fields) row.fields =
      isFirst NumberedRow.key? earlier row := by
    rw [isFirst_map]
    congr 1
    funext other
    exact (key?_eq_rowKey other).symm
  unfold overflows
  rw [Oversized, hfirst, ← size_keptPairs]
  cases hrow : row.row? with
  | none => simp [isFirst, NumberedRow.key?, hrow]
  | some kept =>
    have hsize : (row.fields.map List.length).sum = kept.key.length + kept.value.length := by
      rw [fields_of_row? hrow]
      simp
    simp [hsize, Nat.add_assoc]

/-! ## Two numberings of the same records -/

/-- The key of a record. -/
def Csv.Located.key? (record : Located) : Option Bytes := rowKey record.fields

/-- The first of the earlier records with the key of this one. -/
def Csv.Located.firstIn (record : Located) (earlier : List Located) : Option Located :=
  record.key?.bind (firstWith Located.key? earlier)

/-- The row of a record under a numbering. -/
def numberedRow (number : Located → ℕ) (record : Located) : NumberedRow :=
  ⟨record.fields, number record⟩

@[simp] theorem map_fields_numberedRow (number : Located → ℕ) (records : List Located) :
    (records.map (numberedRow number)).map NumberedRow.fields = records.map Located.fields := by
  rw [List.map_map]
  rfl

section Numberings

variable {opts : LoadOptions} {number other : Located → ℕ} {earlier : List Located}
  {record : Located}

theorem firstWith_numbered (records : List Located) (key : Bytes) :
    firstWith NumberedRow.key? (records.map (numberedRow number)) key =
      (firstWith Located.key? records key).map (numberedRow number) := by
  have hkey : (fun record ↦ (numberedRow number record).key?) = Located.key? := by
    funext record
    exact key?_eq_rowKey _
  rw [firstWith_map, hkey]

theorem rowErrors_pair {key value : Bytes} (hfields : record.fields = [key, value]) :
    rowErrors opts (earlier.map (numberedRow number)) (numberedRow number record) =
      ((firstWith Located.key? earlier key).map fun first ↦
        (⟨number record, .duplicateKey (fromUtf8Lossy key) (number first)⟩ : DataError)).toList ++
      valueErrors opts (number record) value := by
  simp only [rowErrors, numberedRow, hfields, firstWith_numbered, Option.map_map]
  rfl

theorem rowErrors_of_length (hlength : record.fields.length ≠ 2) :
    rowErrors opts (earlier.map (numberedRow number)) (numberedRow number record) =
      [⟨number record, .wrongColumnCount record.fields.length⟩] := by
  unfold rowErrors
  split
  case h_1 key value hfields => exact absurd (congrArg List.length hfields) hlength
  case h_2 => rfl

theorem valueErrors_eq_iff {line line' : ℕ} {value : Bytes} :
    valueErrors opts line value = valueErrors opts line' value ↔
      (opts.allowBinary = false → fromUtf8 value = none → line = line') := by
  cases hbinary : opts.allowBinary <;> cases hvalue : fromUtf8 value <;>
    simp [valueErrors, hbinary, hvalue]

/-- A pair with a new key can only have a forbidden value. -/
theorem fault_of_new {key value : Bytes} (hfields : record.fields = [key, value])
    (hnew : firstWith Located.key? earlier key = none) :
    Fault opts (earlier.map Located.fields) record.fields ↔
      opts.allowBinary = false ∧ fromUtf8 value = none := by
  constructor
  · intro hfault
    cases hfault with
    | columns hlength => exact absurd (congrArg List.length hfields) hlength
    | duplicate hkey hearlier =>
      rw [hfields] at hkey
      obtain rfl := Option.some.inj hkey
      obtain ⟨fields, hmem, hother⟩ := hearlier
      obtain ⟨first, hfirst, rfl⟩ := List.mem_map.mp hmem
      exact absurd hother (firstWith_eq_none.mp hnew first hfirst)
    | value hrow hbinary hvalue =>
      obtain ⟨rfl, rfl⟩ : key = _ ∧ value = _ := by simpa [hfields] using hrow
      exact ⟨hbinary, hvalue⟩
  · rintro ⟨hbinary, hvalue⟩
    exact .value hfields hbinary hvalue

theorem fault_of_first {key value : Bytes} {first : Located}
    (hfields : record.fields = [key, value])
    (hfirst : firstWith Located.key? earlier key = some first) :
    Fault opts (earlier.map Located.fields) record.fields := by
  obtain ⟨hmem, hsame⟩ := firstWith_eq_some hfirst
  exact .duplicate (by rw [hfields]; rfl) ⟨first.fields, List.mem_map_of_mem hmem, hsame⟩

theorem key?_of_length (hlength : record.fields.length ≠ 2) : record.key? = none := by
  unfold Located.key? rowKey
  split
  case h_1 hfields => exact absurd (congrArg List.length hfields) hlength
  case h_2 => rfl

theorem firstIn_pair {key value : Bytes} (hfields : record.fields = [key, value]) :
    record.firstIn earlier = firstWith Located.key? earlier key := by
  rw [Located.firstIn, Located.key?, hfields]
  rfl

/-- The problems of a row are the same under two numberings exactly when these agree on the row, if
it has a problem, and on the first row with its key. -/
theorem rowErrors_eq_iff :
    rowErrors opts (earlier.map (numberedRow number)) (numberedRow number record) =
        rowErrors opts (earlier.map (numberedRow other)) (numberedRow other record) ↔
      (Fault opts (earlier.map Located.fields) record.fields → number record = other record) ∧
        ∀ first, record.firstIn earlier = some first → number first = other first := by
  by_cases hlength : record.fields.length = 2
  · obtain ⟨key, value, hfields⟩ := List.length_eq_two.mp hlength
    rw [rowErrors_pair hfields, rowErrors_pair hfields, firstIn_pair hfields]
    cases hfirst : firstWith Located.key? earlier key with
    | none =>
      rw [fault_of_new hfields hfirst]
      simp [valueErrors_eq_iff]
    | some first =>
      have hfault : Fault opts (earlier.map Located.fields) record.fields :=
        fault_of_first hfields hfirst
      simp only [Option.map_some, Option.toList_some, List.singleton_append, List.cons.injEq,
        DataError.mk.injEq, DataErrorKind.duplicateKey.injEq, true_and, valueErrors_eq_iff,
        Option.some.injEq, forall_eq']
      constructor
      · rintro ⟨⟨hrecord, hline⟩, _⟩
        exact ⟨fun _ ↦ hrecord, hline⟩
      · rintro ⟨hrecord, hline⟩
        exact ⟨⟨hrecord hfault, hline⟩, fun _ _ ↦ hrecord hfault⟩
  · have hfault : Fault opts (earlier.map Located.fields) record.fields := .columns hlength
    rw [rowErrors_of_length hlength, rowErrors_of_length hlength]
    simp [hfault, Located.firstIn, key?_of_length hlength]

theorem length_rowErrors_eq :
    (rowErrors opts (earlier.map (numberedRow number)) (numberedRow number record)).length =
      (rowErrors opts (earlier.map (numberedRow other)) (numberedRow other record)).length := by
  by_cases hlength : record.fields.length = 2
  · obtain ⟨key, value, hfields⟩ := List.length_eq_two.mp hlength
    rw [rowErrors_pair hfields, rowErrors_pair hfields, List.length_append, List.length_append]
    have hvalue : (valueErrors opts (number record) value).length =
        (valueErrors opts (other record) value).length := by
      unfold valueErrors
      split <;> rfl
    rw [hvalue]
    cases firstWith Located.key? earlier key <;> rfl
  · rw [rowErrors_of_length hlength, rowErrors_of_length hlength]
    rfl

theorem overflows_numbered :
    overflows (earlier.map (numberedRow number)) (numberedRow number record) = true ↔
      Oversized (earlier.map Located.fields) record.fields := by
  rw [overflows_iff, map_fields_numberedRow]
  rfl

end Numberings

/-- Every record that the report names has the property: the records with a problem and the first
ones with a repeated key, up to a record that no longer fits. -/
def ForNamed (opts : LoadOptions) (property : Located → Prop) :
    List Located → List Located → Prop
  | _, [] => True
  | earlier, record :: rest =>
      (Fault opts (earlier.map Located.fields) record.fields ∨
        Oversized (earlier.map Located.fields) record.fields → property record) ∧
      (∀ first, record.firstIn earlier = some first → property first) ∧
      (¬Oversized (earlier.map Located.fields) record.fields →
        ForNamed opts property (earlier ++ [record]) rest)

theorem forNamed_congr {opts : LoadOptions} {left right : Located → Prop}
    {earlier records : List Located} (h : ∀ record ∈ earlier ++ records, left record ↔ right record) :
    ForNamed opts left earlier records ↔ ForNamed opts right earlier records := by
  induction records generalizing earlier with
  | nil => rfl
  | cons record rest ih =>
    have hfirst : ∀ first, record.firstIn earlier = some first → (left first ↔ right first) := by
      intro first hfirst
      obtain ⟨key, _, hfound⟩ := Option.bind_eq_some_iff.mp hfirst
      exact h first (List.mem_append_left _ (firstWith_eq_some hfound).1)
    have hlater : ∀ other ∈ earlier ++ [record] ++ rest, left other ↔ right other := by
      simpa using h
    have hrest := ih hlater
    rw [ForNamed, ForNamed, h record (by simp), hrest]
    exact and_congr_right' (and_congr_left' (forall₂_congr hfirst))

theorem forNamed_of_forall {opts : LoadOptions} {property : Located → Prop}
    {earlier records : List Located} (h : ∀ record ∈ earlier ++ records, property record) :
    ForNamed opts property earlier records := by
  have htrue : ForNamed opts (fun _ ↦ True) earlier records := by
    clear h
    induction records generalizing earlier with
    | nil => trivial
    | cons record rest ih => exact ⟨fun _ ↦ trivial, fun _ _ ↦ trivial, fun _ ↦ ih⟩
  refine (forNamed_congr fun record hrecord ↦ ?_).mp htrue
  exact iff_of_true trivial (h record hrecord)

/-- Two numberings give the same report exactly when they agree on the records it names. -/
theorem reportFrom_eq_iff {opts : LoadOptions} (number other : Located → ℕ)
    (earlier records : List Located) :
    reportFrom opts [] (earlier.map (numberedRow number)) (records.map (numberedRow number)) =
        reportFrom opts [] (earlier.map (numberedRow other)) (records.map (numberedRow other)) ↔
      ForNamed opts (fun record ↦ number record = other record) earlier records := by
  induction records generalizing earlier with
  | nil => simp [ForNamed]
  | cons record rest ih =>
    have hsnoc (n : Located → ℕ) : earlier.map (numberedRow n) ++ [numberedRow n record] =
        (earlier ++ [record]).map (numberedRow n) := by simp
    rw [List.map_cons, List.map_cons, reportFrom_cons, reportFrom_cons, hsnoc, hsnoc, ForNamed, ← ih]
    by_cases hsize : Oversized (earlier.map Located.fields) record.fields
    · rw [if_pos (overflows_numbered.mpr hsize), if_pos (overflows_numbered.mpr hsize)]
      constructor
      · intro h
        obtain ⟨hrow, hlast⟩ := List.append_inj' h rfl
        have hsame : number record = other record := by simpa [numberedRow] using hlast
        exact ⟨fun _ ↦ hsame, (rowErrors_eq_iff.mp hrow).2, fun hfits ↦ absurd hsize hfits⟩
      · rintro ⟨hrecord, hfirst, _⟩
        have hsame := hrecord (Or.inr hsize)
        rw [rowErrors_eq_iff.mpr ⟨fun _ ↦ hsame, hfirst⟩]
        simp [numberedRow, hsame]
    · rw [if_neg (mt overflows_numbered.mp hsize), if_neg (mt overflows_numbered.mp hsize)]
      constructor
      · intro h
        obtain ⟨hrow, hrest⟩ := List.append_inj h length_rowErrors_eq
        obtain ⟨hrecord, hfirst⟩ := rowErrors_eq_iff.mp hrow
        exact ⟨fun hnamed ↦ hrecord (hnamed.resolve_right hsize), hfirst, fun _ ↦ hrest⟩
      · rintro ⟨hrecord, hfirst, hrest⟩
        rw [rowErrors_eq_iff.mpr ⟨fun hfault ↦ hrecord (Or.inl hfault), hfirst⟩, hrest hsize]

/-! ## Reported and real lines -/

/-- What a reader delivers that stamps every record by the given numbering. -/
def stamped (number : Located → ℕ) (records : List Located) : Delivery :=
  ⟨records.map fun record ↦ ⟨record.fields, some (number record)⟩, .endOfInput⟩

theorem numberRows_stamped (number : Located → ℕ) (previous : Option ℕ) (records : List Located) :
    numberRows previous (stamped number records).records = records.map (numberedRow number) := by
  induction records generalizing previous with
  | nil => rfl
  | cons record rest ih => exact congrArg (numberedRow number record :: ·) (ih _)

theorem report_stamped (opts : LoadOptions) (number : Located → ℕ) (records : List Located) :
    report opts (stamped number records) =
      reportFrom opts [] [] (records.map (numberedRow number)) := by
  rw [report, numberRows_stamped]
  rfl

theorem report_stamped_eq_nil_iff {opts : LoadOptions} {number : Located → ℕ}
    {records : List Located} :
    report opts (stamped number records) = [] ↔ ¬Defect opts (records.map Located.fields) := by
  have hfields : (stamped number records).records.map ByteRecord.fields =
      records.map Located.fields := by
    rw [stamped, List.map_map]
    rfl
  rw [report_eq_nil_iff, exists_accepted_iff rfl, hfields]

/-- The grammar delivers the located records with its own stamps. -/
theorem grammar_eq_stamped (builder : ReaderBuilder) (data : Bytes) :
    grammar builder data = stamped (Located.stamp data) (located builder data) := by
  have hrecords := records_grammar builder data
  rw [stamped, ← hrecords]
  rfl

/-- The report on an input with every row under its real line. -/
def realReport (opts : LoadOptions) (data : Bytes) : List DataError :=
  report opts (stamped (Located.line data) (located ⟨opts.delimiter, opts.hasHeader⟩ data))

/-- The errors of a parse are those under the real lines exactly when no read of a record that they
name, or of the first record with its key, has skipped a line end. -/
theorem reported_lines_real_iff (csv : CsvReader) (process : Process) (data : Bytes)
    (opts : LoadOptions) (hcsv : csv ⟨opts.delimiter, opts.hasHeader⟩ data =
      grammar ⟨opts.delimiter, opts.hasHeader⟩ data) :
    (∀ errors, parseCsv csv process data opts = .ok (.error errors) →
      errors = realReport opts data) ↔
    ForNamed opts (fun record ↦ lf ∉ record.skipped data) []
      (located ⟨opts.delimiter, opts.hasHeader⟩ data) := by
  let records := located ⟨opts.delimiter, opts.hasHeader⟩ data
  have hstamps : report opts (stamped (Located.stamp data) records) = realReport opts data ↔
      ForNamed opts (fun record ↦ lf ∉ record.skipped data) [] records := by
    rw [realReport, report_stamped, report_stamped]
    refine (reportFrom_eq_iff (Located.stamp data) (Located.line data) [] records).trans
      (forNamed_congr fun record hrecord ↦ ?_)
    exact stamp_eq_line_iff hrecord
  rw [← hstamps, parseCsv_eq_ok, hcsv, grammar_eq_stamped, outcome]
  cases hreport : report opts (stamped (Located.stamp data) records) with
  | nil =>
    -- Nothing to report under one numbering is nothing to report under the other.
    have hreal : realReport opts data = [] :=
      report_stamped_eq_nil_iff.mpr (report_stamped_eq_nil_iff.mp hreport)
    simp [hreal]
  | cons error errors => simp

/-- Three lines of which the second is empty: the last row is reported on line 2. -/
theorem blank_line_misreported :
    let data : Bytes := [97, 44, 49, 10, 10, 98, 10]
    parseCsv Csv.grammar default data default = .ok (.error [⟨2, .wrongColumnCount 1⟩]) ∧
      realReport default data = [⟨3, .wrongColumnCount 1⟩] := by
  decide +kernel

-- Two lines that end with CR LF: the second row is reported on line 1.
example : parseCsv Csv.grammar default [97, 44, 49, 13, 10, 98, 13, 10] default =
    .ok (.error [⟨1, .wrongColumnCount 1⟩]) := by decide +kernel

/-- A value over two lines and then a repeated key: both lines of the report are right. -/
theorem reported_lines_real_iff_quoted :
    let data : Bytes := [97, 44, 34, 10, 34, 10, 97, 44, 49, 10]
    ∀ errors, parseCsv Csv.grammar default data default = .ok (.error errors) →
      errors = realReport default data := by
  intro data
  apply (reported_lines_real_iff Csv.grammar default data default rfl).mpr
  apply forNamed_of_forall
  decide +kernel

end JustKV
