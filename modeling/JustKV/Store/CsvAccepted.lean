import JustKV.Store.CsvRefinement

/-!
# Accepted inputs

A parse accepts exactly the deliveries that spell a dataset: every record is a pair, no key
repeats, all bytes together stay within `u32`, and the values are UTF-8 unless binary values are
allowed.  The parts it then returns are that dataset packed in row order.
-/

open Checked FirstOccurrence Utf8

namespace JustKV

/-- The delivery spells the dataset, and the options allow it. -/
structure Accepted (opts : LoadOptions) (delivery : Delivery) (pairs : Dataset) : Prop where
  fields : delivery.records.map ByteRecord.fields = pairs.map fun pair ↦ [pair.1, pair.2]
  ending : delivery.ending = .endOfInput
  nodup : pairs.keys.Nodup
  size_le : pairs.size ≤ u32Max
  utf8 : ∀ pair ∈ pairs, opts.allowBinary = true ∨ (fromUtf8 pair.2).isSome

namespace CsvLoader

variable {opts : LoadOptions}

@[simp] theorem map_fields_numberRows (previous : Option ℕ) (records : List ByteRecord) :
    (numberRows previous records).map NumberedRow.fields = records.map ByteRecord.fields := by
  induction records generalizing previous with
  | nil => rfl
  | cons record rest ih => rw [numberRows, List.map_cons, ih, List.map_cons]; rfl

theorem valueErrors_eq_nil {line : ℕ} {value : Bytes} :
    valueErrors opts line value = [] ↔ opts.allowBinary = true ∨ (fromUtf8 value).isSome := by
  cases hbinary : opts.allowBinary <;> cases hvalid : fromUtf8 value <;>
    simp [valueErrors, hbinary, hvalid]

/-- A row without problems is a pair with a new key and an allowed value. -/
theorem rowErrors_eq_nil {earlier : List NumberedRow} {row : NumberedRow} :
    rowErrors opts earlier row = [] ↔
      ∃ key value, row.fields = [key, value] ∧ firstWith NumberedRow.key? earlier key = none ∧
        (opts.allowBinary = true ∨ (fromUtf8 value).isSome) := by
  unfold rowErrors
  split
  case h_1 key value hfields =>
    rw [List.append_eq_nil_iff, valueErrors_eq_nil]
    constructor
    · rintro ⟨hnone, hvalue⟩
      refine ⟨key, value, hfields, ?_, hvalue⟩
      simpa using hnone
    · rintro ⟨key', value', hfields', hnone, hvalue⟩
      obtain ⟨rfl, rfl⟩ : key = key' ∧ value = value' := by simpa [hfields] using hfields'
      simpa [hnone] using hvalue
  case h_2 hfields =>
    constructor
    · simp
    · rintro ⟨key, value, hpair, _⟩
      exact absurd hpair (hfields key value)

/-- A pair with a new key joins the kept pairs. -/
theorem keptPairs_append {earlier : List NumberedRow} {row : NumberedRow} {key value : Bytes}
    (hfields : row.fields = [key, value])
    (hnew : firstWith NumberedRow.key? earlier key = none) :
    keptPairs (earlier ++ [row]) = keptPairs earlier ++ [(key, value)] := by
  have hfirst : isFirst NumberedRow.key? earlier row = true := by
    simp [isFirst, key?_eq_some hfields, hnew]
  exact keptPairs_append_of_isFirst hfirst (row?_eq_some hfields)

/-- A pair with a new key overflows exactly when the kept pairs would. -/
theorem overflows_eq_false {earlier : List NumberedRow} {row : NumberedRow} {key value : Bytes}
    (hfields : row.fields = [key, value])
    (hnew : firstWith NumberedRow.key? earlier key = none) :
    overflows earlier row = false ↔ (keptPairs (earlier ++ [row])).size ≤ u32Max := by
  have hfirst : isFirst NumberedRow.key? earlier row = true := by
    simp [isFirst, key?_eq_some hfields, hnew]
  rw [keptPairs_append hfields hnew, overflows, row?_eq_some hfields, hfirst]
  simp [size_append, Nat.add_assoc]

/-- An empty report keeps every row. -/
theorem of_reportFrom_eq_nil {atEnd : List DataError} {earlier rows : List NumberedRow}
    (h : reportFrom opts atEnd earlier rows = []) (hsize : (keptPairs earlier).size ≤ u32Max) :
    atEnd = [] ∧ (keptPairs (earlier ++ rows)).size ≤ u32Max ∧
      ∃ pairs, rows.map NumberedRow.fields = pairs.map (fun pair ↦ [pair.1, pair.2]) ∧
        keptPairs (earlier ++ rows) = keptPairs earlier ++ pairs ∧
        ∀ pair ∈ pairs, opts.allowBinary = true ∨ (fromUtf8 pair.2).isSome := by
  induction rows generalizing earlier with
  | nil => exact ⟨h, by simpa using hsize, [], rfl, by simp, by simp⟩
  | cons row rest ih =>
    rw [reportFrom_cons, List.append_eq_nil_iff] at h
    obtain ⟨key, value, hfields, hnew, hvalue⟩ := rowErrors_eq_nil.mp h.1
    cases hfits : overflows earlier row with
    | true => simp [hfits] at h
    | false =>
      rw [hfits, if_neg Bool.false_ne_true] at h
      have hsize' := (overflows_eq_false hfields hnew).mp hfits
      obtain ⟨hend, hsizeAll, pairs, hmap, hkept, hvalid⟩ := ih h.2 hsize'
      have hassoc : earlier ++ row :: rest = earlier ++ [row] ++ rest := by simp
      refine ⟨hend, hassoc ▸ hsizeAll, (key, value) :: pairs, ?_, ?_, ?_⟩
      · rw [List.map_cons, hmap, hfields, List.map_cons]
      · rw [hassoc, hkept, keptPairs_append hfields hnew, List.append_assoc, List.singleton_append]
      · intro pair hpair
        rcases List.mem_cons.mp hpair with rfl | htail
        · exact hvalue
        · exact hvalid pair htail

/-- A key that the kept pairs do not have is new. -/
theorem new_of_nodup {earlier : List NumberedRow} {pair : Bytes × Bytes} {pairs : Dataset}
    (hnodup : (keptPairs earlier ++ pair :: pairs).keys.Nodup) :
    firstWith NumberedRow.key? earlier pair.1 = none := by
  apply firstWith_eq_none_of_keptRows
  intro kept hkept hkey
  rw [Dataset.keys, List.map_append, List.nodup_append] at hnodup
  exact hnodup.2.2 kept.key (List.mem_map.mpr ⟨kept.pair, List.mem_map_of_mem hkept, rfl⟩)
    pair.1 (by simp) hkey

/-- Pairs with new keys and allowed values that fit leave nothing to report. -/
theorem reportFrom_eq_nil {earlier rows : List NumberedRow} {pairs : Dataset}
    (hmap : rows.map NumberedRow.fields = pairs.map fun pair ↦ [pair.1, pair.2])
    (hnodup : (keptPairs earlier ++ pairs).keys.Nodup)
    (hsize : (keptPairs earlier ++ pairs).size ≤ u32Max)
    (hvalid : ∀ pair ∈ pairs, opts.allowBinary = true ∨ (fromUtf8 pair.2).isSome) :
    reportFrom opts [] earlier rows = [] ∧ keptPairs (earlier ++ rows) = keptPairs earlier ++ pairs := by
  induction rows generalizing earlier pairs with
  | nil =>
    obtain rfl : pairs = [] := by simpa using hmap.symm
    simp
  | cons row rest ih =>
    cases pairs with
    | nil => simp at hmap
    | cons pair pairs =>
      obtain ⟨hfields, hrest⟩ : row.fields = [pair.1, pair.2] ∧ rest.map NumberedRow.fields =
          pairs.map fun pair ↦ [pair.1, pair.2] := by simpa using hmap
      have hnew := new_of_nodup hnodup
      have hkept := keptPairs_append hfields hnew
      have hassoc : keptPairs earlier ++ pair :: pairs =
          keptPairs (earlier ++ [row]) ++ pairs := by
        rw [hkept, List.append_assoc, List.singleton_append]
      have hfits : overflows earlier row = false := by
        rw [overflows_eq_false hfields hnew]
        rw [hassoc, size_append] at hsize
        omega
      obtain ⟨hreport, hall⟩ := ih hrest (hassoc ▸ hnodup) (hassoc ▸ hsize)
        fun other hother ↦ hvalid other (List.mem_cons_of_mem _ hother)
      constructor
      · rw [reportFrom_cons, rowErrors_eq_nil.mpr ⟨pair.1, pair.2, hfields, hnew, hvalid pair (by simp)⟩,
          hfits, if_neg Bool.false_ne_true, hreport, List.nil_append]
      · rw [← List.singleton_append, ← List.append_assoc, hall, hkept, List.append_assoc]
        rfl

/-- A delivery that spells a dataset leaves nothing to report, and its pairs are kept. -/
theorem reportFrom_of_accepted {delivery : Delivery} {pairs : Dataset}
    (h : Accepted opts delivery pairs) :
    reportFrom opts [] [] (numberRows none delivery.records) = [] ∧
      keptPairs (numberRows none delivery.records) = pairs := by
  have hmap := (map_fields_numberRows none delivery.records).trans h.fields
  have hnodup : (keptPairs [] ++ pairs).keys.Nodup := h.nodup
  have hsize : (keptPairs [] ++ pairs).size ≤ u32Max := h.size_le
  exact reportFrom_eq_nil hmap hnodup hsize h.utf8

/-- Nothing is reported exactly on the deliveries that spell a dataset. -/
theorem report_eq_nil_iff {delivery : Delivery} :
    report opts delivery = [] ↔ ∃ pairs, Accepted opts delivery pairs := by
  constructor
  · intro h
    obtain ⟨hend, hsize, pairs, hmap, hkept, hvalid⟩ := of_reportFrom_eq_nil h (Nat.zero_le _)
    have hpairs : keptPairs (numberRows none delivery.records) = pairs := hkept
    refine ⟨pairs, ⟨by rw [← hmap, map_fields_numberRows], ?_, ?_, hpairs ▸ hsize, hvalid⟩⟩
    · cases hending : delivery.ending with
      | endOfInput => rfl
      | error message => simp [endErrors, hending] at hend
    · exact hpairs ▸ nodup_keptPairs _
  · rintro ⟨pairs, h⟩
    rw [report, h.ending]
    exact (reportFrom_of_accepted h).1

end CsvLoader

open CsvLoader

/-- A parse returns parts exactly for the datasets the delivery may spell. -/
theorem outcome_eq_ok_iff {opts : LoadOptions} {delivery : Delivery} {parts : Bytes × List Entry} :
    outcome opts delivery = .ok parts ↔
      ∃ pairs, Accepted opts delivery pairs ∧ parts = (packed pairs, layoutFrom 0 pairs) := by
  unfold outcome
  constructor
  · intro h
    split at h
    case isTrue hnil =>
      obtain ⟨pairs, hpairs⟩ := report_eq_nil_iff.mp (List.isEmpty_iff.mp hnil)
      rw [(reportFrom_of_accepted hpairs).2] at h
      exact ⟨pairs, hpairs, (Except.ok.inj h).symm⟩
    case isFalse => simp at h
  · rintro ⟨pairs, hpairs, rfl⟩
    rw [report_eq_nil_iff.mpr ⟨pairs, hpairs⟩, (reportFrom_of_accepted hpairs).2]
    rfl

theorem parseCsv_eq_ok_ok_iff {csv : CsvReader} {process : Process} {data : Bytes}
    {opts : LoadOptions} {parts : Bytes × List Entry} :
    parseCsv csv process data opts = .ok (.ok parts) ↔
      ∃ pairs, Accepted opts (csv ⟨opts.delimiter, opts.hasHeader⟩ data) pairs ∧
        parts = (packed pairs, layoutFrom 0 pairs) := by
  rw [parseCsv_eq_ok, Except.ok.injEq, outcome_eq_ok_iff]

theorem parseCsv_accepts_iff {csv : CsvReader} {process : Process} {data : Bytes}
    {opts : LoadOptions} :
    (∃ parts, parseCsv csv process data opts = .ok (.ok parts)) ↔
      ∃ pairs, Accepted opts (csv ⟨opts.delimiter, opts.hasHeader⟩ data) pairs := by
  simp only [parseCsv_eq_ok_ok_iff]
  constructor
  · rintro ⟨parts, pairs, haccepted, _⟩
    exact ⟨pairs, haccepted⟩
  · rintro ⟨pairs, haccepted⟩
    exact ⟨_, pairs, haccepted, rfl⟩

/-- The errors of a parse are the report on what the reader delivers. -/
theorem errors_of_parseCsv {csv : CsvReader} {process : Process} {data : Bytes}
    {opts : LoadOptions} {errors : List DataError}
    (h : parseCsv csv process data opts = .ok (.error errors)) :
    errors = report opts (csv ⟨opts.delimiter, opts.hasHeader⟩ data) := by
  rw [parseCsv_eq_ok, Except.ok.injEq, outcome] at h
  split at h
  · simp at h
  · exact (Except.error.inj h).symm

/-- A parse rejects exactly the deliveries that spell no dataset the options allow. -/
theorem parseCsv_rejects_iff {csv : CsvReader} {process : Process} {data : Bytes}
    {opts : LoadOptions} :
    (∃ errors, parseCsv csv process data opts = .ok (.error errors)) ↔
      ¬∃ pairs, Accepted opts (csv ⟨opts.delimiter, opts.hasHeader⟩ data) pairs := by
  rw [parseCsv_eq_ok]
  cases houtcome : outcome opts (csv ⟨opts.delimiter, opts.hasHeader⟩ data) with
  | ok parts =>
    obtain ⟨pairs, haccepted, _⟩ := outcome_eq_ok_iff.mp houtcome
    simpa using ⟨pairs, haccepted⟩
  | error errors =>
    refine iff_of_true ⟨errors, rfl⟩ ?_
    rintro ⟨pairs, haccepted⟩
    rw [outcome_eq_ok_iff.mpr ⟨pairs, haccepted, rfl⟩] at houtcome
    simp at houtcome

end JustKV
