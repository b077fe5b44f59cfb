import Mathlib.Data.Set.List
import JustKV.Store.CsvAccepted

/-!
# Defects of rows

What can be wrong with the rows of an input, without their order or their lines: a row that is not
a pair, a repeated key, a value that has to be UTF-8 and is not, and too many bytes.  An input
whose reading ends properly is accepted exactly when its rows have no defect.
-/

open Checked Utf8

namespace JustKV

/-- The key of a row of two fields. -/
def rowKey : List Bytes → Option Bytes
  | [key, _] => some key
  | _ => none

theorem key?_eq_rowKey (row : CsvLoader.NumberedRow) : row.key? = rowKey row.fields := by
  obtain ⟨fields, line⟩ := row
  match fields with
  | [] => rfl
  | [_] => rfl
  | [_, _] => rfl
  | _ :: _ :: _ :: _ => rfl

/-- The bytes of all fields. -/
def rowsSize (rows : List (List Bytes)) : ℕ :=
  (rows.map fun row ↦ (row.map List.length).sum).sum

inductive Defect (opts : LoadOptions) (rows : List (List Bytes)) : Prop
  | columns {row : List Bytes} (hrow : row ∈ rows) (hlength : row.length ≠ 2)
  | duplicate (hkeys : ¬(rows.filterMap rowKey).Nodup)
  | value {key value : Bytes} (hrow : [key, value] ∈ rows) (hbinary : opts.allowBinary = false)
      (hvalue : fromUtf8 value = none)
  | size (hsize : u32Max < rowsSize rows)

/-- The row of a pair. -/
def pairRow (pair : Bytes × Bytes) : List Bytes := [pair.1, pair.2]

section Pairs

variable {opts : LoadOptions} {rows : List (List Bytes)} {pairs : Dataset}

@[simp] theorem filterMap_rowKey_pairs (pairs : Dataset) :
    (pairs.map pairRow).filterMap rowKey = pairs.keys := by
  rw [List.filterMap_map, Dataset.keys, ← List.filterMap_eq_map]
  rfl

@[simp] theorem rowsSize_pairs (pairs : Dataset) : rowsSize (pairs.map pairRow) = pairs.size := by
  simp [rowsSize, Dataset.size, pairRow, Function.comp_def]

theorem exists_pairs (h : ∀ row ∈ rows, row.length = 2) :
    ∃ pairs : Dataset, rows = pairs.map pairRow := by
  have hrange : rows ∈ Set.range (List.map pairRow) := by
    rw [Set.range_list_map]
    intro row hrow
    obtain ⟨key, value, rfl⟩ := List.length_eq_two.mp (h row hrow)
    exact ⟨(key, value), rfl⟩
  obtain ⟨pairs, hpairs⟩ := hrange
  exact ⟨pairs, hpairs.symm⟩

/-- The rows of pairs have no defect exactly when the pairs may be loaded. -/
theorem not_defect_pairs : ¬Defect opts (pairs.map pairRow) ↔
    pairs.keys.Nodup ∧ pairs.size ≤ u32Max ∧
      ∀ pair ∈ pairs, opts.allowBinary = true ∨ (fromUtf8 pair.2).isSome := by
  constructor
  · intro h
    refine ⟨?_, ?_, ?_⟩
    · by_contra hdup
      exact h (.duplicate (by rwa [filterMap_rowKey_pairs]))
    · by_contra hsize
      exact h (.size (by rw [rowsSize_pairs]; omega))
    · intro pair hpair
      by_contra hvalue
      rw [not_or, Bool.not_eq_true, Option.not_isSome_iff_eq_none] at hvalue
      exact h (.value (List.mem_map_of_mem hpair) hvalue.1 hvalue.2)
  · rintro ⟨hnodup, hsize, hutf8⟩ hdefect
    cases hdefect with
    | columns hrow hlength =>
      obtain ⟨pair, _, rfl⟩ := List.mem_map.mp hrow
      exact hlength rfl
    | duplicate hkeys => exact hkeys (by rwa [filterMap_rowKey_pairs])
    | value hrow hbinary hvalue =>
      obtain ⟨pair, hpair, hfields⟩ := List.mem_map.mp hrow
      obtain ⟨rfl, rfl⟩ := by simpa [pairRow] using hfields
      simpa [hbinary, hvalue] using hutf8 pair hpair
    | size hlarge =>
      rw [rowsSize_pairs] at hlarge
      omega

end Pairs

/-- A delivery without reader error spells a dataset exactly when its rows have no defect. -/
theorem exists_accepted_iff {opts : LoadOptions} {delivery : Delivery}
    (hending : delivery.ending = .endOfInput) :
    (∃ pairs, Accepted opts delivery pairs) ↔
      ¬Defect opts (delivery.records.map ByteRecord.fields) := by
  constructor
  · rintro ⟨pairs, h⟩
    rw [h.fields]
    exact not_defect_pairs.mpr ⟨h.nodup, h.size_le, h.utf8⟩
  · intro h
    have hlength : ∀ row ∈ delivery.records.map ByteRecord.fields, row.length = 2 := by
      intro row hrow
      by_contra hlength
      exact h (.columns hrow hlength)
    obtain ⟨pairs, hpairs⟩ := exists_pairs hlength
    rw [hpairs] at h
    obtain ⟨hnodup, hsize, hutf8⟩ := not_defect_pairs.mp h
    exact ⟨pairs, hpairs, hending, hnodup, hsize, hutf8⟩

section Large

open CsvLoader

variable {opts : LoadOptions}

/-- Pairs with new keys and allowed values that do not fit leave one problem to report. -/
theorem reportFrom_tooLarge {atEnd : List DataError} {earlier rows : List NumberedRow}
    {pairs : Dataset} (hmap : rows.map NumberedRow.fields = pairs.map pairRow)
    (hnodup : (keptPairs earlier ++ pairs).keys.Nodup) (hfits : (keptPairs earlier).size ≤ u32Max)
    (hlarge : u32Max < (keptPairs earlier ++ pairs).size)
    (hvalid : ∀ pair ∈ pairs, opts.allowBinary = true ∨ (fromUtf8 pair.2).isSome) :
    ∃ row ∈ rows, reportFrom opts atEnd earlier rows = [⟨row.line, .tooLarge⟩] := by
  induction rows generalizing earlier pairs with
  | nil =>
    obtain rfl : pairs = [] := by simpa using hmap.symm
    rw [List.append_nil] at hlarge
    omega
  | cons row rest ih =>
    cases pairs with
    | nil => simp at hmap
    | cons pair pairs =>
      obtain ⟨hfields, hrest⟩ : row.fields = [pair.1, pair.2] ∧
          rest.map NumberedRow.fields = pairs.map pairRow := by simpa [pairRow] using hmap
      have hnew := new_of_nodup hnodup
      have herrors : rowErrors opts earlier row = [] :=
        rowErrors_eq_nil.mpr ⟨pair.1, pair.2, hfields, hnew, hvalid pair List.mem_cons_self⟩
      rw [reportFrom_cons, herrors, List.nil_append]
      cases hover : overflows earlier row with
      | true => exact ⟨row, List.mem_cons_self, rfl⟩
      | false =>
        have hassoc :
            keptPairs earlier ++ pair :: pairs = keptPairs (earlier ++ [row]) ++ pairs := by
          rw [keptPairs_append hfields hnew, List.append_assoc, List.singleton_append]
        obtain ⟨stop, hstop, hreport⟩ := ih hrest (hassoc ▸ hnodup)
          ((overflows_eq_false hfields hnew).mp hover) (hassoc ▸ hlarge)
          fun other hother ↦ hvalid other (List.mem_cons_of_mem _ hother)
        exact ⟨stop, List.mem_cons_of_mem _ hstop, hreport⟩

end Large

end JustKV
