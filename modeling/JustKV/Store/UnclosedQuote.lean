import JustKV.Csv.Scan
import JustKV.Store.Defects

/-!
# Unclosed quotes

A quoted field that the input never closes runs to the end of the input, and the reader delivers
it like any other field.  The parser does not look for this case, so the input is rejected only if
the rows it is read as have some other defect.
-/

open Checked Utf8

namespace JustKV

namespace Csv

/-- The delimiters for which the grammar is meant. -/
def Plain (delimiter : UInt8) : Prop := delimiter ≠ quote ∧ delimiter ≠ cr ∧ delimiter ≠ lf

instance (delimiter : UInt8) : Decidable (Plain delimiter) := inferInstanceAs (Decidable (_ ∧ _))

/-- A field is opened by a quote that is not closed before the end of the input. -/
def Unclosed (delimiter : UInt8) (data : Bytes) : Prop :=
  (scan delimiter .start (dropBom data)).1.mode = .inQuotedField

instance (delimiter : UInt8) (data : Bytes) : Decidable (Unclosed delimiter data) :=
  inferInstanceAs (Decidable (_ = _))

end Csv

open Csv

/-- The rows before the end of the input and the row that holds the open field, which has taken in
everything after its quote. -/
def swallowedRows (opts : LoadOptions) (data : Bytes) : List (List Bytes) :=
  let (state, records) := scan opts.delimiter .start (dropBom data)
  let rows := records.map ByteRecord.fields ++ [state.fields ++ [state.field]]
  if opts.hasHeader then rows.drop 1 else rows

theorem fields_of_unclosed {opts : LoadOptions} {data : Bytes}
    (h : Unclosed opts.delimiter data) :
    (grammar ⟨opts.delimiter, opts.hasHeader⟩ data).records.map ByteRecord.fields =
      swallowedRows opts data := by
  have hopen : (scan opts.delimiter .start (dropBom data)).1.atEnd =
      [(scan opts.delimiter .start (dropBom data)).1.record] := by
    have hmode : (scan opts.delimiter .start (dropBom data)).1.mode ≠ .startRecord := by
      rw [h]
      decide
    rw [State.atEnd, if_neg hmode]
  rw [grammar, readAll_eq_scan, hopen, swallowedRows]
  cases opts.hasHeader <;> simp [State.record]

/-- An input with an unclosed quote is rejected exactly when the rows it is read as have a defect:
a row that is not a pair, a repeated key, a forbidden value or too many bytes. -/
theorem unclosed_quote_rejected_iff (csv : CsvReader) (process : Process) (data : Bytes)
    (opts : LoadOptions) (hcsv : ∀ builder, Plain builder.delimiter → Follows csv builder)
    (hdelimiter : Plain opts.delimiter) (hunclosed : Unclosed opts.delimiter data) :
    (∃ errors, parseCsv csv process data opts = .ok (.error errors)) ↔
      Defect opts (swallowedRows opts data) := by
  obtain ⟨hfields, hending⟩ := hcsv ⟨opts.delimiter, opts.hasHeader⟩ hdelimiter data
  rw [parseCsv_rejects_iff, exists_accepted_iff hending, not_not, hfields,
    fields_of_unclosed hunclosed]

/-- A stray quote before the value of the first row swallows the second row, and the parse accepts
one pair. -/
theorem unclosed_quote_accepted :
    let data : Bytes := [97, 44, 34, 49, 10, 98, 44, 50, 10]
    Plain 44 ∧ Unclosed 44 data ∧
      parseCsv Csv.grammar default data default =
        .ok (.ok ([97, 49, 10, 98, 44, 50, 10], [⟨0, 1, 1, 6⟩])) := by
  refine ⟨by decide, by decide, by decide +kernel⟩

/-- A stray quote before a key makes a row of one field. -/
theorem unclosed_quote_rejected_key :
    ∃ errors, parseCsv Csv.grammar default [34, 97, 44, 49, 10, 98, 44, 50, 10] default =
      .ok (.error errors) := by
  apply (unclosed_quote_rejected_iff Csv.grammar default _ default (fun _ _ ↦ follows_grammar _)
    (by decide) (by decide)).mpr
  exact .columns (show ([[97, 44, 49, 10, 98, 44, 50, 10]] : List Bytes) ∈ _ by decide) (by decide)

end JustKV
