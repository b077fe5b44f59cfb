import Mathlib.Data.List.Perm.Basic
import JustKV.Store.CsvFaithful
import JustKV.Store.Defects

/-!
# The order of the rows

Two inputs with the same rows in any order are accepted or rejected together.  Accepted, they make
stores that cannot be told apart; rejected without an overflow, their reports differ only in lines
and order.
-/

open Checked FirstOccurrence HashTable Utf8

namespace JustKV

open CsvLoader

theorem rowsSize_perm {rows rows' : List (List Bytes)} (h : rows.Perm rows') :
    rowsSize rows = rowsSize rows' :=
  (h.map _).sum_nat

/-- A defect of rows is one in any order. -/
theorem Defect.perm {opts : LoadOptions} {rows rows' : List (List Bytes)} (h : Defect opts rows)
    (hperm : rows.Perm rows') : Defect opts rows' := by
  cases h with
  | columns hrow hlength => exact .columns (hperm.mem_iff.mp hrow) hlength
  | duplicate hkeys =>
    have hsame := (hperm.filterMap rowKey).nodup_iff
    exact .duplicate fun hnodup ↦ hkeys (hsame.mpr hnodup)
  | value hrow hbinary hvalue => exact .value (hperm.mem_iff.mp hrow) hbinary hvalue
  | size hsize => exact .size (rowsSize_perm hperm ▸ hsize)

section Accepted

variable {opts : LoadOptions} {delivery delivery' : Delivery} {pairs pairs' : Dataset}

theorem accepted_perm (hending : delivery.ending = .endOfInput)
    (hending' : delivery'.ending = .endOfInput)
    (hperm : (delivery.records.map ByteRecord.fields).Perm
      (delivery'.records.map ByteRecord.fields)) :
    (∃ pairs, Accepted opts delivery pairs) ↔ ∃ pairs, Accepted opts delivery' pairs := by
  rw [exists_accepted_iff hending, exists_accepted_iff hending', not_iff_not]
  exact ⟨fun h ↦ h.perm hperm, fun h ↦ h.perm hperm.symm⟩

theorem pairs_perm (h : Accepted opts delivery pairs) (h' : Accepted opts delivery' pairs')
    (hperm : (delivery.records.map ByteRecord.fields).Perm
      (delivery'.records.map ByteRecord.fields)) : pairs.Perm pairs' := by
  have hinjective : Function.Injective pairRow := by
    rintro ⟨key, value⟩ ⟨key', value'⟩ hsame
    simpa [pairRow] using hsame
  rw [h.fields, h'.fields] at hperm
  exact (List.map_perm_map_iff hinjective).mp hperm

/-- The stores of two accepted orders of the same rows agree in every respect. -/
theorem stores_eq_of_perm (h : Accepted opts delivery pairs) (h' : Accepted opts delivery' pairs')
    (hperm : (delivery.records.map ByteRecord.fields).Perm
      (delivery'.records.map ByteRecord.fields)) (layout layout' : Layout Entry)
    (hasher hasher' : RandomState) :
    (h.parts.store layout hasher).len = (h'.parts.store layout' hasher').len ∧
      (h.parts.store layout hasher).arenaLen = (h'.parts.store layout' hasher').arenaLen ∧
      ∀ key, ∃ answer, (h.parts.store layout hasher).get key = .ok answer ∧
        (h'.parts.store layout' hasher').get key = .ok answer := by
  have hpairs := pairs_perm h h' hperm
  have hsize : pairs.size = pairs'.size := (hpairs.map _).sum_nat
  refine ⟨by simp [hpairs.length_eq], by simp [hsize], ?_⟩
  apply get_of_pairs_perm (sound_store _ _ _) (sound_store _ _ _)
  · simpa using hpairs
  · simpa using h.nodup

end Accepted

/-- The kind of an error without the line it refers to. -/
def DataError.withoutLine (error : DataError) : DataErrorKind :=
  match error.kind with
  | .duplicateKey key _ => .duplicateKey key 0
  | kind => kind

/-- The problems of a row by itself. -/
def ownErrors (opts : LoadOptions) (row : List Bytes) : List DataErrorKind :=
  match row with
  | [_, value] =>
      if !opts.allowBinary && (fromUtf8 value).isNone then [.invalidUtf8Value] else []
  | row => [.wrongColumnCount row.length]

/-- The problem of repeating a key. -/
def repeatError (key : Bytes) : DataErrorKind := .duplicateKey (fromUtf8Lossy key) 0

section Reports

variable {opts : LoadOptions}

/-- A row is reported for repeating a key and for what is wrong with it alone. -/
theorem map_withoutLine_rowErrors (earlier : List NumberedRow) (row : NumberedRow) :
    (rowErrors opts earlier row).map DataError.withoutLine =
      ((repeats NumberedRow.key? earlier row).map repeatError).toList ++
        ownErrors opts row.fields := by
  obtain ⟨fields, line⟩ := row
  match fields with
  | [] => rfl
  | [_] => rfl
  | _ :: _ :: _ :: _ => rfl
  | [key, value] =>
    have hkey : NumberedRow.key? ⟨[key, value], line⟩ = some key := rfl
    have hvalue : (valueErrors opts line value).map DataError.withoutLine =
        ownErrors opts [key, value] := by
      cases hinvalid : !opts.allowBinary && (fromUtf8 value).isNone <;>
        simp [valueErrors, ownErrors, hinvalid, DataError.withoutLine]
    simp only [rowErrors, List.map_append, hvalue, repeats, isFirst, hkey]
    cases firstWith NumberedRow.key? earlier key <;> rfl

/-- A report without an overflow takes in every row. -/
theorem reportFrom_of_fits {earlier rows : List NumberedRow}
    (h : ∀ error ∈ reportFrom opts [] earlier rows, error.kind ≠ .tooLarge) :
    reportFrom opts [] earlier rows =
      (withEarlier earlier rows).flatMap fun step ↦ rowErrors opts step.1 step.2 := by
  induction rows generalizing earlier with
  | nil => rfl
  | cons row rest ih =>
    rw [reportFrom_cons] at h ⊢
    cases hfits : overflows earlier row with
    | true =>
      rw [hfits, if_pos rfl] at h
      exact absurd rfl (h ⟨row.line, .tooLarge⟩ (by simp))
    | false =>
      rw [hfits, if_neg Bool.false_ne_true] at h
      rw [if_neg Bool.false_ne_true, ih fun error herror ↦ h error (List.mem_append_right _ herror),
        withEarlier, List.flatMap_cons]

/-- Up to lines and order, such a report lists the problems of each row alone and the repeated
keys. -/
theorem reportFrom_perm {rows : List NumberedRow}
    (h : ∀ error ∈ reportFrom opts [] [] rows, error.kind ≠ .tooLarge) :
    ((reportFrom opts [] [] rows).map DataError.withoutLine).Perm
      ((repeated rowKey (rows.map NumberedRow.fields)).map repeatError ++
        (rows.map NumberedRow.fields).flatMap (ownErrors opts)) := by
  have hrepeated : (withEarlier [] rows).flatMap (fun step ↦
      ((repeats NumberedRow.key? step.1 step.2).map repeatError).toList) =
        (repeated rowKey (rows.map NumberedRow.fields)).map repeatError := by
    have hkey : (fun row : NumberedRow ↦ rowKey row.fields) = NumberedRow.key? := by
      funext row
      exact (key?_eq_rowKey row).symm
    rw [repeated_map, hkey, repeated, List.map_filterMap, List.filterMap_eq_flatMap_toList]
  have hown : (withEarlier [] rows).flatMap (fun step ↦ ownErrors opts step.2.fields) =
      (rows.map NumberedRow.fields).flatMap (ownErrors opts) := by
    rw [List.flatMap_map]
    conv_rhs => rw [← map_snd_withEarlier [] rows]
    rw [List.flatMap_map]
  rw [reportFrom_of_fits h, List.map_flatMap, ← hrepeated, ← hown]
  simp only [map_withoutLine_rowErrors]
  exact (List.flatMap_append_perm _ _ _).symm

/-- Reports without an overflow on the same rows agree up to lines and order. -/
theorem reports_perm {delivery delivery' : Delivery} (hending : delivery.ending = .endOfInput)
    (hending' : delivery'.ending = .endOfInput)
    (hperm : (delivery.records.map ByteRecord.fields).Perm
      (delivery'.records.map ByteRecord.fields))
    (hfits : ∀ error ∈ report opts delivery, error.kind ≠ .tooLarge)
    (hfits' : ∀ error ∈ report opts delivery', error.kind ≠ .tooLarge) :
    ((report opts delivery).map DataError.withoutLine).Perm
      ((report opts delivery').map DataError.withoutLine) := by
  rw [report, hending] at hfits ⊢
  rw [report, hending'] at hfits' ⊢
  have hleft := reportFrom_perm hfits
  have hright := reportFrom_perm hfits'
  rw [map_fields_numberRows] at hleft hright
  refine hleft.trans (List.Perm.trans ?_ hright.symm)
  exact ((repeated_perm rowKey hperm).map repeatError).append (hperm.flatMap_right _)

/-- A kind of error that does not depend on a line is counted the same in both reports. -/
theorem countP_of_withoutLine {errors errors' : List DataError}
    (h : (errors.map DataError.withoutLine).Perm (errors'.map DataError.withoutLine))
    (counted : DataErrorKind → Bool)
    (hcounted : ∀ error : DataError, counted error.withoutLine = counted error.kind) :
    errors.countP (fun error ↦ counted error.kind) =
      errors'.countP fun error ↦ counted error.kind := by
  have hmap (errors : List DataError) : errors.countP (fun error ↦ counted error.kind) =
      (errors.map DataError.withoutLine).countP counted := by
    rw [List.countP_map]
    congr 1
    funext error
    exact (hcounted error).symm
  rw [hmap, hmap, h.countP_eq]

end Reports

/-- The error repeats a key with this text. -/
def DataErrorKind.repeatsText (text : String) : DataErrorKind → Bool
  | .duplicateKey key _ => key = text
  | _ => false

/-- The order of the rows decides neither whether they are accepted nor what the store answers, as it
always does, nor, unless a report ends in an overflow, how many errors of each kind there are. -/
theorem row_order_irrelevant (csv csv' : CsvReader) (process process' : Process)
    (data data' : Bytes) (opts : LoadOptions)
    (hending : (csv ⟨opts.delimiter, opts.hasHeader⟩ data).ending = .endOfInput)
    (hending' : (csv' ⟨opts.delimiter, opts.hasHeader⟩ data').ending = .endOfInput)
    (hperm : ((csv ⟨opts.delimiter, opts.hasHeader⟩ data).records.map ByteRecord.fields).Perm
      ((csv' ⟨opts.delimiter, opts.hasHeader⟩ data').records.map ByteRecord.fields)) :
    ((∃ parts, parseCsv csv process data opts = .ok (.ok parts)) ↔
      ∃ parts, parseCsv csv' process' data' opts = .ok (.ok parts)) ∧
    (∀ arena entries arena' entries',
      parseCsv csv process data opts = .ok (.ok (arena, entries)) →
      parseCsv csv' process' data' opts = .ok (.ok (arena', entries')) →
      ∀ layout hasher layout' hasher', ∃ store store',
        Store.fromParts layout hasher arena entries = .ok store ∧
        Store.fromParts layout' hasher' arena' entries' = .ok store' ∧
        store.len = store'.len ∧ store.arenaLen = store'.arenaLen ∧
        ∀ key, ∃ answer, store.get key = .ok answer ∧ store'.get key = .ok answer) ∧
    (∀ errors errors',
      parseCsv csv process data opts = .ok (.error errors) →
      parseCsv csv' process' data' opts = .ok (.error errors') →
      (∀ error ∈ errors, error.kind ≠ .tooLarge) → (∀ error ∈ errors', error.kind ≠ .tooLarge) →
      (∀ found, errors.countP (fun error ↦ error.kind = .wrongColumnCount found) =
        errors'.countP fun error ↦ error.kind = .wrongColumnCount found) ∧
      errors.countP (fun error ↦ error.kind = .invalidUtf8Value) =
        errors'.countP (fun error ↦ error.kind = .invalidUtf8Value) ∧
      ∀ text, errors.countP (fun error ↦ error.kind.repeatsText text) =
        errors'.countP fun error ↦ error.kind.repeatsText text) := by
  refine ⟨?_, ?_, ?_⟩
  · rw [parseCsv_accepts_iff, parseCsv_accepts_iff]
    exact accepted_perm hending hending' hperm
  · intro arena entries arena' entries' hparse hparse' layout hasher layout' hasher'
    obtain ⟨pairs, haccepted, rfl, rfl⟩ := parts_of_parseCsv hparse
    obtain ⟨pairs', haccepted', rfl, rfl⟩ := parts_of_parseCsv hparse'
    exact ⟨_, _, fromParts_eq_ok haccepted.parts layout hasher,
      fromParts_eq_ok haccepted'.parts layout' hasher',
      stores_eq_of_perm haccepted haccepted' hperm layout layout' hasher hasher'⟩
  · intro errors errors' hparse hparse' hfits hfits'
    obtain rfl := errors_of_parseCsv hparse
    obtain rfl := errors_of_parseCsv hparse'
    have hreports := reports_perm hending hending' hperm hfits hfits'
    refine ⟨fun found ↦ ?_, ?_, fun text ↦ ?_⟩
    · apply countP_of_withoutLine hreports fun kind ↦ kind = .wrongColumnCount found
      rintro ⟨line, kind⟩
      cases kind <;> simp [DataError.withoutLine]
    · apply countP_of_withoutLine hreports fun kind ↦ kind = .invalidUtf8Value
      rintro ⟨line, kind⟩
      cases kind <;> simp [DataError.withoutLine]
    · apply countP_of_withoutLine hreports (DataErrorKind.repeatsText text)
      rintro ⟨line, kind⟩
      cases kind <;> rfl

/-- Three rows in two orders: the key `a` is reported once in both. -/
theorem row_order_irrelevant_rejected :
    ∃ errors errors',
      parseCsv Csv.grammar default [97, 44, 49, 10, 98, 10, 97, 44, 50, 10] default =
        .ok (.error errors) ∧
      parseCsv Csv.grammar default [97, 44, 50, 10, 97, 44, 49, 10, 98, 10] default =
        .ok (.error errors') ∧
      errors.countP (fun error ↦ error.kind.repeatsText "a") =
        errors'.countP fun error ↦ error.kind.repeatsText "a" := by
  have hparse : parseCsv Csv.grammar default [97, 44, 49, 10, 98, 10, 97, 44, 50, 10] default =
      .ok (.error [⟨2, .wrongColumnCount 1⟩, ⟨3, .duplicateKey "a" 1⟩]) := by decide +kernel
  have hparse' : parseCsv Csv.grammar default [97, 44, 50, 10, 97, 44, 49, 10, 98, 10] default =
      .ok (.error [⟨2, .duplicateKey "a" 1⟩, ⟨3, .wrongColumnCount 1⟩]) := by decide +kernel
  refine ⟨_, _, hparse, hparse', ?_⟩
  exact ((row_order_irrelevant Csv.grammar Csv.grammar default default _ _ default rfl rfl
    (by decide)).2.2 _ _ hparse hparse' (by decide) (by decide)).2.2 "a"

end JustKV
