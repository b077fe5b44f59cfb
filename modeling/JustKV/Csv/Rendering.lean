import JustKV.Csv.Writer

/-!
# All ways of writing rows

A row can be written in many ways: each field as it is or in quotes, with any delimiter, CR, LF or
both at the end of a line, blank lines anywhere, a byte order mark at the start.  The grammar reads
all of them back as the same row.
-/

namespace JustKV.Csv

/-- A field that can stand without quotes. -/
def Bare (delimiter : UInt8) (field : Bytes) : Prop :=
  field.head? ≠ some quote ∧ ∀ byte ∈ field, byte ≠ delimiter ∧ isTerminator byte = false

instance (delimiter : UInt8) (field : Bytes) : Decidable (Bare delimiter field) :=
  inferInstanceAs (Decidable (_ ∧ _))

inductive FieldText (delimiter : UInt8) : Bytes → Bytes → Prop
  | plain {field : Bytes} (h : Bare delimiter field) : FieldText delimiter field field
  | quoted (field : Bytes) :
      FieldText delimiter field ([quote] ++ (doubleQuotes field ++ [quote]))

inductive RecordText (delimiter : UInt8) : List Bytes → Bytes → Prop
  | last {field text : Bytes} (h : FieldText delimiter field text) :
      RecordText delimiter [field] text
  | cons {field text rest : Bytes} {fields : List Bytes} (h : FieldText delimiter field text)
      (hrest : RecordText delimiter fields rest) :
      RecordText delimiter (field :: fields) (text ++ delimiter :: rest)

/-- Lines of records; a record without any text would be a blank line. -/
inductive RowsText (delimiter : UInt8) : List (List Bytes) → Bytes → Prop
  | empty : RowsText delimiter [] []
  | blank {rows : List (List Bytes)} {rest : Bytes} {stop : UInt8}
      (hstop : isTerminator stop = true) (hrest : RowsText delimiter rows rest) :
      RowsText delimiter rows (stop :: rest)
  | last {fields : List Bytes} {text : Bytes} (h : RecordText delimiter fields text)
      (htext : text ≠ []) : RowsText delimiter [fields] text
  | cons {fields : List Bytes} {rows : List (List Bytes)} {text rest : Bytes} {stop : UInt8}
      (h : RecordText delimiter fields text) (htext : text ≠ []) (hstop : isTerminator stop = true)
      (hrest : RowsText delimiter rows rest) :
      RowsText delimiter (fields :: rows) (text ++ stop :: rest)

/-- The bytes say these rows; without a byte order mark they must not seem to have one. -/
inductive Renders (delimiter : UInt8) (rows : List (List Bytes)) : Bytes → Prop
  | bare {text : Bytes} (h : RowsText delimiter rows text) (hbom : dropBom text = text) :
      Renders delimiter rows text
  | marked {text : Bytes} (h : RowsText delimiter rows text) :
      Renders delimiter rows (0xEF :: 0xBB :: 0xBF :: text)

/-- Delimiters that mean nothing else. -/
def IsDelimiter (delimiter : UInt8) : Prop := delimiter ≠ quote ∧ isTerminator delimiter = false

instance (delimiter : UInt8) : Decidable (IsDelimiter delimiter) :=
  inferInstanceAs (Decidable (_ ∧ _))

variable {delimiter : UInt8} {state : State}

theorem step_plain {byte : UInt8} (hmode : state.mode = .inField) (hdelimiter : byte ≠ delimiter)
    (hterminator : isTerminator byte = false) :
    state.step delimiter byte = ((state.consume byte).push byte .inField, none) := by
  have hconsumed : (state.consume byte).mode = .inField := hmode
  simp [State.step, hconsumed, State.unquoted, hdelimiter, hterminator]

/-- Inside a field the bytes of a plain text are collected. -/
theorem scan_inField {text : Bytes}
    (h : ∀ byte ∈ text, byte ≠ delimiter ∧ isTerminator byte = false)
    (hmode : state.mode = .inField) :
    ∃ next, scan delimiter state text = (next, []) ∧ next.mode = .inField ∧
      next.fields = state.fields ∧ next.field = state.field ++ text := by
  induction text generalizing state with
  | nil => exact ⟨state, rfl, hmode, rfl, (List.append_nil _).symm⟩
  | cons byte rest ih =>
    obtain ⟨hdelimiter, hterminator⟩ := h byte List.mem_cons_self
    have hpushed : ((state.consume byte).push byte .inField).mode = .inField := rfl
    obtain ⟨next, hscan, hnext, hfields, hfield⟩ :=
      ih (fun other hother ↦ h other (List.mem_cons_of_mem _ hother)) hpushed
    refine ⟨next, ?_, hnext, hfields, ?_⟩
    · rw [scan, step_plain hmode hdelimiter hterminator]
      simp [hscan]
    · rw [hfield]
      simp [State.push, State.consume]

/-- At the start of a field its text is read as the field. -/
theorem scan_fieldText {field text : Bytes} (h : FieldText delimiter field text)
    (hmode : state.mode = .startRecord ∨ state.mode = .startField) (hfield : state.field = []) :
    ∃ next, scan delimiter state text = (next, []) ∧ next.fields = state.fields ∧
      next.field = field ∧ next.mode ≠ .inQuotedField ∧
      (next.mode = .startRecord → text = [] ∧ state.mode = .startRecord) := by
  cases h with
  | plain h =>
    cases field with
    | nil =>
      refine ⟨state, rfl, rfl, hfield, ?_, fun hstart ↦ ⟨rfl, hstart⟩⟩
      rcases hmode with hmode | hmode <;> simp [hmode]
    | cons byte rest =>
      obtain ⟨hdelimiter, hterminator⟩ := h.2 byte List.mem_cons_self
      have hquote : byte ≠ quote := fun hsame ↦ h.1 (by rw [hsame]; rfl)
      have hfirst :
          state.step delimiter byte = ((state.consume byte).push byte .inField, none) := by
        have hconsumed : (state.consume byte).mode = state.mode := rfl
        rcases hmode with hmode | hmode <;>
          simp [State.step, hconsumed, hmode, State.unquoted, hdelimiter, hterminator, hquote]
      have hpushed : ((state.consume byte).push byte .inField).mode = .inField := rfl
      obtain ⟨next, hscan, hnext, hfields, hcollected⟩ :=
        scan_inField (fun other hother ↦ h.2 other (List.mem_cons_of_mem _ hother)) hpushed
      refine ⟨next, ?_, hfields, ?_, by simp [hnext], fun hstart ↦ by simp [hnext] at hstart⟩
      · rw [scan, hfirst]
        simp [hscan]
      · rw [hcollected]
        simp [State.push, State.consume, hfield]
  | quoted =>
    obtain ⟨mode, fields, _, began, lfs⟩ := state
    dsimp only at hmode hfield
    subst hfield
    have hopen : scan delimiter ⟨mode, fields, [], began, lfs⟩ [quote] =
        (⟨.inQuotedField, fields, [], began, lfs⟩, []) := by
      rcases hmode with rfl | rfl <;> rfl
    have hclose : scan delimiter ⟨.inQuotedField, fields, field, began, lfs + field.count lf⟩
        [quote] = (⟨.quoteInQuotedField, fields, field, began, lfs + field.count lf⟩, []) := rfl
    have hbody := scan_append_of (scan_doubleQuotes fields [] field began lfs) hclose
    refine ⟨_, scan_append_of hopen hbody, rfl, rfl, by simp, fun hstart ↦ by simp at hstart⟩

theorem step_delimiter (hdelimiter : IsDelimiter delimiter) (hmode : state.mode ≠ .inQuotedField) :
    state.step delimiter delimiter = ((state.consume delimiter).endField, none) := by
  have hconsumed : (state.consume delimiter).mode = state.mode := rfl
  cases h : state.mode with
  | inQuotedField => exact absurd h hmode
  | _ => simp [State.step, hconsumed, h, State.unquoted, hdelimiter.1, hdelimiter.2]

theorem step_terminator (hdelimiter : IsDelimiter delimiter) {stop : UInt8}
    (hstop : isTerminator stop = true) (hmode : state.mode ≠ .inQuotedField)
    (hstart : state.mode ≠ .startRecord) :
    state.step delimiter stop = ((state.consume stop).nextRead, some state.record) := by
  have hconsumed : (state.consume stop).mode = state.mode := rfl
  have hother : stop ≠ delimiter := fun hsame ↦ by simp [hsame, hdelimiter.2] at hstop
  have hquote : stop ≠ quote := fun hsame ↦ by subst hsame; exact absurd hstop (by decide)
  have hrecord : (state.consume stop).record = state.record := rfl
  cases h : state.mode with
  | inQuotedField => exact absurd h hmode
  | startRecord => exact absurd h hstart
  | _ => simp [State.step, hconsumed, h, State.unquoted, hother, hquote, hstop, hrecord]

/-- At the start of a record its text is read as its fields, the last of them still open. -/
theorem scan_recordText (hdelimiter : IsDelimiter delimiter) {fields : List Bytes} {text : Bytes}
    (h : RecordText delimiter fields text)
    (hmode : state.mode = .startRecord ∨ state.mode = .startField) (hfield : state.field = []) :
    ∃ next, scan delimiter state text = (next, []) ∧
      next.fields ++ [next.field] = state.fields ++ fields ∧ next.mode ≠ .inQuotedField ∧
      (next.mode = .startRecord → text = [] ∧ state.mode = .startRecord) := by
  induction h generalizing state with
  | last h =>
    obtain ⟨next, hscan, hfields, hfield', hquoted, hstart⟩ := scan_fieldText h hmode hfield
    exact ⟨next, hscan, by rw [hfields, hfield'], hquoted, hstart⟩
  | @cons field text rest fields h hrest ih =>
    obtain ⟨middle, hscan, hfields, hfield', hquoted, _⟩ := scan_fieldText h hmode hfield
    have hended : (middle.consume delimiter).endField.mode = .startField := rfl
    obtain ⟨next, hscan', hfields', hquoted', hstart'⟩ := ih (Or.inr hended) rfl
    have hsplit : scan delimiter middle (delimiter :: rest) = (next, []) := by
      rw [scan, step_delimiter hdelimiter hquoted]
      simp [hscan']
    refine ⟨next, scan_append_of hscan hsplit, ?_, hquoted', fun hstart ↦ ?_⟩
    · rw [hfields']
      simp [State.endField, State.consume, hfields, hfield']
    · obtain ⟨_, hend⟩ := hstart' hstart
      simp [State.endField] at hend

theorem readAll_append (left right : Bytes) :
    readAll delimiter state (left ++ right) =
      (scan delimiter state left).2 ++ readAll delimiter (scan delimiter state left).1 right := by
  rw [readAll_eq_scan, readAll_eq_scan, scan_append, List.append_assoc]

/-- Between records the lines are read as their rows. -/
theorem readAll_rowsText (hdelimiter : IsDelimiter delimiter) {rows : List (List Bytes)}
    {text : Bytes} (h : RowsText delimiter rows text) (hmode : state.mode = .startRecord)
    (hfields : state.fields = []) (hfield : state.field = []) :
    (readAll delimiter state text).map ByteRecord.fields = rows := by
  induction h generalizing state with
  | empty => simp [readAll, hmode]
  | @blank rows rest stop hstop hrest ih =>
    have hskip : state.step delimiter stop = (state.consume stop, none) := by
      have hconsumed : (state.consume stop).mode = .startRecord := hmode
      simp [State.step, hconsumed, hstop]
    rw [readAll, hskip]
    have hconsumed : (state.consume stop).mode = .startRecord := hmode
    exact ih hconsumed hfields hfield
  | @last fields text h htext =>
    obtain ⟨next, hscan, hrecord, _, hstart⟩ := scan_recordText hdelimiter h (Or.inl hmode) hfield
    have hnext : next.mode ≠ .startRecord := fun hsame ↦ htext (hstart hsame).1
    rw [readAll_eq_scan, hscan, State.atEnd, if_neg hnext]
    simp [State.record, hrecord, hfields]
  | @cons fields rows text rest stop h htext hstop hrest ih =>
    obtain ⟨next, hscan, hrecord, hquoted, hstart⟩ :=
      scan_recordText hdelimiter h (Or.inl hmode) hfield
    have hnext : next.mode ≠ .startRecord := fun hsame ↦ htext (hstart hsame).1
    rw [readAll_append, hscan, readAll, step_terminator hdelimiter hstop hquoted hnext]
    have hread : (next.consume stop).nextRead.mode = .startRecord := rfl
    have hrest' := ih hread rfl rfl
    simp [State.record, hrecord, hfields, hrest']

/-- However rows are written, the grammar reads them back. -/
theorem fields_of_renders {rows : List (List Bytes)} {data : Bytes}
    (hdelimiter : IsDelimiter delimiter) (h : Renders delimiter rows data) (header : Bool) :
    (grammar ⟨delimiter, header⟩ data).records.map ByteRecord.fields =
      if header then rows.drop 1 else rows := by
  have hread : (readAll delimiter .start (dropBom data)).map ByteRecord.fields = rows := by
    cases h with
    | bare h hbom =>
      rw [hbom]
      exact readAll_rowsText hdelimiter h rfl rfl rfl
    | marked h => exact readAll_rowsText hdelimiter h rfl rfl rfl
  cases header with
  | false => exact hread
  | true =>
    rw [grammar, if_pos rfl, if_pos rfl, List.map_drop, hread]

theorem recordText_toRow (pair : Bytes × Bytes) :
    ∃ text, RecordText comma [pair.1, pair.2] text ∧ text ≠ [] ∧ toRow pair = text ++ [lf] := by
  refine ⟨_, .cons (.quoted pair.1) (.last (.quoted pair.2)), by simp, ?_⟩
  simp [toRow]

theorem renders_toCsv (pairs : Dataset) :
    Renders comma (pairs.map fun pair ↦ [pair.1, pair.2]) (toCsv pairs) := by
  refine .bare ?_ (dropBom_toCsv pairs)
  induction pairs with
  | nil => exact .empty
  | cons pair rest ih =>
    obtain ⟨text, htext, hne, hrow⟩ := recordText_toRow pair
    have hsplit : toCsv (pair :: rest) = text ++ lf :: toCsv rest := by
      rw [toCsv, List.flatMap_cons, hrow, List.append_assoc]
      rfl
    rw [hsplit]
    exact .cons htext hne rfl ih

end JustKV.Csv
