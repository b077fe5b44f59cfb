import JustKV.Csv.Reader

/-!
# Where records stand

The reader stamps a record by the line ends consumed when its read began, but a read first skips
empty lines and the LF of a CR LF.  Here every record comes with both offsets, that of the byte its
read began at and that of its own first byte; the stamp is right unless a line ends in between.
-/

namespace JustKV.Csv

/-- How many lines end in some bytes.  A line ends with LF or CR LF. -/
def lineEnds : Bytes → ℕ
  | 13 :: 10 :: rest => lineEnds rest + 1
  | 10 :: rest => lineEnds rest + 1
  | _ :: rest => lineEnds rest
  | [] => 0

/-- Both kinds of line end have exactly one LF. -/
theorem lineEnds_eq_count (data : Bytes) : lineEnds data = data.count lf := by
  fun_induction lineEnds data with
  | case1 rest ih => simp [ih, lf]
  | case2 rest ih => simp [ih, lf]
  | case3 byte rest _ hbyte ih =>
    rw [ih, List.count_cons_of_ne]
    exact hbyte
  | case4 => rfl

/-- The fields of a record, the offset its read began at and the offset of its first byte. -/
structure Located where
  fields : List Bytes
  began : ℕ
  first : ℕ
  deriving DecidableEq, Repr

/-- The line the reader stamps. -/
def Located.stamp (data : Bytes) (located : Located) : ℕ := (data.take located.began).count lf + 1

/-- The line on which the first byte stands. -/
def Located.line (data : Bytes) (located : Located) : ℕ := lineEnds (data.take located.first) + 1

/-- What the read skipped before the first byte. -/
def Located.skipped (data : Bytes) (located : Located) : Bytes :=
  (data.take located.first).drop located.began

/-- The records of the remaining input with their offsets; `offset` is that of the next byte. -/
def locate (delimiter : UInt8) : State → (offset began first : ℕ) → Bytes → List Located
  | state, _, began, first, [] =>
      if state.mode = .startRecord then [] else [⟨state.fields ++ [state.field], began, first⟩]
  | state, offset, began, first, byte :: rest =>
      -- Every byte at the start of a record may be its first; a skipped one is superseded.
      let first := if state.mode = .startRecord then offset else first
      match state.step delimiter byte with
      | (next, none) => locate delimiter next (offset + 1) began first rest
      | (next, some record) =>
          ⟨record.fields, began, first⟩ ::
            locate delimiter next (offset + 1) (offset + 1) first rest

/-- The records of an input with their offsets. -/
def located (builder : ReaderBuilder) (data : Bytes) : List Located :=
  let text := dropBom data
  let offset := data.length - text.length
  let records := locate builder.delimiter .start offset offset offset text
  if builder.hasHeaders then records.drop 1 else records

theorem unquoted_cases (delimiter : UInt8) (state : State) (byte : UInt8) :
    (∃ next, state.unquoted delimiter byte = (next, none) ∧ next.began = state.began ∧
      next.lfs = state.lfs) ∨
    isTerminator byte = true ∧
      state.unquoted delimiter byte = (state.nextRead, some state.record) := by
  unfold State.unquoted
  split
  case isTrue => exact Or.inl ⟨_, rfl, rfl, rfl⟩
  case isFalse =>
    split
    case isTrue hterminator => exact Or.inr ⟨hterminator, rfl⟩
    case isFalse => exact Or.inl ⟨_, rfl, rfl, rfl⟩

/-- A step either goes on with the record or ends it, and the first byte never ends it. -/
theorem step_cases (delimiter : UInt8) (state : State) (byte : UInt8) :
    (∃ next, state.step delimiter byte = (next, none) ∧ next.began = state.began ∧
      next.lfs = (state.consume byte).lfs) ∨
    state.mode ≠ .startRecord ∧
      state.step delimiter byte = ((state.consume byte).nextRead, some state.record) := by
  have hunquoted {mode : Mode} (hmode : mode ≠ .startRecord) := (unquoted_cases delimiter
    (state.consume byte) byte).imp_right fun h ↦ And.intro hmode h.2
  have hmode : (state.consume byte).mode = state.mode := rfl
  unfold State.step
  cases h : state.mode with
  | startRecord =>
    simp only [hmode, h]
    split
    case isTrue => exact Or.inl ⟨_, rfl, rfl, rfl⟩
    case isFalse hterminator =>
      split
      case isTrue => exact Or.inl ⟨_, rfl, rfl, rfl⟩
      case isFalse =>
        rcases unquoted_cases delimiter (state.consume byte) byte with hgoes | ⟨hends, _⟩
        · exact Or.inl hgoes
        · exact absurd hends hterminator
  | startField =>
    simp only [hmode, h]
    split
    case isTrue => exact Or.inl ⟨_, rfl, rfl, rfl⟩
    case isFalse => exact hunquoted (by decide)
  | inField =>
    simp only [hmode, h]
    exact hunquoted (by decide)
  | inQuotedField =>
    simp only [hmode, h]
    split
    case isTrue => exact Or.inl ⟨_, rfl, rfl, rfl⟩
    case isFalse => exact Or.inl ⟨_, rfl, rfl, rfl⟩
  | quoteInQuotedField =>
    simp only [hmode, h]
    split
    case isTrue => exact Or.inl ⟨_, rfl, rfl, rfl⟩
    case isFalse => exact hunquoted (by decide)

variable {delimiter : UInt8}

/-- The stamp of the grammar is the one of the offset where the read began. -/
theorem readAll_eq_locate (state : State) (before rest : Bytes) (began first : ℕ)
    (hlfs : state.lfs = before.count lf) (hle : began ≤ before.length)
    (hbegan : state.began = ((before ++ rest).take began).count lf + 1) :
    readAll delimiter state rest =
      (locate delimiter state before.length began first rest).map fun located ↦
        ⟨located.fields, some (located.stamp (before ++ rest))⟩ := by
  induction rest generalizing state before began first with
  | nil =>
    rw [readAll, locate]
    by_cases hmode : state.mode = .startRecord
    · simp [hmode]
    · simp [hmode, State.record, Located.stamp, hbegan]
  | cons byte rest ih =>
    have hassoc : before ++ byte :: rest = before ++ [byte] ++ rest := by simp
    have hlength : before.length + 1 = (before ++ [byte]).length := by simp
    have hconsume : (state.consume byte).lfs = (before ++ [byte]).count lf := by
      simp only [State.consume, List.count_append, List.count_singleton, hlfs, beq_iff_eq]
      split <;> rfl
    rw [readAll, locate, hassoc, hlength]
    rcases step_cases delimiter state byte with ⟨next, hstep, hkeeps, hnext⟩ | ⟨_, hstep⟩
    · rw [hstep]
      dsimp only
      rw [ih next (before ++ [byte]) began _ (hnext.trans hconsume) (by omega)
        (by rw [hkeeps, hbegan, hassoc])]
      rfl
    · rw [hstep]
      dsimp only
      generalize (if state.mode = .startRecord then before.length else first) = first'
      have hnew : (state.consume byte).nextRead.began =
          ((before ++ [byte] ++ rest).take (before ++ [byte]).length).count lf + 1 := by
        rw [List.take_left]
        exact congrArg (· + 1) hconsume
      rw [ih (state.consume byte).nextRead (before ++ [byte]) _ first' hconsume le_rfl hnew]
      simp [State.record, Located.stamp, hbegan]

/-- A read begins no later than its record. -/
theorem began_le_first (state : State) (offset began first : ℕ) (rest : Bytes)
    (hoffset : began ≤ offset) (hfirst : state.mode = .startRecord ∨ began ≤ first) :
    ∀ located ∈ locate delimiter state offset began first rest, located.began ≤ located.first := by
  induction rest generalizing state offset began first with
  | nil =>
    intro located hmem
    rw [locate] at hmem
    split at hmem
    case isTrue => simp at hmem
    case isFalse hmode =>
      rw [List.mem_singleton.mp hmem]
      exact hfirst.resolve_left hmode
  | cons byte rest ih =>
    have hfirst' : began ≤ if state.mode = .startRecord then offset else first := by
      split
      case isTrue => exact hoffset
      case isFalse hmode => exact hfirst.resolve_left hmode
    rw [locate]
    rcases step_cases delimiter state byte with ⟨next, hstep, _, _⟩ | ⟨_, hstep⟩
    · rw [hstep]
      exact ih next (offset + 1) began _ (by omega) (Or.inr hfirst')
    · rw [hstep]
      intro located hmem
      rcases List.mem_cons.mp hmem with rfl | htail
      · exact hfirst'
      · exact ih _ (offset + 1) (offset + 1) _ le_rfl (Or.inl rfl) located htail

/-- Only a byte order mark is dropped from an input, and it has no line end. -/
theorem exists_mark (data : Bytes) :
    ∃ mark, data = mark ++ dropBom data ∧ mark.count lf = 0 := by
  unfold dropBom
  split
  case h_1 => exact ⟨[0xEF, 0xBB, 0xBF], rfl, by decide⟩
  case h_2 => exact ⟨[], rfl, rfl⟩

/-- The grammar's records are the located ones, stamped by where their reads began. -/
theorem records_grammar (builder : ReaderBuilder) (data : Bytes) :
    (grammar builder data).records =
      (located builder data).map fun located ↦ ⟨located.fields, some (located.stamp data)⟩ := by
  obtain ⟨mark, hdata, hmark⟩ := exists_mark data
  have hoffset : data.length - (dropBom data).length = mark.length := by
    have hlength := congrArg List.length hdata
    rw [List.length_append] at hlength
    omega
  have hread : readAll builder.delimiter .start (dropBom data) =
      (locate builder.delimiter .start mark.length mark.length mark.length (dropBom data)).map
        fun located ↦ ⟨located.fields, some (located.stamp data)⟩ := by
    have hbegan : State.start.began = ((mark ++ dropBom data).take mark.length).count lf + 1 := by
      rw [List.take_left, hmark]
      rfl
    rw [readAll_eq_locate .start mark _ _ mark.length hmark.symm le_rfl hbegan, ← hdata]
  rw [grammar, hread, located, hoffset]
  cases builder.hasHeaders <;> simp

variable {builder : ReaderBuilder} {data : Bytes} {record : Located}

theorem began_le_first_of_mem (h : record ∈ located builder data) :
    record.began ≤ record.first := by
  let skipped := data.length - (dropBom data).length
  have hall : ∀ located ∈ locate builder.delimiter .start skipped skipped skipped (dropBom data),
      located.began ≤ located.first :=
    began_le_first .start skipped skipped skipped (dropBom data) le_rfl (Or.inl rfl)
  unfold located at h
  split at h
  case isTrue => exact hall record (List.mem_of_mem_drop h)
  case isFalse => exact hall record h

/-- The stamp is short by the line ends that the read skipped. -/
theorem line_eq_stamp (h : record ∈ located builder data) :
    record.line data = record.stamp data + (record.skipped data).count lf := by
  have hsplit : data.take record.first = data.take record.began ++ record.skipped data := by
    have htake := List.take_append_drop record.began (data.take record.first)
    rw [List.take_take, Nat.min_eq_left (began_le_first_of_mem h)] at htake
    exact htake.symm
  rw [Located.line, lineEnds_eq_count, hsplit, List.count_append, Located.stamp]
  omega

/-- The stamp is right exactly when the read skipped no line end. -/
theorem stamp_eq_line_iff (h : record ∈ located builder data) :
    record.stamp data = record.line data ↔ lf ∉ record.skipped data := by
  rw [line_eq_stamp h, ← List.count_eq_zero]
  omega

end JustKV.Csv
