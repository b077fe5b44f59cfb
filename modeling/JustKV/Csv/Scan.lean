import JustKV.Csv.Reader

/-!
# Reading in pieces

The grammar reads a text piece by piece: the records completed in a prefix, and the state in which
the rest is read.  At the end of the input the state itself says whether a record is still open.
-/

namespace JustKV.Csv

/-- The state after some bytes and the records completed by them. -/
def scan (delimiter : UInt8) : State → Bytes → State × List ByteRecord
  | state, [] => (state, [])
  | state, byte :: rest =>
      let next := state.step delimiter byte
      let last := scan delimiter next.1 rest
      (last.1, next.2.toList ++ last.2)

/-- What the end of the input adds. -/
def State.atEnd (state : State) : List ByteRecord :=
  if state.mode = .startRecord then [] else [state.record]

variable {delimiter : UInt8}

@[simp] theorem scan_nil (state : State) : scan delimiter state [] = (state, []) := rfl

theorem scan_append (state : State) (left right : Bytes) :
    scan delimiter state (left ++ right) =
      ((scan delimiter (scan delimiter state left).1 right).1,
        (scan delimiter state left).2 ++ (scan delimiter (scan delimiter state left).1 right).2) := by
  induction left generalizing state with
  | nil => rfl
  | cons byte rest ih =>
    rw [List.cons_append, scan, ih]
    simp [scan]

/-- Pieces that are read one after the other. -/
theorem scan_append_of {state middle last : State} {left right : Bytes}
    {records records' : List ByteRecord} (hleft : scan delimiter state left = (middle, records))
    (hright : scan delimiter middle right = (last, records')) :
    scan delimiter state (left ++ right) = (last, records ++ records') := by
  rw [scan_append, hleft, hright]

theorem readAll_eq_scan (state : State) (data : Bytes) :
    readAll delimiter state data =
      (scan delimiter state data).2 ++ (scan delimiter state data).1.atEnd := by
  induction data generalizing state with
  | nil => rfl
  | cons byte rest ih =>
    rw [readAll, ih, scan]
    simp

/-- The reader delivers the fields that the grammar gives and no error, whatever lines it stamps. -/
def Follows (csv : CsvReader) (builder : ReaderBuilder) : Prop :=
  ∀ data, (csv builder data).records.map ByteRecord.fields =
      (grammar builder data).records.map ByteRecord.fields ∧
    (csv builder data).ending = .endOfInput

theorem follows_grammar (builder : ReaderBuilder) : Follows grammar builder :=
  fun _ ↦ ⟨rfl, rfl⟩

end JustKV.Csv
