import JustKV.Store.Basic

/-!
# The CSV reader

The loader takes its records from a CSV reader that is not part of the repository.  Its interface
is a function of the settings and the bytes that delivers finitely many records and then ends, at
the end of the input or in one error.  `grammar` is the reader's documented default grammar, with
every record stamped by the line its read began on.
-/

namespace JustKV

/-- One record, with the line of its position if the reader set one. -/
structure ByteRecord where
  fields : List Bytes
  line : Option ℕ
  deriving DecidableEq, Repr

/-- How the reading ended. -/
inductive ReaderEnd
  | endOfInput
  | error (message : String)
  deriving DecidableEq, Repr

/-- Everything the reader delivers from one input. -/
structure Delivery where
  records : List ByteRecord
  ending : ReaderEnd
  deriving DecidableEq, Repr

/-- The reader's settings; `flexible` is always on. -/
structure ReaderBuilder where
  delimiter : UInt8
  hasHeaders : Bool
  deriving DecidableEq, Repr

/-- `builder.from_reader(data)`, read to its end. -/
abbrev CsvReader := ReaderBuilder → Bytes → Delivery

namespace Csv

def quote : UInt8 := 34

def lf : UInt8 := 10

def cr : UInt8 := 13

/-- CR and LF end a record. -/
def isTerminator (byte : UInt8) : Bool := byte == cr || byte == lf

/-- Where the reader is inside a record. -/
inductive Mode
  | startRecord
  | startField
  | inField
  | inQuotedField
  | quoteInQuotedField
  deriving DecidableEq, Repr

/-- The reader between two bytes: the fields and the field of the current record, the line on
which its read began, and the number of LF bytes consumed so far. -/
structure State where
  mode : Mode
  fields : List Bytes
  field : Bytes
  began : ℕ
  lfs : ℕ

/-- The state before the first read. -/
def State.start : State := ⟨.startRecord, [], [], 1, 0⟩

/-- The record that ends in the current state. -/
def State.record (state : State) : ByteRecord := ⟨state.fields ++ [state.field], some state.began⟩

def State.push (state : State) (byte : UInt8) (mode : Mode) : State :=
  { state with mode := mode, field := state.field ++ [byte] }

def State.endField (state : State) : State :=
  { state with mode := .startField, fields := state.fields ++ [state.field], field := [] }

/-- The state in which the next read begins. -/
def State.nextRead (state : State) : State := ⟨.startRecord, [], [], state.lfs + 1, state.lfs⟩

/-- Count a consumed byte. -/
def State.consume (state : State) (byte : UInt8) : State :=
  { state with lfs := if byte = lf then state.lfs + 1 else state.lfs }

/-- A byte outside quotes, once quoting has been dealt with: the record it ends, if any. -/
def State.unquoted (delimiter : UInt8) (state : State) (byte : UInt8) :
    State × Option ByteRecord :=
  if byte = delimiter then (state.endField, none)
  else if isTerminator byte then (state.nextRead, some state.record)
  else (state.push byte .inField, none)

/-- Consume one byte. -/
def State.step (delimiter : UInt8) (state : State) (byte : UInt8) : State × Option ByteRecord :=
  let state := state.consume byte
  match state.mode with
  | .startRecord =>
      -- A terminator here ends an empty line, which the same read skips.
      if isTerminator byte then (state, none)
      else if byte = quote then ({ state with mode := .inQuotedField }, none)
      else state.unquoted delimiter byte
  | .startField =>
      if byte = quote then ({ state with mode := .inQuotedField }, none)
      else state.unquoted delimiter byte
  | .inField => state.unquoted delimiter byte
  | .inQuotedField =>
      if byte = quote then ({ state with mode := .quoteInQuotedField }, none)
      else (state.push byte .inQuotedField, none)
  | .quoteInQuotedField =>
      if byte = quote then (state.push byte .inQuotedField, none)
      else state.unquoted delimiter byte

/-- The records of the remaining input; the end of the input ends a record that has begun. -/
def readAll (delimiter : UInt8) : State → Bytes → List ByteRecord
  | state, [] => if state.mode = .startRecord then [] else [state.record]
  | state, byte :: rest =>
      let next := state.step delimiter byte
      next.2.toList ++ readAll delimiter next.1 rest

/-- A byte order mark is dropped at the very start of the input. -/
def dropBom : Bytes → Bytes
  | 0xEF :: 0xBB :: 0xBF :: rest => rest
  | data => data

/-- The documented grammar: quoted fields, doubled quotes, empty lines skipped. -/
def grammar : CsvReader := fun builder data ↦
  let records := readAll builder.delimiter .start (dropBom data)
  ⟨if builder.hasHeaders then records.drop 1 else records, .endOfInput⟩

-- k,"x ""y"" z" CR LF, an empty line, then a quoted field that spans lines.
example :
    (grammar ⟨44, false⟩ [107, 44, 34, 120, 34, 34, 121, 34, 13, 10, 10, 97, 44, 34, 10, 34]).records =
      [⟨[[107], [120, 34, 121]], some 1⟩, ⟨[[97], [10]], some 1⟩] := by decide

end Csv

end JustKV
