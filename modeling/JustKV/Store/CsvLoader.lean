import JustKV.Csv.Reader
import JustKV.Library.Utf8

/-!
# Parsing CSV into an arena and entries

`parseCsv` reads records until the input or the reader ends.  Every problem is recorded and the
loop goes on, except after a reader error and when the arena would outgrow `u32` offsets.  Four
accumulators run along: the arena, the entries, the line of each entry, and a hash table of entry
indices that finds repeated keys by comparing arena slices.
-/

open Checked HashTable Utf8

namespace JustKV

/-- The problems a row can have. -/
inductive DataErrorKind
  | wrongColumnCount (found : ℕ)
  | duplicateKey (key : String) (firstLine : ℕ)
  | invalidUtf8Value
  | malformed (message : String)
  | tooLarge
  deriving DecidableEq, Repr

/-- A problem and the line it is on. -/
structure DataError where
  line : ℕ
  kind : DataErrorKind
  deriving DecidableEq, Repr

structure LoadOptions where
  delimiter : UInt8
  hasHeader : Bool
  allowBinary : Bool
  deriving DecidableEq, Repr

instance : Inhabited LoadOptions := ⟨⟨44, false, false⟩⟩

namespace CsvLoader

def hashBytes (state : RandomState) (bytes : Bytes) : UInt64 := state bytes

/-- The variables of the loop; `recLine` is the line of the record read last. -/
structure ParseState where
  arena : Bytes
  entries : List Entry
  lines : List ℕ
  errors : List DataError
  seen : Table UInt32
  recLine : Option ℕ

def ParseState.new (layout : Layout UInt32) : ParseState := ⟨[], [], [], [], Table.new layout, none⟩

/-- The line a reader error is reported on: the line after the record read last. -/
def ParseState.lineHint (state : ParseState) : ℕ := state.recLine.getD 0 + 1

def ParseState.pushError (state : ParseState) (line : ℕ) (kind : DataErrorKind) : ParseState :=
  { state with errors := state.errors ++ [⟨line, kind⟩] }

/-- How one pass through the loop body ends: by going on or by `break`. -/
inductive Flow (σ : Type)
  | next (state : σ)
  | stop (state : σ)

variable (hasher : RandomState) (opts : LoadOptions)

/-- The key bytes of the entry with the given index. -/
def ParseState.keyAt (state : ParseState) (i : UInt32) : Run Bytes := do
  let entry ← index state.entries i.toNat
  entry.key state.arena

/-- The index of an entry with the given key, found through `seen`. -/
def ParseState.findDuplicate (state : ParseState) (key : Bytes) : Run (Option UInt32) :=
  state.seen.find (hashBytes hasher key) fun i ↦ do
    let other ← state.keyAt i
    pure (decide (other = key))

/-- Report a repeated key together with the line of the entry found. -/
def ParseState.reportDuplicate (state : ParseState) (line : ℕ) (key : Bytes) :
    Option UInt32 → Run ParseState
  | none => pure state
  | some i => do
    let firstLine ← index state.lines i.toNat
    pure (state.pushError line (.duplicateKey (fromUtf8Lossy key) firstLine))

/-- Report a value that has to be UTF-8 and is not. -/
def ParseState.reportValue (state : ParseState) (line : ℕ) (value : Bytes) : ParseState :=
  if !opts.allowBinary && (fromUtf8 value).isNone then state.pushError line .invalidUtf8Value
  else state

/-- Append key and value to the arena and index the new entry under its hash. -/
def ParseState.append (state : ParseState) (line : ℕ) (key value : Bytes) : Run ParseState := do
  let kOff := UInt32.ofNat state.arena.length
  let arena := state.arena ++ key
  let vOff := UInt32.ofNat arena.length
  let arena := arena ++ value
  let i := UInt32.ofNat state.entries.length
  let entries := state.entries ++
    [⟨kOff, UInt32.ofNat key.length, vOff, UInt32.ofNat value.length⟩]
  let appended := { state with arena, entries, lines := state.lines ++ [line] }
  let seen ← state.seen.insertUnique (hashBytes hasher key) i fun j ↦ do
    let other ← appended.keyAt j
    pure (hashBytes hasher other)
  pure { appended with seen }

/-- The loop body for a record that was read. -/
def parseRecord (state : ParseState) (record : ByteRecord) : Run (Flow ParseState) := do
  let line := record.line.getD state.lineHint
  let state := { state with recLine := record.line }
  match record.fields with
  | [key, value] => do
    let dup ← state.findDuplicate hasher key
    -- The two checks are independent: a row can be a duplicate and carry an invalid value.
    let state ← state.reportDuplicate line key dup
    let state := state.reportValue opts line value
    if dup.isSome then pure (.next state)
    else if state.arena.length + key.length + value.length > u32Max then
      pure (.stop (state.pushError line .tooLarge))
    else do
      let state ← state.append hasher line key value
      pure (.next state)
  | fields => pure (.next (state.pushError line (.wrongColumnCount fields.length)))

/-- The loop over everything the reader delivers. -/
def parseLoop (ending : ReaderEnd) : ParseState → List ByteRecord → Run ParseState
  | state, [] =>
      match ending with
      | .endOfInput => pure state
      | .error message => pure (state.pushError state.lineHint (.malformed message))
  | state, record :: rest => do
      match ← parseRecord hasher opts state record with
      | .next state => parseLoop ending state rest
      | .stop state => pure state

/-- The arena and entries, if no problem was recorded. -/
def ParseState.finish (state : ParseState) : Except (List DataError) (Bytes × List Entry) :=
  if state.errors.isEmpty then .ok (state.arena, state.entries) else .error state.errors

end CsvLoader

/-- What one process draws for itself: the hash seeds of its two hashers and the layouts of its
two hash tables. -/
structure Process where
  seenLayout : Layout UInt32
  parseHasher : RandomState
  tableLayout : Layout Entry
  storeHasher : RandomState

instance : Inhabited Process := ⟨⟨chained _, fun _ ↦ 0, chained _, fun _ ↦ 0⟩⟩

/-- Parse a whole input into an arena and entries, or report every problem found. -/
def parseCsv (csv : CsvReader) (process : Process) (data : Bytes) (opts : LoadOptions) :
    Run (Except (List DataError) (Bytes × List Entry)) := do
  let delivery := csv ⟨opts.delimiter, opts.hasHeader⟩ data
  let state ← CsvLoader.parseLoop process.parseHasher opts delivery.ending
    (.new process.seenLayout) delivery.records
  pure state.finish

end JustKV
