import JustKV.Store.Load

/-!
# Options and validation

`check` and `build` read a file and always parse it as CSV; `serve` loads the same file by its
magic bytes.  All three take the delimiter from the file name unless it is given.
-/

open Checked Utf8

namespace JustKV

/-- Parsing flags shared by serve, check and build. -/
structure ParseArgs where
  delimiter : Option Char
  header : Bool
  allowBinary : Bool
  deriving DecidableEq, Repr

instance : Inhabited ParseArgs := ⟨⟨none, false, false⟩⟩

def toAsciiLowercase (byte : UInt8) : UInt8 :=
  if 65 ≤ byte && byte ≤ 90 then byte + 32 else byte

/-- `tsv` in ASCII. -/
def tsvExtension : Bytes := [116, 115, 118]

/-- `.tsv` means tab; everything else means comma. -/
def LoadOptions.delimiterForPath (path : Path) : UInt8 :=
  match path.extension.bind fromUtf8 with
  | some extension =>
      if (toBytes extension).map toAsciiLowercase = tsvExtension then 9 else 44
  | none => 44

def ParseArgs.loadOptions (parse : ParseArgs) (path : Path) : LoadOptions where
  delimiter := (parse.delimiter.map fun c ↦ UInt8.ofNat c.toNat).getD
    (LoadOptions.delimiterForPath path)
  hasHeader := parse.header
  allowBinary := parse.allowBinary

def exitOk : UInt8 := 0

def exitInvalidData : UInt8 := 1

def exitIo : UInt8 := 2

section Commands

variable (csv : CsvReader) (process : Process) (read : Path → Except IoError Bytes)

/-- Read and validate; what remains of the problems is the exit code. -/
def parseValidated (path : Path) (parse : ParseArgs) :
    Run (Except UInt8 (Bytes × List Entry)) :=
  match read path with
  | .error _ => pure (.error exitIo)
  | .ok data => do
    match ← parseCsv csv process data (parse.loadOptions path) with
    | .ok parts => pure (.ok parts)
    | .error _ => pure (.error exitInvalidData)

def cmdCheck (path : Path) (parse : ParseArgs) : Run UInt8 := do
  match ← parseValidated csv process read path parse with
  | .ok _ => pure exitOk
  | .error code => pure code

/-- The first step of `cmd_serve`: load the dataset or exit. -/
def serveLoad (w : Width) (path : Path) (parse : ParseArgs) : Run (Except UInt8 Loaded) := do
  match ← load w csv process read path (parse.loadOptions path) with
  | .ok loaded => pure (.ok loaded)
  | .error (.io _) => pure (.error exitIo)
  | .error _ => pure (.error exitInvalidData)

end Commands

variable {csv : CsvReader} {process : Process} {read : Path → Except IoError Bytes} {path : Path}
  {parse : ParseArgs}

/-- Validation never stops the program. -/
theorem parseValidated_eq : parseValidated csv process read path parse = .ok (
    match read path with
    | .error _ => .error exitIo
    | .ok data =>
      match CsvLoader.outcome (parse.loadOptions path)
        (csv ⟨(parse.loadOptions path).delimiter, (parse.loadOptions path).hasHeader⟩ data) with
      | .ok parts => .ok parts
      | .error _ => .error exitInvalidData) := by
  rw [parseValidated]
  cases read path with
  | error error => rfl
  | ok data =>
    simp only [parseCsv_eq_ok, ok_bind]
    cases CsvLoader.outcome (parse.loadOptions path) _ <;> rfl

theorem parseValidated_eq_ok {parts : Bytes × List Entry} :
    parseValidated csv process read path parse = .ok (.ok parts) ↔
      ∃ data, read path = .ok data ∧
        parseCsv csv process data (parse.loadOptions path) = .ok (.ok parts) := by
  rw [parseValidated_eq]
  cases read path with
  | error error => simp
  | ok data =>
    simp only [parseCsv_eq_ok, Except.ok.injEq, exists_eq_left']
    cases CsvLoader.outcome (parse.loadOptions path) _ <;> simp

/-- `check` exits 0 exactly when the file can be read and parses. -/
theorem cmdCheck_eq_exitOk :
    cmdCheck csv process read path parse = .ok exitOk ↔
      ∃ data parts, read path = .ok data ∧
        parseCsv csv process data (parse.loadOptions path) = .ok (.ok parts) := by
  rw [exists_comm]
  simp only [← parseValidated_eq_ok, cmdCheck, parseValidated_eq, ok_bind]
  cases read path with
  | error error => simp [exitOk, exitIo]
  | ok data =>
    dsimp only
    cases CsvLoader.outcome (parse.loadOptions path) (csv ⟨(parse.loadOptions path).delimiter,
      (parse.loadOptions path).hasHeader⟩ data) <;> simp [exitOk, exitInvalidData]

end JustKV
