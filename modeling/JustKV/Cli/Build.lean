import JustKV.Cli.Validate
import JustKV.Os.FileSystem

/-!
# The build command

One run of `cmd_build` as a state machine.  What its environment decides is part of the event: the
bytes read, the clock, which operation fails, how many buffered bytes reach the file with one
write, and where the process crashes.  The buffered writer keeps the bytes that were handed to it
and passes them on in order, in pieces of any size and at any time; its flush succeeds only when
nothing is left, and dropping it after a failure may still write some of them.
-/

open Checked Interleaving Utf8

namespace JustKV

open Compiled

def scratchName (stem : String) (pid nonce : UInt32) : Bytes :=
  toBytes ("." ++ stem ++ "." ++ toString pid.toNat ++ "." ++ toString nonce.toNat ++ ".tmp")

def scratchStem (out : Path) : String :=
  match out.fileName with
  | some name => fromUtf8Lossy name
  | none => "out"

/-- The candidate of one attempt: a hidden sibling of the output. -/
def scratchCandidate (out : Path) (pid nonce : UInt32) : Path :=
  (out.parent.getD [.curDir]).join (scratchName (scratchStem out) pid nonce)

/-- The number of names that are tried. -/
def maxAttempts : ℕ := 1000

/-- What one run of the command is given, apart from the output path. -/
structure Invocation where
  csv : CsvReader
  process : Process
  pid : UInt32
  data : Path
  parse : ParseArgs

/-- The flags written to the artifact. -/
def Invocation.flags (invocation : Invocation) : UInt32 :=
  if invocation.parse.allowBinary then flagBinary else 0

inductive Phase
  | start
  | creating (attempt : ℕ)
  | writing (tmp : Path) (buffer : Bytes) (pending : List Bytes)
  | finalizing (tmp : Path)
  | dropping (tmp : Path) (buffer : Bytes)
  | removing (tmp : Path)
  | reporting
  /-- `leftover` is a scratch file whose removal failed. -/
  | exited (code : UInt8) (leftover : Option Path)
  | crashed (leftover : Option Path)
  deriving DecidableEq, Repr

/-- The scratch file a run has created and neither renamed nor removed. -/
def Phase.scratch : Phase → Option Path
  | .start => none
  | .creating _ => none
  | .writing tmp _ _ => some tmp
  | .finalizing tmp => some tmp
  | .dropping tmp _ => some tmp
  | .removing tmp => some tmp
  | .reporting => none
  | .exited _ leftover => leftover
  | .crashed leftover => leftover

/-- A run of the command: the parsed parts once there are any, and how far it has come. -/
structure Build where
  parts : Option (Bytes × List Entry)
  phase : Phase

def Build.new : Build := ⟨none, .start⟩

inductive BuildEvent
  | read (result : Except IoError Bytes)
  | createNew (clock : Option UInt32) (result : Except IoError Unit)
  | writeAll
  | spill (count : ℕ)
  | flush
  | writeFails
  | drop
  | rename (succeeds : Bool)
  | remove (succeeds : Bool)
  | exit
  | crash

/-- One step of a run: the operation it performs on the file system, if any, and its new state. -/
def Build.step (out : Path) (invocation : Invocation) (build : Build) (event : BuildEvent) :
    Option (Option FsOp × Build) :=
  match build.phase, event with
  | .start, .read result =>
      match parseValidated invocation.csv invocation.process (fun _ ↦ result) invocation.data
          invocation.parse with
      | .ok (.ok parts) => some (none, ⟨some parts, .creating 0⟩)
      | .ok (.error code) => some (none, { build with phase := .exited code none })
      | .error _ => some (none, { build with phase := .crashed none })
  | .creating attempt, .createNew clock result =>
      let nonce := clock.getD 0 + UInt32.ofNat attempt
      let candidate := scratchCandidate out invocation.pid nonce
      match result, build.parts with
      | .ok (), some (arena, entries) =>
          some (some (.create candidate),
            { build with phase := .writing candidate [] (writeCompiled arena entries invocation.flags) })
      | .ok (), none => none
      | .error .alreadyExists, _ =>
          -- An occupied name costs another attempt; after the last one the loop gives up.
          let phase := if attempt + 1 < maxAttempts then .creating (attempt + 1)
            else .exited exitIo none
          some (none, { build with phase := phase })
      | .error (.other _), _ => some (none, { build with phase := .exited exitIo none })
  | .writing tmp buffer (chunk :: pending), .writeAll =>
      some (none, { build with phase := .writing tmp (buffer ++ chunk) pending })
  | .writing tmp buffer pending, .spill count =>
      some (some (.append tmp (buffer.take count)),
        { build with phase := .writing tmp (buffer.drop count) pending })
  | .writing tmp [] [], .flush => some (none, { build with phase := .finalizing tmp })
  | .writing tmp buffer _, .writeFails => some (none, { build with phase := .dropping tmp buffer })
  | .dropping tmp buffer, .spill count =>
      some (some (.append tmp (buffer.take count)),
        { build with phase := .dropping tmp (buffer.drop count) })
  | .dropping tmp _, .drop => some (none, { build with phase := .removing tmp })
  | .finalizing tmp, .rename true =>
      some (some (.rename tmp out), { build with phase := .reporting })
  | .finalizing tmp, .rename false => some (none, { build with phase := .removing tmp })
  | .removing tmp, .remove true =>
      some (some (.remove tmp), { build with phase := .exited exitIo none })
  | .removing tmp, .remove false =>
      some (none, { build with phase := .exited exitIo (some tmp) })
  | .reporting, .exit => some (none, { build with phase := .exited exitOk none })
  | .exited _ _, .crash => none
  | .crashed _, .crash => none
  | phase, .crash => some (none, { build with phase := .crashed phase.scratch })
  | _, _ => none

/-- Runs of the command with one output path over one disk. -/
def cmdBuild {ι : Type} (out : Path) (invocations : ι → Invocation) :
    Program ι BuildEvent (Disk ι) Build := fun i event disk build ↦
  match build.step out (invocations i) event with
  | none => none
  | some (none, next) => some (disk, next)
  | some (some op, next) => if op.Enabled disk.fs then some (disk.perform i op, next) else none

/-- Before any run has started. -/
def launched {ι : Type} (initial : FileSystem) : World ι (Disk ι) Build :=
  ⟨⟨initial, []⟩, fun _ ↦ .new⟩

end JustKV
