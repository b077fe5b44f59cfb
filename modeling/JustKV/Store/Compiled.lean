import JustKV.Library.FixedWidth
import JustKV.Store.Basic

/-!
# The compiled format

A compiled file is the magic, four little-endian words (flags, entry count, arena length and one
reserved), sixteen bytes for each entry and the arena.  The writer casts the counts to `u32`
without a check.  The reader computes in `usize` and checks the sizes before it decodes an entry
and the windows of each entry as it decodes them.
-/

open Checked FixedWidth

namespace JustKV

inductive CompiledError
  | badMagic
  | truncated
  | outOfBounds (index : ℕ)
  deriving DecidableEq, Repr

namespace Compiled

/-- `JUSTKV01` in ASCII. -/
def magic : Bytes := [74, 85, 83, 84, 75, 86, 48, 49]

def headerLen : ℕ := 24

def entryLen : ℕ := 16

/-- Values were not UTF-8 validated. -/
def flagBinary : UInt32 := 1

def isCompiled (data : Bytes) : Bool :=
  decide (magic.length ≤ data.length) && decide (data.take magic.length = magic)

/-- The buffers handed to `write_all`, in order; writing stops at the first that fails. -/
def writeCompiled (arena : Bytes) (entries : List Entry) (flags : UInt32) : List Bytes :=
  [magic, toLeBytes flags, toLeBytes (UInt32.ofNat entries.length),
    toLeBytes (UInt32.ofNat arena.length), toLeBytes 0] ++
  (entries.flatMap fun entry ↦
    [toLeBytes entry.kOff, toLeBytes entry.kLen, toLeBytes entry.vOff, toLeBytes entry.vLen]) ++
  [arena]

/-- The file a completed write leaves. -/
def compiledBytes (arena : Bytes) (entries : List Entry) (flags : UInt32) : Bytes :=
  (writeCompiled arena entries flags).flatten

def leU32 (bytes : Bytes) : Run UInt32 := do
  let b₀ ← index bytes 0
  let b₁ ← index bytes 1
  let b₂ ← index bytes 2
  let b₃ ← index bytes 3
  pure (fromLeBytes b₀ b₁ b₂ b₃)

/-- What the header says, once the file is known to be long enough for it. -/
structure Header where
  flags : UInt32
  count : ℕ
  arenaLen : ℕ
  entriesEnd : ℕ
  total : ℕ

variable (w : Width) (data : Bytes)

/-- The ends of the entries and of the arena, if `usize` can hold them and the data reaches them. -/
def checkedEnds (count arenaLen : ℕ) : Except CompiledError (ℕ × ℕ) :=
  match (checkedMul w count entryLen).bind (checkedAdd w headerLen) with
  | none => .error .truncated
  | some entriesEnd =>
    match checkedAdd w entriesEnd arenaLen with
    | none => .error .truncated
    | some total =>
      if data.length < total then .error .truncated else .ok (entriesEnd, total)

def readHeader : Run (Except CompiledError Header) :=
  if !isCompiled data then
    pure (.error (if data.length < magic.length then .truncated else .badMagic))
  else if data.length < headerLen then pure (.error .truncated)
  else do
    let flags ← slice data 8 12 >>= leU32
    let count ← slice data 12 16 >>= leU32
    let arenaLen ← slice data 16 20 >>= leU32
    match checkedEnds w data count.toNat arenaLen.toNat with
    | .error error => pure (.error error)
    | .ok (entriesEnd, total) =>
      pure (.ok ⟨flags, count.toNat, arenaLen.toNat, entriesEnd, total⟩)

/-- Decode entry `i`. -/
def readEntry (i : ℕ) : Run Entry := do
  let o ← mul w i entryLen >>= add w headerLen
  let o₄ ← add w o 4
  let o₈ ← add w o 8
  let o₁₂ ← add w o 12
  let o₁₆ ← add w o 16
  let kOff ← slice data o o₄ >>= leU32
  let kLen ← slice data o₄ o₈ >>= leU32
  let vOff ← slice data o₈ o₁₂ >>= leU32
  let vLen ← slice data o₁₂ o₁₆ >>= leU32
  pure ⟨kOff, kLen, vOff, vLen⟩

/-- Reject entry `i` if one of its windows ends past the arena. -/
def checkWindows (arenaLen i : ℕ) (entry : Entry) : Except CompiledError Unit :=
  match checkedAdd w entry.kOff.toNat entry.kLen.toNat with
  | none => .error (.outOfBounds i)
  | some kEnd =>
    match checkedAdd w entry.vOff.toNat entry.vLen.toNat with
    | none => .error (.outOfBounds i)
    | some vEnd =>
      if kEnd > arenaLen || vEnd > arenaLen then .error (.outOfBounds i) else .ok ()

/-- The decoding loop: `remaining` entries from index `i` on, after those already decoded. -/
def readEntries (arenaLen : ℕ) : ℕ → ℕ → List Entry → Run (Except CompiledError (List Entry))
  | 0, _, entries => pure (.ok entries)
  | remaining + 1, i, entries => do
    let entry ← readEntry w data i
    match checkWindows w arenaLen i entry with
    | .error error => pure (.error error)
    | .ok () => readEntries arenaLen remaining (i + 1) (entries ++ [entry])

def readCompiled : Run (Except CompiledError (Bytes × List Entry × UInt32)) := do
  match ← readHeader w data with
  | .error error => pure (.error error)
  | .ok header => do
    withCapacity w entryLen header.count
    match ← readEntries w data header.arenaLen header.count 0 [] with
    | .error error => pure (.error error)
    | .ok entries => do
      let arena ← slice data header.entriesEnd header.total
      pure (.ok (arena, entries, header.flags))

end Compiled

end JustKV
