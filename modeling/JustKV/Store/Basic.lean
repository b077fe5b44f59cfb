import JustKV.Library.HashTable

/-!
# The arena store

All keys and values lie in one byte arena; an entry names its key and its value by offset and
length.  The store indexes the entries by the hash of their key bytes.  Offsets and lengths are
`u32`, and `Entry.key` and `Store.get` add them as `u32` before slicing: both the addition and
the slice stop the program when they go out of range.
-/

open Checked HashTable

namespace JustKV

abbrev Bytes := List UInt8

/-- `u32::MAX as usize`. -/
def u32Max : ℕ := 2 ^ 32 - 1

/-- A key/value pair as two windows into the arena. -/
structure Entry where
  kOff : UInt32
  kLen : UInt32
  vOff : UInt32
  vLen : UInt32
  deriving DecidableEq, Repr

/-- The key bytes, `&arena[k_off..k_off + k_len]`. -/
def Entry.key (entry : Entry) (arena : Bytes) : Run Bytes := do
  let stop ← addU32 entry.kOff entry.kLen
  slice arena entry.kOff.toNat stop.toNat

/-- One seeded hasher.  Seeds are drawn anew in every process; within one hasher the hash is a
function of the bytes. -/
abbrev RandomState := Bytes → UInt64

def hashKey (state : RandomState) (key : Bytes) : UInt64 := state key

/-- The immutable store. -/
structure Store where
  arena : Bytes
  table : Table Entry
  hasher : RandomState

/-- Insert one entry; the table may ask for the hashes of entries already inserted. -/
def Store.insertEntry (hasher : RandomState) (arena : Bytes) (table : Table Entry)
    (entry : Entry) : Run (Table Entry) := do
  let key ← entry.key arena
  table.insertUnique (hashKey hasher key) entry fun other ↦ do
    let otherKey ← other.key arena
    pure (hashKey hasher otherKey)

/-- Build a store from an arena and its entry list, trusting both. -/
def Store.fromParts (layout : Layout Entry) (hasher : RandomState) (arena : Bytes)
    (entries : List Entry) : Run Store := do
  let table ← entries.foldlM (Store.insertEntry hasher arena) (Table.new layout)
  pure ⟨arena, table, hasher⟩

/-- Look up a key and slice its value out of the arena. -/
def Store.get (store : Store) (key : Bytes) : Run (Option Bytes) := do
  let found ← store.table.find (hashKey store.hasher key) fun entry ↦ do
    let entryKey ← entry.key store.arena
    pure (decide (entryKey = key))
  match found with
  | none => pure none
  | some entry => do
    let stop ← addU32 entry.vOff entry.vLen
    let value ← slice store.arena entry.vOff.toNat stop.toNat
    pure (some value)

def Store.len (store : Store) : ℕ := store.table.len

def Store.arenaLen (store : Store) : ℕ := store.arena.length

end JustKV
