import Mathlib.Data.List.Nodup
import JustKV.Store.Basic

/-!
# What a lookup answers

A dataset is a list of key/value pairs.  `Answers` says which results a lookup in a dataset may
give: the value of some pair with that key, or nothing when no pair has it.  Entries whose
windows end inside a `u32`-sized arena denote a dataset, a store built from them is sound, and a
sound store answers every query without stopping.  With pairwise distinct keys the answer is the
dataset's own lookup, whatever the hash seed and the table layout.
-/

open Checked HashTable

namespace JustKV

/-- Key/value pairs in row order. -/
abbrev Dataset := List (Bytes × Bytes)

/-- The results a lookup of `key` may give. -/
def Answers (pairs : Dataset) (key : Bytes) : Option Bytes → Prop
  | some value => (key, value) ∈ pairs
  | none => ∀ value, (key, value) ∉ pairs

def Dataset.keys (pairs : Dataset) : List Bytes := pairs.map Prod.fst

/-- Key and value bytes taken together. -/
def Dataset.size (pairs : Dataset) : ℕ :=
  (pairs.map fun pair ↦ pair.1.length + pair.2.length).sum

theorem mem_keys {pairs : Dataset} {key : Bytes} :
    key ∈ pairs.keys ↔ ∃ value, (key, value) ∈ pairs := by
  simp [Dataset.keys]

theorem value_unique {pairs : Dataset} (hnodup : pairs.keys.Nodup) {key value other : Bytes}
    (hvalue : (key, value) ∈ pairs) (hother : (key, other) ∈ pairs) : value = other :=
  congrArg Prod.snd (List.inj_on_of_nodup_map hnodup hvalue hother rfl)

/-- A lookup answers something exactly on the keys. -/
theorem Answers.isSome_iff {pairs : Dataset} {key : Bytes} {answer : Option Bytes}
    (h : Answers pairs key answer) : answer.isSome ↔ key ∈ pairs.keys := by
  rw [mem_keys]
  cases answer with
  | none => simpa [Answers] using h
  | some value => exact iff_of_true rfl ⟨value, h⟩

/-- Distinct keys leave a lookup no choice. -/
theorem Answers.eq_some_iff {pairs : Dataset} (hnodup : pairs.keys.Nodup) {key : Bytes}
    {answer : Option Bytes} (h : Answers pairs key answer) (value : Bytes) :
    answer = some value ↔ (key, value) ∈ pairs := by
  constructor
  · rintro rfl
    exact h
  · intro hmem
    cases answer with
    | none => exact absurd hmem (h value)
    | some found => rw [value_unique hnodup h hmem]

theorem Answers.unique {pairs : Dataset} (hnodup : pairs.keys.Nodup) {key : Bytes}
    {left right : Option Bytes} (hleft : Answers pairs key left)
    (hright : Answers pairs key right) : left = right := by
  ext value
  exact (hleft.eq_some_iff hnodup value).trans (hright.eq_some_iff hnodup value).symm

theorem Answers.perm {pairs pairs' : Dataset} {key : Bytes} {answer : Option Bytes}
    (h : Answers pairs key answer) (hperm : pairs.Perm pairs') : Answers pairs' key answer := by
  cases answer with
  | some value => exact hperm.mem_iff.mp h
  | none => exact fun value hmem ↦ h value (hperm.mem_iff.mpr hmem)

/-- The window of `len` bytes at offset `off`. -/
def window (arena : Bytes) (off len : UInt32) : Bytes := (arena.drop off.toNat).take len.toNat

/-- Both windows of an entry end inside the arena. -/
structure Entry.InRange (arena : Bytes) (entry : Entry) : Prop where
  key_le : entry.kOff.toNat + entry.kLen.toNat ≤ arena.length
  value_le : entry.vOff.toNat + entry.vLen.toNat ≤ arena.length

/-- The pair an entry stands for. -/
def Entry.pair (arena : Bytes) (entry : Entry) : Bytes × Bytes :=
  (window arena entry.kOff entry.kLen, window arena entry.vOff entry.vLen)

/-- Adding offset and length and slicing yields the window whenever it ends in the arena. -/
theorem slice_window {arena : Bytes} {off len : UInt32} (harena : arena.length ≤ u32Max)
    (hrange : off.toNat + len.toNat ≤ arena.length) :
    (addU32 off len >>= fun stop ↦ slice arena off.toNat stop.toNat) =
      .ok (window arena off len) := by
  have hsum : off.toNat + len.toNat < 2 ^ 32 := by
    unfold u32Max at harena
    omega
  rw [addU32_eq_ok hsum, ok_bind, toNat_add_of_lt hsum, slice_eq_ok (Nat.le_add_right _ _) hrange,
    Nat.add_sub_cancel_left]
  rfl

theorem Entry.key_eq_ok {arena : Bytes} {entry : Entry} (harena : arena.length ≤ u32Max)
    (h : entry.InRange arena) : entry.key arena = .ok (entry.pair arena).1 :=
  slice_window harena h.key_le

/-! ## Parts and the stores built from them -/

/-- An arena and entries that are safe to index: what `fromParts` expects of its caller. -/
structure Parts where
  arena : Bytes
  entries : List Entry
  arena_le : arena.length ≤ u32Max
  inRange : ∀ entry ∈ entries, entry.InRange arena

/-- The dataset the parts denote. -/
def Parts.pairs (parts : Parts) : Dataset := parts.entries.map (Entry.pair parts.arena)

/-- A store whose entries are in range and filed under the hash of their key. -/
structure Store.Sound (store : Store) : Prop where
  arena_le : store.arena.length ≤ u32Max
  inRange : ∀ entry ∈ store.table.elements, entry.InRange store.arena
  filed : store.table.FiledBy store.hasher fun entry ↦ (entry.pair store.arena).1

/-- The dataset a store holds. -/
def Store.pairs (store : Store) : Dataset := store.table.elements.map (Entry.pair store.arena)

@[simp] theorem length_pairs (store : Store) : store.pairs.length = store.len := by
  simp [Store.pairs, Store.len]

/-- The slots of a table that got the given entries in order. -/
def Store.slotsOf (hasher : RandomState) (arena : Bytes) (entries : List Entry) : Slots Entry :=
  entries.map fun entry ↦ (hasher (entry.pair arena).1, entry)

theorem insertEntry_eq_ok {layout : Layout Entry} {hasher : RandomState} {arena : Bytes}
    {entries : List Entry} {entry : Entry} (harena : arena.length ≤ u32Max)
    (hentries : ∀ other ∈ entries, other.InRange arena) (hentry : entry.InRange arena) :
    Store.insertEntry hasher arena ⟨layout, Store.slotsOf hasher arena entries⟩ entry =
      .ok ⟨layout, Store.slotsOf hasher arena (entries ++ [entry])⟩ := by
  rw [Store.insertEntry, Entry.key_eq_ok harena hentry, ok_bind, insertUnique_eq_ok]
  · simp [Store.slotsOf, hashKey]
  · intro slot hslot
    obtain ⟨other, hother, rfl⟩ := List.mem_map.mp hslot
    rw [Entry.key_eq_ok harena (hentries other hother)]
    rfl

theorem foldlM_insertEntry (layout : Layout Entry) (hasher : RandomState) {arena : Bytes}
    (harena : arena.length ≤ u32Max) (entries before : List Entry)
    (h : ∀ entry ∈ before ++ entries, entry.InRange arena) :
    entries.foldlM (Store.insertEntry hasher arena)
        ⟨layout, Store.slotsOf hasher arena before⟩ =
      .ok ⟨layout, Store.slotsOf hasher arena (before ++ entries)⟩ := by
  induction entries generalizing before with
  | nil => simp
  | cons entry rest ih =>
    have hbefore : ∀ other ∈ before, other.InRange arena :=
      fun other hother ↦ h other (List.mem_append_left _ hother)
    have hentry : entry.InRange arena := h entry (by simp)
    have hassoc : before ++ entry :: rest = before ++ [entry] ++ rest := by simp
    rw [List.foldlM_cons, insertEntry_eq_ok harena hbefore hentry, ok_bind, hassoc]
    exact ih (before ++ [entry]) (hassoc ▸ h)

/-- The store `fromParts` builds from safe parts. -/
def Parts.store (parts : Parts) (layout : Layout Entry) (hasher : RandomState) : Store :=
  ⟨parts.arena, ⟨layout, Store.slotsOf hasher parts.arena parts.entries⟩, hasher⟩

theorem fromParts_eq_ok (parts : Parts) (layout : Layout Entry) (hasher : RandomState) :
    Store.fromParts layout hasher parts.arena parts.entries =
      .ok (parts.store layout hasher) := by
  have hfold := foldlM_insertEntry layout hasher parts.arena_le parts.entries []
    (by simpa using parts.inRange)
  calc
    _ = (parts.entries.foldlM (Store.insertEntry hasher parts.arena)
        ⟨layout, Store.slotsOf hasher parts.arena []⟩ >>= fun table ↦
          (.ok ⟨parts.arena, table, hasher⟩ : Run Store)) := rfl
    _ = _ := by
      rw [hfold]
      rfl

section PartsStore

variable (parts : Parts) (layout : Layout Entry) (hasher : RandomState)

@[simp] theorem elements_store : (parts.store layout hasher).table.elements = parts.entries := by
  simp [Parts.store, Table.elements, Store.slotsOf, Function.comp_def]

@[simp] theorem pairs_store : (parts.store layout hasher).pairs = parts.pairs := by
  rw [Store.pairs, elements_store]
  rfl

@[simp] theorem len_store : (parts.store layout hasher).len = parts.entries.length := by
  rw [Store.len, ← length_elements, elements_store]

@[simp] theorem arenaLen_store :
    (parts.store layout hasher).arenaLen = parts.arena.length := rfl

theorem sound_store : (parts.store layout hasher).Sound where
  arena_le := parts.arena_le
  inRange entry hentry := parts.inRange entry (by simpa using hentry)
  filed slot hslot := by
    obtain ⟨entry, _, rfl⟩ := List.mem_map.mp hslot
    rfl

end PartsStore

/-- A lookup in a sound store never stops, and it answers from the store's dataset. -/
theorem get_answers {store : Store} (h : store.Sound) (key : Bytes) :
    ∃ answer, store.get key = .ok answer ∧ Answers store.pairs key answer := by
  have htest : ∀ entry ∈ store.table.elements,
      (do let entryKey ← entry.key store.arena; pure (decide (entryKey = key)) : Run Bool) =
        .ok (decide ((entry.pair store.arena).1 = key)) := by
    intro entry hentry
    rw [Entry.key_eq_ok h.arena_le (h.inRange entry hentry)]
    rfl
  obtain ⟨found, hfind, hsome, hnone⟩ := find_key h.filed htest
  cases found with
  | none =>
    refine ⟨none, ?_, ?_⟩
    · rw [Store.get, hashKey, hfind]
      rfl
    · intro value hmem
      obtain ⟨entry, hentry, hpair⟩ := List.mem_map.mp hmem
      exact hnone rfl entry hentry (by rw [hpair])
  | some entry =>
    obtain ⟨hentry, hkey⟩ := hsome entry rfl
    refine ⟨some (entry.pair store.arena).2, ?_, ?_⟩
    · have hslice := slice_window h.arena_le (h.inRange entry hentry).value_le
      obtain ⟨stop, hstop, hvalue⟩ := bind_eq_ok.mp hslice
      rw [Store.get, hashKey, hfind, ok_bind]
      simp only [hstop, ok_bind, hvalue]
      rfl
    · exact List.mem_map.mpr ⟨entry, hentry, Prod.ext hkey rfl⟩

/-- With pairwise distinct keys a sound store answers exactly its dataset. -/
theorem get_eq_some_iff {store : Store} (h : store.Sound) (hnodup : store.pairs.keys.Nodup)
    (key : Bytes) :
    ∃ answer, store.get key = .ok answer ∧
      ∀ value, answer = some value ↔ (key, value) ∈ store.pairs := by
  obtain ⟨answer, hget, hanswer⟩ := get_answers h key
  exact ⟨answer, hget, hanswer.eq_some_iff hnodup⟩

/-- Sound stores of the same pairs in any order agree on every query if the keys are distinct,
whatever their seeds and layouts. -/
theorem get_of_pairs_perm {left right : Store} (hleft : left.Sound) (hright : right.Sound)
    (hperm : left.pairs.Perm right.pairs) (hnodup : left.pairs.keys.Nodup) (key : Bytes) :
    ∃ answer, left.get key = .ok answer ∧ right.get key = .ok answer := by
  obtain ⟨answer, hget, hanswer⟩ := get_answers hleft key
  obtain ⟨answer', hget', hanswer'⟩ := get_answers hright key
  have hsame : answer = answer' := hanswer.unique hnodup (hanswer'.perm hperm.symm)
  exact ⟨answer, hget, hsame ▸ hget'⟩

end JustKV
