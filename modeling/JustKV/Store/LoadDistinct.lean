import Mathlib.Data.Set.Card
import JustKV.Store.Load

/-!
# Distinct keys

The parser and every artifact written from its parts have pairwise distinct keys.  Then the number
of keys a store reports is the number of byte strings it answers, and the answers do not depend
on the seed or the layout of the process.  The decoder itself checks bounds only, so a compiled
file that repeats a key loads, and its answers are up to the layout.
-/

open Checked HashTable

namespace JustKV

open Compiled

/-- With distinct keys the reported number of keys counts the answered queries. -/
theorem ncard_answered {store : Store} (h : store.Sound) (hnodup : store.pairs.keys.Nodup) :
    Set.ncard {key | ∃ value, store.get key = .ok (some value)} = store.len := by
  have hkeys : {key | ∃ value, store.get key = .ok (some value)} =
      (store.pairs.keys.toFinset : Set Bytes) := by
    ext key
    obtain ⟨answer, hget, hanswer⟩ := get_answers h key
    rw [Set.mem_ofPred_eq, hget, List.coe_toFinset, Set.mem_ofPred_eq, ← hanswer.isSome_iff,
      Option.isSome_iff_exists]
    simp only [Except.ok.injEq]
  calc
    _ = (store.pairs.keys.toFinset : Set Bytes).ncard := by rw [hkeys]
    _ = store.pairs.keys.toFinset.card := Set.ncard_coe_finset _
    _ = store.pairs.keys.length := List.toFinset_card_of_nodup hnodup
    _ = store.len := by rw [Dataset.keys, List.length_map, length_pairs]

section Loaded

variable {w : Width} {csv : CsvReader} {process : Process} {data : Bytes} {opts : LoadOptions}
  {arena : Bytes} {entries : List Entry} {format : SourceFormat} {flags : UInt32}

/-- The keys of entries over an arena. -/
def keysOf (arena : Bytes) (entries : List Entry) : List Bytes :=
  entries.map fun entry ↦ window arena entry.kOff entry.kLen

theorem keys_pairs (parts : Parts) : parts.pairs.keys = keysOf parts.arena parts.entries := by
  simp [Dataset.keys, Parts.pairs, keysOf, Entry.pair, Function.comp_def]

theorem nodup_of_parseCsv (h : parseCsv csv process data opts = .ok (.ok (arena, entries))) :
    (keysOf arena entries).Nodup := by
  obtain ⟨pairs, haccepted, rfl, rfl⟩ := parts_of_parseCsv h
  rw [← keys_pairs, haccepted.pairs_parts]
  exact haccepted.nodup

/-- Neither count of parsed parts is cut when it is cast to `u32`. -/
theorem length_lt_of_parseCsv (h : parseCsv csv process data opts = .ok (.ok (arena, entries))) :
    arena.length < 2 ^ 32 ∧ entries.length < 2 ^ 32 := by
  obtain ⟨pairs, haccepted, rfl, rfl⟩ := parts_of_parseCsv h
  have hsize := haccepted.size_le
  have hcount := length_lt_of_nodup haccepted.nodup hsize
  unfold u32Max at hsize
  rw [haccepted.length_arena, haccepted.length_entries]
  omega

/-- Parsed parts lie in their arena. -/
theorem firstOutside_of_parseCsv
    (h : parseCsv csv process data opts = .ok (.ok (arena, entries))) :
    firstOutside arena.length entries = none := by
  obtain ⟨pairs, haccepted, rfl, rfl⟩ := parts_of_parseCsv h
  apply List.findIdx?_eq_none_iff.mpr
  intro entry hentry
  simpa using fits_iff_inRange.mpr (haccepted.parts.inRange entry hentry)

/-- An artifact of parsed parts means those parts. -/
theorem classify_artifact (flags : UInt32)
    (h : parseCsv csv process data opts = .ok (.ok (arena, entries))) (rest : Bytes) :
    classify (compiledBytes arena entries flags ++ rest) = .ok (arena, entries, flags) := by
  obtain ⟨harena, hentries⟩ := length_lt_of_parseCsv h
  rw [classify_compiledBytes flags rest hentries harena, firstOutside_of_parseCsv h]

/-- An artifact loads as the parts and flags it was written from, whatever the later options. -/
theorem loadParts_artifact {csv' : CsvReader} {process' : Process} {source : Bytes}
    {opts' : LoadOptions} {arena' : Bytes} {entries' : List Entry} {flags' : UInt32} {rest : Bytes}
    (hparse : parseCsv csv' process' source opts' = .ok (.ok (arena', entries')))
    (hload : loadParts w csv process (compiledBytes arena' entries' flags' ++ rest) opts =
      .ok (.ok (arena, entries, format, flags))) :
    arena = arena' ∧ entries = entries' ∧ flags = flags' := by
  have hmagic := isCompiled_compiledBytes arena' entries' flags' rest
  have hclassify := classify_of_readCompiled ((loadParts_compiled hmagic).mp hload).1
  rw [classify_artifact flags' hparse rest, Except.ok.injEq, Prod.mk.injEq, Prod.mk.injEq] at hclassify
  exact ⟨hclassify.1.symm, hclassify.2.1.symm, hclassify.2.2.symm⟩

end Loaded

/-- A compiled file with the key `k` twice loads, reports two keys, and answers `k` by whichever
entry the layout tests first. -/
theorem repeated_key_loads :
    let data := compiledBytes [107, 49, 50] [⟨0, 1, 1, 1⟩, ⟨0, 1, 2, 1⟩] 0
    loadParts .w64 Csv.grammar default data default =
        .ok (.ok ([107, 49, 50], [⟨0, 1, 1, 1⟩, ⟨0, 1, 2, 1⟩], .compiled, 0)) ∧
      ¬(keysOf [107, 49, 50] [⟨0, 1, 1, 1⟩, ⟨0, 1, 2, 1⟩]).Nodup ∧
      (Store.fromParts (chained _) (fun _ ↦ 7) [107, 49, 50] [⟨0, 1, 1, 1⟩, ⟨0, 1, 2, 1⟩] >>=
        fun store ↦ store.get [107]) = .ok (some [49]) ∧
      (Store.fromParts (stacked _) (fun _ ↦ 7) [107, 49, 50] [⟨0, 1, 1, 1⟩, ⟨0, 1, 2, 1⟩] >>=
        fun store ↦ store.get [107]) = .ok (some [50]) := by
  decide +kernel

/-- Parsed files and the artifacts of parsed files have distinct keys, and distinct keys make the
number of keys and every answer independent of the process. -/
theorem loaded_keys_distinct (w : Width) (csv : CsvReader) (process : Process) (data : Bytes)
    (opts : LoadOptions) (arena : Bytes) (entries : List Entry) (format : SourceFormat)
    (flags : UInt32)
    (h : loadParts w csv process data opts = .ok (.ok (arena, entries, format, flags))) :
    (format = .csv → (keysOf arena entries).Nodup) ∧
    (∀ csv' process' source opts' arena' entries' flags' rest,
      parseCsv csv' process' source opts' = .ok (.ok (arena', entries')) →
      data = compiledBytes arena' entries' flags' ++ rest → (keysOf arena entries).Nodup) ∧
    ((keysOf arena entries).Nodup →
      ∀ layout hasher, ∃ store, Store.fromParts layout hasher arena entries = .ok store ∧
        Set.ncard {key | ∃ value, store.get key = .ok (some value)} = store.len ∧
        ∀ layout' hasher', ∃ store', Store.fromParts layout' hasher' arena entries = .ok store' ∧
          ∀ key, ∃ answer, store'.get key = .ok answer ∧ store.get key = .ok answer) := by
  refine ⟨?_, ?_, ?_⟩
  · rintro rfl
    cases hmagic : isCompiled data with
    | true => exact absurd ((loadParts_compiled hmagic).mp h).2 (by decide)
    | false => exact nodup_of_parseCsv ((loadParts_csv hmagic).mp h).1
  · rintro csv' process' source opts' arena' entries' flags' rest hparse rfl
    obtain ⟨rfl, rfl, _⟩ := loadParts_artifact hparse h
    exact nodup_of_parseCsv hparse
  · intro hnodup layout hasher
    obtain ⟨parts, rfl, rfl⟩ := parts_of_loadParts h
    have hpairs : (parts.store layout hasher).pairs.keys.Nodup := by
      rwa [pairs_store, keys_pairs]
    have hsound := sound_store parts layout hasher
    refine ⟨_, fromParts_eq_ok parts layout hasher, ncard_answered hsound hpairs, ?_⟩
    intro layout' hasher'
    refine ⟨_, fromParts_eq_ok parts layout' hasher', ?_⟩
    exact get_of_pairs_perm (sound_store parts layout' hasher') hsound (by simp)
      (by simpa using hpairs)

/-- An artifact of two rows, read back. -/
theorem loaded_keys_distinct_artifact :
    (keysOf [97, 49, 98, 50] [⟨0, 1, 1, 1⟩, ⟨2, 1, 3, 1⟩]).Nodup := by
  have hparse : parseCsv Csv.grammar default [97, 44, 49, 10, 98, 44, 50, 10] default =
      .ok (.ok ([97, 49, 98, 50], [⟨0, 1, 1, 1⟩, ⟨2, 1, 3, 1⟩])) := by decide +kernel
  have hload : loadParts .w64 Csv.grammar default
      (compiledBytes [97, 49, 98, 50] [⟨0, 1, 1, 1⟩, ⟨2, 1, 3, 1⟩] 0) default =
        .ok (.ok ([97, 49, 98, 50], [⟨0, 1, 1, 1⟩, ⟨2, 1, 3, 1⟩], .compiled, 0)) := by
    decide +kernel
  exact (loaded_keys_distinct _ _ _ _ _ _ _ _ _ hload).2.1 _ _ _ _ _ _ 0 [] hparse
    (List.append_nil _).symm

end JustKV
