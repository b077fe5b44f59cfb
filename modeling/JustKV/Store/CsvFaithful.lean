import JustKV.Store.CsvAccepted

/-!
# Parsing is faithful to the rows

A parse reports every problem of the rows in one run.  Without problems, the store built from its
parts answers every query from the records, whatever the hash seeds and the table layouts.
-/

open Checked HashTable

namespace JustKV

open CsvLoader

section Accepted

variable {opts : LoadOptions} {delivery : Delivery} {pairs : Dataset}

theorem Accepted.mem_iff (h : Accepted opts delivery pairs) (key value : Bytes) :
    (key, value) ∈ pairs ↔ ∃ record ∈ delivery.records, record.fields = [key, value] := by
  have hmem : [key, value] ∈ delivery.records.map ByteRecord.fields ↔
      [key, value] ∈ pairs.map fun pair ↦ [pair.1, pair.2] := by rw [h.fields]
  rw [List.mem_map, List.mem_map] at hmem
  rw [hmem]
  constructor
  · intro hpair
    exact ⟨(key, value), hpair, rfl⟩
  · rintro ⟨pair, hpair, hfields⟩
    obtain ⟨rfl, rfl⟩ : pair.1 = key ∧ pair.2 = value := by simpa using hfields
    exact hpair

theorem Accepted.length_eq (h : Accepted opts delivery pairs) :
    pairs.length = delivery.records.length := by
  simpa using (congrArg List.length h.fields).symm

theorem Accepted.size_eq (h : Accepted opts delivery pairs) :
    pairs.size = (delivery.records.map fun record ↦ (record.fields.map List.length).sum).sum := by
  calc
    _ = ((pairs.map fun pair ↦ [pair.1, pair.2]).map fun fields ↦
        (fields.map List.length).sum).sum := by
      simp [Dataset.size, Function.comp_def]
    _ = ((delivery.records.map ByteRecord.fields).map fun fields ↦
        (fields.map List.length).sum).sum := by rw [h.fields]
    _ = _ := by
      rw [List.map_map]
      rfl

/-- The parts of an accepted input. -/
def Accepted.parts (h : Accepted opts delivery pairs) : Parts := Parts.ofPairs pairs h.size_le

@[simp] theorem Accepted.pairs_parts (h : Accepted opts delivery pairs) : h.parts.pairs = pairs :=
  pairs_ofPairs pairs h.size_le

@[simp] theorem Accepted.length_entries (h : Accepted opts delivery pairs) :
    h.parts.entries.length = pairs.length :=
  length_layoutFrom 0 pairs

@[simp] theorem Accepted.length_arena (h : Accepted opts delivery pairs) :
    h.parts.arena.length = pairs.size :=
  length_packed pairs

end Accepted

/-- The parts a parse returns are the parts of the dataset it accepted. -/
theorem parts_of_parseCsv {csv : CsvReader} {process : Process} {data : Bytes}
    {opts : LoadOptions} {arena : Bytes} {entries : List Entry}
    (h : parseCsv csv process data opts = .ok (.ok (arena, entries))) :
    ∃ pairs, ∃ accepted : Accepted opts (csv ⟨opts.delimiter, opts.hasHeader⟩ data) pairs,
      accepted.parts.arena = arena ∧ accepted.parts.entries = entries := by
  obtain ⟨pairs, haccepted, hparts⟩ := parseCsv_eq_ok_ok_iff.mp h
  obtain ⟨rfl, rfl⟩ := Prod.mk.inj hparts
  exact ⟨pairs, haccepted, rfl, rfl⟩

/-- The error list of a parse is the report of the rows, in every run and at once. -/
theorem parseCsv_reports (csv : CsvReader) (process : Process) (data : Bytes)
    (opts : LoadOptions) :
    ∃ parts, parseCsv csv process data opts = .ok (
      if (report opts (csv ⟨opts.delimiter, opts.hasHeader⟩ data)).isEmpty then .ok parts
      else .error (report opts (csv ⟨opts.delimiter, opts.hasHeader⟩ data))) :=
  ⟨_, parseCsv_eq_ok csv process data opts⟩

/-- A store of parsed parts answers a query exactly when a record answers it. -/
theorem parsed_store_faithful (csv : CsvReader) (process : Process) (data : Bytes)
    (opts : LoadOptions) (layout : Layout Entry) (hasher : RandomState) (arena : Bytes)
    (entries : List Entry) (h : parseCsv csv process data opts = .ok (.ok (arena, entries))) :
    ∃ store, Store.fromParts layout hasher arena entries = .ok store ∧
      (∀ key, ∃ answer, store.get key = .ok answer ∧
        ∀ value, answer = some value ↔
          ∃ record ∈ (csv ⟨opts.delimiter, opts.hasHeader⟩ data).records,
            record.fields = [key, value]) ∧
      store.len = (csv ⟨opts.delimiter, opts.hasHeader⟩ data).records.length ∧
      store.arenaLen = ((csv ⟨opts.delimiter, opts.hasHeader⟩ data).records.map fun record ↦
        (record.fields.map List.length).sum).sum := by
  obtain ⟨pairs, haccepted, rfl, rfl⟩ := parts_of_parseCsv h
  refine ⟨haccepted.parts.store layout hasher, fromParts_eq_ok _ layout hasher, ?_, ?_, ?_⟩
  · intro key
    have hpairs : (haccepted.parts.store layout hasher).pairs = pairs := by simp
    obtain ⟨answer, hget, hanswer⟩ := get_eq_some_iff (sound_store haccepted.parts layout hasher)
      (hpairs.symm ▸ haccepted.nodup) key
    refine ⟨answer, hget, fun value ↦ ?_⟩
    rw [hanswer, hpairs, haccepted.mem_iff]
  · rw [len_store, haccepted.length_entries, haccepted.length_eq]
  · rw [arenaLen_store, haccepted.length_arena, haccepted.size_eq]

/-- Two rows of which one key begins the other. -/
theorem parsed_store_faithful_prefix :
    ∃ store, Store.fromParts (stacked _) (fun _ ↦ 7) [97, 49, 97, 98, 50]
        [⟨0, 1, 1, 1⟩, ⟨2, 2, 4, 1⟩] = .ok store ∧
      ∃ answer, store.get [97, 98] = .ok answer ∧ ∀ value, answer = some value ↔
        ∃ record ∈ (Csv.grammar ⟨44, false⟩ [97, 44, 49, 10, 97, 98, 44, 50, 10]).records,
          record.fields = [[97, 98], value] := by
  obtain ⟨store, hstore, hget, _, _⟩ := parsed_store_faithful Csv.grammar default
    [97, 44, 49, 10, 97, 98, 44, 50, 10] default (stacked _) (fun _ ↦ 7) [97, 49, 97, 98, 50]
    [⟨0, 1, 1, 1⟩, ⟨2, 2, 4, 1⟩] (by decide +kernel)
  exact ⟨store, hstore, hget [97, 98]⟩

end JustKV
