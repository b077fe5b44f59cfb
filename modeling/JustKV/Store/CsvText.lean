import JustKV.Csv.Writer
import JustKV.Store.CsvFaithful

/-!
# CSV text round-trips into the store

The tests render pairs as CSV text and parse it back.  For pairs that a store can hold at all, the
parse succeeds and the store answers exactly the pairs, whatever bytes they are made of.
-/

open Checked HashTable Utf8

namespace JustKV

open Csv

/-- Rendered pairs are accepted if they are distinct, fit and have allowed values. -/
theorem accepted_toCsv {csv : CsvReader} {opts : LoadOptions} {pairs : Dataset}
    (hdelimiter : opts.delimiter = comma) (hheader : opts.hasHeader = false)
    (hcsv : Follows csv ⟨comma, false⟩) (hnodup : pairs.keys.Nodup) (hsize : pairs.size ≤ u32Max)
    (hutf8 : ∀ pair ∈ pairs, opts.allowBinary = true ∨ (fromUtf8 pair.2).isSome) :
    Accepted opts (csv ⟨opts.delimiter, opts.hasHeader⟩ (toCsv pairs)) pairs := by
  obtain ⟨hfields, hending⟩ := hcsv (toCsv pairs)
  rw [hdelimiter, hheader]
  exact ⟨hfields.trans (fields_toCsv pairs), hending, hnodup, hsize, hutf8⟩

/-- The rendering of pairs of byte strings parses, and the store built from the parts holds these
pairs and nothing else, for every reader that follows the grammar. -/
theorem csv_text_round_trip (csv : CsvReader) (process : Process) (opts : LoadOptions)
    (pairs : Dataset) (hdelimiter : opts.delimiter = comma) (hheader : opts.hasHeader = false)
    (hcsv : Follows csv ⟨comma, false⟩) (hnodup : pairs.keys.Nodup) (hsize : pairs.size ≤ u32Max)
    (hutf8 : ∀ pair ∈ pairs, opts.allowBinary = true ∨ (fromUtf8 pair.2).isSome) :
    ∃ arena entries, parseCsv csv process (toCsv pairs) opts = .ok (.ok (arena, entries)) ∧
      ∀ layout hasher, ∃ store, Store.fromParts layout hasher arena entries = .ok store ∧
        store.len = pairs.length ∧
        (∀ key value, (key, value) ∈ pairs → store.get key = .ok (some value)) ∧
        ∀ query, (∀ value, (query, value) ∉ pairs) → store.get query = .ok none := by
  have haccepted := accepted_toCsv hdelimiter hheader hcsv hnodup hsize hutf8
  refine ⟨_, _, parseCsv_eq_ok_ok_iff.mpr ⟨pairs, haccepted, rfl⟩, fun layout hasher ↦ ?_⟩
  have hsound := sound_store haccepted.parts layout hasher
  have hpairs : (haccepted.parts.store layout hasher).pairs = pairs := by simp
  refine ⟨_, fromParts_eq_ok haccepted.parts layout hasher, by simp, ?_, ?_⟩
  · intro key value hmem
    obtain ⟨answer, hget, hanswer⟩ := get_eq_some_iff hsound (hpairs.symm ▸ hnodup) key
    rw [hget, (hanswer value).mpr (hpairs.symm ▸ hmem)]
  · intro query habsent
    obtain ⟨answer, hget, hanswer⟩ := get_answers hsound query
    rw [hpairs] at hanswer
    cases answer with
    | none => exact hget
    | some value => exact absurd hanswer (habsent value)

/-- A key that begins with the bytes of a byte order mark and an empty key, with values made of a
quote, a comma and line ends. -/
theorem csv_text_round_trip_bom :
    ∃ arena entries, parseCsv Csv.grammar default
        (toCsv [([0xEF, 0xBB, 0xBF], [34, 44, 13, 10]), ([], [10])]) default =
          .ok (.ok (arena, entries)) ∧
      ∃ store, Store.fromParts (stacked _) (fun _ ↦ 7) arena entries = .ok store ∧
        store.get [0xEF, 0xBB, 0xBF] = .ok (some [34, 44, 13, 10]) ∧ store.get [1] = .ok none := by
  obtain ⟨arena, entries, hparse, hstore⟩ := csv_text_round_trip Csv.grammar default default
    [([0xEF, 0xBB, 0xBF], [34, 44, 13, 10]), ([], [10])] rfl rfl (follows_grammar _) (by decide)
    (by decide) (by decide)
  obtain ⟨store, hfrom, _, hget, habsent⟩ := hstore (stacked _) fun _ ↦ 7
  refine ⟨arena, entries, hparse, store, hfrom, hget _ _ (by decide), habsent [1] ?_⟩
  simp

end JustKV
