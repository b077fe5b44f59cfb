import JustKV.Os.Path
import JustKV.Store.CompiledRoundTrip
import JustKV.Store.CsvFaithful

/-!
# Loading a dataset

`load` chooses the loader by the magic bytes and trusts the parts it gets.  Both loaders return
safe parts: the parser because its arena is capped, the decoder because it checks every window.
So no file, however damaged, can make a lookup go out of range.
-/

open Checked HashTable

namespace JustKV

inductive SourceFormat
  | csv
  | compiled
  deriving DecidableEq, Repr

structure Loaded where
  store : Store
  format : SourceFormat
  flags : UInt32
  source : Path

inductive LoadFailure
  | io (error : IoError)
  | data (errors : List DataError)
  | compiled (error : CompiledError)
  deriving DecidableEq, Repr

open Compiled

section Load

variable (w : Width) (csv : CsvReader) (process : Process)

/-- The parts of the file contents, with the format they came in and the flags. -/
def loadParts (data : Bytes) (opts : LoadOptions) :
    Run (Except LoadFailure (Bytes × List Entry × SourceFormat × UInt32)) :=
  if isCompiled data then do
    match ← readCompiled w data with
    | .error error => pure (.error (.compiled error))
    | .ok (arena, entries, flags) => pure (.ok (arena, entries, .compiled, flags))
  else do
    match ← parseCsv csv process data opts with
    | .error errors => pure (.error (.data errors))
    | .ok (arena, entries) =>
      pure (.ok (arena, entries, .csv, if opts.allowBinary then flagBinary else 0))

/-- Load the file at a path, with `read` for `fs::read`. -/
def load (read : Path → Except IoError Bytes) (path : Path) (opts : LoadOptions) :
    Run (Except LoadFailure Loaded) :=
  match read path with
  | .error error => pure (.error (.io error))
  | .ok data => do
    match ← loadParts w csv process data opts with
    | .error failure => pure (.error failure)
    | .ok (arena, entries, format, flags) => do
      let store ← Store.fromParts process.tableLayout process.storeHasher arena entries
      pure (.ok ⟨store, format, flags, path⟩)

end Load

/-- The parts that a byte string means as a compiled file. -/
theorem parts_of_classify {data arena : Bytes} {entries : List Entry} {flags : UInt32}
    (h : classify data = .ok (arena, entries, flags)) :
    ∃ parts : Parts, parts.arena = arena ∧ parts.entries = entries := by
  obtain ⟨hheader, hfirst, rfl, rfl, rfl⟩ := classify_eq_ok h
  have hlength := length_arenaOf (classifyHeader_eq_ok.mp hheader).2.2
  refine ⟨⟨arenaOf data, entriesOf data, ?_, ?_⟩, rfl, rfl⟩
  · have hlt := arenaLenOf_lt data
    unfold u32Max
    omega
  · intro entry hentry
    apply fits_iff_inRange.mp
    rw [hlength]
    simpa using List.findIdx?_eq_none_iff.mp hfirst entry hentry

section LoadParts

variable {w : Width} {csv : CsvReader} {process : Process} {data : Bytes} {opts : LoadOptions}
  {arena : Bytes} {entries : List Entry} {format : SourceFormat} {flags : UInt32}

theorem loadParts_compiled (hmagic : isCompiled data = true) :
    loadParts w csv process data opts = .ok (.ok (arena, entries, format, flags)) ↔
      readCompiled w data = .ok (.ok (arena, entries, flags)) ∧ format = .compiled := by
  rw [loadParts, if_pos hmagic, bind_eq_ok]
  constructor
  · rintro ⟨result, hread, hresult⟩
    cases result with
    | error error => simp at hresult
    | ok parts =>
      obtain ⟨rfl, rfl, rfl, rfl⟩ : parts.1 = arena ∧ parts.2.1 = entries ∧
        SourceFormat.compiled = format ∧ parts.2.2 = flags := by simpa using hresult
      exact ⟨hread, rfl⟩
  · rintro ⟨hread, rfl⟩
    exact ⟨_, hread, rfl⟩

theorem loadParts_csv (hmagic : isCompiled data = false) :
    loadParts w csv process data opts = .ok (.ok (arena, entries, format, flags)) ↔
      parseCsv csv process data opts = .ok (.ok (arena, entries)) ∧ format = .csv ∧
        flags = if opts.allowBinary then flagBinary else 0 := by
  rw [loadParts, if_neg (Bool.eq_false_iff.mp hmagic), bind_eq_ok]
  constructor
  · rintro ⟨result, hparse, hresult⟩
    cases result with
    | error errors => simp at hresult
    | ok parts =>
      simp only [pure_eq_ok, Except.ok.injEq, Prod.mk.injEq] at hresult
      obtain ⟨rfl, rfl, rfl, rfl⟩ := hresult
      exact ⟨hparse, rfl, rfl⟩
  · rintro ⟨hparse, rfl, rfl⟩
    exact ⟨_, hparse, rfl⟩

/-- Whatever the file, parts that reach the constructor are safe. -/
theorem parts_of_loadParts
    (h : loadParts w csv process data opts = .ok (.ok (arena, entries, format, flags))) :
    ∃ parts : Parts, parts.arena = arena ∧ parts.entries = entries := by
  cases hmagic : isCompiled data with
  | true => exact parts_of_classify (classify_of_readCompiled ((loadParts_compiled hmagic).mp h).1)
  | false =>
    obtain ⟨pairs, haccepted, rfl, rfl⟩ := parts_of_parseCsv ((loadParts_csv hmagic).mp h).1
    exact ⟨haccepted.parts, rfl, rfl⟩

/-- A CSV file with problems is reported. -/
theorem load_csv_error {read : Path → Except IoError Bytes} {path : Path}
    {errors : List DataError} (hread : read path = .ok data) (hmagic : isCompiled data = false)
    (h : parseCsv csv process data opts = .ok (.error errors)) :
    load w csv process read path opts = .ok (.error (.data errors)) := by
  rw [load, hread]
  simp only [loadParts, hmagic, if_neg Bool.false_ne_true, h, ok_bind, pure_eq_ok]

end LoadParts

/-- Loading never stops the program. -/
theorem load_total {w : Width} (csv : CsvReader) (process : Process)
    (read : Path → Except IoError Bytes) (path : Path) (opts : LoadOptions)
    (hmachine : ∀ data, read path = .ok data → w = .w32 → data.length ≤ Width.isizeMax .w32) :
    ∃ result, load w csv process read path opts = .ok result := by
  cases hread : read path with
  | error error => exact ⟨_, by rw [load, hread]; rfl⟩
  | ok data =>
    have hparts : ∃ result, loadParts w csv process data opts = .ok result := by
      rw [loadParts, readCompiled_eq_ok (hmachine data hread), parseCsv_eq_ok]
      split
      case isTrue => cases classify data <;> exact ⟨_, rfl⟩
      case isFalse => cases CsvLoader.outcome _ _ <;> exact ⟨_, rfl⟩
    obtain ⟨result, hresult⟩ := hparts
    cases result with
    | error failure => exact ⟨_, by rw [load, hread]; simp only [hresult]; rfl⟩
    | ok result =>
      obtain ⟨arena, entries, format, flags⟩ := result
      obtain ⟨parts, rfl, rfl⟩ := parts_of_loadParts hresult
      have hstore := fromParts_eq_ok parts process.tableLayout process.storeHasher
      exact ⟨_, by rw [load, hread]; simp only [hresult, ok_bind, hstore]; rfl⟩

/-- The store of loaded parts answers every query from a window of the file, and no addition or
slice of the construction or of a lookup leaves its range. -/
theorem loaded_lookup_in_range (w : Width) (csv : CsvReader) (process : Process) (data : Bytes)
    (opts : LoadOptions) (arena : Bytes) (entries : List Entry) (format : SourceFormat)
    (flags : UInt32) (layout : Layout Entry) (hasher : RandomState)
    (h : loadParts w csv process data opts = .ok (.ok (arena, entries, format, flags))) :
    ∃ store, Store.fromParts layout hasher arena entries = .ok store ∧
      ∀ key, ∃ answer, store.get key = .ok answer ∧
        (answer.isSome ↔ ∃ entry ∈ entries, window arena entry.kOff entry.kLen = key) ∧
        ∀ value, answer = some value →
          ∃ entry ∈ entries, window arena entry.kOff entry.kLen = key ∧
            window arena entry.vOff entry.vLen = value := by
  obtain ⟨parts, rfl, rfl⟩ := parts_of_loadParts h
  refine ⟨parts.store layout hasher, fromParts_eq_ok parts layout hasher, fun key ↦ ?_⟩
  obtain ⟨answer, hget, hanswer⟩ := get_answers (sound_store parts layout hasher) key
  rw [pairs_store] at hanswer
  refine ⟨answer, hget, ?_, ?_⟩
  · rw [hanswer.isSome_iff]
    simp [Dataset.keys, Parts.pairs, Entry.pair]
  · rintro value rfl
    obtain ⟨entry, hentry, hpair⟩ := List.mem_map.mp hanswer
    exact ⟨entry, hentry, congrArg Prod.fst hpair, congrArg Prod.snd hpair⟩

/-- A hand-edited file: two entries share their key window, and one value window is the whole
arena. -/
theorem loaded_lookup_in_range_shared :
    ∃ store, Store.fromParts (stacked _) (fun _ ↦ 7) [107, 118] [⟨0, 1, 1, 1⟩, ⟨0, 1, 0, 2⟩] =
        .ok store ∧
      ∃ answer, store.get [107] = .ok answer ∧
        (answer.isSome ↔ ∃ entry ∈ [(⟨0, 1, 1, 1⟩ : Entry), ⟨0, 1, 0, 2⟩],
          window [107, 118] entry.kOff entry.kLen = [107]) := by
  have hload : loadParts .w32 Csv.grammar default
      (compiledBytes [107, 118] [⟨0, 1, 1, 1⟩, ⟨0, 1, 0, 2⟩] 0 ++ [7]) default =
        .ok (.ok ([107, 118], [⟨0, 1, 1, 1⟩, ⟨0, 1, 0, 2⟩], .compiled, 0)) := by decide +kernel
  obtain ⟨store, hstore, hget⟩ := loaded_lookup_in_range _ _ _ _ _ _ _ _ _ (stacked _)
    (fun _ ↦ 7) hload
  obtain ⟨answer, hanswer, hsome, _⟩ := hget [107]
  exact ⟨store, hstore, answer, hanswer, hsome⟩

end JustKV
