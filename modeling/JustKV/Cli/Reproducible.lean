import JustKV.Cli.Serve
import JustKV.Csv.Rendering

/-!
# Reproducible builds

An artifact is a function of the delivered rows and the binary flag, and it determines both.  How
the rows were written, and everything in which two runs of the program differ, leaves no trace.
-/

open Checked Utf8

namespace JustKV

open Compiled Csv

/-- The rows that a build is delivered from some source. -/
def Invocation.rows (invocation : Invocation) (source : Bytes) : List (List Bytes) :=
  let opts := invocation.parse.loadOptions invocation.data
  (invocation.csv ⟨opts.delimiter, opts.hasHeader⟩ source).records.map ByteRecord.fields

section Parts

variable {csv csv' : CsvReader} {process process' : Process} {data data' : Bytes}
  {opts opts' : LoadOptions}

/-- Compiled files of parsed parts are the same only for the same parts. -/
theorem compiledBytes_inj {parts parts' : Bytes × List Entry} {flags flags' : UInt32}
    (hparse : parseCsv csv process data opts = .ok (.ok parts))
    (hparse' : parseCsv csv' process' data' opts' = .ok (.ok parts'))
    (h : compiledBytes parts.1 parts.2 flags = compiledBytes parts'.1 parts'.2 flags') :
    parts = parts' ∧ flags = flags' := by
  have hclassify := classify_artifact flags hparse []
  have hclassify' := classify_artifact flags' hparse' []
  rw [h, hclassify', Except.ok.injEq, Prod.mk.injEq, Prod.mk.injEq] at hclassify
  exact ⟨Prod.ext hclassify.1.symm hclassify.2.1.symm, hclassify.2.2.symm⟩

/-- Accepted parts are the same exactly if the delivered rows are. -/
theorem parts_eq_iff {parts parts' : Bytes × List Entry}
    (hparse : parseCsv csv process data opts = .ok (.ok parts))
    (hparse' : parseCsv csv' process' data' opts' = .ok (.ok parts')) :
    parts = parts' ↔
      (csv ⟨opts.delimiter, opts.hasHeader⟩ data).records.map ByteRecord.fields =
        (csv' ⟨opts'.delimiter, opts'.hasHeader⟩ data').records.map ByteRecord.fields := by
  obtain ⟨pairs, haccepted, rfl⟩ := parseCsv_eq_ok_ok_iff.mp hparse
  obtain ⟨pairs', haccepted', rfl⟩ := parseCsv_eq_ok_ok_iff.mp hparse'
  rw [haccepted.fields, haccepted'.fields]
  constructor
  · intro h
    obtain ⟨hpacked, hlayout⟩ := Prod.mk.inj h
    have hpairs : haccepted.parts.pairs = haccepted'.parts.pairs :=
      congrArg₂ (fun arena entries ↦ entries.map (Entry.pair arena)) hpacked hlayout
    rw [haccepted.pairs_parts, haccepted'.pairs_parts] at hpairs
    rw [hpairs]
  · intro h
    have hpairs : pairs = pairs' := by
      apply List.map_injective_iff.mpr _ h
      intro pair pair' hsame
      simpa [Prod.ext_iff] using hsame
    rw [hpairs]

end Parts

/-- Two builds, by whatever processes and among whatever other builds, make the same file exactly
if they were delivered the same rows and were given the same binary flag. -/
theorem artifacts_eq_iff (invocation invocation' : Invocation) (source source' bytes bytes' : Bytes)
    (h : invocation.Produces source bytes) (h' : invocation'.Produces source' bytes') :
    bytes = bytes' ↔ invocation.rows source = invocation'.rows source' ∧
      invocation.parse.allowBinary = invocation'.parse.allowBinary := by
  obtain ⟨arena, entries, hparse, rfl⟩ := h.eq_compiledBytes
  obtain ⟨arena', entries', hparse', rfl⟩ := h'.eq_compiledBytes
  have hflags : invocation.flags = invocation'.flags ↔
      invocation.parse.allowBinary = invocation'.parse.allowBinary := by
    unfold Invocation.flags
    cases invocation.parse.allowBinary <;> cases invocation'.parse.allowBinary <;> decide
  rw [Invocation.rows, Invocation.rows, ← hflags, ← parts_eq_iff hparse hparse']
  constructor
  · exact fun hbytes ↦ compiledBytes_inj hparse hparse' hbytes
  · rintro ⟨hparts, hflags⟩
    obtain ⟨rfl, rfl⟩ := Prod.mk.inj hparts
    rw [hflags]

/-- A quoted row after a header and the same row with tabs, built by different processes, make one
file. -/
theorem artifacts_eq_iff_tabs :
    let commas : Invocation := ⟨Csv.grammar, default, 7, [.normal [100]], ⟨none, true, false⟩⟩
    let tabs : Invocation := ⟨Csv.grammar, default, 8, [.normal [100]], ⟨some '\t', false, false⟩⟩
    ∃ bytes bytes', commas.Produces [107, 10, 34, 97, 34, 44, 49, 10] bytes ∧
      tabs.Produces [97, 9, 49] bytes' ∧ bytes = bytes' := by
  intro commas tabs
  let out : Path := [.normal [107]]
  let schedule (source : Bytes) : List (Unit × BuildEvent) :=
    [((), .read (.ok source)), ((), .createNew none (.ok ()))] ++
      List.replicate 10 ((), .writeAll) ++ [((), .spill 90), ((), .flush)]
  have hproduces (invocation : Invocation) (source : Bytes)
      (h : (((launched fun _ ↦ none).run (cmdBuild out fun _ ↦ invocation)
        (schedule source ++ [((), .rename true)])).bind fun world ↦ world.shared.fs out).isSome) :
      ∃ bytes, invocation.Produces source bytes := by
    obtain ⟨bytes, hbytes⟩ := Option.isSome_iff_exists.mp h
    obtain ⟨world, hrun, hfile⟩ := Option.bind_eq_some_iff.mp hbytes
    refine ⟨bytes, Unit, inferInstance, out, fun _ ↦ invocation, fun _ ↦ none, schedule source,
      world, (), rfl, ?_, hrun, hfile⟩
    intro result hmem
    simpa [schedule] using hmem
  obtain ⟨bytes, hcommas⟩ := hproduces commas [107, 10, 34, 97, 34, 44, 49, 10] (by decide +kernel)
  obtain ⟨bytes', htabs⟩ := hproduces tabs [97, 9, 49] (by decide +kernel)
  refine ⟨bytes, bytes', hcommas, htabs, ?_⟩
  exact (artifacts_eq_iff commas tabs _ _ bytes bytes' hcommas htabs).mpr
    ⟨by decide +kernel, rfl⟩

/-- The outcome of a parse is the same for all ways of writing the rows: with another delimiter,
with or without quotes, blank lines, a byte order mark or a header. -/
theorem rendering_irrelevant (csv csv' : CsvReader) (process process' : Process)
    (opts opts' : LoadOptions) (data data' : Bytes) (rows rows' : List (List Bytes))
    (hcsv : Follows csv ⟨opts.delimiter, opts.hasHeader⟩)
    (hcsv' : Follows csv' ⟨opts'.delimiter, opts'.hasHeader⟩)
    (hdelimiter : IsDelimiter opts.delimiter) (hdelimiter' : IsDelimiter opts'.delimiter)
    (hrenders : Renders opts.delimiter rows data) (hrenders' : Renders opts'.delimiter rows' data')
    (hbinary : opts.allowBinary = opts'.allowBinary)
    (hrows : (if opts.hasHeader then rows.drop 1 else rows) =
      if opts'.hasHeader then rows'.drop 1 else rows') (parts : Bytes × List Entry) :
    parseCsv csv process data opts = .ok (.ok parts) ↔
      parseCsv csv' process' data' opts' = .ok (.ok parts) := by
  have hfields : (csv ⟨opts.delimiter, opts.hasHeader⟩ data).records.map ByteRecord.fields =
      (csv' ⟨opts'.delimiter, opts'.hasHeader⟩ data').records.map ByteRecord.fields := by
    rw [(hcsv data).1, (hcsv' data').1, fields_of_renders hdelimiter hrenders,
      fields_of_renders hdelimiter' hrenders', hrows]
  rw [parseCsv_eq_ok_ok_iff, parseCsv_eq_ok_ok_iff]
  apply exists_congr
  intro pairs
  apply and_congr_left
  rintro rfl
  constructor
  · rintro ⟨hmap, _, hnodup, hsize, hutf8⟩
    exact ⟨hfields ▸ hmap, (hcsv' data').2, hnodup, hsize, hbinary ▸ hutf8⟩
  · rintro ⟨hmap, _, hnodup, hsize, hutf8⟩
    exact ⟨hfields ▸ hmap, (hcsv data).2, hnodup, hsize, hbinary ▸ hutf8⟩

/-- A quoted row after a byte order mark and a header, with CR LF, and the same row with tabs. -/
theorem rendering_irrelevant_tabs :
    parseCsv Csv.grammar default
        [0xEF, 0xBB, 0xBF, 107, 13, 10, 34, 97, 34, 44, 49, 13, 10] ⟨44, true, false⟩ =
      .ok (.ok ([97, 49], [⟨0, 1, 1, 1⟩])) := by
  have hheader : RecordText 44 [[107]] [107] := .last (.plain (by decide +kernel))
  have hquoted : RecordText 44 [[97], [49]] [34, 97, 34, 44, 49] :=
    .cons (.quoted [97]) (.last (.plain (by decide +kernel)))
  have hplain : RecordText 9 [[97], [49]] [97, 9, 49] :=
    .cons (.plain (by decide +kernel)) (.last (.plain (by decide +kernel)))
  have hrow : RowsText 44 [[[97], [49]]] ([34, 97, 34, 44, 49] ++ 13 :: [10]) :=
    .cons hquoted (by simp) rfl (.blank rfl .empty)
  have hlines : RowsText 44 [[[107]], [[97], [49]]]
      ([107] ++ 13 :: 10 :: [34, 97, 34, 44, 49, 13, 10]) :=
    .cons hheader (by simp) rfl (.blank rfl hrow)
  have htabs : parseCsv Csv.grammar default [97, 9, 49] ⟨9, false, false⟩ =
      .ok (.ok ([97, 49], [⟨0, 1, 1, 1⟩])) := by decide +kernel
  exact (rendering_irrelevant Csv.grammar Csv.grammar default default ⟨44, true, false⟩
    ⟨9, false, false⟩ _ _ _ _ (follows_grammar _) (follows_grammar _) (by decide +kernel)
    (by decide +kernel) (.marked hlines) (.bare (.last hplain (by simp)) rfl) rfl rfl _).mpr htabs

end JustKV
