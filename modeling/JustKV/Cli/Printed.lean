import JustKV.Cli.Validate
import JustKV.Store.ErrorText

/-!
# What the commands print

`check` and `serve` print the problems of a dataset that does not parse, each on a line of its own
and the count after them.  Both print the same problems, and what they print says all of the
report.
-/

open Checked TextFormat

namespace JustKV

open Compiled CsvLoader

/-- How paths, keys and errors of the system are written. -/
structure Printing where
  display : Path → String
  debug : String → String
  ioText : IoError → String

/-- What a command writes to its two outputs, and what it returns. -/
structure Printed (α : Type) where
  out : String
  err : String
  result : α

/-- The lines of `parse_validated` about problems. -/
def Printing.problems (printing : Printing) (path : Path) (errors : List DataError) : String :=
  String.join (errors.map fun error ↦
    printing.display path ++ ": " ++ error.fmt printing.debug ++ "\n") ++
      (toString errors.length ++ " problem(s) found in " ++ printing.display path ++ "\n")

section Commands

variable (printing : Printing) (csv : CsvReader) (process : Process)
  (read : Path → Except IoError Bytes)

def parseValidatedPrinted (path : Path) (parse : ParseArgs) :
    Run (Printed (Except UInt8 (Bytes × List Entry))) :=
  match read path with
  | .error error => pure ⟨"", "error: cannot read " ++ printing.display path ++ ": " ++
      printing.ioText error ++ "\n", .error exitIo⟩
  | .ok data => do
    match ← parseCsv csv process data (parse.loadOptions path) with
    | .ok parts => pure ⟨"", "", .ok parts⟩
    | .error errors => pure ⟨"", printing.problems path errors, .error exitInvalidData⟩

def cmdCheckPrinted (path : Path) (parse : ParseArgs) : Run (Printed UInt8) := do
  let validated ← parseValidatedPrinted printing csv process read path parse
  match validated.result with
  | .ok (arena, entries) => pure ⟨"ok: " ++ toString entries.length ++ " keys, " ++
      toString arena.length ++ " bytes of data in " ++ printing.display path ++ "\n",
      validated.err, exitOk⟩
  | .error code => pure ⟨"", validated.err, code⟩

/-- The first step of `cmd_serve`. -/
def serveLoadPrinted (w : Width) (path : Path) (parse : ParseArgs) :
    Run (Printed (Except UInt8 Loaded)) := do
  match ← load w csv process read path (parse.loadOptions path) with
  | .ok loaded => pure ⟨"", "", .ok loaded⟩
  | .error (.io error) => pure ⟨"", "error: cannot read " ++ printing.display path ++ ": " ++
      printing.ioText error ++ "\n", .error exitIo⟩
  | .error failure => pure ⟨"", "error: " ++ failure.fmt printing.debug printing.ioText ++ "\n",
      .error exitInvalidData⟩

theorem result_parseValidatedPrinted (path : Path) (parse : ParseArgs) :
    Printed.result <$> parseValidatedPrinted printing csv process read path parse =
      parseValidated csv process read path parse := by
  unfold parseValidatedPrinted parseValidated
  cases read path with
  | error error => rfl
  | ok data =>
    dsimp only
    cases parseCsv csv process data (parse.loadOptions path) with
    | error fault => rfl
    | ok result => cases result <;> rfl

theorem result_cmdCheckPrinted (path : Path) (parse : ParseArgs) :
    Printed.result <$> cmdCheckPrinted printing csv process read path parse =
      cmdCheck csv process read path parse := by
  rw [cmdCheck, ← result_parseValidatedPrinted printing, cmdCheckPrinted]
  cases parseValidatedPrinted printing csv process read path parse with
  | error fault => rfl
  | ok validated =>
    obtain ⟨out, err, result⟩ := validated
    cases result <;> rfl

theorem result_serveLoadPrinted (w : Width) (path : Path) (parse : ParseArgs) :
    Printed.result <$> serveLoadPrinted printing csv process read w path parse =
      serveLoad csv process read w path parse := by
  unfold serveLoadPrinted serveLoad
  cases load w csv process read path (parse.loadOptions path) with
  | error fault => rfl
  | ok result =>
    cases result with
    | ok loaded => rfl
    | error failure => cases failure <;> rfl

end Commands

/-- Texts that are ended one by one, the last one too, are the lines. -/
theorem lines_join {texts : List String} {last : String} (h : ∀ text ∈ texts, OneLine text)
    (hlast : OneLine last) :
    lines (String.join (texts.map fun text ↦ text ++ "\n") ++ (last ++ "\n")).toList =
      texts.map String.toList ++ [last.toList] := by
  have htext : (String.join (texts.map fun text ↦ text ++ "\n") ++ (last ++ "\n")).toList =
      (texts.map String.toList ++ [last.toList]).flatMap fun line ↦ line ++ ['\n'] := by
    simp [String.toList_join, List.flatMap_map]
  rw [htext]
  apply lines_flatMap
  intro line hline
  rcases List.mem_append.mp hline with hmem | hmem
  · obtain ⟨text, htext, rfl⟩ := List.mem_map.mp hmem
    exact h text htext
  · rw [List.mem_singleton.mp hmem]
    exact hlast

section Lines

variable {write : DataError → String} {errors : List DataError} {last : String}

theorem lines_errors (hline : ∀ error ∈ errors, OneLine (write error)) (hlast : OneLine last) :
    lines (String.join (errors.map fun error ↦ write error ++ "\n") ++ (last ++ "\n")).toList =
      errors.map (fun error ↦ (write error).toList) ++ [last.toList] := by
  have htexts : ∀ text ∈ errors.map write, OneLine text := by
    intro text htext
    obtain ⟨error, hmem, rfl⟩ := List.mem_map.mp htext
    exact hline error hmem
  have hlines := lines_join htexts hlast
  rwa [List.map_map, List.map_map] at hlines

end Lines

/-! ## Problems -/

/-- The messages of a reader are lines. -/
def Delivery.OneLine (delivery : Delivery) : Prop :=
  ∀ message, delivery.ending = .error message → JustKV.OneLine message

theorem plain_of_report {opts : LoadOptions} {atEnd : List DataError}
    (hend : ∀ error ∈ atEnd, error.kind.Plain) {earlier rows : List NumberedRow} :
    ∀ error ∈ reportFrom opts atEnd earlier rows, error.kind.Plain := by
  have hrow (earlier : List NumberedRow) (row : NumberedRow) :
      ∀ error ∈ rowErrors opts earlier row, error.kind.Plain := by
    intro error hmem
    unfold rowErrors at hmem
    split at hmem
    case h_1 key value hfields =>
      rcases List.mem_append.mp hmem with hduplicate | hvalue
      · obtain ⟨first, _, rfl⟩ := Option.map_eq_some_iff.mp (Option.mem_toList.mp hduplicate)
        trivial
      · unfold valueErrors at hvalue
        split at hvalue
        · rw [List.mem_singleton.mp hvalue]
          trivial
        · cases hvalue
    case h_2 =>
      rw [List.mem_singleton.mp hmem]
      trivial
  induction rows generalizing earlier with
  | nil => exact hend
  | cons row rows ih =>
    intro error hmem
    rw [reportFrom_cons] at hmem
    rcases List.mem_append.mp hmem with hfirst | hrest
    · exact hrow earlier row error hfirst
    · split at hrest
      · rw [List.mem_singleton.mp hrest]
        trivial
      · exact ih error hrest

/-- The problems of a dataset are lines if the messages of its reader are. -/
theorem plain_of_parseCsv {csv : CsvReader} {process : Process} {data : Bytes}
    {opts : LoadOptions} {errors : List DataError}
    (hdelivery : (csv ⟨opts.delimiter, opts.hasHeader⟩ data).OneLine)
    (h : parseCsv csv process data opts = .ok (.error errors)) :
    ∀ error ∈ errors, error.kind.Plain := by
  rw [errors_of_parseCsv h, report]
  apply plain_of_report
  cases hending : (csv ⟨opts.delimiter, opts.hasHeader⟩ data).ending with
  | endOfInput => simp [endErrors]
  | error message =>
    intro error hmem
    rw [List.mem_singleton.mp hmem]
    exact hdelivery message hending

section Rejected

variable {printing : Printing} {csv : CsvReader} {process : Process}
  {read : Path → Except IoError Bytes} {path path' : Path} {parse : ParseArgs} {source : Bytes}
  {errors errors' : List DataError}

theorem cmdCheckPrinted_of_errors (hread : read path = .ok source)
    (hreject : parseCsv csv process source (parse.loadOptions path) = .ok (.error errors)) :
    cmdCheckPrinted printing csv process read path parse =
      .ok ⟨"", printing.problems path errors, exitInvalidData⟩ := by
  rw [cmdCheckPrinted, parseValidatedPrinted, hread]
  simp only [hreject, ok_bind]
  rfl

theorem serveLoadPrinted_of_errors {w : Width} (hread : read path = .ok source)
    (hcsv : isCompiled source = false)
    (hreject : parseCsv csv process source (parse.loadOptions path) = .ok (.error errors)) :
    serveLoadPrinted printing csv process read w path parse =
      .ok ⟨"", "error: " ++ (LoadFailure.data errors).fmt printing.debug printing.ioText ++ "\n",
        .error exitInvalidData⟩ := by
  rw [serveLoadPrinted, load_csv_error hread hcsv hreject]
  rfl

theorem oneLine_problem (hdebug : IsDebug printing.debug) (hpath : OneLine (printing.display path))
    (hplain : ∀ error ∈ errors, error.kind.Plain) :
    ∀ error ∈ errors, OneLine (printing.display path ++ ": " ++ error.fmt printing.debug) := by
  intro error hmem
  apply oneLine_append _ (oneLine_fmt hdebug (hplain error hmem))
  exact oneLine_append hpath (by decide +kernel)

theorem oneLine_count (hpath : OneLine (printing.display path)) (n : ℕ) :
    OneLine (toString n ++ " problem(s) found in " ++ printing.display path) := by
  apply oneLine_append _ hpath
  exact oneLine_append (oneLine_toString n) (by decide +kernel)

theorem lines_problems (hdebug : IsDebug printing.debug) (hpath : OneLine (printing.display path))
    (hplain : ∀ error ∈ errors, error.kind.Plain) :
    lines (printing.problems path errors).toList =
      errors.map (fun error ↦
        (printing.display path ++ ": " ++ error.fmt printing.debug).toList) ++
      [(toString errors.length ++ " problem(s) found in " ++ printing.display path).toList] :=
  lines_errors (oneLine_problem hdebug hpath hplain) (oneLine_count hpath errors.length)

/-- The line with the number of problems says the path, so that the other lines say the problems. -/
theorem eq_of_problems (hdebug : IsDebug printing.debug) (hpath : OneLine (printing.display path))
    (hpath' : OneLine (printing.display path')) (hplain : ∀ error ∈ errors, error.kind.Plain)
    (hplain' : ∀ error ∈ errors', error.kind.Plain)
    (h : printing.problems path errors = printing.problems path' errors') : errors = errors' := by
  have hlines := congrArg (fun text ↦ lines text.toList) h
  rw [lines_problems hdebug hpath hplain, lines_problems hdebug hpath' hplain'] at hlines
  obtain ⟨hwritten, hcount⟩ := List.append_inj' hlines rfl
  have hdisplay : printing.display path = printing.display path' := by
    have htext : toString errors.length ++
        (String.singleton ' ' ++ ("problem(s) found in " ++ printing.display path)) =
        toString errors'.length ++
          (String.singleton ' ' ++ ("problem(s) found in " ++ printing.display path')) := by
      have hlast := String.toList_inj.mp (List.singleton_inj.mp hcount)
      rwa [String.append_assoc, String.append_assoc] at hlast
    exact (String.append_right_inj _).mp (toString_append_inj (by decide) htext).2
  have hwrite : Function.Injective fun error : DataError ↦
      (printing.display path ++ ": " ++ error.fmt printing.debug).toList := by
    intro error error' hsame
    exact DataError.fmt_injective hdebug ((String.append_right_inj _).mp (String.toList_inj.mp hsame))
  rw [← hdisplay] at hwritten
  exact List.map_injective_iff.mpr hwrite hwritten

/-- What `serve` writes after `error: `. -/
theorem fmt_data_newline (errors : List DataError) :
    (LoadFailure.data errors).fmt printing.debug printing.ioText ++ "\n" =
      String.join (errors.map fun error ↦ error.fmt printing.debug ++ "\n") ++
        ((toString errors.length ++ " problem(s) found") ++ "\n") := by
  simp only [LoadFailure.fmt, String.append_assoc]

theorem oneLine_found (n : ℕ) : OneLine (toString n ++ " problem(s) found") :=
  oneLine_append (oneLine_toString n) (by decide +kernel)

theorem lines_fmt_data (hdebug : IsDebug printing.debug)
    (hplain : ∀ error ∈ errors, error.kind.Plain) :
    lines ((LoadFailure.data errors).fmt printing.debug printing.ioText ++ "\n").toList =
      errors.map (fun error ↦ (error.fmt printing.debug).toList) ++
      [(toString errors.length ++ " problem(s) found").toList] := by
  rw [fmt_data_newline]
  exact lines_errors (fun error hmem ↦ oneLine_fmt hdebug (hplain error hmem)) (oneLine_found _)

theorem eq_of_fmt_data (hdebug : IsDebug printing.debug)
    (hplain : ∀ error ∈ errors, error.kind.Plain) (hplain' : ∀ error ∈ errors', error.kind.Plain)
    (h : (LoadFailure.data errors).fmt printing.debug printing.ioText ++ "\n" =
      (LoadFailure.data errors').fmt printing.debug printing.ioText ++ "\n") :
    errors = errors' := by
  have hlines := congrArg (fun text ↦ lines text.toList) h
  rw [lines_fmt_data hdebug hplain, lines_fmt_data hdebug hplain'] at hlines
  have hwrite : Function.Injective fun error : DataError ↦ (error.fmt printing.debug).toList :=
    fun error error' hsame ↦ DataError.fmt_injective hdebug (String.toList_inj.mp hsame)
  exact List.map_injective_iff.mpr hwrite (List.append_inj' hlines rfl).1

end Rejected

/-- Whatever seeds the processes have, `check` prints the problems of a dataset in the order of the
report, each on a line, and the count after them; `serve` prints the same if the file does not begin
like a compiled one; and from what either of them prints the whole report can be told. -/
theorem problems_printed (printing : Printing) (hdebug : IsDebug printing.debug) (csv : CsvReader)
    (path : Path) (hpath : OneLine (printing.display path)) (parse : ParseArgs)
    (read : Path → Except IoError Bytes) (source : Bytes) (hread : read path = .ok source)
    (hdelivery : (csv ⟨(parse.loadOptions path).delimiter, parse.header⟩ source).OneLine)
    (process : Process) (errors : List DataError)
    (hreject : parseCsv csv process source (parse.loadOptions path) = .ok (.error errors)) :
    (∀ process', ∃ checked,
      cmdCheckPrinted printing csv process' read path parse = .ok ⟨"", checked, exitInvalidData⟩ ∧
      lines checked.toList = errors.map (fun error ↦
          (printing.display path ++ ": " ++ error.fmt printing.debug).toList) ++
        [(toString errors.length ++ " problem(s) found in " ++ printing.display path).toList]) ∧
    (isCompiled source = false → ∀ w process', ∃ served,
      serveLoadPrinted printing csv process' read w path parse =
        .ok ⟨"", "error: " ++ served, .error exitInvalidData⟩ ∧
      lines served.toList = errors.map (fun error ↦ (error.fmt printing.debug).toList) ++
        [(toString errors.length ++ " problem(s) found").toList]) ∧
    ∀ (csv' : CsvReader) (path' : Path) (parse' : ParseArgs) (read' : Path → Except IoError Bytes)
      (source' : Bytes) (process' : Process) (errors' : List DataError),
      OneLine (printing.display path') → read' path' = .ok source' →
      (csv' ⟨(parse'.loadOptions path').delimiter, parse'.header⟩ source').OneLine →
      parseCsv csv' process' source' (parse'.loadOptions path') = .ok (.error errors') →
      ∀ first second : Process,
        (cmdCheckPrinted printing csv first read path parse =
          cmdCheckPrinted printing csv' second read' path' parse' → errors = errors') ∧
        (isCompiled source = false → isCompiled source' = false → ∀ w w',
          serveLoadPrinted printing csv first read w path parse =
            serveLoadPrinted printing csv' second read' w' path' parse' → errors = errors') := by
  have hplain := plain_of_parseCsv hdelivery hreject
  refine ⟨fun process' ↦ ?_, fun hcsv w process' ↦ ?_, ?_⟩
  · rw [parseCsv_process process'] at hreject
    exact ⟨_, cmdCheckPrinted_of_errors hread hreject, lines_problems hdebug hpath hplain⟩
  · rw [parseCsv_process process'] at hreject
    refine ⟨_, ?_, lines_fmt_data hdebug hplain⟩
    rw [serveLoadPrinted_of_errors hread hcsv hreject, String.append_assoc]
  · intro csv' path' parse' read' source' process' errors' hpath' hread' hdelivery' hreject' first
      second
    have hplain' := plain_of_parseCsv hdelivery' hreject'
    rw [parseCsv_process first] at hreject
    rw [parseCsv_process second] at hreject'
    constructor
    · intro hprinted
      rw [cmdCheckPrinted_of_errors hread hreject, cmdCheckPrinted_of_errors hread' hreject']
        at hprinted
      have htext := congrArg Printed.err (Except.ok.inj hprinted)
      exact eq_of_problems hdebug hpath hpath' hplain hplain' htext
    · intro hcsv hcsv' w w' hprinted
      rw [serveLoadPrinted_of_errors hread hcsv hreject,
        serveLoadPrinted_of_errors hread' hcsv' hreject'] at hprinted
      have htext := congrArg Printed.err (Except.ok.inj hprinted)
      simp only [String.append_assoc, String.append_right_inj] at htext
      exact eq_of_fmt_data hdebug hplain hplain' htext

def escapeChar : Char → List Char
  | '\\' => ['\\', '\\']
  | '\x22' => ['\\', '\x22']
  | '\n' => ['\\', 'n']
  | char => [char]

/-- Keys as Rust writes them if their other characters are printable. -/
def debugText (key : String) : String :=
  String.ofList (('\x22' :: key.toList.flatMap escapeChar) ++ ['\x22'])

def unescape : List Char → List Char
  | '\\' :: 'n' :: rest => '\n' :: unescape rest
  | '\\' :: char :: rest => char :: unescape rest
  | char :: rest => char :: unescape rest
  | [] => []

theorem unescape_escapeChar (char : Char) (rest : List Char) :
    unescape (escapeChar char ++ rest) = char :: unescape rest := by
  unfold escapeChar
  split
  case h_4 hbackslash _ _ =>
    rw [List.singleton_append, unescape]
    · exact fun _ hsame _ ↦ hbackslash hsame
    · exact fun _ _ hsame _ ↦ hbackslash hsame
  all_goals simp [unescape]

theorem unescape_escape (chars : List Char) : unescape (chars.flatMap escapeChar) = chars := by
  induction chars with
  | nil => rfl
  | cons char chars ih => rw [List.flatMap_cons, unescape_escapeChar, ih]

theorem isDebug_debugText : IsDebug debugText where
  injective key key' h := by
    have hquoted := List.append_cancel_right (String.ofList_inj.mp h)
    have hescaped := congrArg unescape (List.cons.inj hquoted).2
    rw [unescape_escape, unescape_escape] at hescaped
    exact String.toList_inj.mp hescaped
  oneLine key := by
    have hchar (char : Char) : '\n' ∉ escapeChar char := by
      unfold escapeChar
      split
      case h_4 _ _ hnewline => simpa using fun hsame ↦ hnewline hsame.symm
      all_goals decide
    rw [OneLine, debugText, String.toList_ofList]
    simp [hchar]

/-- A repeated key, as `check` prints it. -/
theorem problems_printed_duplicate :
    ∃ checked, cmdCheckPrinted ⟨fun _ ↦ "kv.csv", debugText, fun _ ↦ ""⟩ Csv.grammar default
        (fun _ ↦ .ok [97, 44, 49, 10, 97, 44, 50, 10]) [.normal [107]] default =
          .ok ⟨"", checked, exitInvalidData⟩ ∧
      lines checked.toList =
        ["kv.csv: line 2: duplicate key \"a\", first seen on line 1".toList,
          "1 problem(s) found in kv.csv".toList] := by
  have hreject : parseCsv Csv.grammar default [97, 44, 49, 10, 97, 44, 50, 10]
      ((default : ParseArgs).loadOptions [.normal [107]]) =
        .ok (.error [⟨2, .duplicateKey "a" 1⟩]) := by decide +kernel
  obtain ⟨hchecked, _, _⟩ := problems_printed ⟨fun _ ↦ "kv.csv", debugText, fun _ ↦ ""⟩
    isDebug_debugText Csv.grammar [.normal [107]] (by decide +kernel) default
    (fun _ ↦ .ok [97, 44, 49, 10, 97, 44, 50, 10]) _ rfl (fun _ hending ↦ by cases hending) default
    _ hreject
  obtain ⟨checked, hprinted, hlines⟩ := hchecked default
  refine ⟨checked, hprinted, hlines.trans ?_⟩
  decide +kernel

end JustKV
