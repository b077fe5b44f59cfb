import JustKV.Cli.Pack
import JustKV.Cli.Pipeline

/-!
# The options of a package

`pack.sh` keeps the parsing options of its command line twice: as words for the local `check`, and
one by one as the build arguments from which the image's build stage puts its own words together.
When the local `check` takes its words, the image is checked and built with the same options.
-/

open Checked Utf8

namespace JustKV

/-- Delimiters are single ASCII characters; the arguments write a text and a character between
quotes. -/
def parseAsciiDelimiter (showText : String → String) (showChar : Char → String) (s : String) :
    Except String Char :=
  match s.toList with
  | [] => .error "delimiter must be exactly one character"
  | [c] =>
    if c.toNat < 128 then .ok c
    else .error ("delimiter must be an ASCII character, got " ++ showChar c)
  | _ :: _ :: _ => .error ("delimiter must be exactly one character, got " ++ showText s)

/-- The variables of the script. -/
structure PackState where
  data : Bytes
  tag : Bytes
  platform : Bytes
  flags : List Bytes
  delimiter : Bytes
  header : ℕ
  allowBinary : ℕ
  deriving DecidableEq

def PackState.new : PackState :=
  ⟨[], toBytes "justkv:latest", toBytes "linux/amd64", [], [], 0, 0⟩

/-- Why the script stops before it has read its command line. -/
inductive PackExit
  | unbound
  | help
  | unknown (arg : Bytes)
  deriving DecidableEq, Repr

/-- The loop over the arguments; a missing value is an unbound variable. -/
def packLoop : PackState → List Bytes → Except PackExit PackState
  | state, [] => .ok state
  | state, arg :: rest =>
    if arg = toBytes "--data" then
      match rest with
      | [] => .error .unbound
      | value :: rest => packLoop { state with data := value } rest
    else if arg = toBytes "--tag" then
      match rest with
      | [] => .error .unbound
      | value :: rest => packLoop { state with tag := value } rest
    else if arg = toBytes "--platform" then
      match rest with
      | [] => .error .unbound
      | value :: rest => packLoop { state with platform := value } rest
    else if arg = toBytes "--allow-binary" then
      packLoop { state with allowBinary := 1, flags := state.flags ++ [arg] } rest
    else if arg = toBytes "--header" then
      packLoop { state with header := 1, flags := state.flags ++ [arg] } rest
    else if arg = toBytes "--delimiter" then
      match rest with
      | [] => .error .unbound
      | value :: rest =>
        packLoop { state with delimiter := value, flags := state.flags ++ [arg, value] } rest
    else if arg = toBytes "-h" ∨ arg = toBytes "--help" then .error .help
    else .error (.unknown arg)

/-- The words that the build stage passes on. -/
def PackState.imageWords (state : PackState) : List Bytes :=
  (if state.delimiter ≠ [] then [toBytes "--delimiter", state.delimiter] else []) ++
  (if state.header = 1 then [toBytes "--header"] else []) ++
  (if state.allowBinary = 1 then [toBytes "--allow-binary"] else [])

/-! ## Parsing options -/

inductive PackOption
  | delimiter (value : Bytes)
  | header
  | allowBinary
  deriving DecidableEq, Repr

def PackOption.words : PackOption → List Bytes
  | .delimiter value => [toBytes "--delimiter", value]
  | .header => [toBytes "--header"]
  | .allowBinary => [toBytes "--allow-binary"]

def PackOption.value? : PackOption → Option Bytes
  | .delimiter value => some value
  | _ => none

section Options

variable (showText : String → String) (showChar : Char → String)

/-- What the options of a command line mean: each may stand once, in any order, and the delimiter
must be a text that its parser takes. -/
def ParseArgs.ofOptions (options : List PackOption) : Option ParseArgs :=
  if options.count .header ≤ 1 ∧ options.count .allowBinary ≤ 1 then
    match options.filterMap PackOption.value? with
    | [] => some ⟨none, decide (.header ∈ options), decide (.allowBinary ∈ options)⟩
    | [value] => do
      let text ← fromUtf8 value
      let c ← (parseAsciiDelimiter showText showChar text).toOption
      pure ⟨some c, decide (.header ∈ options), decide (.allowBinary ∈ options)⟩
    | _ :: _ :: _ => none
  else none

/-- The variables say what the options do that have been read. -/
structure PackState.Holds (state : PackState) (options : List PackOption) : Prop where
  flags : state.flags = options.flatMap PackOption.words
  delimiter : state.delimiter = ((options.filterMap PackOption.value?).getLast?).getD []
  header : state.header = 1 ↔ .header ∈ options
  allowBinary : state.allowBinary = 1 ↔ .allowBinary ∈ options

theorem holds_new : PackState.new.Holds [] where
  flags := rfl
  delimiter := rfl
  header := by decide
  allowBinary := by decide

/-- The other variables say nothing about options. -/
theorem PackState.Holds.keep {state : PackState} {options : List PackOption}
    (h : state.Holds options) (data tag platform : Bytes) :
    { state with data := data, tag := tag, platform := platform }.Holds options :=
  ⟨h.flags, h.delimiter, h.header, h.allowBinary⟩

theorem PackState.Holds.add_delimiter {state : PackState} {options : List PackOption}
    (h : state.Holds options) (value : Bytes) :
    { state with delimiter := value, flags := state.flags ++ [toBytes "--delimiter", value] }.Holds
      (options ++ [PackOption.delimiter value]) where
  flags := by simp [h.flags, PackOption.words]
  delimiter := by simp [PackOption.value?]
  header := by simp [h.header]
  allowBinary := by simp [h.allowBinary]

theorem PackState.Holds.add_header {state : PackState} {options : List PackOption}
    (h : state.Holds options) :
    { state with header := 1, flags := state.flags ++ [toBytes "--header"] }.Holds
      (options ++ [PackOption.header]) where
  flags := by simp [h.flags, PackOption.words]
  delimiter := by simp [h.delimiter, PackOption.value?]
  header := by simp
  allowBinary := by simp [h.allowBinary]

theorem PackState.Holds.add_allowBinary {state : PackState} {options : List PackOption}
    (h : state.Holds options) :
    { state with allowBinary := 1, flags := state.flags ++ [toBytes "--allow-binary"] }.Holds
      (options ++ [PackOption.allowBinary]) where
  flags := by simp [h.flags, PackOption.words]
  delimiter := by simp [h.delimiter, PackOption.value?]
  header := by simp [h.header]
  allowBinary := by simp

/-- The loop keeps both ways of saying the options together. -/
theorem holds_of_packLoop {state state' : PackState} {argv : List Bytes}
    (h : packLoop state argv = .ok state') {options : List PackOption}
    (hstate : state.Holds options) :
    ∃ options', state'.Holds options' := by
  fun_induction packLoop state argv generalizing options with
  | case1 state =>
    obtain rfl := Except.ok.inj h
    exact ⟨options, hstate⟩
  | case3 state value rest ih => exact ih h (hstate.keep _ _ _)
  | case5 state value rest _ ih => exact ih h (hstate.keep _ _ _)
  | case7 state value rest _ _ ih => exact ih h (hstate.keep _ _ _)
  | case8 state rest _ _ _ ih => exact ih h hstate.add_allowBinary
  | case9 state rest _ _ _ _ ih => exact ih h hstate.add_header
  | case11 state value rest _ _ _ _ _ ih => exact ih h (hstate.add_delimiter value)
  | case2 => cases h
  | case4 => cases h
  | case6 => cases h
  | case10 => cases h
  | case12 => cases h
  | case13 => cases h

/-! ## The build stage -/

def PackState.imageOptions (state : PackState) : List PackOption :=
  (if state.delimiter ≠ [] then [.delimiter state.delimiter] else []) ++
  (if state.header = 1 then [.header] else []) ++
  (if state.allowBinary = 1 then [.allowBinary] else [])

theorem imageWords_eq (state : PackState) :
    state.imageWords = state.imageOptions.flatMap PackOption.words := by
  unfold PackState.imageWords PackState.imageOptions
  by_cases hdelimiter : state.delimiter = [] <;> by_cases hheader : state.header = 1 <;>
    by_cases hbinary : state.allowBinary = 1 <;>
      simp [hdelimiter, hheader, hbinary, PackOption.words]

/-- The build stage repeats nothing. -/
theorem count_imageOptions_le (state : PackState) :
    state.imageOptions.count .header ≤ 1 ∧ state.imageOptions.count .allowBinary ≤ 1 := by
  unfold PackState.imageOptions
  by_cases hdelimiter : state.delimiter = [] <;> by_cases hheader : state.header = 1 <;>
    by_cases hbinary : state.allowBinary = 1 <;> simp [hdelimiter, hheader, hbinary]

theorem mem_imageOptions (state : PackState) :
    (.header ∈ state.imageOptions ↔ state.header = 1) ∧
      (.allowBinary ∈ state.imageOptions ↔ state.allowBinary = 1) := by
  unfold PackState.imageOptions
  by_cases hdelimiter : state.delimiter = [] <;> by_cases hheader : state.header = 1 <;>
    by_cases hbinary : state.allowBinary = 1 <;> simp [hdelimiter, hheader, hbinary]

theorem values_imageOptions (state : PackState) :
    state.imageOptions.filterMap PackOption.value? =
      if state.delimiter ≠ [] then [state.delimiter] else [] := by
  unfold PackState.imageOptions
  by_cases hdelimiter : state.delimiter = [] <;> by_cases hheader : state.header = 1 <;>
    by_cases hbinary : state.allowBinary = 1 <;>
      simp [hdelimiter, hheader, hbinary, PackOption.value?]

/-- What options mean depends only on the values, the two flags and whether they stand once. -/
theorem ofOptions_congr {options options' : List PackOption}
    (hvalues : options.filterMap PackOption.value? = options'.filterMap PackOption.value?)
    (hheader : .header ∈ options ↔ .header ∈ options')
    (hbinary : .allowBinary ∈ options ↔ .allowBinary ∈ options')
    (honce : options.count .header ≤ 1 ∧ options.count .allowBinary ≤ 1)
    (honce' : options'.count .header ≤ 1 ∧ options'.count .allowBinary ≤ 1) :
    ParseArgs.ofOptions showText showChar options =
      ParseArgs.ofOptions showText showChar options' := by
  rw [ParseArgs.ofOptions, ParseArgs.ofOptions, if_pos honce, if_pos honce', hvalues]
  simp only [hheader, hbinary]

/-- Options that mean something mean the same in the build stage. -/
theorem ofOptions_imageOptions {state : PackState} {options : List PackOption} {parse : ParseArgs}
    (h : state.Holds options)
    (hparse : ParseArgs.ofOptions showText showChar options = some parse) :
    ParseArgs.ofOptions showText showChar state.imageOptions = some parse := by
  rw [← hparse]
  rw [ParseArgs.ofOptions] at hparse
  obtain ⟨honce, hparse⟩ := Option.ite_none_right_eq_some.mp hparse
  obtain ⟨hheader, hbinary⟩ := mem_imageOptions state
  refine ofOptions_congr showText showChar ?_ (hheader.trans h.header) (hbinary.trans h.allowBinary)
    (count_imageOptions_le state) honce
  rw [values_imageOptions, h.delimiter]
  split at hparse
  case h_1 hvalues =>
    rw [hvalues]
    rfl
  case h_2 value hvalues =>
    rw [hvalues]
    apply if_pos
    -- An empty delimiter would not have been taken.
    rintro rfl
    have hempty : fromUtf8 [] = some "" := fromUtf8_toBytes ""
    rw [hempty] at hparse
    cases hparse
  case h_3 => cases hparse

end Options

section Image

variable {invocation invocation' : Invocation} {content bytes : Bytes}

/-- Builds of one content under the same options make the same artifacts. -/
theorem Invocation.Produces.congr (h : invocation.Produces content bytes)
    (hcsv : invocation.csv = invocation'.csv)
    (hopts : invocation.parse.loadOptions invocation.data =
      invocation'.parse.loadOptions invocation'.data)
    (hparse : invocation.parse = invocation'.parse) :
    invocation'.Produces content bytes := by
  obtain ⟨arena, entries, hparts, rfl⟩ := h.eq_compiledBytes
  rw [hcsv, hopts, parseCsv_process invocation'.process] at hparts
  have hflags : invocation.flags = invocation'.flags := by
    rw [Invocation.flags, Invocation.flags, hparse]
  rw [hflags]
  exact exists_produces hparts

theorem loadOptions_congr {parse : ParseArgs} {path path' : Path}
    (h : (parse.loadOptions path).delimiter = (parse.loadOptions path').delimiter) :
    parse.loadOptions path = parse.loadOptions path' := by
  rw [ParseArgs.loadOptions, ParseArgs.loadOptions, LoadOptions.mk.injEq]
  exact ⟨h, rfl, rfl⟩

/-- What a check says depends on the content and the options. -/
theorem cmdCheck_congr {csv : CsvReader} {path path' : Path} {parse : ParseArgs}
    (hopts : parse.loadOptions path = parse.loadOptions path') (process process' : Process) :
    cmdCheck csv process (fun _ ↦ .ok content) path parse =
      cmdCheck csv process' (fun _ ↦ .ok content) path' parse := by
  rw [cmdCheck, cmdCheck, parseValidated_eq, parseValidated_eq, hopts]

end Image

/-- When the words that `pack.sh` passes to the local `check` mean something, the build stage uses
the same options, and if the copy keeps the delimiter, then the image is checked and built as the
dataset is here: with the same exit code, the same artifact, and an artifact if the check passes. -/
theorem pack_validates_image (showText : String → String) (showChar : Char → String)
    (clap : List Bytes → Option ParseArgs)
    (hclap : ∀ options : List PackOption,
      clap (options.flatMap PackOption.words) = ParseArgs.ofOptions showText showChar options)
    (argv : List Bytes) (state : PackState) (hloop : packLoop .new argv = .ok state)
    (parse : ParseArgs) (hlocal : clap state.flags = some parse) :
    clap state.imageWords = some parse ∧
    ∀ (dir : Path) (name content : Bytes) (staged : ℕ) (csv : CsvReader),
      (parse.loadOptions (stagedPath staged name)).delimiter =
        (parse.loadOptions (dir.join name)).delimiter →
      (∀ process process', cmdCheck csv process' (fun _ ↦ .ok content) (stagedPath staged name)
          parse = cmdCheck csv process (fun _ ↦ .ok content) (dir.join name) parse) ∧
      (∀ process process' pid pid' bytes,
        (Invocation.mk csv process' pid' (stagedPath staged name) parse).Produces content bytes ↔
          (Invocation.mk csv process pid (dir.join name) parse).Produces content bytes) ∧
      ∀ process, cmdCheck csv process (fun _ ↦ .ok content) (dir.join name) parse = .ok exitOk →
        ∀ process' pid', ∃ bytes,
          (Invocation.mk csv process' pid' (stagedPath staged name) parse).Produces content
            bytes := by
  obtain ⟨options, hstate⟩ := holds_of_packLoop hloop holds_new
  constructor
  · rw [hstate.flags, hclap] at hlocal
    rw [imageWords_eq, hclap]
    exact ofOptions_imageOptions showText showChar hstate hlocal
  · intro dir name content staged csv hdelimiter
    have hopts := loadOptions_congr hdelimiter
    refine ⟨fun process process' ↦ cmdCheck_congr hopts process' process,
      fun process process' pid pid' bytes ↦ ⟨fun h ↦ ?_, fun h ↦ ?_⟩,
      fun process hcheck process' pid' ↦ ?_⟩
    · exact h.congr rfl hopts rfl
    · exact h.congr rfl hopts.symm rfl
    · obtain ⟨data, parts, hdata, hparts⟩ := cmdCheck_eq_exitOk.mp hcheck
      obtain rfl := Except.ok.inj hdata
      rw [← hopts, parseCsv_process process'] at hparts
      exact ⟨_, exists_produces hparts⟩

/-- The options that some words say. -/
def readWords : List Bytes → Option (List PackOption)
  | [] => some []
  | word :: rest =>
    if word = toBytes "--delimiter" then
      match rest with
      | [] => none
      | value :: rest => (readWords rest).map fun options ↦ .delimiter value :: options
    else if word = toBytes "--header" then
      (readWords rest).map fun options ↦ .header :: options
    else if word = toBytes "--allow-binary" then
      (readWords rest).map fun options ↦ .allowBinary :: options
    else none

theorem readWords_words (options : List PackOption) :
    readWords (options.flatMap PackOption.words) = some options := by
  have hheader : toBytes "--header" ≠ toBytes "--delimiter" := by decide +kernel
  have hbinary : toBytes "--allow-binary" ≠ toBytes "--delimiter" ∧
      toBytes "--allow-binary" ≠ toBytes "--header" := by decide +kernel
  induction options with
  | nil => rfl
  | cons option options ih =>
    cases option with
    | delimiter value => simp [PackOption.words, readWords, ih]
    | header =>
      change readWords (toBytes "--header" :: options.flatMap PackOption.words) = _
      unfold readWords
      rw [if_neg hheader, if_pos rfl, ih, Option.map_some]
    | allowBinary =>
      change readWords (toBytes "--allow-binary" :: options.flatMap PackOption.words) = _
      unfold readWords
      rw [if_neg hbinary.1, if_neg hbinary.2, if_pos rfl, ih, Option.map_some]

/-- A table with semicolons and a header. -/
theorem pack_validates_image_semicolons :
    let clap (words : List Bytes) : Option ParseArgs :=
      (readWords words).bind (ParseArgs.ofOptions id fun c ↦ String.singleton c)
    ∃ state, packLoop .new [toBytes "--header", toBytes "--data", toBytes "kv.csv",
        toBytes "--delimiter", toBytes ";"] = .ok state ∧
      clap state.imageWords = some ⟨some ';', true, false⟩ ∧
      ∃ bytes, (Invocation.mk Csv.grammar default 7 (stagedPath 9 (toBytes "kv.csv"))
        ⟨some ';', true, false⟩).Produces [107, 59, 118, 10, 97, 59, 49, 10] bytes := by
  intro clap
  obtain ⟨state, hloop, hflags⟩ : ∃ state, packLoop .new [toBytes "--header", toBytes "--data",
      toBytes "kv.csv", toBytes "--delimiter", toBytes ";"] = .ok state ∧
      state.flags = [toBytes "--header", toBytes "--delimiter", toBytes ";"] := by
    refine ⟨⟨toBytes "kv.csv", toBytes "justkv:latest", toBytes "linux/amd64", _, toBytes ";",
      1, 0⟩, ?_, rfl⟩
    decide +kernel
  have hlocal : clap state.flags = some ⟨some ';', true, false⟩ := by
    rw [hflags]
    decide +kernel
  obtain ⟨himage, hbuilds⟩ := pack_validates_image id (fun c ↦ String.singleton c) clap
    (fun options ↦ by simp only [clap, readWords_words, Option.bind_some]) _ state hloop _ hlocal
  obtain ⟨_, _, hproduces⟩ := hbuilds [.rootDir] (toBytes "kv.csv")
    [107, 59, 118, 10, 97, 59, 49, 10] 9 Csv.grammar rfl
  exact ⟨state, hloop, himage, hproduces default (by decide +kernel) default 7⟩

end JustKV
