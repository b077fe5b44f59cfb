import Mathlib.Data.List.DropRight
import JustKV.Cli.Validate

/-!
# Packaging a dataset

`pack.sh` first replaces the path of the dataset by what `realpath` says in a command substitution,
which loses the newlines at the end of the name.  It validates the dataset under that path and then
copies it into the build context under a generated name, where the image's build stage parses it.
Of the original name only the extension is carried over, since the delimiter is inferred from it,
and of the extension only the letters and digits.
-/

open Checked Utf8

namespace JustKV

/-- What a command substitution leaves of an output. -/
def substitution (output : Bytes) : Bytes := output.rdropWhile fun byte ↦ byte == 10

/-- `DATA` after `DATA="$(realpath "$DATA")"`, for a dataset that is really `name` in `dir`. -/
def dataPath (dir : Path) (name : Bytes) : Path :=
  -- A name of newlines leaves the path of the directory and a separator.
  if substitution name = [] then dir else dir.join (substitution name)

/-- What `basename` says of a path that `realpath` has resolved. -/
def basename (path : Path) : Bytes := path.fileName.getD [47]

/-- The class `[:alnum:]`. -/
def isAlnum (byte : UInt8) : Bool :=
  48 ≤ byte && byte ≤ 57 || 65 ≤ byte && byte ≤ 90 || 97 ≤ byte && byte ≤ 122

/-- `${base##*.}`. -/
def afterLastDot (base : Bytes) : Bytes := base.rtakeWhile fun byte ↦ byte != 46

/-- The extension that the staged name gets, or nothing. -/
def stagedExtension (base : Bytes) : Bytes :=
  -- The pattern `?*.*`: a dot that is not the first character.
  if 46 ∈ base.tail then substitution ((afterLastDot base).filter isAlnum) else []

/-- The name in the build context of the copy of a dataset, by what `basename` says of `DATA`. -/
def ctxData (pid : ℕ) (name : Bytes) : Bytes :=
  let ext := stagedExtension (substitution name)
  toBytes (".packdata." ++ toString pid ++ ".data") ++ if ext = [] then [] else 46 :: ext

/-- Where the build stage finds the copy. -/
def stagedPath (pid : ℕ) (name : Bytes) : Path :=
  Path.join [.rootDir, .normal (toBytes "input")] (ctxData pid name)

/-- `tsv` in any case. -/
def IsTsv (ext : Bytes) : Prop := ext.map toAsciiLowercase = tsvExtension

instance (ext : Bytes) : Decidable (IsTsv ext) :=
  inferInstanceAs (Decidable (ext.map toAsciiLowercase = tsvExtension))

/-- The extension is `tsv` only if the bytes that are no letters or digits are left out. -/
def BecomesTsv (name : Bytes) : Prop :=
  ∃ stem ext, stem ≠ [] ∧ 46 ∉ ext ∧ name = stem ++ 46 :: ext ∧
    IsTsv (ext.filter isAlnum) ∧ ∃ byte ∈ ext, ¬isAlnum byte

theorem isAlnum_of_isTsv {ext : Bytes} (h : IsTsv ext) : ∀ byte ∈ ext, isAlnum byte := by
  intro byte hbyte
  have hmem : toAsciiLowercase byte ∈ tsvExtension := h ▸ List.mem_map_of_mem hbyte
  rw [toAsciiLowercase] at hmem
  split at hmem
  case isTrue hupper => simp only [isAlnum, hupper, Bool.or_true, Bool.true_or]
  case isFalse =>
    have hletters : ∀ letter ∈ tsvExtension, isAlnum letter := by
      simp [tsvExtension, isAlnum]
    exact hletters byte hmem

theorem lt_of_isAlnum {byte : UInt8} (h : isAlnum byte) : byte < 128 := by
  simp only [isAlnum, Bool.or_eq_true, Bool.and_eq_true, decide_eq_true_eq] at h
  rcases h with (⟨_, hle⟩ | ⟨_, hle⟩) | ⟨_, hle⟩
  · exact UInt8.lt_of_le_of_lt hle (by decide)
  · exact UInt8.lt_of_le_of_lt hle (by decide)
  · exact UInt8.lt_of_le_of_lt hle (by decide)

/-- The delimiter of a path with an extension. -/
theorem delimiterForPath_of_extension {path : Path} {ext : Bytes} (h : path.extension = some ext) :
    LoadOptions.delimiterForPath path = if IsTsv ext then 9 else 44 := by
  rw [LoadOptions.delimiterForPath, h, Option.bind_some]
  cases htext : fromUtf8 ext with
  | some text =>
    dsimp only
    rw [toBytes_of_fromUtf8 htext]
    rfl
  | none =>
    have hascii : ¬IsTsv ext := fun htsv ↦ by
      obtain ⟨text, rfl⟩ := exists_toBytes fun byte hbyte ↦
        lt_of_isAlnum (isAlnum_of_isTsv htsv byte hbyte)
      rw [fromUtf8_toBytes] at htext
      cases htext
    rw [if_neg hascii]

theorem delimiterForPath_of_none {path : Path} (h : path.extension = none) :
    LoadOptions.delimiterForPath path = 44 := by
  rw [LoadOptions.delimiterForPath, h]
  rfl

/-! ## The extension of the copy -/

section Extension

variable {stem ext : Bytes}

theorem substitution_append_cons {byte : UInt8} (hbyte : byte ≠ 10) :
    substitution (stem ++ byte :: ext) = stem ++ byte :: substitution ext := by
  induction ext using List.reverseRecOn with
  | nil => exact List.rdropWhile_concat_neg _ _ _ (by simpa using hbyte)
  | append_singleton ext last ih =>
    rw [← List.cons_append, ← List.append_assoc, substitution, List.rdropWhile_concat, substitution,
      List.rdropWhile_concat]
    split
    · exact ih
    · simp

theorem afterLastDot_append_cons (hext : 46 ∉ ext) : afterLastDot (stem ++ 46 :: ext) = ext := by
  induction ext using List.reverseRecOn with
  | nil => exact List.rtakeWhile_concat_neg _ _ _ (by simp)
  | append_singleton ext last ih =>
    have hlast : (last != 46) = true := by
      rw [bne_iff_ne]
      rintro rfl
      simp at hext
    rw [← List.cons_append, ← List.append_assoc, afterLastDot, List.rtakeWhile_concat, if_pos hlast]
    exact congrArg (· ++ [last]) (ih fun hdot ↦ hext (List.mem_append_left _ hdot))

theorem filter_substitution : (substitution ext).filter isAlnum = ext.filter isAlnum := by
  induction ext using List.reverseRecOn with
  | nil => rfl
  | append_singleton ext last ih =>
    rw [substitution, List.rdropWhile_concat]
    split
    case isTrue hlast =>
      obtain rfl : last = 10 := by simpa using hlast
      rw [List.filter_append]
      exact ih.trans (List.append_nil _).symm
    case isFalse => rfl

theorem substitution_filter : substitution (ext.filter isAlnum) = ext.filter isAlnum := by
  rw [substitution, List.rdropWhile_eq_self_iff]
  intro hne hnewline
  have hlast : isAlnum ((ext.filter isAlnum).getLast hne) :=
    List.of_mem_filter (List.getLast_mem hne)
  rw [eq_of_beq hnewline] at hlast
  exact absurd hlast (by decide)

/-- The staged name gets the letters and digits of the extension. -/
theorem stagedExtension_append_cons (hstem : stem ≠ []) (hext : 46 ∉ ext) :
    stagedExtension (substitution (stem ++ 46 :: ext)) = ext.filter isAlnum := by
  have hkept : 46 ∉ substitution ext := fun hdot ↦
    hext ((List.rdropWhile_prefix _ ext).subset hdot)
  have hdot : 46 ∈ (stem ++ 46 :: substitution ext).tail := by
    rw [List.tail_append_of_ne_nil hstem]
    exact List.mem_append_right _ List.mem_cons_self
  rw [substitution_append_cons (by decide), stagedExtension, if_pos hdot,
    afterLastDot_append_cons hkept, filter_substitution, substitution_filter]

theorem stagedExtension_of_not_mem {name : Bytes} (h : 46 ∉ name.tail) :
    stagedExtension (substitution name) = [] := by
  have hstart : (substitution name).tail <+: name.tail := by
    rw [← List.drop_one, ← List.drop_one]
    exact (List.rdropWhile_prefix _ name).drop 1
  rw [stagedExtension, if_neg fun hdot ↦ h (hstart.subset hdot)]

theorem not_mem_stagedExtension (base : Bytes) : 46 ∉ stagedExtension base := by
  rw [stagedExtension]
  split
  · rw [substitution_filter]
    intro hdot
    exact absurd (List.of_mem_filter hdot) (by decide)
  · exact List.not_mem_nil

end Extension

/-- The copy's extension is the staged one, or `data` if there is none. -/
theorem extension_stagedPath (pid : ℕ) (name : Bytes) :
    (stagedPath pid name).extension = some (
      if stagedExtension (substitution name) = [] then toBytes "data"
      else stagedExtension (substitution name)) := by
  have hstem : toBytes (".packdata." ++ toString pid) ≠ [] := by
    rw [toBytes_append]
    exact List.append_ne_nil_of_left_ne_nil (by decide) _
  have hdata : toBytes (".packdata." ++ toString pid ++ ".data") =
      toBytes (".packdata." ++ toString pid) ++ 46 :: toBytes "data" := toBytes_append _ _
  rw [stagedPath, ctxData]
  by_cases hext : stagedExtension (substitution name) = []
  · rw [if_pos hext, if_pos hext, List.append_nil, hdata]
    exact Path.extension_join _ hstem (by decide)
  · rw [if_neg hext, if_neg hext]
    apply Path.extension_join _ _ (not_mem_stagedExtension _)
    rw [toBytes_append]
    exact List.append_ne_nil_of_left_ne_nil hstem _

/-- The delimiter of the copy. -/
theorem delimiterForPath_stagedPath (pid : ℕ) (name : Bytes) :
    LoadOptions.delimiterForPath (stagedPath pid name) =
      if IsTsv (stagedExtension (substitution name)) then 9 else 44 := by
  rw [delimiterForPath_of_extension (extension_stagedPath pid name)]
  split
  case isTrue hext =>
    rw [hext]
    decide
  case isFalse => rfl

theorem delimiter_loadOptions {parse : ParseArgs} (h : parse.delimiter = none) (path : Path) :
    (parse.loadOptions path).delimiter = LoadOptions.delimiterForPath path := by
  rw [ParseArgs.loadOptions, h]
  rfl

@[simp] theorem basename_join (dir : Path) (name : Bytes) : basename (dir.join name) = name := by
  rw [basename, Path.fileName_join, Option.getD_some]

theorem basename_dataPath (dir : Path) {name : Bytes} (h : substitution name ≠ []) :
    basename (dataPath dir name) = substitution name := by
  rw [dataPath, if_neg h, basename_join]

theorem delimiterForPath_stagedPath_iff (dir : Path) (name : Bytes) (pid : ℕ) :
    LoadOptions.delimiterForPath (stagedPath pid name) =
      LoadOptions.delimiterForPath (dir.join name) ↔ ¬BecomesTsv name := by
  rw [delimiterForPath_stagedPath]
  constructor
  · rintro hsame ⟨stem, ext, hstem, hext, rfl, htsv, byte, hbyte, hdropped⟩
    have hother : ¬IsTsv ext := fun h ↦ hdropped (isAlnum_of_isTsv h byte hbyte)
    rw [delimiterForPath_of_extension (Path.extension_join dir hstem hext), if_neg hother,
      stagedExtension_append_cons hstem hext, if_pos htsv] at hsame
    exact absurd hsame (by decide)
  · intro hkept
    by_cases hdot : 46 ∈ name.tail
    · obtain ⟨stem, ext, hstem, hext, rfl⟩ := Path.exists_extension hdot
      rw [delimiterForPath_of_extension (Path.extension_join dir hstem hext),
        stagedExtension_append_cons hstem hext]
      by_cases hall : ∀ byte ∈ ext, isAlnum byte
      · rw [List.filter_eq_self.mpr hall]
      · have htsv : ¬IsTsv ext := fun h ↦ hall (isAlnum_of_isTsv h)
        have htsv' : ¬IsTsv (ext.filter isAlnum) := fun h ↦
          hkept ⟨stem, ext, hstem, hext, rfl, h, by simpa using hall⟩
        rw [if_neg htsv, if_neg htsv']
    · have hnone : ¬IsTsv [] := by decide
      rw [delimiterForPath_of_none (Path.extension_join_of_not_mem dir hdot),
        stagedExtension_of_not_mem hdot, if_neg hnone]

/-- The copy is parsed with the delimiter that the local check used exactly if no characters are
dropped from the name in `DATA` that keep its extension from being `tsv`. -/
theorem loadOptions_stagedPath_iff (dir : Path) (name : Bytes) (pid : ℕ) (parse : ParseArgs)
    (hdelimiter : parse.delimiter = none) :
    (parse.loadOptions (stagedPath pid (basename (dataPath dir name)))).delimiter =
      (parse.loadOptions (dataPath dir name)).delimiter ↔
      ¬BecomesTsv (basename (dataPath dir name)) := by
  rw [delimiter_loadOptions hdelimiter, delimiter_loadOptions hdelimiter]
  cases hfile : (dataPath dir name).fileName with
  | some base =>
    obtain ⟨parent, hdata⟩ := Path.exists_join hfile
    rw [hdata, basename_join]
    exact delimiterForPath_stagedPath_iff parent base pid
  | none =>
    have hroot : basename (dataPath dir name) = [47] := by rw [basename, hfile, Option.getD_none]
    have hnone : (dataPath dir name).extension = none := by rw [Path.extension, hfile]
    have hkept : ¬BecomesTsv [47] := by
      rintro ⟨stem, ext, hstem, _, hname, _⟩
      cases stem <;> simp at hname hstem
    rw [hroot, delimiterForPath_of_none hnone, delimiterForPath_stagedPath]
    exact iff_of_true (by decide) hkept

/-- A table with an upper-case extension is packaged as it was validated, also if a newline ends its
name. -/
theorem loadOptions_stagedPath_iff_upper : ¬BecomesTsv (substitution (toBytes "kv.TSV\n")) := by
  rw [← basename_dataPath [.rootDir] (by decide)]
  exact (loadOptions_stagedPath_iff [.rootDir] (toBytes "kv.TSV\n") 7 default rfl).mp (by decide)

/-- The backup of a table is validated with commas and packaged with tabs. -/
theorem loadOptions_stagedPath_backup :
    let data := dataPath [.rootDir] (toBytes "kv.tsv~")
    let original := (default : ParseArgs).loadOptions data
    let copy := (default : ParseArgs).loadOptions (stagedPath 7 (basename data))
    original.delimiter = 44 ∧ copy.delimiter = 9 ∧ copy.delimiter ≠ original.delimiter := by
  decide

end JustKV
