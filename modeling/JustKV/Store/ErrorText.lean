import JustKV.Library.Decimal
import JustKV.Library.TextFormat
import JustKV.Store.Load

/-!
# The texts of errors

Every error is written as one line, and different errors are written differently.
-/

open TextFormat

namespace JustKV

section Texts

variable (debug : String → String)

/-- The text without the line; `debug` writes a key between quotes. -/
def DataErrorKind.fmt : DataErrorKind → String
  | .wrongColumnCount found => "expected 2 columns, found " ++ toString found
  | .duplicateKey key firstLine =>
      "duplicate key " ++ debug key ++ ", first seen on line " ++ toString firstLine
  | .invalidUtf8Value => "value is not valid UTF-8 (pass --allow-binary to permit)"
  | .malformed message => "malformed row: " ++ message
  | .tooLarge => "dataset exceeds the 4 GiB limit imposed by u32 offsets"

def DataError.fmt (error : DataError) : String :=
  "line " ++ toString error.line ++ ": " ++ error.kind.fmt debug

def CompiledError.fmt : CompiledError → String
  | .badMagic => "not a justkv compiled file (bad magic)"
  | .truncated => "compiled file is truncated"
  | .outOfBounds index => "entry " ++ toString index ++ " points outside the arena"

/-- The text of a failure to load; `ioText` writes the errors of the system. -/
def LoadFailure.fmt (ioText : IoError → String) : LoadFailure → String
  | .io error => ioText error
  | .compiled error => error.fmt
  | .data errors =>
      String.join (errors.map fun error ↦ error.fmt debug ++ "\n") ++ toString errors.length ++
        " problem(s) found"

end Texts

/-- Text without a line end. -/
def OneLine (text : String) : Prop := '\n' ∉ text.toList

instance (text : String) : Decidable (OneLine text) :=
  inferInstanceAs (Decidable ('\n' ∉ text.toList))

theorem oneLine_append {left right : String} (hleft : OneLine left) (hright : OneLine right) :
    OneLine (left ++ right) := by
  rw [OneLine, String.toList_append, List.mem_append, not_or]
  exact ⟨hleft, hright⟩

theorem oneLine_toString (n : ℕ) : OneLine (toString n) := Decimal.notMem_toString (by decide) n

/-- Keys are written on one line and can be told from each other, as Rust's `Debug` writes them. -/
structure IsDebug (debug : String → String) : Prop where
  injective : Function.Injective debug
  oneLine (key : String) : OneLine (debug key)

/-- Only a message of the reader could break the line. -/
def DataErrorKind.Plain : DataErrorKind → Prop
  | .malformed message => OneLine message
  | _ => True

variable {debug : String → String}

theorem oneLine_fmt (hdebug : IsDebug debug) {error : DataError} (h : error.kind.Plain) :
    OneLine (error.fmt debug) := by
  have hkind : OneLine (error.kind.fmt debug) := by
    obtain ⟨_, kind⟩ := error
    cases kind with
    | wrongColumnCount found => exact oneLine_append (by decide +kernel) (oneLine_toString found)
    | duplicateKey key firstLine =>
      apply oneLine_append _ (oneLine_toString firstLine)
      apply oneLine_append _ (by decide +kernel)
      exact oneLine_append (by decide +kernel) (hdebug.oneLine key)
    | invalidUtf8Value =>
      dsimp only [DataErrorKind.fmt]
      decide +kernel
    | malformed message => exact oneLine_append (by decide +kernel) h
    | tooLarge =>
      dsimp only [DataErrorKind.fmt]
      decide +kernel
  apply oneLine_append _ hkind
  apply oneLine_append _ (by decide +kernel)
  exact oneLine_append (by decide +kernel) (oneLine_toString error.line)

/-- The first two characters tell the kinds apart. -/
def DataErrorKind.mark : DataErrorKind → List Char
  | .wrongColumnCount _ => ['e', 'x']
  | .duplicateKey _ _ => ['d', 'u']
  | .invalidUtf8Value => ['v', 'a']
  | .malformed _ => ['m', 'a']
  | .tooLarge => ['d', 'a']

theorem prefix_append {mark : List Char} {left : String} (h : mark <+: left.toList)
    (right : String) : mark <+: (left ++ right).toList := by
  rw [String.toList_append]
  exact h.trans (List.prefix_append _ _)

theorem mark_prefix_fmt (kind : DataErrorKind) : kind.mark <+: (kind.fmt debug).toList := by
  cases kind <;> dsimp only [DataErrorKind.mark, DataErrorKind.fmt]
  case wrongColumnCount found => exact prefix_append (by decide +kernel) _
  case duplicateKey key firstLine =>
    exact prefix_append (prefix_append (prefix_append (by decide +kernel) _) _) _
  case invalidUtf8Value => decide +kernel
  case malformed message => exact prefix_append (by decide +kernel) _
  case tooLarge => decide +kernel

theorem mark_eq_of_fmt_eq {kind kind' : DataErrorKind} (h : kind.fmt debug = kind'.fmt debug) :
    kind.mark = kind'.mark := by
  have hlength (kind : DataErrorKind) : kind.mark.length = 2 := by cases kind <;> rfl
  have hprefix : kind.mark <+: kind'.mark := by
    apply List.prefix_of_prefix_length_le (mark_prefix_fmt kind) (h ▸ mark_prefix_fmt kind')
    rw [hlength, hlength]
  exact hprefix.eq_of_length ((hlength kind).trans (hlength kind').symm)

section Numerals

variable {m n : ℕ} {left right : String} {stop : Char}

theorem toString_append_inj (hstop : stop.isDigit = false)
    (h : toString m ++ (String.singleton stop ++ left) =
      toString n ++ (String.singleton stop ++ right)) : m = n ∧ left = right := by
  have hlists := congrArg String.toList h
  simp only [String.toList_append, Decimal.toList_toString, String.toList_singleton,
    List.singleton_append] at hlists
  obtain ⟨hnumber, hrest⟩ := Decimal.numeral_append_inj hstop hlists
  exact ⟨hnumber, String.toList_inj.mp hrest⟩

theorem append_toString_inj (hstop : stop.isDigit = false)
    (h : left ++ (String.singleton stop ++ toString m) =
      right ++ (String.singleton stop ++ toString n)) : left = right ∧ m = n := by
  have hlists := congrArg String.toList h
  simp only [String.toList_append, Decimal.toList_toString, String.toList_singleton,
    List.singleton_append] at hlists
  obtain ⟨hleft, hnumber⟩ := Decimal.append_numeral_inj hstop hlists
  exact ⟨String.toList_inj.mp hleft, hnumber⟩

end Numerals

theorem fmt_duplicateKey (key : String) (n : ℕ) : DataErrorKind.fmt debug (.duplicateKey key n) =
    ("duplicate key " ++ debug key ++ ", first seen on line") ++
      (String.singleton ' ' ++ toString n) := by
  have hsplit : ", first seen on line " = ", first seen on line" ++ String.singleton ' ' := by
    decide +kernel
  dsimp only [DataErrorKind.fmt]
  rw [hsplit]
  simp only [String.append_assoc]

theorem DataErrorKind.fmt_injective (hdebug : IsDebug debug) :
    Function.Injective (DataErrorKind.fmt debug) := by
  intro kind kind' h
  have hmark := mark_eq_of_fmt_eq h
  cases kind <;> cases kind' <;> try (simp [DataErrorKind.mark] at hmark; done)
  case wrongColumnCount.wrongColumnCount found found' =>
    rw [Decimal.toString_injective ((String.append_right_inj _).mp h)]
  case duplicateKey.duplicateKey key firstLine key' firstLine' =>
    rw [fmt_duplicateKey, fmt_duplicateKey] at h
    obtain ⟨hkeys, rfl⟩ := append_toString_inj (by decide) h
    have hkey := (String.append_right_inj _).mp ((String.append_left_inj _).mp hkeys)
    rw [hdebug.injective hkey]
  case invalidUtf8Value.invalidUtf8Value => rfl
  case malformed.malformed message message' => rw [(String.append_right_inj _).mp h]
  case tooLarge.tooLarge => rfl

/-- The text of an error says all of it. -/
theorem DataError.fmt_injective (hdebug : IsDebug debug) :
    Function.Injective (DataError.fmt debug) := by
  intro error error' h
  have hfirst (error : DataError) : error.fmt debug =
      "line " ++ (toString error.line ++
        (String.singleton ':' ++ (" " ++ error.kind.fmt debug))) := by
    have hsplit : ": " = String.singleton ':' ++ " " := by decide +kernel
    rw [DataError.fmt, hsplit]
    simp only [String.append_assoc]
  rw [hfirst, hfirst, String.append_right_inj] at h
  obtain ⟨hline, hrest⟩ := toString_append_inj (by decide) h
  have hkind := DataErrorKind.fmt_injective hdebug ((String.append_right_inj _).mp hrest)
  cases error
  cases error'
  exact congrArg₂ DataError.mk hline hkind

end JustKV
