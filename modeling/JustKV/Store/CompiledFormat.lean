import JustKV.Store.Compiled
import JustKV.Store.Lookup

/-!
# The compiled format as a grammar

`classify` says what a byte string is as a compiled file, in exact integers: too short, of another
kind, cut off, with a first offending entry, or the parts it encodes.  The reader computes
`classify` at either word size and never stops the program, reading undoes writing for arbitrary
parts, and writing what was read gives the file back.
-/

open Checked FixedWidth

namespace JustKV

/-- Both windows of an entry end inside an arena of the given length. -/
def Entry.fits (arenaLen : ℕ) (entry : Entry) : Bool :=
  decide (entry.kOff.toNat + entry.kLen.toNat ≤ arenaLen) &&
    decide (entry.vOff.toNat + entry.vLen.toNat ≤ arenaLen)

theorem fits_iff_inRange {arena : Bytes} {entry : Entry} :
    entry.fits arena.length = true ↔ entry.InRange arena := by
  rw [Entry.fits, Bool.and_eq_true, decide_eq_true_iff, decide_eq_true_iff]
  exact ⟨fun h ↦ ⟨h.1, h.2⟩, fun h ↦ ⟨h.key_le, h.value_le⟩⟩

namespace Compiled

/-- An entry as sixteen bytes. -/
def entryCodec : Codec Entry where
  width := entryLen
  encode entry := toLeBytes entry.kOff ++ (toLeBytes entry.kLen ++
    (toLeBytes entry.vOff ++ toLeBytes entry.vLen))
  decode bytes := ⟨word bytes, word (bytes.drop 4), word (bytes.drop 8), word (bytes.drop 12)⟩
  length_encode _ := rfl
  decode_encode_append entry rest := by
    have h₄ (a : UInt32) (bytes : Bytes) : (toLeBytes a ++ bytes).drop 4 = bytes := rfl
    have h₈ (a b : UInt32) (bytes : Bytes) :
        (toLeBytes a ++ (toLeBytes b ++ bytes)).drop 8 = bytes := rfl
    have h₁₂ (a b c : UInt32) (bytes : Bytes) :
        (toLeBytes a ++ (toLeBytes b ++ (toLeBytes c ++ bytes))).drop 12 = bytes := rfl
    simp only [List.append_assoc, h₄, h₈, h₁₂, word_toLeBytes_append]
  encode_decode bytes h := by
    have h : bytes.length = 16 := h
    have h₀ := toLeBytes_word_drop bytes 0 (by omega)
    have hlast : (bytes.drop 12).take 4 = bytes.drop 12 :=
      List.take_of_length_le (by rw [List.length_drop]; omega)
    rw [List.drop_zero] at h₀
    simp only [h₀, toLeBytes_word_drop bytes 4 (by omega), toLeBytes_word_drop bytes 8 (by omega),
      toLeBytes_word_drop bytes 12 (by omega), hlast]
    have hseam (n : ℕ) : (bytes.drop n).take 4 ++ bytes.drop (n + 4) = bytes.drop n := by
      rw [← List.drop_drop, List.take_append_drop]
    rw [hseam 8, hseam 4]
    exact hseam 0
  decode_take bytes := by
    have h₀ := word_drop_take entryLen 0 (by decide) bytes
    rw [List.drop_zero, List.drop_zero] at h₀
    rw [h₀, word_drop_take entryLen 4 (by decide), word_drop_take entryLen 8 (by decide),
      word_drop_take entryLen 12 (by decide)]

section Meaning

variable (data : Bytes)

def flagsOf : UInt32 := word (data.drop 8)

def countOf : ℕ := (word (data.drop 12)).toNat

def arenaLenOf : ℕ := (word (data.drop 16)).toNat

/-- The length the header announces, as an exact integer. -/
def totalLen : ℕ := headerLen + entryLen * countOf data + arenaLenOf data

/-- The entries the header announces. -/
def entriesOf : List Entry :=
  (List.range (countOf data)).map (entryCodec.recordAt (data.drop headerLen))

/-- The bytes after the entries, up to the announced length. -/
def arenaOf : Bytes :=
  (data.drop (headerLen + entryLen * countOf data)).take (arenaLenOf data)

/-- The position of the first entry with a window that ends past the arena. -/
def firstOutside (arenaLen : ℕ) (entries : List Entry) : Option ℕ :=
  entries.findIdx? fun entry ↦ !entry.fits arenaLen

/-- The verdict on the header alone. -/
def classifyHeader : Except CompiledError Unit :=
  if data.length < magic.length then .error .truncated
  else if data.take magic.length ≠ magic then .error .badMagic
  else if data.length < headerLen ∨ data.length < totalLen data then .error .truncated
  else .ok ()

/-- What the data is as a compiled file. -/
def classify : Except CompiledError (Bytes × List Entry × UInt32) :=
  match classifyHeader data with
  | .error error => .error error
  | .ok () =>
    match firstOutside (arenaLenOf data) (entriesOf data) with
    | some i => .error (.outOfBounds i)
    | none => .ok (arenaOf data, entriesOf data, flagsOf data)

end Meaning

theorem isCompiled_iff {data : Bytes} :
    isCompiled data = true ↔ magic.length ≤ data.length ∧ data.take magic.length = magic := by
  rw [isCompiled, Bool.and_eq_true, decide_eq_true_iff, decide_eq_true_iff]

theorem classifyHeader_eq_ok {data : Bytes} :
    classifyHeader data = .ok () ↔
      isCompiled data = true ∧ headerLen ≤ data.length ∧ totalLen data ≤ data.length := by
  rw [isCompiled_iff, classifyHeader]
  split
  case isTrue h => simp; omega
  case isFalse h =>
    split
    case isTrue hmagic => simp [hmagic]
    case isFalse hmagic =>
      rw [ne_eq, not_not] at hmagic
      split
      case isTrue hshort => simp; omega
      case isFalse hshort => simp [hmagic]; omega

/-- What the data means, if it means anything. -/
theorem classify_eq_ok {data arena : Bytes} {entries : List Entry} {flags : UInt32}
    (h : classify data = .ok (arena, entries, flags)) :
    classifyHeader data = .ok () ∧ firstOutside (arenaLenOf data) (entriesOf data) = none ∧
      arenaOf data = arena ∧ entriesOf data = entries ∧ flagsOf data = flags := by
  unfold classify at h
  cases hheader : classifyHeader data with
  | error error => simp [hheader] at h
  | ok _ =>
    cases hfirst : firstOutside (arenaLenOf data) (entriesOf data) with
    | some i => simp [hheader, hfirst] at h
    | none =>
      simp only [hheader, hfirst, Except.ok.injEq, Prod.mk.injEq] at h
      exact ⟨rfl, rfl, h⟩

end Compiled

end JustKV
