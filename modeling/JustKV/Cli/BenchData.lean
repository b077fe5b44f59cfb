import Mathlib.Algebra.BigOperators.Ring.Finset
import JustKV.Cli.Validate
import JustKV.Csv.Rendering
import JustKV.Library.Decimal
import JustKV.Store.Defects

/-!
# The benchmark data

The generator writes numbered keys with pseudo-random values as tab-separated text.  The loader
gets back exactly these pairs, up to the row count at which their bytes no longer fit the arena.
-/

open Checked Finset HashTable Utf8

namespace JustKV

open Csv CsvLoader

def xorshift (seed : UInt64) : UInt64 :=
  let seed := seed ^^^ seed <<< 13
  let seed := seed ^^^ seed >>> 7
  seed ^^^ seed <<< 17

/-- `format!("{seed:016x}")`. -/
def hex16 (seed : UInt64) : String :=
  let digits := Nat.toDigits 16 seed.toNat
  String.ofList (List.replicate (16 - digits.length) '0' ++ digits)

def genKey (i : ℕ) : String := "key" ++ toString i

def genValue (i : ℕ) (seed : UInt64) : String := "value-" ++ toString i ++ "-" ++ hex16 seed

def genSeed : UInt64 := 0x9E3779B97F4A7C15

/-- What the remaining rows write, from row `i` on. -/
def genFrom : ℕ → ℕ → UInt64 → Bytes
  | 0, _, _ => []
  | rows + 1, i, seed =>
      let seed := xorshift seed
      toBytes (genKey i ++ "\t" ++ genValue i seed ++ "\n") ++ genFrom rows (i + 1) seed

/-- The file of the generator. -/
def gen (rows : ℕ) : Bytes := genFrom rows 0 genSeed

/-- The value of key `i`, whatever the row count. -/
def benchValue (i : ℕ) : String := genValue i (xorshift^[i + 1] genSeed)

def benchPair (i : ℕ) : Bytes × Bytes := (toBytes (genKey i), toBytes (benchValue i))

def benchPairs (rows : ℕ) : Dataset := (List.range rows).map benchPair

/-! ## What it writes -/

/-- Text of letters, digits and hyphens, and what lies between them in ASCII. -/
def Wordy (text : String) : Prop := ∀ char ∈ text.toList, 45 ≤ char.toNat ∧ char.toNat < 128

theorem wordy_of_all {text : String}
    (h : (text.toList.all fun char ↦ 45 ≤ char.toNat && char.toNat < 128) = true) : Wordy text := by
  intro char hmem
  simpa using List.all_eq_true.mp h char hmem

theorem wordy_append {left right : String} (hleft : Wordy left) (hright : Wordy right) :
    Wordy (left ++ right) := by
  intro char hmem
  rw [String.toList_append] at hmem
  exact (List.mem_append.mp hmem).elim (hleft char) (hright char)

theorem wordy_digit : ∀ digit : Fin 16,
    45 ≤ (Nat.digitChar digit).toNat ∧ (Nat.digitChar digit).toNat < 128 := by
  decide

theorem wordy_toDigits {b n : ℕ} (hb : 1 < b) (hle : b ≤ 16) {char : Char}
    (h : char ∈ Nat.toDigits b n) : 45 ≤ char.toNat ∧ char.toNat < 128 := by
  obtain ⟨digit, hdigit, rfl⟩ := Decimal.exists_of_mem_toDigits hb h
  exact wordy_digit ⟨digit, hdigit.trans_le hle⟩

theorem wordy_toString (n : ℕ) : Wordy (toString n) := by
  intro char hmem
  rw [Decimal.toList_toString] at hmem
  exact wordy_toDigits (by omega) (by omega) hmem

theorem wordy_hex16 (seed : UInt64) : Wordy (hex16 seed) := by
  intro char hmem
  rw [hex16, String.toList_ofList] at hmem
  rcases List.mem_append.mp hmem with hzero | hdigit
  · rw [List.eq_of_mem_replicate hzero]
    decide
  · exact wordy_toDigits (by omega) (by omega) hdigit

theorem wordy_genKey (i : ℕ) : Wordy (genKey i) :=
  wordy_append (wordy_of_all (by decide)) (wordy_toString i)

theorem wordy_genValue (i : ℕ) (seed : UInt64) : Wordy (genValue i seed) := by
  apply wordy_append _ (wordy_hex16 seed)
  apply wordy_append _ (wordy_of_all (by decide))
  exact wordy_append (wordy_of_all (by decide)) (wordy_toString i)

theorem length_toBytes {text : String} (h : Wordy text) : (toBytes text).length = text.length := by
  rw [toBytes_of_ascii fun char hmem ↦ (h char hmem).2, List.length_map, String.length_toList]

/-- Such text can stand in a field without quotes. -/
theorem bare_of_wordy {text : String} (h : Wordy text) : Bare 9 (toBytes text) := by
  have hbytes : ∀ byte ∈ toBytes text, 45 ≤ byte.toNat := by
    intro byte hmem
    rw [toBytes_of_ascii fun char hmem ↦ (h char hmem).2] at hmem
    obtain ⟨char, hchar, rfl⟩ := List.mem_map.mp hmem
    rw [UInt8.toNat_ofNat_of_lt' ((h char hchar).2.trans (by decide))]
    exact (h char hchar).1
  have hne {byte : UInt8} (hmem : byte ∈ toBytes text) {other : UInt8} (hother : other.toNat < 45) :
      byte ≠ other := fun hsame ↦ absurd (hbytes byte hmem) (by rw [hsame]; omega)
  constructor
  · intro hquote
    exact hne (List.mem_of_mem_head? hquote) (by decide) rfl
  · intro byte hmem
    have hcr : byte ≠ cr := hne hmem (by decide)
    have hlf : byte ≠ lf := hne hmem (by decide)
    exact ⟨hne hmem (by decide), by simp [isTerminator, hcr, hlf]⟩

theorem genFrom_succ (rows i : ℕ) (seed : UInt64) : genFrom (rows + 1) i seed =
    toBytes (genKey i) ++ 9 :: toBytes (genValue i (xorshift seed)) ++
      lf :: genFrom rows (i + 1) (xorshift seed) := by
  have htab : toBytes "\t" = [9] := by decide
  have hlf : toBytes "\n" = [lf] := by decide
  simp [genFrom, toBytes_append, htab, hlf]

/-- Every iteration writes the line of a pair. -/
theorem rowsText_genFrom (rows i : ℕ) :
    RowsText 9 ((List.range' i rows).map fun i ↦ pairRow (benchPair i))
      (genFrom rows i (xorshift^[i] genSeed)) := by
  induction rows generalizing i with
  | zero => exact .empty
  | succ rows ih =>
    rw [List.range'_succ, List.map_cons, genFrom_succ,
      ← Function.iterate_succ_apply' xorshift i genSeed]
    have hkey := FieldText.plain (bare_of_wordy (wordy_genKey i))
    have hvalue := FieldText.plain (bare_of_wordy (wordy_genValue i (xorshift^[i + 1] genSeed)))
    exact .cons (.cons hkey (.last hvalue)) (by simp) rfl (ih (i + 1))

theorem renders_gen (rows : ℕ) : Renders 9 ((benchPairs rows).map pairRow) (gen rows) := by
  apply Renders.bare
  · rw [benchPairs, List.map_map, List.range_eq_range']
    exact rowsText_genFrom rows 0
  · cases rows with
    | zero => rfl
    | succ rows =>
      rw [gen, genFrom_succ, genKey, toBytes_append]
      rfl

theorem genKey_injective : Function.Injective genKey := by
  intro i j hsame
  have hdigits : Nat.toDigits 10 i = Nat.toDigits 10 j := by
    simpa [genKey, Nat.toList_repr] using congrArg String.toList hsame
  exact Decimal.toDigits_injective hdigits

theorem nodup_benchPairs (rows : ℕ) : (benchPairs rows).keys.Nodup := by
  have hinjective : Function.Injective fun i ↦ (benchPair i).1 := by
    intro i j hsame
    apply genKey_injective
    simpa [benchPair, fromUtf8_toBytes] using congrArg fromUtf8 hsame
  rw [Dataset.keys, benchPairs, List.map_map]
  exact List.nodup_range.map hinjective

theorem utf8_benchPairs {rows : ℕ} {pair : Bytes × Bytes} (h : pair ∈ benchPairs rows) :
    (fromUtf8 pair.2).isSome := by
  obtain ⟨i, _, rfl⟩ := List.mem_map.mp h
  rw [benchPair, fromUtf8_toBytes]
  rfl

theorem length_hex16 (seed : UInt64) : (hex16 seed).length = 16 := by
  have hlength : (Nat.toDigits 16 seed.toNat).length ≤ 16 :=
    (Nat.length_toDigits_le_iff (by omega) (by omega)).mpr (UInt64.toNat_lt seed)
  rw [hex16, String.length_ofList, List.length_append, List.length_replicate]
  omega

theorem length_benchPair (i : ℕ) :
    (benchPair i).1.length + (benchPair i).2.length = 26 + 2 * (Nat.toDigits 10 i).length := by
  have hnumeral : (toString i).length = (Nat.toDigits 10 i).length := by
    rw [← String.length_toList, Decimal.toList_toString]
  have hkey : (genKey i).length = 3 + (Nat.toDigits 10 i).length := by
    rw [genKey, String.length_append, hnumeral]
    rfl
  have hvalue : (benchValue i).length = 6 + (Nat.toDigits 10 i).length + 1 + 16 := by
    rw [benchValue, genValue, String.length_append, String.length_append, String.length_append,
      hnumeral, length_hex16]
    rfl
  calc
    (benchPair i).1.length + (benchPair i).2.length = (genKey i).length + (benchValue i).length :=
      congrArg₂ (· + ·) (length_toBytes (wordy_genKey i)) (length_toBytes (wordy_genValue i _))
    _ = 26 + 2 * (Nat.toDigits 10 i).length := by omega

theorem size_benchPairs {columns rows : ℕ} (h : rows ≤ 10 ^ (columns + 1)) :
    (benchPairs rows).size = 28 * rows + 2 * ∑ k ∈ range columns, (rows - 10 ^ (k + 1)) := by
  have hpairs : (benchPairs rows).size =
      ∑ i ∈ range rows, (26 + 2 * (Nat.toDigits 10 i).length) := by
    rw [← sum_congr rfl fun i _ ↦ length_benchPair i, Dataset.size, benchPairs, List.map_map]
    rfl
  rw [hpairs, sum_add_distrib, ← mul_sum, Decimal.sum_length_toDigits (by omega) h, sum_const,
    card_range, nsmul_eq_mul, Nat.cast_id]
  omega

/-- The data of so many rows fits the arena. -/
theorem size_benchPairs_le_iff (rows : ℕ) :
    (benchPairs rows).size ≤ u32Max ↔ rows ≤ 102663398 := by
  by_cases hrows : rows ≤ 10 ^ (8 + 1)
  · rw [size_benchPairs hrows]
    simp only [sum_range_succ, sum_range_zero, u32Max]
    omega
  · have hcolumns : rows ≤ 10 ^ (rows + 1) :=
      (Nat.lt_pow_self (by omega)).le.trans (Nat.pow_le_pow_right (by omega) (Nat.le_succ rows))
    rw [size_benchPairs hcolumns, u32Max]
    omega

/-- The benchmark data loads up to 102663398 rows, to an arena of a known size and a store of just
these pairs; with more rows it has one problem. -/
theorem bench_data_loads (csv : CsvReader) (process : Process) (opts : LoadOptions) (rows : ℕ)
    (hdelimiter : opts.delimiter = 9) (hheader : opts.hasHeader = false)
    (hcsv : Follows csv ⟨9, false⟩) :
    (rows ≤ 102663398 → ∃ arena entries,
      parseCsv csv process (gen rows) opts = .ok (.ok (arena, entries)) ∧
      arena.length = 28 * rows + 2 * ∑ k ∈ range 8, (rows - 10 ^ (k + 1)) ∧
      ∀ layout hasher, ∃ store, Store.fromParts layout hasher arena entries = .ok store ∧
        store.len = rows ∧
        ∀ key, ∃ answer, store.get key = .ok answer ∧ ∀ value, answer = some value ↔
          ∃ i < rows, key = toBytes (genKey i) ∧ value = toBytes (benchValue i)) ∧
    (102663398 < rows → ∃ line,
      parseCsv csv process (gen rows) opts = .ok (.error [⟨line, .tooLarge⟩])) := by
  obtain ⟨hread, hending⟩ := hcsv (gen rows)
  have hfields := hread.trans (fields_of_renders (by decide) (renders_gen rows) false)
  rw [if_neg Bool.false_ne_true] at hfields
  have hutf8 : ∀ pair ∈ benchPairs rows, opts.allowBinary = true ∨ (fromUtf8 pair.2).isSome :=
    fun pair hpair ↦ Or.inr (utf8_benchPairs hpair)
  constructor
  · intro hrows
    have haccepted : Accepted opts (csv ⟨opts.delimiter, opts.hasHeader⟩ (gen rows))
        (benchPairs rows) := by
      rw [hdelimiter, hheader]
      exact ⟨hfields, hending, nodup_benchPairs rows, (size_benchPairs_le_iff rows).mpr hrows,
        hutf8⟩
    have hcolumns : rows ≤ 10 ^ (8 + 1) := hrows.trans (by decide)
    refine ⟨_, _, parseCsv_eq_ok_ok_iff.mpr ⟨_, haccepted, rfl⟩, ?_, fun layout hasher ↦ ?_⟩
    · rw [length_packed, size_benchPairs hcolumns]
    · have hpairs : (haccepted.parts.store layout hasher).pairs = benchPairs rows := by simp
      refine ⟨_, fromParts_eq_ok haccepted.parts layout hasher, ?_, fun key ↦ ?_⟩
      · simp [benchPairs]
      · obtain ⟨answer, hget, hanswer⟩ :=
          get_eq_some_iff (sound_store haccepted.parts layout hasher)
            (hpairs.symm ▸ nodup_benchPairs rows) key
        refine ⟨answer, hget, fun value ↦ (hanswer value).trans ?_⟩
        rw [hpairs]
        simp [benchPairs, benchPair, eq_comm]
  · intro hrows
    have hlarge : u32Max < (benchPairs rows).size := by
      by_contra hle
      exact absurd ((size_benchPairs_le_iff rows).mp (by omega)) (by omega)
    have hmap := (map_fields_numberRows none (csv ⟨9, false⟩ (gen rows)).records).trans hfields
    have hnodup : (keptPairs [] ++ benchPairs rows).keys.Nodup := nodup_benchPairs rows
    obtain ⟨row, _, hreport⟩ : ∃ row ∈ numberRows none (csv ⟨9, false⟩ (gen rows)).records,
        reportFrom opts [] [] (numberRows none (csv ⟨9, false⟩ (gen rows)).records) =
          [⟨row.line, .tooLarge⟩] :=
      reportFrom_tooLarge hmap hnodup (Nat.zero_le _) hlarge hutf8
    have herrors : report opts (csv ⟨opts.delimiter, opts.hasHeader⟩ (gen rows)) =
        [⟨row.line, .tooLarge⟩] := by
      rw [hdelimiter, hheader, report, hending]
      exact hreport
    refine ⟨row.line, ?_⟩
    rw [parseCsv_eq_ok, outcome, herrors]
    rfl

/-- A million rows, read as the file name says, take 37777780 bytes. -/
theorem bench_data_loads_million :
    let opts := (default : ParseArgs).loadOptions [.normal [107, 118, 46, 116, 115, 118]]
    ∃ arena entries, parseCsv Csv.grammar default (gen 1000000) opts = .ok (.ok (arena, entries)) ∧
      arena.length = 37777780 := by
  intro opts
  obtain ⟨arena, entries, hparse, hlength, _⟩ := (bench_data_loads Csv.grammar default opts 1000000
    (by decide +kernel) rfl (follows_grammar _)).1 (by decide)
  refine ⟨arena, entries, hparse, ?_⟩
  rw [hlength]
  rfl

end JustKV
