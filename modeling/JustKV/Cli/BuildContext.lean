import JustKV.Cli.Pack
import JustKV.Library.Decimal

/-!
# Staged names in the build context

The copy that `pack.sh` puts into the build context must survive `.dockerignore`, must not be taken
for a pattern by `COPY`, and must not be the copy of another run.  Its name consists of letters,
digits and dots, begins as no ignored name does, and gives the process id away.
-/

open Utf8

namespace JustKV

/-- How the names of all copies begin. -/
def packStem : Bytes := toBytes ".packdata."

/-- The names in `.dockerignore`. -/
def dockerignore : List Bytes :=
  [toBytes "target", toBytes ".git", toBytes "docs", toBytes "bench"]

/-- The bytes `*?[\` that make a source of `COPY` a pattern. -/
def wildcards : Bytes := [42, 63, 91, 92]

/-- A source without wildcards is taken as the name of a file. -/
def TakesNames (copies : Bytes → Bytes → Bool) : Prop :=
  ∀ source file, (∀ byte ∈ source, byte ∉ wildcards) → (copies source file = true ↔ file = source)

/-- What the build stage finds under `/input`. -/
def buildInput (copies : Bytes → Bytes → Bool) (context : Bytes → Option Bytes)
    (source file : Bytes) : Option Bytes :=
  if copies source file ∧ file ∉ dockerignore then context file else none

section Names

variable {pid pid' : ℕ} {name name' : Bytes}

theorem digit_of_mem_toBytes {n : ℕ} {byte : UInt8} (h : byte ∈ toBytes (toString n)) :
    48 ≤ byte.toNat ∧ byte.toNat ≤ 57 := by
  have hdigit (char : Char) (hmem : char ∈ (toString n).toList) :=
    Decimal.toNat_of_mem_toString hmem
  rw [toBytes_of_ascii fun char hmem ↦ (hdigit char hmem).2.trans_lt (by decide)] at h
  obtain ⟨char, hmem, rfl⟩ := List.mem_map.mp h
  have hlt : char.toNat < UInt8.size := (hdigit char hmem).2.trans_lt (by decide)
  rw [UInt8.toNat_ofNat_of_lt' hlt]
  exact hdigit char hmem

theorem isAlnum_of_mem_stagedExtension {base : Bytes} {byte : UInt8}
    (h : byte ∈ stagedExtension base) : isAlnum byte := by
  rw [stagedExtension] at h
  split at h
  · rw [substitution_filter] at h
    exact List.of_mem_filter h
  · exact absurd h List.not_mem_nil

/-- The parts of a staged name. -/
theorem ctxData_eq (pid : ℕ) (name : Bytes) : ∃ ext, (∀ byte ∈ ext, isAlnum byte ∨ byte = 46) ∧
    ctxData pid name = packStem ++ (toBytes (toString pid) ++ 46 :: (toBytes "data" ++ ext)) := by
  have hdata : toBytes ".data" = 46 :: toBytes "data" := by decide
  refine ⟨if stagedExtension (substitution name) = [] then []
    else 46 :: stagedExtension (substitution name), ?_, ?_⟩
  · intro byte hmem
    split at hmem
    · exact absurd hmem List.not_mem_nil
    rcases List.mem_cons.mp hmem with hdot | hext
    · exact Or.inr hdot
    · exact Or.inl (isAlnum_of_mem_stagedExtension hext)
  · unfold ctxData packStem
    rw [toBytes_append, toBytes_append, hdata]
    simp only [List.append_assoc, List.cons_append]

theorem ctxData_begins (pid : ℕ) (name : Bytes) : packStem <+: ctxData pid name := by
  obtain ⟨ext, _, hname⟩ := ctxData_eq pid name
  exact hname ▸ List.prefix_append _ _

/-- Different processes stage under different names, whatever the datasets are called. -/
theorem pid_of_ctxData_eq (h : ctxData pid name = ctxData pid' name') : pid = pid' := by
  obtain ⟨ext, _, hname⟩ := ctxData_eq pid name
  obtain ⟨ext', _, hname'⟩ := ctxData_eq pid' name'
  rw [hname, hname'] at h
  have hdigits (n : ℕ) : ∀ byte ∈ toBytes (toString n),
      decide (48 ≤ byte.toNat ∧ byte.toNat ≤ 57) = true := fun byte hmem ↦
    decide_eq_true (digit_of_mem_toBytes hmem)
  have hsame := Decimal.append_inj_of_stop (hdigits pid) (hdigits pid') (by decide) (by decide)
    (List.append_cancel_left h)
  exact Decimal.toString_injective (toBytes_injective hsame.1)

theorem not_mem_wildcards (pid : ℕ) (name : Bytes) :
    ∀ byte ∈ ctxData pid name, byte ∉ wildcards := by
  have hplain : ∀ byte ∈ wildcards, ¬(isAlnum byte ∨ byte = 46) := by simp [wildcards, isAlnum]
  have hfixed : ∀ byte ∈ packStem ++ 46 :: toBytes "data", isAlnum byte ∨ byte = 46 := by
    have hall : ((packStem ++ 46 :: toBytes "data").all fun byte ↦
        isAlnum byte || byte == 46) = true := by decide +kernel
    exact fun byte hmem ↦ by simpa using List.all_eq_true.mp hall byte hmem
  intro byte hmem hwild
  apply hplain byte hwild
  obtain ⟨ext, hext, hname⟩ := ctxData_eq pid name
  rw [hname, List.mem_append, List.mem_append, ← List.cons_append, List.mem_append] at hmem
  rcases hmem with hstem | hdigit | hdata | hmem
  · exact hfixed byte (List.mem_append_left _ hstem)
  · have hbounds := digit_of_mem_toBytes hdigit
    left
    simp [isAlnum, UInt8.le_iff_toNat_le, hbounds]
  · exact hfixed byte (List.mem_append_right _ hdata)
  · exact hext byte hmem

theorem not_mem_dockerignore (pid : ℕ) (name : Bytes) : ctxData pid name ∉ dockerignore := by
  have hother : ∀ ignored ∈ dockerignore, ¬packStem <+: ignored := by decide
  exact fun hmem ↦ hother _ hmem (ctxData_begins pid name)

/-- The build stage finds exactly the copy, if there is one. -/
theorem buildInput_ctxData {copies : Bytes → Bytes → Bool} (hcopies : TakesNames copies)
    (context : Bytes → Option Bytes) (file : Bytes) :
    buildInput copies context (ctxData pid name) file =
      if file = ctxData pid name then context file else none := by
  have htakes := hcopies (ctxData pid name) file (not_mem_wildcards pid name)
  unfold buildInput
  by_cases hfile : file = ctxData pid name
  · rw [if_pos hfile, if_pos ⟨htakes.mpr hfile, hfile ▸ not_mem_dockerignore pid name⟩]
  · rw [if_neg hfile, if_neg fun h ↦ hfile (htakes.mp h.1)]

end Names

end JustKV
