import JustKV.Store.Basic

/-!
# Paths

A path is the list of its components, as the standard library iterates them: repeated and
trailing separators and inner `.` components are already gone.
-/

namespace JustKV

inductive Component
  | rootDir
  | curDir
  | parentDir
  | normal (name : Bytes)
  deriving DecidableEq, Repr

abbrev Path := List Component

namespace Path

/-- The path without its last component; a root and the empty path have no parent. -/
def parent (path : Path) : Option Path :=
  match path.getLast? with
  | none => none
  | some .rootDir => none
  | some _ => some path.dropLast

/-- The last component, if it is a name. -/
def fileName (path : Path) : Option Bytes :=
  match path.getLast? with
  | some (.normal name) => some name
  | _ => none

def join (dir : Path) (name : Bytes) : Path := dir ++ [.normal name]

/-- The part of the file name after its last dot, if something stands before that dot. -/
def extension (path : Path) : Option Bytes :=
  match path.fileName with
  | none => none
  | some name =>
    let reversed := name.reverse
    match reversed.dropWhile fun byte ↦ byte != 46 with
    | _dot :: _byte :: _ => some (reversed.takeWhile fun byte ↦ byte != 46).reverse
    | _ => none

@[simp] theorem fileName_join (dir : Path) (name : Bytes) :
    (dir.join name).fileName = some name := by
  simp [fileName, join]

theorem exists_join {path : Path} {name : Bytes} (h : path.fileName = some name) :
    ∃ dir : Path, path = dir.join name := by
  rcases path.eq_nil_or_concat with rfl | ⟨dir, last, rfl⟩
  · simp [fileName] at h
  · refine ⟨dir, ?_⟩
    cases last <;> simp_all [fileName, join]

/-- The name up to a dot that no other dot follows, if something stands before that dot. -/
theorem exists_extension {name : Bytes} (h : 46 ∈ name.tail) :
    ∃ stem ext, stem ≠ [] ∧ 46 ∉ ext ∧ name = stem ++ 46 :: ext := by
  cases name with
  | nil => exact absurd h List.not_mem_nil
  | cons head tail =>
    obtain ⟨after, before, htail, hafter⟩ := List.eq_append_cons_of_mem (List.mem_reverse.mpr h)
    have hsplit : tail = before.reverse ++ 46 :: after.reverse := by
      simpa using congrArg List.reverse htail
    refine ⟨head :: before.reverse, after.reverse, List.cons_ne_nil _ _, by simpa using hafter, ?_⟩
    exact congrArg (head :: ·) hsplit

theorem extension_join (dir : Path) {stem ext : Bytes} (hstem : stem ≠ []) (hext : 46 ∉ ext) :
    (dir.join (stem ++ 46 :: ext)).extension = some ext := by
  have hreverse : (stem ++ 46 :: ext).reverse = ext.reverse ++ 46 :: stem.reverse := by simp
  have hbytes : ∀ byte ∈ ext.reverse, (byte != 46) = true := fun byte hbyte ↦
    bne_iff_ne.mpr fun hdot ↦ hext (hdot ▸ List.mem_reverse.mp hbyte)
  obtain ⟨last, front, hfront⟩ := List.exists_cons_of_ne_nil (List.reverse_ne_nil_iff.mpr hstem)
  simp only [extension, fileName_join, hreverse, List.dropWhile_append_of_pos hbytes,
    List.takeWhile_append_of_pos hbytes]
  rw [hfront]
  simp

/-- A name whose only dot, if any, is its first byte. -/
theorem extension_join_of_not_mem (dir : Path) {name : Bytes} (h : 46 ∉ name.tail) :
    (dir.join name).extension = none := by
  cases name with
  | nil => simp [extension]
  | cons head tail =>
    have hbytes : ∀ byte ∈ tail.reverse, (byte != 46) = true := fun byte hbyte ↦
      bne_iff_ne.mpr fun hdot ↦ h (hdot ▸ List.mem_reverse.mp hbyte)
    simp only [extension, fileName_join, List.reverse_cons, List.dropWhile_append_of_pos hbytes]
    by_cases hdot : head = 46 <;> simp [hdot]

end Path

/-- The errors of file operations, as far as the program tells them apart. -/
inductive IoError
  | alreadyExists
  | other (message : String)
  deriving DecidableEq, Repr

end JustKV
