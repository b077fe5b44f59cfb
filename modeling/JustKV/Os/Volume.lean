import JustKV.Os.FileSystem

/-!
# Directories and files

A finer view than a map from paths to contents: a directory maps names to files, and a file keeps
its content whatever becomes of its name.  A process that has opened a file goes on with that file
when the name is renamed, replaced or removed, so a write through an open file need not reach the
file that the name stands for by then.
-/

namespace JustKV

/-- The names in use, and the contents of the files that ever existed, numbered as they were
created. -/
structure Volume where
  entries : Path → Option ℕ
  contents : ℕ → Bytes
  next : ℕ
  entries_lt : ∀ path file, entries path = some file → file < next

namespace Volume

/-- What the names stand for. -/
def fs (volume : Volume) : FileSystem := fun path ↦ (volume.entries path).map volume.contents

/-- No file has been created yet. -/
def empty : Volume := ⟨fun _ ↦ none, fun _ ↦ [], 0, fun _ _ h ↦ nomatch h⟩

/-- A new empty file under the given name. -/
def create (volume : Volume) (path : Path) : Volume where
  entries := Function.update volume.entries path (some volume.next)
  contents := Function.update volume.contents volume.next []
  next := volume.next + 1
  entries_lt other file h := by
    by_cases hpath : other = path
    · subst hpath
      rw [Function.update_self] at h
      obtain rfl := Option.some.inj h
      exact Nat.lt_succ_self _
    · rw [Function.update_of_ne hpath] at h
      exact (volume.entries_lt other file h).trans (Nat.lt_succ_self _)

def write (volume : Volume) (file : ℕ) (bytes : Bytes) : Volume :=
  { volume with contents := Function.update volume.contents file (volume.contents file ++ bytes) }

def remove (volume : Volume) (path : Path) : Volume where
  entries := Function.update volume.entries path none
  contents := volume.contents
  next := volume.next
  entries_lt other file h := by
    by_cases hpath : other = path
    · subst hpath
      simp at h
    · rw [Function.update_of_ne hpath] at h
      exact volume.entries_lt other file h

/-- The target name changes hands; the file it stood for lives on for those who have it open. -/
def rename (volume : Volume) (source target : Path) : Volume where
  entries :=
    if source = target then volume.entries
    else Function.update (Function.update volume.entries target (volume.entries source)) source none
  contents := volume.contents
  next := volume.next
  entries_lt other file h := by
    split at h
    · exact volume.entries_lt other file h
    · by_cases hsource : other = source
      · subst hsource
        simp at h
      · rw [Function.update_of_ne hsource] at h
        by_cases htarget : other = target
        · subst htarget
          rw [Function.update_self] at h
          exact volume.entries_lt source file h
        · rw [Function.update_of_ne htarget] at h
          exact volume.entries_lt other file h

/-- An operation by a process that has `handle` open for writing: what is appended goes to the
open file, whatever its name stands for by then. -/
def perform (volume : Volume) (handle : Option ℕ) : FsOp → Option (Volume × Option ℕ)
  | .create path =>
      if volume.entries path = none then some (volume.create path, some volume.next) else none
  | .append _ bytes => handle.map fun file ↦ (volume.write file bytes, handle)
  | .rename source target =>
      if (volume.entries source).isSome then some (volume.rename source target, handle) else none
  | .remove path =>
      if (volume.entries path).isSome then some (volume.remove path, handle) else none

variable {volume : Volume} {path source target : Path}

@[simp] theorem entries_write (file : ℕ) (bytes : Bytes) :
    (volume.write file bytes).entries = volume.entries := rfl

@[simp] theorem contents_remove : (volume.remove path).contents = volume.contents := rfl

@[simp] theorem contents_rename : (volume.rename source target).contents = volume.contents := rfl

theorem entries_create_of_ne {other : Path} (h : other ≠ path) :
    (volume.create path).entries other = volume.entries other :=
  Function.update_of_ne h _ _

theorem entries_remove_of_ne {other : Path} (h : other ≠ path) :
    (volume.remove path).entries other = volume.entries other :=
  Function.update_of_ne h _ _

theorem entries_rename (h : source ≠ target) : (volume.rename source target).entries =
    Function.update (Function.update volume.entries target (volume.entries source)) source none :=
  if_neg h

theorem entries_rename_of_ne (h : source ≠ target) {other : Path} (hsource : other ≠ source)
    (htarget : other ≠ target) :
    (volume.rename source target).entries other = volume.entries other := by
  rw [entries_rename h, Function.update_of_ne hsource, Function.update_of_ne htarget]

theorem entries_rename_target (h : source ≠ target) :
    (volume.rename source target).entries target = volume.entries source := by
  rw [entries_rename h, Function.update_of_ne h.symm, Function.update_self]

theorem entries_rename_source (h : source ≠ target) :
    (volume.rename source target).entries source = none := by
  rw [entries_rename h, Function.update_self]

/-- A file that exists is not the one that is created. -/
theorem contents_create_of_lt {file : ℕ} (h : file < volume.next) :
    (volume.create path).contents file = volume.contents file :=
  Function.update_of_ne h.ne _ _

theorem contents_write_of_ne {file other : ℕ} (h : other ≠ file) (bytes : Bytes) :
    (volume.write file bytes).contents other = volume.contents other :=
  Function.update_of_ne h _ _

@[simp] theorem contents_write_self (file : ℕ) (bytes : Bytes) :
    (volume.write file bytes).contents file = volume.contents file ++ bytes :=
  Function.update_self _ _ _

end Volume

end JustKV
