import JustKV.Library.Interleaving
import JustKV.Os.Path

/-!
# The file system

A map from paths to contents with the operations a build performs.  An operation names the paths
it opens for writing, changes or removes, and it leaves every other path as it is.  The disk that
several processes share also keeps the history of the operations that took effect.
-/

namespace JustKV

abbrev FileSystem := Path → Option Bytes

/-- An operation that took effect. -/
inductive FsOp
  | create (path : Path)
  | append (path : Path) (bytes : Bytes)
  | rename (source target : Path)
  | remove (path : Path)
  deriving DecidableEq, Repr

namespace FsOp

def paths : FsOp → List Path
  | .create path => [path]
  | .append path _ => [path]
  | .rename source target => [source, target]
  | .remove path => [path]

/-- Opening with `create_new` needs a free path, every other operation an existing file. -/
def Enabled (fs : FileSystem) : FsOp → Prop
  | .create path => fs path = none
  | .append path _ => (fs path).isSome
  | .rename source _ => (fs source).isSome
  | .remove path => (fs path).isSome

instance (fs : FileSystem) (op : FsOp) : Decidable (op.Enabled fs) := by
  cases op <;> unfold Enabled <;> infer_instance

def apply (fs : FileSystem) : FsOp → FileSystem
  | .create path => Function.update fs path (some [])
  | .append path bytes => Function.update fs path ((fs path).map fun content ↦ content ++ bytes)
  | .rename source target =>
      if source = target then fs
      else Function.update (Function.update fs target (fs source)) source none
  | .remove path => Function.update fs path none

variable {fs : FileSystem} {op : FsOp} {path : Path}

theorem apply_of_notMem_paths (h : path ∉ op.paths) : op.apply fs path = fs path := by
  cases op with
  | create created => exact Function.update_of_ne (by simpa [paths] using h) _ _
  | append appended bytes => exact Function.update_of_ne (by simpa [paths] using h) _ _
  | remove removed => exact Function.update_of_ne (by simpa [paths] using h) _ _
  | rename source target =>
    obtain ⟨hsource, htarget⟩ : path ≠ source ∧ path ≠ target := by simpa [paths] using h
    by_cases hsame : source = target
    · rw [apply, if_pos hsame]
    · rw [apply, if_neg hsame, Function.update_of_ne hsource, Function.update_of_ne htarget]

theorem apply_rename_target {source target : Path} (h : source ≠ target) :
    (FsOp.rename source target).apply fs target = fs source := by
  rw [apply, if_neg h, Function.update_of_ne h.symm, Function.update_self]

theorem apply_rename_source {source target : Path} (h : source ≠ target) :
    (FsOp.rename source target).apply fs source = none := by
  rw [apply, if_neg h, Function.update_self]

end FsOp

/-- The files and the operations that led to them, each with the process that performed it. -/
structure Disk (ι : Type) where
  fs : FileSystem
  history : List (ι × FsOp)

def Disk.perform {ι : Type} (disk : Disk ι) (i : ι) (op : FsOp) : Disk ι :=
  ⟨op.apply disk.fs, disk.history ++ [(i, op)]⟩

@[simp] theorem fs_perform {ι : Type} (disk : Disk ι) (i : ι) (op : FsOp) :
    (disk.perform i op).fs = op.apply disk.fs := rfl

theorem mem_history_perform {ι : Type} {disk : Disk ι} {i j : ι} {op other : FsOp} :
    (j, other) ∈ (disk.perform i op).history ↔ (j, other) ∈ disk.history ∨ j = i ∧ other = op := by
  simp [Disk.perform]

end JustKV
