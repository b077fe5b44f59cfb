import JustKV.Os.FileSystem

/-!
# Scratch files that belong to one process

Several processes share a disk and one output path.  Each keeps at most one scratch file: it
creates it under a free path, writes only to it, and gives it up by removing it or by renaming it
to the output.  Then every scratch file belongs to one process and did not exist before, and every
other path but the output is as it was.
-/

namespace JustKV

variable {ι : Type}

/-- Every scratch file belongs to one run and is new; apart from these files and the output,
nothing has changed. -/
structure Owned (out : Path) (initial : FileSystem) (disk : Disk ι)
    (scratch : ι → Option Path) : Prop where
  new : ∀ i tmp, scratch i = some tmp → tmp ≠ out ∧ initial tmp = none ∧
    (disk.fs tmp).isSome ∧ (i, .create tmp) ∈ disk.history
  own : ∀ i j tmp, scratch i = some tmp → scratch j = some tmp → i = j
  others : ∀ path, path ≠ out → (∀ i, scratch i ≠ some path) → disk.fs path = initial path
  touched : ∀ i op, (i, op) ∈ disk.history → ∀ path ∈ op.paths,
    path = out ∨ initial path = none ∧ (i, .create path) ∈ disk.history
  renames : ∀ i op, (i, op) ∈ disk.history → out ∈ op.paths → ∃ tmp, op = .rename tmp out

variable {out tmp : Path} {initial : FileSystem} {disk : Disk ι} {scratch : ι → Option Path}
  {i : ι} {op : FsOp}

theorem owned_launched : Owned out initial (⟨initial, []⟩ : Disk ι) fun _ ↦ none where
  new _ _ h := by simp at h
  own _ _ _ h := by simp at h
  others _ _ _ := rfl
  touched _ _ h := by simp at h
  renames _ _ h := by simp at h

/-- A path that is free now was free before the runs, and no run owns it. -/
theorem Owned.free (h : Owned out initial disk scratch) {path : Path} (hout : path ≠ out)
    (hfree : disk.fs path = none) : initial path = none ∧ ∀ j, scratch j ≠ some path := by
  have hnone (j : ι) : scratch j ≠ some path := fun hj ↦ by
    have hsome := (h.new j path hj).2.2.1
    simp [hfree] at hsome
  exact ⟨(h.others path hout hnone).symm.trans hfree, hnone⟩

/-- What a run created is neither the output nor a file from before the runs. -/
theorem Owned.created (h : Owned out initial disk scratch) {path : Path}
    (hcreate : (i, .create path) ∈ disk.history) : path ≠ out ∧ initial path = none := by
  have hout : path ≠ out := by
    rintro rfl
    obtain ⟨tmp, htmp⟩ := h.renames i _ hcreate (by simp [FsOp.paths])
    simp at htmp
  have hnew := h.touched i _ hcreate path (by simp [FsOp.paths])
  exact ⟨hout, (hnew.resolve_left hout).1⟩

theorem touched_perform (h : Owned out initial disk scratch)
    (hpaths : ∀ path ∈ op.paths,
      path = out ∨ initial path = none ∧ (i, .create path) ∈ (disk.perform i op).history) :
    ∀ j other, (j, other) ∈ (disk.perform i op).history → ∀ path ∈ other.paths,
      path = out ∨ initial path = none ∧ (j, .create path) ∈ (disk.perform i op).history := by
  intro j other hmem path hpath
  rcases mem_history_perform.mp hmem with hold | ⟨rfl, rfl⟩
  · refine (h.touched j other hold path hpath).imp_right fun hnew ↦ ⟨hnew.1, ?_⟩
    exact mem_history_perform.mpr (Or.inl hnew.2)
  · exact hpaths path hpath

theorem renames_perform (h : Owned out initial disk scratch)
    (hop : out ∈ op.paths → ∃ tmp, op = .rename tmp out) :
    ∀ j other, (j, other) ∈ (disk.perform i op).history → out ∈ other.paths →
      ∃ tmp, other = .rename tmp out := by
  intro j other hmem hpath
  rcases mem_history_perform.mp hmem with hold | ⟨rfl, rfl⟩
  · exact h.renames j other hold hpath
  · exact hop hpath

/-- An operation on other paths leaves what is known about a scratch file. -/
theorem Owned.new_perform (h : Owned out initial disk scratch) {j : ι} {path : Path}
    (hj : scratch j = some path) (hne : path ∉ op.paths) :
    path ≠ out ∧ initial path = none ∧ ((disk.perform i op).fs path).isSome ∧
      (j, .create path) ∈ (disk.perform i op).history := by
  obtain ⟨hpath, hfresh, hsome, hmem⟩ := h.new j path hj
  refine ⟨hpath, hfresh, ?_, mem_history_perform.mpr (Or.inl hmem)⟩
  rwa [fs_perform, FsOp.apply_of_notMem_paths hne]

variable [DecidableEq ι]

/-- Who owns a path after the file of one run has changed. -/
theorem update_eq_some {held : Option Path} {j : ι} {path : Path} :
    Function.update scratch i held j = some path ↔
      j = i ∧ held = some path ∨ j ≠ i ∧ scratch j = some path := by
  by_cases hij : j = i
  · simp [hij]
  · simp [hij, Function.update_of_ne]

/-- A path that the operation does not touch and no run owns, before or after, is as it was. -/
theorem Owned.others_perform (h : Owned out initial disk scratch) {held : Option Path}
    {path : Path} (hpath : path ≠ out) (hne : path ∉ op.paths) (hi : scratch i ≠ some path)
    (hnone : ∀ j, Function.update scratch i held j ≠ some path) :
    (disk.perform i op).fs path = initial path := by
  rw [fs_perform, FsOp.apply_of_notMem_paths hne]
  apply h.others path hpath
  intro j hj
  by_cases hij : j = i
  · exact hi (hij ▸ hj)
  · exact hnone j (update_eq_some.mpr (Or.inr ⟨hij, hj⟩))

/-- A run creates its scratch file or writes to it. -/
theorem Owned.hold (h : Owned out initial disk scratch) (hpaths : op.paths = [tmp])
    (hexists : (op.apply disk.fs tmp).isSome) (hout : tmp ≠ out) (hinitial : initial tmp = none)
    (hbefore : scratch i = none ∨ scratch i = some tmp)
    (hother : ∀ j, j ≠ i → scratch j ≠ some tmp)
    (hcreated : (i, .create tmp) ∈ (disk.perform i op).history) :
    Owned out initial (disk.perform i op) (Function.update scratch i (some tmp)) where
  new j path hj := by
    rcases update_eq_some.mp hj with ⟨rfl, ⟨⟩⟩ | ⟨hij, hheld⟩
    · exact ⟨hout, hinitial, hexists, hcreated⟩
    · apply h.new_perform hheld
      rw [hpaths, List.mem_singleton]
      intro hpath
      exact hother j hij (hpath ▸ hheld)
  own j k path hj hk := by
    rcases update_eq_some.mp hj with ⟨rfl, ⟨⟩⟩ | ⟨hij, hjheld⟩
    · rcases update_eq_some.mp hk with ⟨rfl, _⟩ | ⟨hik, hkheld⟩
      · rfl
      · exact absurd hkheld (hother k hik)
    · rcases update_eq_some.mp hk with ⟨rfl, ⟨⟩⟩ | ⟨_, hkheld⟩
      · exact absurd hjheld (hother j hij)
      · exact h.own j k path hjheld hkheld
  others path hpath hnone := by
    have htmp : path ≠ tmp := fun hsame ↦ hnone i (by rw [Function.update_self, hsame])
    have hi : scratch i ≠ some path := by
      rcases hbefore with hbefore | hbefore <;> simp [hbefore, htmp.symm]
    exact h.others_perform hpath (by rwa [hpaths, List.mem_singleton]) hi hnone
  touched := touched_perform h fun path hpath ↦ by
    rw [hpaths, List.mem_singleton] at hpath
    exact Or.inr ⟨hpath ▸ hinitial, hpath ▸ hcreated⟩
  renames := renames_perform h fun hpath ↦ by
    rw [hpaths, List.mem_singleton] at hpath
    exact absurd hpath.symm hout

/-- A run gives its scratch file up, by removing it or by renaming it to the output. -/
theorem Owned.release (h : Owned out initial disk scratch) (hscratch : scratch i = some tmp)
    (hpaths : ∀ path ∈ op.paths, path = tmp ∨ path = out) (hgone : op.apply disk.fs tmp = none)
    (hop : out ∈ op.paths → ∃ tmp, op = .rename tmp out) :
    Owned out initial (disk.perform i op) (Function.update scratch i none) where
  new j path hj := by
    rcases update_eq_some.mp hj with ⟨_, ⟨⟩⟩ | ⟨hij, hheld⟩
    apply h.new_perform hheld
    intro hmem
    rcases hpaths path hmem with rfl | rfl
    · exact hij (h.own j i path hheld hscratch)
    · exact (h.new j path hheld).1 rfl
  own j k path hj hk := by
    rcases update_eq_some.mp hj with ⟨_, ⟨⟩⟩ | ⟨_, hjheld⟩
    rcases update_eq_some.mp hk with ⟨_, ⟨⟩⟩ | ⟨_, hkheld⟩
    exact h.own j k path hjheld hkheld
  others path hpath hnone := by
    by_cases htmp : path = tmp
    · rw [htmp, fs_perform, hgone, (h.new i tmp hscratch).2.1]
    · have hne : path ∉ op.paths := fun hmem ↦ (hpaths path hmem).elim htmp hpath
      have hi : scratch i ≠ some path := by simp [hscratch, Ne.symm htmp]
      exact h.others_perform hpath hne hi hnone
  touched := touched_perform h fun path hpath ↦ by
    obtain ⟨_, hinitial, _, hcreated⟩ := h.new i tmp hscratch
    rcases hpaths path hpath with rfl | rfl
    · exact Or.inr ⟨hinitial, mem_history_perform.mpr (Or.inl hcreated)⟩
    · exact Or.inl rfl
  renames := renames_perform h hop

end JustKV
