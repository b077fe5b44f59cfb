import JustKV.Os.Volume

/-!
# Publishing files by renaming

Processes share a volume.  Each creates at most one file at a time under a free temporary name,
writes to it, and gives it up by removing the name or by renaming it to one of the outputs.  Then
nobody writes to a file that an output stands for, nor to a file from before, and a process that
has such a file open sees one content for as long as it likes.
-/

namespace JustKV

variable {ι : Type}

/-- What a process may do with the volume and with the file it holds, if any. -/
inductive Handling (outputs temporary : Path → Prop) (volume : Volume) (held : Option (Path × ℕ)) :
    Option FsOp → Volume → Option (Path × ℕ) → Prop
  | rest : Handling outputs temporary volume held none volume held
  | create {path : Path} (hheld : held = none) (hfree : volume.entries path = none)
      (htemporary : temporary path) :
      Handling outputs temporary volume held (some (.create path)) (volume.create path)
        (some (path, volume.next))
  | write {tmp : Path} {file : ℕ} (hheld : held = some (tmp, file)) (bytes : Bytes) :
      Handling outputs temporary volume held (some (.append tmp bytes)) (volume.write file bytes)
        held
  | publish {tmp target : Path} {file : ℕ} (hheld : held = some (tmp, file))
      (houtput : outputs target) :
      Handling outputs temporary volume held (some (.rename tmp target)) (volume.rename tmp target)
        none
  | discard {tmp : Path} {file : ℕ} (hheld : held = some (tmp, file)) :
      Handling outputs temporary volume held (some (.remove tmp)) (volume.remove tmp) none

/-- Every held file is new and has one name, which is temporary; files from before keep their
content and every name but the outputs and the held ones stands for what it did. -/
structure Tended (outputs temporary : Path → Prop) (initial volume : Volume)
    (held : ι → Option (Path × ℕ)) : Prop where
  next_le : initial.next ≤ volume.next
  kept : ∀ file, file < initial.next → volume.contents file = initial.contents file
  sole : ∀ path path' file, initial.next ≤ file → volume.entries path = some file →
    volume.entries path' = some file → path = path'
  named : ∀ i tmp file, held i = some (tmp, file) → volume.entries tmp = some file ∧
    initial.next ≤ file ∧ temporary tmp ∧ initial.entries tmp = none
  own : ∀ i j tmp file file', held i = some (tmp, file) → held j = some (tmp, file') → i = j
  published : ∀ path, outputs path → volume.entries path = initial.entries path ∨
    ∃ file, volume.entries path = some file ∧ initial.next ≤ file
  others : ∀ path, ¬outputs path → (∀ i file, held i ≠ some (path, file)) →
    volume.entries path = initial.entries path

/-- Nobody writes to the file any more. -/
def Closed (volume : Volume) (held : ι → Option (Path × ℕ)) (file : ℕ) : Prop :=
  file < volume.next ∧ ∀ i tmp, held i ≠ some (tmp, file)

variable {outputs temporary : Path → Prop} {initial volume volume' : Volume}
  {held : ι → Option (Path × ℕ)} {i : ι} {op : Option FsOp} {next : Option (Path × ℕ)}

theorem tended_initial : Tended outputs temporary initial initial fun _ : ι ↦ none where
  next_le := le_rfl
  kept _ _ := rfl
  sole path _ file hle hpath _ := absurd (initial.entries_lt path file hpath) (not_lt.mpr hle)
  named _ _ _ h := by simp at h
  own _ _ _ _ _ h := by simp at h
  published _ _ := Or.inl rfl
  others _ _ _ := rfl

theorem Tended.lt_next (h : Tended outputs temporary initial volume held) {tmp : Path} {file : ℕ}
    (hi : held i = some (tmp, file)) : file < volume.next :=
  volume.entries_lt tmp file (h.named i tmp file hi).1

/-- A file is held by one process. -/
theorem Tended.unique (h : Tended outputs temporary initial volume held) {j : ι}
    {tmp tmp' : Path} {file : ℕ} (hi : held i = some (tmp, file))
    (hj : held j = some (tmp', file)) : i = j := by
  obtain ⟨hentry, hnew, _⟩ := h.named i tmp file hi
  obtain rfl := h.sole tmp tmp' file hnew hentry (h.named j tmp' file hj).1
  exact h.own i j tmp file file hi hj

/-- A name that is free now was free before, and nobody holds it. -/
theorem Tended.free (h : Tended outputs temporary initial volume held) {path : Path}
    (hpath : ¬outputs path) (hfree : volume.entries path = none) :
    initial.entries path = none ∧ ∀ i file, held i ≠ some (path, file) := by
  have hnone (i : ι) (file : ℕ) : held i ≠ some (path, file) := fun hi ↦ by
    have hentry := (h.named i path file hi).1
    simp [hfree] at hentry
  exact ⟨(h.others path hpath hnone).symm.trans hfree, hnone⟩

/-- A new file under an output is closed. -/
theorem Tended.closed (h : Tended outputs temporary initial volume held)
    (hdisjoint : ∀ path, outputs path → ¬temporary path) {path : Path} {file : ℕ}
    (hpath : outputs path) (hentry : volume.entries path = some file) (hnew : initial.next ≤ file) :
    Closed volume held file := by
  refine ⟨volume.entries_lt path file hentry, fun i tmp hi ↦ ?_⟩
  obtain ⟨htmp, _, htemporary, _⟩ := h.named i tmp file hi
  exact hdisjoint path hpath (h.sole path tmp file hnew hentry htmp ▸ htemporary)

/-- A file from before is closed. -/
theorem Tended.closed_initial (h : Tended outputs temporary initial volume held) {file : ℕ}
    (hold : file < initial.next) : Closed volume held file := by
  refine ⟨hold.trans_le h.next_le, fun i tmp hi ↦ ?_⟩
  exact absurd hold (not_lt.mpr (h.named i tmp file hi).2.1)

/-! ## One step -/

/-- Only its holder writes to a file. -/
theorem Handling.contents {before : Option (Path × ℕ)}
    (h : Handling outputs temporary volume before op volume' next) {file : ℕ}
    (hlt : file < volume.next) (hbefore : ∀ tmp, before ≠ some (tmp, file)) :
    volume'.contents file = volume.contents file := by
  cases h with
  | rest => rfl
  | create => exact Volume.contents_create_of_lt hlt
  | write hheld bytes =>
    apply Volume.contents_write_of_ne
    rintro rfl
    exact hbefore _ hheld
  | publish => rfl
  | discard => rfl

theorem Handling.contents_of_rename {before : Option (Path × ℕ)} {source target : Path}
    (h : Handling outputs temporary volume before (some (.rename source target)) volume' next) :
    volume'.contents = volume.contents := by
  cases h
  rfl

theorem Handling.next_le {before : Option (Path × ℕ)}
    (h : Handling outputs temporary volume before op volume' next) :
    volume.next ≤ volume'.next := by
  cases h with
  | create => exact Nat.le_succ _
  | _ => exact le_rfl

/-- What a process holds after a step it has just created, or it has held it before. -/
theorem Handling.origin {before : Option (Path × ℕ)}
    (h : Handling outputs temporary volume before op volume' next) {tmp : Path} {file : ℕ}
    (hnext : next = some (tmp, file)) : before = some (tmp, file) ∨ file = volume.next := by
  cases h with
  | rest => exact Or.inl hnext
  | create => exact Or.inr (by simpa using (congrArg (Option.map Prod.snd) hnext).symm)
  | write => exact Or.inl hnext
  | publish => simp at hnext
  | discard => simp at hnext

theorem Handling.holds {before : Option (Path × ℕ)} {source target : Path}
    (h : Handling outputs temporary volume before (some (.rename source target)) volume' next) :
    ∃ file, before = some (source, file) := by
  cases h with
  | publish hheld => exact ⟨_, hheld⟩

/-- After a rename the target stands for the file that the process has held. -/
theorem Handling.renamed {before : Option (Path × ℕ)} {source target : Path}
    (h : Handling outputs temporary volume before (some (.rename source target)) volume' next)
    (hnamed : ∀ tmp file, before = some (tmp, file) → volume.entries tmp = some file)
    (hne : source ≠ target) :
    ∃ file, before = some (source, file) ∧ volume'.entries target = some file := by
  cases h with
  | @publish _ _ file hheld _ =>
    exact ⟨file, hheld, (Volume.entries_rename_target hne).trans (hnamed source file hheld)⟩

/-- An output keeps its file, or it gets the one that the process has held. -/
theorem Handling.output {before : Option (Path × ℕ)}
    (h : Handling outputs temporary volume before op volume' next)
    (hnamed : ∀ tmp file, before = some (tmp, file) →
      volume.entries tmp = some file ∧ temporary tmp)
    (hdisjoint : ∀ path, outputs path → ¬temporary path) {path : Path} (hpath : outputs path) :
    volume'.entries path = volume.entries path ∨
      ∃ tmp file, op = some (.rename tmp path) ∧ before = some (tmp, file) ∧
        volume'.entries path = some file := by
  have hne {tmp : Path} (htmp : temporary tmp) : path ≠ tmp := fun hsame ↦
    hdisjoint path hpath (hsame ▸ htmp)
  by_cases hrename : ∃ tmp, op = some (.rename tmp path)
  · obtain ⟨tmp, rfl⟩ := hrename
    obtain ⟨file, hheld⟩ := h.holds
    obtain ⟨file', hheld', hentry⟩ := h.renamed (fun tmp file hi ↦ (hnamed tmp file hi).1)
      (hne (hnamed tmp file hheld).2).symm
    exact Or.inr ⟨tmp, file', rfl, hheld', hentry⟩
  · left
    cases h with
    | rest => rfl
    | create _ _ htemporary => exact Volume.entries_create_of_ne (hne htemporary)
    | write => rfl
    | @publish tmp target file hheld _ =>
      have htarget : path ≠ target := fun hsame ↦ hrename ⟨tmp, by rw [hsame]⟩
      by_cases hsame : tmp = target
      · simp [Volume.rename, hsame]
      · exact Volume.entries_rename_of_ne hsame (hne (hnamed tmp file hheld).2) htarget
    | @discard tmp file hheld => exact Volume.entries_remove_of_ne (hne (hnamed tmp file hheld).2)

variable [DecidableEq ι]

theorem held_update {j : ι} {tmp : Path} {file : ℕ} :
    Function.update held i next j = some (tmp, file) ↔
      j = i ∧ next = some (tmp, file) ∨ j ≠ i ∧ held j = some (tmp, file) := by
  by_cases hij : j = i
  · simp [hij]
  · simp [hij, Function.update_of_ne]

/-- A closed file stays closed and keeps its content. -/
theorem Closed.step {file : ℕ} (hclosed : Closed volume held file)
    (h : Handling outputs temporary volume (held i) op volume' next) :
    Closed volume' (Function.update held i next) file ∧
      volume'.contents file = volume.contents file := by
  refine ⟨⟨hclosed.1.trans_le h.next_le, fun j tmp hj ↦ ?_⟩, h.contents hclosed.1 (hclosed.2 i)⟩
  rcases held_update.mp hj with ⟨rfl, hnext⟩ | ⟨_, hheld⟩
  · rcases h.origin hnext with hbefore | rfl
    · exact hclosed.2 j tmp hbefore
    · exact absurd hclosed.1 (lt_irrefl _)
  · exact hclosed.2 j tmp hheld

section Tended

variable (h : Tended outputs temporary initial volume held)
  (hdisjoint : ∀ path, outputs path → ¬temporary path)

include h

include hdisjoint in
theorem Tended.create {path : Path} (hi : held i = none) (hfree : volume.entries path = none)
    (htemporary : temporary path) :
    Tended outputs temporary initial (volume.create path)
      (Function.update held i (some (path, volume.next))) := by
  have hoff : ¬outputs path := fun hpath ↦ hdisjoint path hpath htemporary
  obtain ⟨hinitial, hnone⟩ := h.free hoff hfree
  have hself : (volume.create path).entries path = some volume.next := Function.update_self _ _ _
  have hkeeps {other : Path} {file : ℕ} (hother : volume.entries other = some file) :
      (volume.create path).entries other = some file := by
    rw [Volume.entries_create_of_ne]
    · exact hother
    · rintro rfl
      simp [hfree] at hother
  constructor
  case next_le => exact h.next_le.trans (Nat.le_succ _)
  case kept =>
    intro file hfile
    rw [Volume.contents_create_of_lt (hfile.trans_le h.next_le), h.kept file hfile]
  case sole =>
    intro left right file hnew hleft hright
    by_cases hfile : file = volume.next
    · subst hfile
      have hname {other : Path} (hother : (volume.create path).entries other = some volume.next) :
          other = path := by
        by_contra hne
        rw [Volume.entries_create_of_ne hne] at hother
        exact absurd (volume.entries_lt other _ hother) (lt_irrefl _)
      rw [hname hleft, hname hright]
    · have hname {other : Path} (hother : (volume.create path).entries other = some file) :
          volume.entries other = some file := by
        rw [Volume.entries_create_of_ne] at hother
        · exact hother
        · rintro rfl
          rw [hself] at hother
          exact hfile (Option.some.inj hother).symm
      exact h.sole left right file hnew (hname hleft) (hname hright)
  case named =>
    intro j tmp file hj
    rcases held_update.mp hj with ⟨_, hnext⟩ | ⟨_, hheld⟩
    · obtain ⟨rfl, rfl⟩ := Prod.mk.inj (Option.some.inj hnext)
      exact ⟨hself, h.next_le, htemporary, hinitial⟩
    · obtain ⟨hentry, hrest⟩ := h.named j tmp file hheld
      exact ⟨hkeeps hentry, hrest⟩
  case own =>
    intro j k tmp file file' hj hk
    rcases held_update.mp hj with ⟨rfl, hnext⟩ | ⟨_, hheld⟩
    · rcases held_update.mp hk with ⟨rfl, _⟩ | ⟨_, hheld'⟩
      · rfl
      · obtain ⟨rfl, _⟩ := Prod.mk.inj (Option.some.inj hnext)
        exact absurd hheld' (hnone k file')
    · rcases held_update.mp hk with ⟨rfl, hnext⟩ | ⟨_, hheld'⟩
      · obtain ⟨rfl, _⟩ := Prod.mk.inj (Option.some.inj hnext)
        exact absurd hheld (hnone j file)
      · exact h.own j k tmp file file' hheld hheld'
  case published =>
    intro other hother
    have hne : other ≠ path := fun hsame ↦ hoff (hsame ▸ hother)
    rw [Volume.entries_create_of_ne hne]
    exact h.published other hother
  case others =>
    intro other hother hheld
    have hne : other ≠ path := fun hsame ↦
      hheld i volume.next (held_update.mpr (Or.inl ⟨rfl, by rw [hsame]⟩))
    rw [Volume.entries_create_of_ne hne]
    apply h.others other hother
    intro j file hj
    apply hheld j file
    refine held_update.mpr (Or.inr ⟨?_, hj⟩)
    rintro rfl
    simp [hi] at hj

theorem Tended.write {tmp : Path} {file : ℕ} (hi : held i = some (tmp, file)) (bytes : Bytes) :
    Tended outputs temporary initial (volume.write file bytes)
      (Function.update held i (held i)) := by
  rw [Function.update_eq_self]
  refine { h with kept := fun other hother ↦ ?_ }
  rw [Volume.contents_write_of_ne]
  · exact h.kept other hother
  · rintro rfl
    exact absurd hother (not_lt.mpr (h.named i tmp other hi).2.1)

/-- A process gives its file up: the temporary name goes, and an output may stand for the file. -/
theorem Tended.release {tmp : Path} {file : ℕ} (hi : held i = some (tmp, file))
    (hcontents : volume'.contents = volume.contents) (hnext : volume'.next = volume.next)
    (hgone : volume'.entries tmp = none)
    (hentries : ∀ path, path ≠ tmp → volume'.entries path = volume.entries path ∨
      outputs path ∧ volume'.entries path = some file)
    (hfile : ∀ path path', volume'.entries path = some file → volume'.entries path' = some file →
      path = path')
    (hdisjoint : ∀ path, outputs path → ¬temporary path) :
    Tended outputs temporary initial volume' (Function.update held i none) := by
  obtain ⟨hentry, hnew, htemporary, hinitial⟩ := h.named i tmp file hi
  have hbefore {path : Path} {other : ℕ} (hother : other ≠ file)
      (hpath : volume'.entries path = some other) : volume.entries path = some other := by
    have hne : path ≠ tmp := by
      rintro rfl
      simp [hgone] at hpath
    rcases hentries path hne with hsame | ⟨_, hfile⟩
    · exact hsame.symm.trans hpath
    · exact absurd (Option.some.inj (hpath.symm.trans hfile)) hother
  have hothers {j : ι} {path : Path} {other : ℕ}
      (hj : Function.update held i none j = some (path, other)) :
      held j = some (path, other) ∧ path ≠ tmp := by
    rcases held_update.mp hj with ⟨_, ⟨⟩⟩ | ⟨hij, hheld⟩
    refine ⟨hheld, ?_⟩
    rintro rfl
    exact hij (h.own j i path other file hheld hi)
  have hoff {path : Path} (hpath : ¬outputs path) (hne : path ≠ tmp) :
      volume'.entries path = volume.entries path :=
    (hentries path hne).resolve_right fun hout ↦ hpath hout.1
  constructor
  case next_le => exact hnext ▸ h.next_le
  case kept =>
    intro other hother
    rw [hcontents]
    exact h.kept other hother
  case sole =>
    intro left right other hother hleft hright
    by_cases hsame : other = file
    · subst hsame
      exact hfile left right hleft hright
    · exact h.sole left right other hother (hbefore hsame hleft) (hbefore hsame hright)
  case named =>
    intro j path other hj
    obtain ⟨hheld, hne⟩ := hothers hj
    obtain ⟨hpath, hrest⟩ := h.named j path other hheld
    refine ⟨?_, hrest⟩
    rw [hoff (fun hout ↦ hdisjoint path hout hrest.2.1) hne]
    exact hpath
  case own =>
    intro j k path other other' hj hk
    exact h.own j k path other other' (hothers hj).1 (hothers hk).1
  case published =>
    intro path hpath
    have hne : path ≠ tmp := fun hsame ↦ hdisjoint path hpath (hsame ▸ htemporary)
    rcases hentries path hne with hsame | ⟨_, hout⟩
    · rw [hsame]
      exact h.published path hpath
    · exact Or.inr ⟨file, hout, hnew⟩
  case others =>
    intro path hpath hheld
    by_cases hsame : path = tmp
    · rw [hsame, hgone, hinitial]
    · rw [hoff hpath hsame]
      apply h.others path hpath
      intro j other hj
      apply hheld j other
      refine held_update.mpr (Or.inr ⟨?_, hj⟩)
      rintro rfl
      exact hsame (Prod.mk.inj (Option.some.inj (hj.symm.trans hi))).1

include hdisjoint

/-- Every step keeps the discipline. -/
theorem Tended.step (hstep : Handling outputs temporary volume (held i) op volume' next) :
    Tended outputs temporary initial volume' (Function.update held i next) := by
  have hname {tmp path : Path} {file : ℕ} (hi : held i = some (tmp, file))
      (hpath : volume.entries path = some file) : path = tmp := by
    obtain ⟨hentry, hnew, _⟩ := h.named i tmp file hi
    exact h.sole path tmp file hnew hpath hentry
  cases hstep with
  | rest => rwa [Function.update_eq_self]
  | create hheld hfree htemporary => exact h.create hdisjoint hheld hfree htemporary
  | write hheld bytes => exact h.write hheld bytes
  | @publish tmp target file hheld houtput =>
    obtain ⟨hentry, _, htemporary, _⟩ := h.named i tmp file hheld
    have hne : tmp ≠ target := fun hsame ↦ hdisjoint target houtput (hsame ▸ htemporary)
    have hmoved {path : Path} (hpath : (volume.rename tmp target).entries path = some file) :
        path = target := by
      by_contra htarget
      have hsource : path ≠ tmp := by
        rintro rfl
        rw [Volume.entries_rename_source hne] at hpath
        simp at hpath
      rw [Volume.entries_rename_of_ne hne hsource htarget] at hpath
      exact hsource (hname hheld hpath)
    refine h.release hheld rfl rfl (Volume.entries_rename_source hne) ?_ ?_ hdisjoint
    · intro path hpath
      by_cases htarget : path = target
      · subst htarget
        exact Or.inr ⟨houtput, (Volume.entries_rename_target hne).trans hentry⟩
      · exact Or.inl (Volume.entries_rename_of_ne hne hpath htarget)
    · intro left right hleft hright
      rw [hmoved hleft, hmoved hright]
  | @discard tmp file hheld =>
    refine h.release hheld rfl rfl (Function.update_self _ _ _) ?_ ?_ hdisjoint
    · intro path hpath
      exact Or.inl (Volume.entries_remove_of_ne hpath)
    · intro left right hleft hright
      have hgone {path : Path} (hpath : (volume.remove tmp).entries path = some file) : False := by
        by_cases hsame : path = tmp
        · subst hsame
          simp [Volume.remove] at hpath
        · rw [Volume.entries_remove_of_ne hsame] at hpath
          exact hsame (hname hheld hpath)
      exact (hgone hleft).elim

end Tended

omit [DecidableEq ι] in
/-- A step changes the map from names to contents as the operation says. -/
theorem Handling.fs (h : Handling outputs temporary volume (held i) op volume' next)
    (htended : Tended outputs temporary initial volume held) :
    volume'.fs = op.elim volume.fs fun op ↦ op.apply volume.fs := by
  cases h with
  | rest => rfl
  | @create path hheld hfree htemporary =>
    funext other
    by_cases hother : other = path
    · subst hother
      simp [Volume.fs, Volume.create, FsOp.apply]
    · have hentry : (volume.create path).entries other = volume.entries other :=
        Volume.entries_create_of_ne hother
      simp only [Volume.fs, hentry, Option.elim_some, FsOp.apply, Function.update_of_ne hother]
      apply Option.map_congr
      intro file hfile
      exact Volume.contents_create_of_lt (volume.entries_lt other file hfile)
  | @write tmp file hheld bytes =>
    obtain ⟨hentry, hnew, _⟩ := htended.named i tmp file hheld
    funext other
    by_cases hother : other = tmp
    · subst hother
      simp [Volume.fs, FsOp.apply, hentry]
    · simp only [Volume.fs, Volume.entries_write, Option.elim_some, FsOp.apply,
        Function.update_of_ne hother]
      apply Option.map_congr
      intro other' hfile
      apply Volume.contents_write_of_ne
      rintro rfl
      exact hother (htended.sole other tmp other' hnew hfile hentry)
  | @publish tmp target file hheld houtput =>
    by_cases hsame : tmp = target
    · simp [Volume.fs, Volume.rename, FsOp.apply, hsame]
    · funext other
      simp only [Volume.fs, Volume.entries_rename hsame, Volume.contents_rename, Option.elim_some,
        FsOp.apply, if_neg hsame]
      by_cases hsource : other = tmp
      · simp [hsource]
      · by_cases htarget : other = target
        · simp [htarget, Function.update_of_ne (Ne.symm hsame)]
        · simp [Function.update_of_ne hsource, Function.update_of_ne htarget, Volume.fs]
  | @discard tmp file hheld =>
    funext other
    by_cases hother : other = tmp
    · simp [Volume.fs, Volume.remove, FsOp.apply, hother]
    · simp [Volume.fs, Volume.entries_remove_of_ne hother, FsOp.apply, Function.update_of_ne hother]

omit [DecidableEq ι] in
/-- What a step does to the volume could be done to the map. -/
theorem Handling.enabled (h : Handling outputs temporary volume (held i) op volume' next)
    (htended : Tended outputs temporary initial volume held) :
    ∀ op', op = some op' → op'.Enabled volume.fs := by
  have hsome {tmp : Path} {file : ℕ} (hheld : held i = some (tmp, file)) :
      (volume.fs tmp).isSome := by
    rw [Volume.fs, (htended.named i tmp file hheld).1]
    rfl
  rintro op' hop
  cases h with
  | rest => simp at hop
  | create hheld hfree htemporary =>
    obtain rfl := Option.some.inj hop
    rw [FsOp.Enabled, Volume.fs, hfree]
    rfl
  | write hheld bytes =>
    obtain rfl := Option.some.inj hop
    exact hsome hheld
  | publish hheld houtput =>
    obtain rfl := Option.some.inj hop
    exact hsome hheld
  | discard hheld =>
    obtain rfl := Option.some.inj hop
    exact hsome hheld

end JustKV
