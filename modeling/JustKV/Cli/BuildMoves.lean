import JustKV.Cli.Build

/-!
# What a build can do in one step

Every step is one of ten moves.  A move without an operation keeps the scratch file, and a move
with one works on the scratch file of its run, except that a rename also replaces the output.
-/

open Checked Interleaving Utf8

namespace JustKV

open Compiled

theorem fileName_scratchCandidate (out : Path) (pid nonce : UInt32) :
    (scratchCandidate out pid nonce).fileName =
      some (scratchName (scratchStem out) pid nonce) := by
  rw [scratchCandidate, Path.fileName_join]

/-- A candidate is never the output itself, also when the output name is not UTF-8. -/
theorem scratchCandidate_ne (out : Path) (pid nonce : UInt32) :
    scratchCandidate out pid nonce ≠ out := by
  intro hsame
  have hname := fileName_scratchCandidate out pid nonce
  have hstem (name : Bytes) (h : out.fileName = some name) :
      scratchStem out = fromUtf8Lossy name := by rw [scratchStem, h]
  rw [hsame] at hname
  have hlossy := hstem _ hname
  rw [scratchName, fromUtf8Lossy_of_valid (fromUtf8_toBytes _)] at hlossy
  have hlength := congrArg String.length hlossy
  simp only [String.length_append] at hlength
  have hdot : ".".length = 1 := rfl
  omega

/-- A run in this phase has renamed its scratch file. -/
def Phase.Succeeded : Phase → Prop
  | .reporting => True
  | .exited code _ => code = exitOk
  | _ => False

/-- Every other phase rules a rename out. -/
def Phase.MayHaveRenamed : Phase → Prop
  | .crashed _ => True
  | phase => phase.Succeeded

/-- Phases after the start that neither write nor have succeeded. -/
def Phase.Inert : Phase → Prop
  | .start => False
  | .writing .. => False
  | .finalizing _ => False
  | phase => ¬phase.Succeeded

inductive Move (out : Path) (invocation : Invocation) : Build → Option FsOp → Build → Prop
  | parsed {before : Option (Bytes × List Entry)} (parts : Bytes × List Entry) :
      Move out invocation ⟨before, .start⟩ none ⟨some parts, .creating 0⟩
  | create {parts : Bytes × List Entry} {attempt : ℕ} (nonce : UInt32) :
      Move out invocation ⟨some parts, .creating attempt⟩
        (some (.create (scratchCandidate out invocation.pid nonce)))
        ⟨some parts, .writing (scratchCandidate out invocation.pid nonce) []
          (writeCompiled parts.1 parts.2 invocation.flags)⟩
  | writeAll {parts : Option (Bytes × List Entry)} {tmp : Path} {buffer chunk : Bytes}
      {pending : List Bytes} :
      Move out invocation ⟨parts, .writing tmp buffer (chunk :: pending)⟩ none
        ⟨parts, .writing tmp (buffer ++ chunk) pending⟩
  | spill {parts : Option (Bytes × List Entry)} {tmp : Path} {buffer : Bytes}
      {pending : List Bytes} (count : ℕ) :
      Move out invocation ⟨parts, .writing tmp buffer pending⟩
        (some (.append tmp (buffer.take count))) ⟨parts, .writing tmp (buffer.drop count) pending⟩
  | flush {parts : Option (Bytes × List Entry)} {tmp : Path} :
      Move out invocation ⟨parts, .writing tmp [] []⟩ none ⟨parts, .finalizing tmp⟩
  | spillDropped {parts : Option (Bytes × List Entry)} {tmp : Path} {buffer : Bytes} (count : ℕ) :
      Move out invocation ⟨parts, .dropping tmp buffer⟩ (some (.append tmp (buffer.take count)))
        ⟨parts, .dropping tmp (buffer.drop count)⟩
  | rename {parts : Option (Bytes × List Entry)} {tmp : Path} :
      Move out invocation ⟨parts, .finalizing tmp⟩ (some (.rename tmp out)) ⟨parts, .reporting⟩
  | remove {parts : Option (Bytes × List Entry)} {tmp : Path} :
      Move out invocation ⟨parts, .removing tmp⟩ (some (.remove tmp)) ⟨parts, .exited exitIo none⟩
  | exit {parts : Option (Bytes × List Entry)} :
      Move out invocation ⟨parts, .reporting⟩ none ⟨parts, .exited exitOk none⟩
  | quiet {parts : Option (Bytes × List Entry)} {phase phase' : Phase}
      (hscratch : phase'.scratch = phase.scratch) (hinert : phase'.Inert)
      (hrenamed : phase.MayHaveRenamed → phase'.MayHaveRenamed) :
      Move out invocation ⟨parts, phase⟩ none ⟨parts, phase'⟩

theorem exitIo_ne_exitOk : exitIo ≠ exitOk := by decide

theorem code_ne_exitOk {csv : CsvReader} {process : Process}
    {read : Path → Except IoError Bytes} {path : Path} {parse : ParseArgs} {code : UInt8}
    (h : parseValidated csv process read path parse = .ok (.error code)) : code ≠ exitOk := by
  rw [parseValidated_eq, Except.ok.injEq] at h
  split at h
  · rw [← Except.error.inj h]
    decide
  · split at h
    · simp at h
    · rw [← Except.error.inj h]
      decide

variable {out : Path} {invocation : Invocation} {build next : Build} {op : Option FsOp}

theorem move_of_step {event : BuildEvent}
    (h : build.step out invocation event = some (op, next)) : Move out invocation build op next := by
  obtain ⟨parts, phase⟩ := build
  unfold Build.step at h
  split at h
  case h_1 result hphase =>
    subst hphase
    split at h
    case h_1 parts' hparse =>
      cases h
      exact .parsed parts'
    case h_2 code hparse =>
      cases h
      exact .quiet rfl (code_ne_exitOk hparse) False.elim
    case h_3 fault hparse =>
      cases h
      exact .quiet rfl id fun _ ↦ trivial
  case h_2 attempt clock result hphase =>
    subst hphase
    dsimp only at h
    split at h
    case h_1 =>
      cases h
      exact .create (clock.getD 0 + UInt32.ofNat attempt)
    case h_2 => simp at h
    case h_3 =>
      cases h
      by_cases hlast : attempt + 1 < maxAttempts
      · rw [if_pos hlast]
        exact .quiet rfl id False.elim
      · rw [if_neg hlast]
        exact .quiet rfl exitIo_ne_exitOk False.elim
    case h_4 =>
      cases h
      exact .quiet rfl exitIo_ne_exitOk False.elim
  case h_14 => simp at h
  case h_15 => simp at h
  case h_17 => simp at h
  all_goals
    rename_i hphase
    cases h
  case h_3 => subst hphase; exact .writeAll
  case h_4 count => subst hphase; exact .spill count
  case h_5 => subst hphase; exact .flush
  case h_6 => subst hphase; exact .quiet rfl id False.elim
  case h_7 count => subst hphase; exact .spillDropped count
  case h_8 => subst hphase; exact .quiet rfl id False.elim
  case h_9 => subst hphase; exact .rename
  case h_10 => subst hphase; exact .quiet rfl id False.elim
  case h_11 => subst hphase; exact .remove
  case h_12 => subst hphase; exact .quiet rfl exitIo_ne_exitOk False.elim
  case h_13 => subst hphase; exact .exit
  case h_16 => exact .quiet rfl id fun _ ↦ trivial

/-- Parts appear in a run only by parsing what it reads. -/
theorem parts_of_step {event : BuildEvent}
    (hstep : build.step out invocation event = some (op, next))
    {parts : Bytes × List Entry} (hparts : next.parts = some parts) :
    build.parts = some parts ∨ ∃ data, event = .read (.ok data) ∧
      parseCsv invocation.csv invocation.process data
        (invocation.parse.loadOptions invocation.data) = .ok (.ok parts) := by
  cases move_of_step hstep with
  | parsed parts' =>
    obtain rfl : parts' = parts := Option.some.inj hparts
    cases event with
    | read result =>
      simp only [Build.step] at hstep
      split at hstep
      case h_1 hparse =>
        obtain rfl : _ = parts' := by simpa using hstep
        obtain ⟨data, rfl, hdata⟩ := parseValidated_eq_ok.mp hparse
        exact Or.inr ⟨data, rfl, hdata⟩
      case h_2 => simp at hstep
      case h_3 => simp at hstep
    | _ => simp [Build.step] at hstep
  | _ => exact Or.inl hparts

end JustKV
