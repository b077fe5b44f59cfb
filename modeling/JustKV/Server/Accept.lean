import JustKV.Library.Backoff
import JustKV.Os.Path

/-!
# Accepting connections

The listener waits after an error, twice as long after each in a row up to a ceiling, and starts
again with every connection.  The server asks it for one connection after the other.
-/

open Backoff

namespace JustKV

/-- The longest wait in milliseconds. -/
def maxBackoff : ℕ := 256

variable {κ : Type}

/-- One call of `accept` on what the socket gives: the waits, and the connection with what comes
after it, or nothing if the call still waits for one. -/
def acceptFrom (backoff : ℕ) :
    List (Except IoError κ) → List ℕ × Option (κ × List (Except IoError κ))
  | [] => ([], none)
  | .ok stream :: rest => ([], some (stream, rest))
  | .error _ :: rest =>
    let (waits, result) := acceptFrom (min (backoff * 2) maxBackoff) rest
    (backoff :: waits, result)

def accept (results : List (Except IoError κ)) : List ℕ × Option (κ × List (Except IoError κ)) :=
  acceptFrom 1 results

/-- A call waits after each error that comes before the first connection. -/
theorem acceptFrom_append (n : ℕ) (errors : List IoError) (results : List (Except IoError κ)) :
    acceptFrom (delay maxBackoff n) (errors.map .error ++ results) =
      (((List.range errors.length).map fun k ↦ delay maxBackoff (n + k)) ++
          (acceptFrom (delay maxBackoff (n + errors.length)) results).1,
        (acceptFrom (delay maxBackoff (n + errors.length)) results).2) := by
  induction errors generalizing n with
  | nil => rfl
  | cons error errors ih =>
    have hshift : delay maxBackoff n ::
        (List.range errors.length).map (fun k ↦ delay maxBackoff (n + 1 + k)) =
          (List.range (errors.length + 1)).map fun k ↦ delay maxBackoff (n + k) := by
      rw [List.range_succ_eq_map, List.map_cons, List.map_map]
      congr 1
      apply List.map_congr_left
      intro k _
      rw [Function.comp_apply, Nat.add_assoc, Nat.add_comm 1 k]
    have hlength : n + 1 + errors.length = n + (errors.length + 1) := by ring
    rw [List.map_cons, List.cons_append, acceptFrom, delay_succ, ih, hlength, List.length_cons,
      ← hshift]
    rfl

theorem accept_append (errors : List IoError) (results : List (Except IoError κ)) :
    accept (errors.map .error ++ results) =
      (delays maxBackoff errors.length ++
          (acceptFrom (delay maxBackoff errors.length) results).1,
        (acceptFrom (delay maxBackoff errors.length) results).2) := by
  have h := acceptFrom_append 0 errors results
  simp only [Nat.zero_add] at h
  exact h

theorem length_of_acceptFrom {backoff : ℕ} {results rest : List (Except IoError κ)} {waits : List ℕ}
    {stream : κ} (h : acceptFrom backoff results = (waits, some (stream, rest))) :
    rest.length < results.length := by
  induction results generalizing backoff waits with
  | nil => simp [acceptFrom] at h
  | cons result results ih =>
    cases result with
    | ok stream' =>
      obtain ⟨_, hresult⟩ := Prod.mk.inj h
      obtain ⟨_, rfl⟩ := Prod.mk.inj (Option.some.inj hresult)
      exact Nat.lt_succ_self _
    | error error =>
      obtain ⟨_, hresult⟩ := Prod.mk.inj h
      exact (ih (Prod.ext rfl hresult)).trans (Nat.lt_succ_self _)

/-- The server asks for connections for ever: the connections it gets, and all waits. -/
def acceptAll (results : List (Except IoError κ)) : List κ × List ℕ :=
  match _h : accept results with
  | (waits, none) => ([], waits)
  | (waits, some (stream, rest)) => (stream :: (acceptAll rest).1, waits ++ (acceptAll rest).2)
termination_by results.length
decreasing_by exact length_of_acceptFrom _h

theorem acceptAll_of_none {results : List (Except IoError κ)} {waits : List ℕ}
    (h : accept results = (waits, none)) : acceptAll results = ([], waits) := by
  unfold acceptAll
  split
  case h_1 h' =>
    obtain ⟨rfl, -⟩ := Prod.mk.inj (h'.symm.trans h)
    rfl
  case h_2 h' => simp [h] at h'

theorem acceptAll_of_some {results rest : List (Except IoError κ)} {waits : List ℕ} {stream : κ}
    (h : accept results = (waits, some (stream, rest))) :
    acceptAll results = (stream :: (acceptAll rest).1, waits ++ (acceptAll rest).2) := by
  rw [acceptAll.eq_def]
  split
  case h_1 h' => simp [h] at h'
  case h_2 h' =>
    obtain ⟨rfl, hresult⟩ := Prod.mk.inj (h'.symm.trans h)
    obtain ⟨rfl, rfl⟩ := Prod.mk.inj (Option.some.inj hresult)
    rfl

/-- What the socket gives: connections, each after some errors, and some more errors. -/
def socketResults (bursts : List (List IoError × κ)) (last : List IoError) :
    List (Except IoError κ) :=
  bursts.flatMap (fun burst ↦ burst.1.map .error ++ [.ok burst.2]) ++ last.map .error

theorem exists_bursts (results : List (Except IoError κ)) :
    ∃ bursts last, results = socketResults bursts last := by
  induction results with
  | nil => exact ⟨[], [], rfl⟩
  | cons result results ih =>
    obtain ⟨bursts, last, rfl⟩ := ih
    cases result with
    | ok stream => exact ⟨([], stream) :: bursts, last, rfl⟩
    | error error =>
      cases bursts with
      | nil => exact ⟨[], error :: last, rfl⟩
      | cons burst bursts => exact ⟨(error :: burst.1, burst.2) :: bursts, last, rfl⟩

/-- The server gets all connections in order, and waits anew for the errors before each: induction
over the connections. -/
theorem acceptAll_socketResults (bursts : List (List IoError × κ)) (last : List IoError) :
    acceptAll (socketResults bursts last) = (bursts.map Prod.snd,
      bursts.flatMap (fun burst ↦ delays maxBackoff burst.1.length) ++
        delays maxBackoff last.length) := by
  induction bursts with
  | nil =>
    have haccept := accept_append last ([] : List (Except IoError κ))
    rw [List.append_nil] at haccept
    rw [socketResults, List.flatMap_nil, List.nil_append, acceptAll_of_none haccept]
    simp [acceptFrom]
  | cons burst bursts ih =>
    have haccept := accept_append burst.1 (.ok burst.2 :: socketResults bursts last)
    have hsplit : socketResults (burst :: bursts) last =
        burst.1.map .error ++ .ok burst.2 :: socketResults bursts last := by
      simp [socketResults]
    rw [hsplit, acceptAll_of_some haccept, ih]
    simp [acceptFrom]

theorem filterMap_socketResults (bursts : List (List IoError × κ)) (last : List IoError) :
    (socketResults bursts last).filterMap Except.toOption = bursts.map Prod.snd := by
  have herrors (errors : List IoError) :
      (errors.map fun error ↦ (.error error : Except IoError κ)).filterMap Except.toOption =
        [] := by
    induction errors with
    | nil => rfl
    | cons error errors ih => exact ih
  induction bursts with
  | nil => exact herrors last
  | cons burst bursts ih =>
    have hsplit : socketResults (burst :: bursts) last =
        burst.1.map .error ++ .ok burst.2 :: socketResults bursts last := by
      simp [socketResults]
    rw [hsplit, List.filterMap_append, herrors, List.nil_append, List.map_cons, ← ih]
    rfl

/-- The waits of each burst and of the last errors are bounded apart from eight of each. -/
theorem mul_length_waits_le (bursts : List (List IoError × κ)) (last : List IoError) :
    maxBackoff * (bursts.flatMap (fun burst ↦ delays maxBackoff burst.1.length) ++
        delays maxBackoff last.length).length ≤
      (bursts.flatMap (fun burst ↦ delays maxBackoff burst.1.length) ++
        delays maxBackoff last.length).sum + maxBackoff * (8 * (bursts.length + 1)) := by
  have hsteps (count : ℕ) : maxBackoff * count ≤ (delays maxBackoff count).sum + maxBackoff * 8 :=
    mul_le_sum_delays (by decide) count
  induction bursts with
  | nil => simpa using hsteps last.length
  | cons burst bursts ih =>
    have hfirst := hsteps burst.1.length
    rw [List.flatMap_cons, List.append_assoc, List.length_append, List.sum_append, length_delays,
      List.length_cons]
    calc
      _ = maxBackoff * burst.1.length + maxBackoff * (bursts.flatMap (fun burst ↦
          delays maxBackoff burst.1.length) ++ delays maxBackoff last.length).length :=
        Nat.mul_add _ _ _
      _ ≤ ((delays maxBackoff burst.1.length).sum + maxBackoff * 8) +
          ((bursts.flatMap (fun burst ↦ delays maxBackoff burst.1.length) ++
            delays maxBackoff last.length).sum + maxBackoff * (8 * (bursts.length + 1))) :=
        Nat.add_le_add hfirst ih
      _ = _ := by ring

/-- Connections are handed over once, in order and with none left out, whatever errors come between.
The errors before each connection are waited for with 1, 2, 4 and so on up to 256 milliseconds, so
an isolated error costs a millisecond, and errors that persist cost 256 each. -/
theorem accept_waits (results : List (Except IoError κ)) :
    ∃ (bursts : List (List IoError × κ)) (last : List IoError),
      results = socketResults bursts last ∧
      acceptAll results = (bursts.map Prod.snd,
        bursts.flatMap (fun burst ↦ delays maxBackoff burst.1.length) ++
          delays maxBackoff last.length) ∧
      (acceptAll results).1 = results.filterMap Except.toOption ∧
      (∀ wait ∈ (acceptAll results).2, 0 < wait ∧ wait ≤ maxBackoff) ∧
      maxBackoff * (acceptAll results).2.length ≤
        (acceptAll results).2.sum + maxBackoff * (8 * ((acceptAll results).1.length + 1)) := by
  obtain ⟨bursts, last, rfl⟩ := exists_bursts results
  refine ⟨bursts, last, rfl, acceptAll_socketResults bursts last, ?_, ?_, ?_⟩
  · rw [acceptAll_socketResults, filterMap_socketResults]
  · rw [acceptAll_socketResults]
    intro wait hwait
    rcases List.mem_append.mp hwait with hwait | hwait
    · obtain ⟨burst, _, hburst⟩ := List.mem_flatMap.mp hwait
      exact mem_delays hburst (by decide)
    · exact mem_delays hwait (by decide)
  · rw [acceptAll_socketResults, List.length_map]
    exact mul_length_waits_le bursts last

-- An error, a connection, three errors.
example : acceptAll [.error .alreadyExists, .ok (7 : ℕ), .error .alreadyExists,
    .error .alreadyExists, .error .alreadyExists] = ([7], [1, 1, 2, 4]) :=
  acceptAll_socketResults [([.alreadyExists], 7)] [.alreadyExists, .alreadyExists, .alreadyExists]

end JustKV
