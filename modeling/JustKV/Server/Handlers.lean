import JustKV.Server.Metrics
import JustKV.Store.Load

/-!
# Answering a lookup

`lookup` answers one request and records it.  The body of a `HEAD` response is full size here and
stripped on the way out, so it is counted as nothing.
-/

open Checked Counters

namespace JustKV

/-- The part of the server state that a lookup uses.  The store was built by the loader, so it is
sound. -/
structure AppState where
  store : Store
  sound : store.Sound
  defaultValue : Option Bytes
  contentType : String
  timing : Bool

/-- The methods that the router passes to a `get` handler. -/
inductive Method
  | get
  | head
  deriving DecidableEq, Repr

structure Response where
  status : ℕ
  headers : List (String × String)
  body : Bytes
  deriving DecidableEq, Repr

/-- The outcome, the body, the status and whether the default was served. -/
def judge (state : AppState) (found : Option Bytes) : Outcome × Option Bytes × ℕ × Bool :=
  match found with
  | some value => (.hit, some value, 200, false)
  | none =>
    match state.defaultValue with
    | some value => (.default, some value, 200, true)
    | none => (.miss, none, 404, false)

/-- The response to a lookup and the increments it records; `elapsed` is the time the lookup took,
in nanoseconds. -/
def lookup (state : AppState) (key : Bytes) (method : Method) (elapsed : ℕ) :
    Run (Response × List (Increment Counter)) := do
  let start := if state.timing then some elapsed else none
  let found ← state.store.get key
  let (outcome, body, status, isDefault) := judge state found
  let len := if method = .head then 0 else (body.map List.length).getD 0
  let response : Response :=
    match body with
    | some value =>
        ⟨status, [("content-type", state.contentType)] ++
          (if isDefault then [("x-justkv-default", "1")] else []), value⟩
    | none => ⟨status, [], []⟩
  pure (response, record outcome len start)

variable {state : AppState}

/-- The key is in the store. -/
def AppState.Holds (state : AppState) (key : Bytes) : Prop := key ∈ state.store.pairs.keys

instance (key : Bytes) : Decidable (state.Holds key) := inferInstanceAs (Decidable (key ∈ _))

/-- Which outcome a lookup records. -/
def AppState.outcome (state : AppState) (key : Bytes) : Outcome :=
  if state.Holds key then .hit else if state.defaultValue.isSome then .default else .miss

theorem outcome_eq_hit {key : Bytes} : state.outcome key = .hit ↔ state.Holds key := by
  by_cases hholds : state.Holds key
  · simp [AppState.outcome, hholds]
  · cases hdefault : state.defaultValue <;> simp [AppState.outcome, hholds, hdefault]

theorem outcome_eq_default {key : Bytes} :
    state.outcome key = .default ↔ ¬state.Holds key ∧ state.defaultValue.isSome := by
  by_cases hholds : state.Holds key
  · simp [AppState.outcome, hholds]
  · cases hdefault : state.defaultValue <;> simp [AppState.outcome, hholds, hdefault]

/-- How many bytes a lookup records. -/
def Method.counted (method : Method) (response : Response) : ℕ :=
  match method with
  | .get => response.body.length
  | .head => 0

/-- A lookup never stops the program, and what it records depends only on the store, the default,
the method and the clock. -/
theorem lookup_eq_ok (state : AppState) (key : Bytes) (method : Method) (elapsed : ℕ) :
    ∃ response, lookup state key method elapsed =
      .ok (response, record (state.outcome key) (method.counted response)
        (if state.timing then some elapsed else none)) := by
  obtain ⟨answer, hget, hanswer⟩ := get_answers state.sound key
  rw [lookup, hget]
  simp only [ok_bind, pure_eq_ok, Except.ok.injEq, Prod.mk.injEq, exists_eq_left']
  have hholds : answer.isSome ↔ state.Holds key := hanswer.isSome_iff
  rw [AppState.outcome]
  cases answer with
  | some value =>
    rw [if_pos (hholds.mp rfl)]
    cases method <;> simp [judge, Method.counted]
  | none =>
    have hnot : ¬state.Holds key := fun h ↦ by simpa using hholds.mpr h
    rw [if_neg hnot]
    cases hdefault : state.defaultValue <;> cases method <;>
      simp [judge, Method.counted, hdefault]

/-- The response to a key for which the store has the given answer. -/
def AppState.response (state : AppState) (answer : Option Bytes) : Response :=
  match answer, state.defaultValue with
  | some value, _ => ⟨200, [("content-type", state.contentType)], value⟩
  | none, some value =>
    ⟨200, [("content-type", state.contentType), ("x-justkv-default", "1")], value⟩
  | none, none => ⟨404, [], []⟩

theorem response_of_lookup {key : Bytes} {method : Method} {elapsed : ℕ} {response : Response}
    {list : List (Increment Counter)} {answer : Option Bytes}
    (hget : state.store.get key = .ok answer)
    (h : lookup state key method elapsed = .ok (response, list)) :
    response = state.response answer := by
  rw [lookup, hget] at h
  simp only [ok_bind, pure_eq_ok, Except.ok.injEq, Prod.mk.injEq] at h
  rw [← h.1]
  cases answer with
  | some value => rfl
  | none => cases hdefault : state.defaultValue <;> simp [judge, AppState.response, hdefault]

/-- The increments of a lookup are one call of `record`. -/
theorem record_of_lookup {key : Bytes} {method : Method} {elapsed : ℕ} {response : Response}
    {list : List (Increment Counter)} (h : lookup state key method elapsed = .ok (response, list)) :
    list = record (state.outcome key) (method.counted response)
      (if state.timing then some elapsed else none) := by
  obtain ⟨response', hlookup⟩ := lookup_eq_ok state key method elapsed
  obtain ⟨rfl, hlist⟩ := Prod.mk.inj (Except.ok.inj (h.symm.trans hlookup))
  exact hlist

end JustKV
