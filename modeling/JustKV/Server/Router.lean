import JustKV.Library.Observers
import JustKV.Server.Query
import JustKV.Server.Render

/-!
# The router

A request is dispatched by its path to one of five handlers.  What they do with the counters is
part of the plan of a request: a lookup adds to them, a scrape loads them one by one and writes its
answer from what it got, and everything else leaves them alone.  The framework matches the
segments of the path, answers unknown paths and other methods itself, and sends no body to `HEAD`.
-/

open Checked Counters Utf8

namespace JustKV

/-- All of the state, with the durations in nanoseconds. -/
structure Service extends AppState where
  keys : ℕ
  arenaBytes : ℕ
  source : String
  format : String
  loadDuration : ℕ

/-- What the server takes from elsewhere: `percent_decode`, the decoding of a path segment to a
string and the text of its rejection, JSON strings, and the formatting of floating-point numbers. -/
structure Framework where
  decode : Bytes → Bytes
  extract : String → Option String
  rejection : String → Bytes
  showText : String → String
  showMillis : ℕ → String
  showSeconds : UInt64 → String

/-! ## Requests -/

/-- A request; `method` is none if it is neither `GET` nor `HEAD`.  The raw path is split at its
slashes, without the leading one. -/
structure Request where
  method : Option Method
  segments : List String
  query : Option String

inductive Route
  | kvPath (segment : String)
  | kvQuery
  | health
  | metrics
  | stats
  deriving DecidableEq, Repr

/-- The route of a path; a parameter matches one segment that is not empty. -/
def router : List String → Option Route
  | ["kv", segment] => if segment = "" then none else some (.kvPath segment)
  | ["kv"] => some .kvQuery
  | ["health"] => some .health
  | ["metrics"] => some .metrics
  | ["stats"] => some .stats
  | _ => none

/-- What a request does: it answers and records, or it loads the counters. -/
inductive Plan
  | answer (response : Response) (increments : List (Increment Counter))
  | scrape
  deriving DecidableEq

def Plan.accesses : Plan → List (Access Counter)
  | .answer _ increments => increments.map .add
  | .scrape => loadOrder.map .load

section Handlers

variable (framework : Framework) (service : Service)

def health : Response := ⟨200, [("content-type", "text/plain; charset=utf-8")], toBytes "ok"⟩

def notFound : Response := ⟨404, [], []⟩

def methodNotAllowed : Response := ⟨405, [("allow", "GET,HEAD")], []⟩

/-- The members of the JSON object, in the order of their names. -/
def statsMembers (uptime : ℕ) : List (String × String) :=
  [("arena_bytes", toString service.arenaBytes),
    ("default_value_configured", toString service.defaultValue.isSome),
    ("format", framework.showText service.format),
    ("keys", toString service.keys),
    ("load_ms", framework.showMillis service.loadDuration),
    ("source", framework.showText service.source),
    ("uptime_seconds", toString uptime)]

def showObject (members : List (String × String)) : String :=
  "\x7b" ++ ",".intercalate (members.map fun item ↦ "\"" ++ item.1 ++ "\":" ++ item.2) ++ "\x7d"

def stats (uptime : ℕ) : Response :=
  ⟨200, [("content-type", "application/json")],
    toBytes (showObject (statsMembers framework service uptime))⟩

/-- The answer to a scrape that has loaded these values. -/
def metrics (loaded : Metrics) (uptime : ℕ) : Run Response := do
  let lines ← loaded.render (UInt64.ofNat service.keys) (UInt64.ofNat service.arenaBytes)
    (UInt64.ofNat uptime)
  pure ⟨200, [("content-type", "text/plain; version=0.0.4; charset=utf-8")],
    lines.flatMap fun line ↦ toBytes (line.write framework.showSeconds)⟩

/-- What the handlers do with a request that took `elapsed` nanoseconds when the server had been up
for `uptime` seconds. -/
def Request.plan (request : Request) (elapsed uptime : ℕ) : Run Plan :=
  match router request.segments, request.method with
  | none, _ => pure (.answer notFound [])
  | some _, none => pure (.answer methodNotAllowed [])
  | some (.kvPath segment), some method =>
    match framework.extract segment with
    | none => pure (.answer ⟨400, [("content-type", "text/plain; charset=utf-8")],
        framework.rejection segment⟩ [])
    | some key => do
      let (response, increments) ← kvPath service.toAppState method key elapsed
      pure (.answer response increments)
  | some .kvQuery, some method => do
    let (response, increments) ← kvQuery framework.decode service.toAppState method request.query
      elapsed
    pure (.answer response increments)
  | some .health, some _ => pure (.answer health [])
  | some .metrics, some _ => pure .scrape
  | some .stats, some _ => pure (.answer (stats framework service uptime) [])

/-- What is sent to the client. -/
def Request.sent (request : Request) (response : Response) : Response :=
  if request.method = some .head then { response with body := [] } else response

/-- The key that a request looks up, if it gets that far. -/
def Request.key (request : Request) : Option Bytes :=
  match router request.segments, request.method with
  | some (.kvPath segment), some _ => (framework.extract segment).map toBytes
  | some .kvQuery, some _ => keyFromQuery framework.decode request.query
  | _, _ => none

end Handlers

section Plans

variable {framework : Framework} {service : Service} {request : Request} {elapsed uptime : ℕ}

/-- Handling a request never stops the program: it looks up a key and records that, or it records
nothing, or it is a scrape. -/
theorem plan_cases (framework : Framework) (service : Service) (request : Request)
    (elapsed uptime : ℕ) :
    (∃ key method response increments, request.key framework = some key ∧
      request.method = some method ∧
      lookup service.toAppState key method elapsed = .ok (response, increments) ∧
      request.plan framework service elapsed uptime = .ok (.answer response increments)) ∨
    request.key framework = none ∧
      ((∃ response, request.plan framework service elapsed uptime = .ok (.answer response [])) ∨
        request.plan framework service elapsed uptime = .ok .scrape) := by
  obtain ⟨method, segments, query⟩ := request
  simp only [Request.key, Request.plan]
  have hlookup (key : Bytes) (method : Method) : ∃ response increments,
      lookup service.toAppState key method elapsed = .ok (response, increments) := by
    obtain ⟨response, h⟩ := lookup_eq_ok service.toAppState key method elapsed
    exact ⟨response, _, h⟩
  cases hroute : router segments with
  | none => exact Or.inr ⟨rfl, Or.inl ⟨_, rfl⟩⟩
  | some route =>
    cases method with
    | none => cases route <;> exact Or.inr ⟨rfl, Or.inl ⟨_, rfl⟩⟩
    | some method =>
      cases route with
      | kvPath segment =>
        cases hextract : framework.extract segment with
        | none =>
          refine Or.inr ⟨by simp only [hextract, Option.map_none], Or.inl ⟨⟨400,
            [("content-type", "text/plain; charset=utf-8")], framework.rejection segment⟩, ?_⟩⟩
          simp only [hextract, pure_eq_ok]
        | some key =>
          obtain ⟨response, increments, h⟩ := hlookup (toBytes key) method
          refine Or.inl ⟨toBytes key, method, response, increments, ?_, rfl, h, ?_⟩
          · simp only [hextract, Option.map_some]
          · simp only [hextract, kvPath, h, ok_bind, pure_eq_ok]
      | kvQuery =>
        cases hkey : keyFromQuery framework.decode query with
        | none =>
          refine Or.inr
            ⟨rfl, Or.inl ⟨⟨400, [], toBytes "missing required query parameter: k\n"⟩, ?_⟩⟩
          simp only [kvQuery, hkey, pure_eq_ok, ok_bind]
        | some key =>
          obtain ⟨response, increments, h⟩ := hlookup key method
          refine Or.inl ⟨key, method, response, increments, rfl, rfl, h, ?_⟩
          simp only [kvQuery, hkey, h, ok_bind, pure_eq_ok]
      | health => exact Or.inr ⟨rfl, Or.inl ⟨_, rfl⟩⟩
      | metrics => exact Or.inr ⟨rfl, Or.inr rfl⟩
      | stats => exact Or.inr ⟨rfl, Or.inl ⟨_, rfl⟩⟩

theorem accesses_scrape : Plan.scrape.accesses = loadOrder.map .load := rfl

end Plans

-- `/kv/` has an empty segment, which no route takes.
example : router ["kv", ""] = none ∧ router ["kv", "a"] = some (.kvPath "a") ∧
    router ["kv", "a", "b"] = none := by decide

end JustKV
