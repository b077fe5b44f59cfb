import JustKV.Server.Query

/-!
# The two forms agree

A key that is a string can be asked for in the path or in the query.  The framework decodes the
path segment to a string, and `key_from_query` decodes the parameter to bytes and takes `+` for a
space; on a text in which everything reserved is escaped both find the same key.
-/

open Checked Counters PercentEncoding Utf8

namespace JustKV

/-- What the framework passes to `kv_path`: the segment is not empty and has no `/`, and the key is
its percent-decoding if that is valid UTF-8. -/
def ExtractsSegment (decode : Bytes → Bytes) (extract : String → Option String) : Prop :=
  ∀ segment key, segment ≠ "" → 47 ∉ toBytes segment → decode (toBytes segment) = toBytes key →
    extract segment = some key

section Text

variable {decode : Bytes → Bytes} (hdecode : IsPercentDecoder decode) {key : Bytes} {text : String}
  (htext : Encodes urlCode key (toBytes text))

include htext

theorem notMem_of_url (separator : UInt8)
    (hseparator : ¬(separator = percent ∨ isUnreserved separator = true)) :
    separator ∉ toBytes text :=
  fun hmem ↦ hseparator (htext.unreserved separator hmem)

include hdecode

/-- An escaped key has no `&` to split at and no `+` to read as a space. -/
theorem keyFromQuery_url : keyFromQuery decode (some ("k=" ++ text)) = some key := by
  have hq : toBytes ("k=" ++ text) = [107] ++ 61 :: toBytes text := by
    rw [toBytes_append]
    rfl
  have hamp : 38 ∉ [107] ++ 61 :: toBytes text := by
    have hin := notMem_of_url htext 38 (by decide)
    simp [hin]
  have hplus : ∀ char ∈ toBytes text, plusToSpace char = char := by
    intro char hchar
    apply if_neg
    rintro rfl
    exact notMem_of_url htext 43 (by decide) hchar
  rw [keyFromQuery, Option.bind_some, hq, List.splitOn_eq_singleton hamp,
    findKey_cons (by decide), if_pos rfl, List.map_congr_left hplus, List.map_id',
    hdecode.decode_url htext]

theorem extract_url {extract : String → Option String} (hextract : ExtractsSegment decode extract)
    {name : String} (hname : toBytes name = key) (hkey : key ≠ []) : extract text = some name := by
  apply hextract
  · rintro rfl
    exact hkey ((hdecode.decode_url htext).symm.trans hdecode.nil)
  · exact notMem_of_url htext 47 (by decide)
  · rw [hdecode.decode_url htext, hname]

end Text

/-- A response follows the contract for a key: the value that the dataset pairs with it and no
marker, else the default with the marker, else not found. -/
structure AppState.Contract (state : AppState) (key : Bytes) (response : Response) : Prop where
  hit_iff : state.Holds key ↔
    response.status = 200 ∧ "x-justkv-default" ∉ response.headers.map Prod.fst
  value : state.Holds key → (key, response.body) ∈ state.store.pairs
  served : state.Holds key → state.store.get key = .ok (some response.body)
  default : ¬state.Holds key → ∀ value, state.defaultValue = some value →
    response.status = 200 ∧ ("x-justkv-default", "1") ∈ response.headers ∧ response.body = value
  missing : ¬state.Holds key → state.defaultValue = none →
    response.status = 404 ∧ response.body = []

theorem contract_of_lookup {state : AppState} {key : Bytes} {method : Method} {elapsed : ℕ}
    {response : Response} {list : List (Increment Counter)}
    (h : lookup state key method elapsed = .ok (response, list)) : state.Contract key response := by
  obtain ⟨answer, hget, hanswer⟩ := get_answers state.sound key
  have hholds : answer.isSome ↔ state.Holds key := hanswer.isSome_iff
  obtain rfl := response_of_lookup hget h
  cases answer with
  | some value =>
    have hin : state.Holds key := hholds.mp rfl
    refine ⟨?_, fun _ ↦ hanswer, fun _ ↦ hget, fun hnot ↦ absurd hin hnot,
      fun hnot ↦ absurd hin hnot⟩
    simp [AppState.response, hin]
  | none =>
    have hnot : ¬state.Holds key := fun hin ↦ Bool.false_ne_true (hholds.mpr hin)
    cases hdefault : state.defaultValue with
    | none =>
      have hresponse : state.response none = ⟨404, [], []⟩ := by
        simp [AppState.response, hdefault]
      rw [hresponse]
      refine ⟨by simp [hnot], fun hin ↦ absurd hin hnot, fun hin ↦ absurd hin hnot,
        fun _ value hvalue ↦ ?_, fun _ _ ↦ ⟨rfl, rfl⟩⟩
      simp [hdefault] at hvalue
    | some value =>
      have hresponse : state.response none = ⟨200, [("content-type", state.contentType),
          ("x-justkv-default", "1")], value⟩ := by
        simp [AppState.response, hdefault]
      rw [hresponse]
      refine ⟨by simp [hnot], fun hin ↦ absurd hin hnot, fun hin ↦ absurd hin hnot,
        fun _ other hother ↦ ?_, fun _ hnone ↦ ?_⟩
      · exact ⟨rfl, by simp, Option.some.inj (hdefault.symm.trans hother)⟩
      · simp [hdefault] at hnone

/-- Two lookups of one key by one method answer the same and move the counters alike; only the
time they took may differ. -/
theorem lookup_elapsed (state : AppState) (key : Bytes) (method : Method) (elapsed elapsed' : ℕ) :
    ∃ response list list', lookup state key method elapsed = .ok (response, list) ∧
      lookup state key method elapsed' = .ok (response, list') ∧
      ∀ cell ∈ [Counter.requests, .hits, .misses, .defaults, .bytes],
        added cell list = added cell list' := by
  obtain ⟨response, hlookup⟩ := lookup_eq_ok state key method elapsed
  obtain ⟨response', hlookup'⟩ := lookup_eq_ok state key method elapsed'
  obtain ⟨answer, hget, _⟩ := get_answers state.sound key
  obtain rfl : response' = response :=
    (response_of_lookup hget hlookup').trans (response_of_lookup hget hlookup).symm
  refine ⟨response', _, _, hlookup, hlookup', ?_⟩
  simp

/-- The path and the query form answer the same for every key that is a string, move the same
counters by the same amounts, and follow the response contract. -/
theorem kv_forms_agree (state : AppState) (decode : Bytes → Bytes)
    (hdecode : IsPercentDecoder decode) (extract : String → Option String)
    (hextract : ExtractsSegment decode extract) (key : String) (hkey : key ≠ "") (method : Method)
    (elapsed elapsed' : ℕ) :
    (∃ e, Encodes urlCode (toBytes key) (toBytes e)) ∧
    ∀ e, Encodes urlCode (toBytes key) (toBytes e) →
      ∃ name response list list', extract e = some name ∧
        kvPath state method name elapsed = .ok (response, list) ∧
        kvQuery decode state method (some ("k=" ++ e)) elapsed' = .ok (response, list') ∧
        (∀ cell ∈ [Counter.requests, .hits, .misses, .defaults, .bytes], ∀ metrics : Metrics,
          list.foldl fetchAdd metrics cell = list'.foldl fetchAdd metrics cell) ∧
        state.Contract (toBytes key) response := by
  constructor
  · obtain ⟨text, htext⟩ := exists_encodes (exists_keepOrEscape isUnreserved) (toBytes key)
    obtain ⟨e, rfl⟩ := exists_toBytes htext.ascii_of_url
    exact ⟨e, htext⟩
  · intro e he
    have hbytes : toBytes key ≠ [] := by
      intro hempty
      have hread := fromUtf8_toBytes key
      rw [hempty] at hread
      exact hkey (Option.some.inj (hread.symm.trans (fromUtf8_toBytes "")))
    obtain ⟨response, list, list', hlookup, hlookup', hadded⟩ :=
      lookup_elapsed state (toBytes key) method elapsed elapsed'
    refine ⟨key, response, list, list', extract_url hdecode he hextract rfl hbytes, hlookup, ?_, ?_,
      contract_of_lookup hlookup⟩
    · rw [kvQuery, keyFromQuery_url hdecode he]
      exact hlookup'
    · intro cell hcell metrics
      exact foldl_fetchAdd_congr (hadded cell hcell) metrics

/-- The key `a/b`, held by the store, in both forms. -/
theorem kv_forms_agree_slash :
    let parts : Parts := ⟨[97, 47, 98, 49], [⟨0, 3, 3, 1⟩], by decide, by
      intro entry hentry
      rw [List.mem_singleton.mp hentry]
      exact ⟨by decide, by decide⟩⟩
    let state : AppState :=
      ⟨parts.store (HashTable.chained _) fun _ ↦ 7, sound_store _ _ _, none, "text/plain", false⟩
    ∃ name response list list', fromUtf8 (percentDecode (toBytes "a%2Fb")) = some name ∧
      kvPath state .get name 5 = .ok (response, list) ∧
      kvQuery percentDecode state .get (some "k=a%2Fb") 6 = .ok (response, list') ∧
      state.Contract (toBytes "a/b") response := by
  intro parts state
  have hextract : ExtractsSegment percentDecode fun segment ↦
      fromUtf8 (percentDecode (toBytes segment)) := by
    intro segment key _ _ hdecode
    exact (congrArg fromUtf8 hdecode).trans (fromUtf8_toBytes key)
  have hkey : toBytes "a/b" = [97, 47, 98] := by decide +kernel
  have htext : toBytes "a%2Fb" = [97, 37, 50, 70, 98] := by decide +kernel
  have hkept {byte : UInt8} (h : isUnreserved byte = true) : urlCode byte [byte] := by
    rw [urlCode, keepOrEscape, if_pos h]
  have hslash : urlCode 47 [37, 50, 70] := by
    rw [urlCode, keepOrEscape, if_neg (by decide)]
    exact ⟨50, 70, by decide, rfl⟩
  have hencodes : Encodes urlCode (toBytes "a/b") (toBytes "a%2Fb") := by
    rw [hkey, htext]
    exact .cons (hkept (by decide)) (.cons hslash (.cons (hkept (by decide)) .nil))
  obtain ⟨name, response, list, list', hname, hpath, hquery, _, hcontract⟩ :=
    (kv_forms_agree state percentDecode isPercentDecoder_percentDecode _ hextract "a/b" (by decide)
      .get 5 6).2 "a%2Fb" hencodes
  exact ⟨name, response, list, list', hname, hpath, hquery, hcontract⟩

end JustKV
