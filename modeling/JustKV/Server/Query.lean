import JustKV.Library.PercentEncoding
import JustKV.Server.Handlers

/-!
# The two forms of a lookup

A key reaches `lookup` as a path segment, which the framework decodes to a string, or as the `k`
parameter of the raw query string, which is split and decoded here because keys are bytes.  A text
is worked on as its UTF-8 bytes: the separators are ASCII, so splitting at them splits the text.
-/

open Checked Counters PercentEncoding Utf8

namespace JustKV

/-- `split_once`: the parts before and after the first separator. -/
def splitOnce (separator : UInt8) : Bytes → Option (Bytes × Bytes)
  | [] => none
  | byte :: rest =>
    if byte = separator then some ([], rest)
    else (splitOnce separator rest).map fun parts ↦ (byte :: parts.1, parts.2)

section Handlers

variable (decode : Bytes → Bytes)

/-- The value of the first of the parameters named `k`; a parameter without `=` has no value. -/
def findKey : List Bytes → Option Bytes
  | [] => none
  | pair :: pairs =>
    let (name, value) := (splitOnce 61 pair).getD (pair, [])
    if name = [107] then some (decode (value.map plusToSpace)) else findKey pairs

/-- Pull `k` out of the raw query string and percent-decode it to bytes. -/
def keyFromQuery (q : Option String) : Option Bytes :=
  q.bind fun q ↦ findKey decode ((toBytes q).splitOn 38)

def kvPath (state : AppState) (method : Method) (key : String) (elapsed : ℕ) :
    Run (Response × List (Increment Counter)) :=
  lookup state (toBytes key) method elapsed

/-- No `k` at all is a malformed request, which is not recorded. -/
def kvQuery (state : AppState) (method : Method) (q : Option String) (elapsed : ℕ) :
    Run (Response × List (Increment Counter)) :=
  match keyFromQuery decode q with
  | some key => lookup state key method elapsed
  | none => pure (⟨400, [], toBytes "missing required query parameter: k\n"⟩, [])

end Handlers

theorem splitOnce_append {separator : UInt8} {name : Bytes} (h : separator ∉ name) (value : Bytes) :
    splitOnce separator (name ++ separator :: value) = some (name, value) := by
  induction name with
  | nil => simp [splitOnce]
  | cons byte name ih =>
    rw [List.mem_cons, not_or] at h
    rw [List.cons_append, splitOnce, if_neg (Ne.symm h.1), ih h.2]
    rfl

variable {decode : Bytes → Bytes}

/-- One step of the search through the parameters. -/
theorem findKey_cons {name : Bytes} (hname : 61 ∉ name) (value : Bytes) (pairs : List Bytes) :
    findKey decode ((name ++ 61 :: value) :: pairs) =
      if name = [107] then some (decode (value.map plusToSpace)) else findKey decode pairs := by
  rw [findKey, splitOnce_append hname, Option.getD_some]

/-- A parameter as `name=value`, both encoded. -/
def EncodesParameter (pair : Bytes × Bytes) (text : Bytes) : Prop :=
  ∃ name value, Encodes formCode pair.1 name ∧ Encodes formCode pair.2 value ∧
    text = name ++ 61 :: value

/-- The parameters in order, joined by `&`. -/
def Urlencoded (pairs : List (Bytes × Bytes)) (text : Bytes) : Prop :=
  ∃ texts, List.Forall₂ EncodesParameter pairs texts ∧ text = [38].intercalate texts

theorem notMem_of_form (separator : UInt8) {bytes text : Bytes} (h : Encodes formCode bytes text)
    (hseparator : ¬(separator = 43 ∨ separator = percent ∨ isFormSafe separator = true)) :
    separator ∉ text :=
  fun hmem ↦ hseparator (h.formSafe separator hmem)

/-- The name `k` has one encoding, and it is the encoding of no other name. -/
theorem form_eq_k_iff {name text : Bytes} (h : Encodes formCode name text) :
    text = [107] ↔ name = [107] := by
  constructor
  · rintro rfl
    rw [← isPercentDecoder_percentDecode.decode_form h]
    rfl
  · rintro rfl
    cases h with
    | cons hpiece hrest =>
      cases hrest
      rw [List.append_nil]
      exact hpiece

/-- A parameter contains no `&`. -/
theorem notMem_of_parameter {pair : Bytes × Bytes} {text : Bytes}
    (h : EncodesParameter pair text) : 38 ∉ text := by
  obtain ⟨name, value, hname, hvalue, rfl⟩ := h
  have hinName := notMem_of_form 38 hname (by decide)
  have hinValue := notMem_of_form 38 hvalue (by decide)
  simp [hinName, hinValue]

/-- The search finds the first parameter named `k`: induction over the parameters. -/
theorem findKey_parameters (hdecode : IsPercentDecoder decode) {pairs : List (Bytes × Bytes)}
    {texts : List Bytes} (h : List.Forall₂ EncodesParameter pairs texts) :
    findKey decode texts = (pairs.find? fun pair ↦ pair.1 = [107]).map Prod.snd := by
  induction h with
  | nil => rfl
  | @cons pair text pairs texts hpair _ ih =>
    obtain ⟨name, value, hname, hvalue, rfl⟩ := hpair
    rw [findKey_cons (notMem_of_form 61 hname (by decide)), hdecode.decode_form hvalue, ih,
      List.find?_cons]
    by_cases hk : pair.1 = [107]
    · rw [if_pos ((form_eq_k_iff hname).mpr hk)]
      simp [hk]
    · rw [if_neg fun htext ↦ hk ((form_eq_k_iff hname).mp htext)]
      simp [hk]

theorem forall_mem_parameters {property : Bytes → Prop}
    (hparameter : ∀ pair text, EncodesParameter pair text → property text)
    {pairs : List (Bytes × Bytes)} {texts : List Bytes}
    (h : List.Forall₂ EncodesParameter pairs texts) : ∀ text ∈ texts, property text := by
  induction h with
  | nil => simp
  | cons hpair _ ih => exact List.forall_mem_cons.mpr ⟨hparameter _ _ hpair, ih⟩

theorem exists_parameter (pair : Bytes × Bytes) : ∃ text, EncodesParameter pair text := by
  obtain ⟨name, hname⟩ := exists_encodes exists_formCode pair.1
  obtain ⟨value, hvalue⟩ := exists_encodes exists_formCode pair.2
  exact ⟨_, name, value, hname, hvalue, rfl⟩

theorem ascii_of_parameter {pair : Bytes × Bytes} {text : Bytes}
    (h : EncodesParameter pair text) : ∀ char ∈ text, char < 128 := by
  obtain ⟨name, value, hname, hvalue, rfl⟩ := h
  have hequals : (61 : UInt8) < 128 := by decide
  intro char hchar
  rcases List.mem_append.mp hchar with hmem | hmem
  · exact hname.ascii_of_form char hmem
  · rcases List.mem_cons.mp hmem with rfl | hmem
    · exact hequals
    · exact hvalue.ascii_of_form char hmem

/-- Joining texts adds no bytes but the separator. -/
theorem forall_mem_intercalate {property : UInt8 → Prop} {separator : UInt8}
    (hseparator : property separator) {texts : List Bytes}
    (htexts : ∀ text ∈ texts, ∀ char ∈ text, property char) :
    ∀ char ∈ [separator].intercalate texts, property char := by
  induction texts with
  | nil => simp
  | cons text texts ih =>
    rw [List.forall_mem_cons] at htexts
    cases texts with
    | nil =>
      rw [List.intercalate_singleton]
      exact htexts.1
    | cons next rest =>
      rw [List.intercalate_cons_cons, List.append_assoc]
      intro char hchar
      rcases List.mem_append.mp hchar with hmem | hmem
      · exact htexts.1 char hmem
      · rcases List.mem_append.mp hmem with hmem | hmem
        · exact List.mem_singleton.mp hmem ▸ hseparator
        · exact ih htexts.2 char hmem

theorem exists_urlencoded (pairs : List (Bytes × Bytes)) :
    ∃ q, Urlencoded pairs (toBytes q) := by
  have htexts : ∃ texts, List.Forall₂ EncodesParameter pairs texts := by
    induction pairs with
    | nil => exact ⟨[], .nil⟩
    | cons pair pairs ih =>
      obtain ⟨texts, htexts⟩ := ih
      obtain ⟨text, htext⟩ := exists_parameter pair
      exact ⟨text :: texts, .cons htext htexts⟩
  obtain ⟨texts, htexts⟩ := htexts
  have hascii : ∀ text ∈ texts, ∀ char ∈ text, char < 128 :=
    forall_mem_parameters (fun _ _ ↦ ascii_of_parameter) htexts
  have hjoined : ∀ char ∈ [38].intercalate texts, char < 128 :=
    forall_mem_intercalate (by decide) hascii
  obtain ⟨q, hq⟩ := exists_toBytes hjoined
  exact ⟨q, texts, htexts, hq⟩

/-- Every byte key is addressable through the query form, and only `k` is read: the key is the
value of the first parameter with exactly that name. -/
theorem keyFromQuery_urlencoded (decode : Bytes → Bytes) (hdecode : IsPercentDecoder decode)
    (pairs : List (Bytes × Bytes)) :
    (∃ q, Urlencoded pairs (toBytes q)) ∧
    ∀ q, Urlencoded pairs (toBytes q) → keyFromQuery decode (some q) =
      (pairs.find? fun pair ↦ pair.1 = [107]).map Prod.snd := by
  refine ⟨exists_urlencoded pairs, ?_⟩
  rintro q ⟨texts, htexts, hq⟩
  have hamp : ∀ text ∈ texts, 38 ∉ text :=
    forall_mem_parameters (fun _ _ ↦ notMem_of_parameter) htexts
  rw [keyFromQuery, Option.bind_some, hq, ← findKey_parameters hdecode htexts]
  cases htexts with
  | nil => rfl
  | cons hpair hrest => rw [List.splitOn_intercalate 38 hamp (List.cons_ne_nil _ _)]

/-- `kk=1&k=%2b+&k=2`: the escape is lower case, and the key is `+` and a space. -/
theorem keyFromQuery_urlencoded_plus :
    keyFromQuery percentDecode (some "kk=1&k=%2b+&k=2") = some [43, 32] := by
  have hsafe {byte : UInt8} (h : byte ≠ 32 ∧ isFormSafe byte = true) : formCode byte [byte] := by
    rw [formCode, if_neg h.1, keepOrEscape, if_pos h.2]
  have hplus : formCode 43 [37, 50, 98] := by
    rw [formCode, if_neg (by decide), keepOrEscape, if_neg (by decide)]
    exact ⟨50, 98, by decide, rfl⟩
  have hspace : formCode 32 [43] := by rw [formCode, if_pos rfl]
  have hk : Encodes formCode [107] [107] := .cons (hsafe (by decide)) .nil
  have hfirst : EncodesParameter ([107, 107], [49]) [107, 107, 61, 49] :=
    ⟨[107, 107], [49], .cons (hsafe (by decide)) hk, .cons (hsafe (by decide)) .nil, rfl⟩
  have hsecond : EncodesParameter ([107], [43, 32]) [107, 61, 37, 50, 98, 43] :=
    ⟨[107], [37, 50, 98, 43], hk, .cons hplus (.cons hspace .nil), rfl⟩
  have hthird : EncodesParameter ([107], [50]) [107, 61, 50] :=
    ⟨[107], [50], hk, .cons (hsafe (by decide)) .nil, rfl⟩
  have hread := (keyFromQuery_urlencoded percentDecode isPercentDecoder_percentDecode
    [([107, 107], [49]), ([107], [43, 32]), ([107], [50])]).2 "kk=1&k=%2b+&k=2"
  rw [hread ⟨_, .cons hfirst (.cons hsecond (.cons hthird .nil)), by decide +kernel⟩]
  rfl

end JustKV
