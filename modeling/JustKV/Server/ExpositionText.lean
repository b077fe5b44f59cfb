import JustKV.Library.Decimal
import JustKV.Library.TextFormat
import JustKV.Server.Router

/-!
# The text of an exposition

What `/metrics` sends is a text that reads back as the rendered lines, and these lines announce
every metric once and before its samples.
-/

open Checked Counters HashTable PercentEncoding TextFormat Utf8

namespace JustKV

/-- The parts of a line as they are read. -/
def Line.item (showSeconds : UInt64 → String) : Line → Item
  | .help name text => .help name.toList text.toList
  | .type name kind => .type name.toList kind.toList
  | .sample name le value => .sample name.toList (le.map String.toList) (toString value).toList
  | .seconds name nanos => .sample name.toList none (showSeconds nanos).toList

variable {showSeconds : UInt64 → String}

theorem toList_write (line : Line) :
    (line.write showSeconds).toList = (line.item showSeconds).write ++ ['\n'] := by
  cases line with
  | help name text => simp [Line.write, Line.item, Item.write]
  | type name kind => simp [Line.write, Line.item, Item.write]
  | sample name le value => cases le <;> simp [Line.write, Line.item, Item.write]
  | seconds name nanos => simp [Line.write, Line.item, Item.write]

/-- The text is the lines one after the other. -/
theorem toBytes_writeAll (lines : List Line) :
    toBytes (String.ofList (writeAll (lines.map (Line.item showSeconds)))) =
      lines.flatMap fun line ↦ toBytes (line.write showSeconds) := by
  induction lines with
  | nil => rfl
  | cons line lines ih =>
    have hline : String.ofList ((line.item showSeconds).write ++ ['\n']) =
        line.write showSeconds := by
      rw [← toList_write, String.ofList_toList]
    rw [List.map_cons, writeAll, List.flatMap_cons, ← writeAll, String.ofList_append,
      toBytes_append, hline, ih, List.flatMap_cons]

/-! ## Well-formed lines -/

/-- Decimal numbers have only digits. -/
theorem newline_notMem_toString (value : ℕ) : '\n' ∉ (toString value).toList :=
  Decimal.notMem_toString (by decide) value

/-- A name of a metric. -/
def IsName (name : String) : Prop := name.toList ≠ [] ∧ ∀ char ∈ name.toList, isNameChar char = true

theorem isName_ofList {char : Char} {chars : List Char}
    (h : (char :: chars).all isNameChar = true) : IsName (String.ofList (char :: chars)) := by
  rw [IsName, String.toList_ofList]
  exact ⟨List.cons_ne_nil char chars, List.all_eq_true.mp h⟩

theorem newline_notMem_ofList {chars : List Char} (h : '\n' ∉ chars) :
    '\n' ∉ (String.ofList chars).toList := by
  rwa [String.toList_ofList]

theorem IsName.notMem {name : String} (h : IsName name) {char : Char}
    (hchar : isNameChar char = false) : char ∉ name.toList := by
  intro hmem
  rw [h.2 char hmem] at hchar
  cases hchar

theorem wellformed_announcement {name text kind : String} (hname : IsName name)
    (htext : '\n' ∉ text.toList) (hkind : '\n' ∉ kind.toList) :
    (Item.help name.toList text.toList).Wellformed ∧
      (Item.type name.toList kind.toList).Wellformed :=
  ⟨⟨hname.notMem rfl, hname.notMem rfl, htext⟩, ⟨hname.notMem rfl, hname.notMem rfl, hkind⟩⟩

theorem wellformed_sample {name value : String} (hname : IsName name)
    (hvalue : '\n' ∉ value.toList) : (Item.sample name.toList none value.toList).Wellformed :=
  ⟨hname.1, hname.2, by simp, hvalue⟩

/-- A bound of a bucket. -/
def IsBound (le : String) : Prop := '\x22' ∉ le.toList ∧ '\n' ∉ le.toList

instance (le : String) : Decidable (IsBound le) := inferInstanceAs (Decidable (_ ∧ _))

theorem wellformed_bucket {name le : String} (hname : IsName name) (hle : IsBound le) (value : ℕ) :
    (Item.sample name.toList (some le.toList) (toString value).toList).Wellformed := by
  refine ⟨hname.1, hname.2, ?_, newline_notMem_toString value⟩
  intro bound hbound
  obtain rfl := Option.some.inj hbound
  exact hle

/-! ## The metrics of an exposition -/

/-- A counter or a gauge as it is read. -/
def singleFamily (name help kind : String) (value : UInt64) : Family :=
  ⟨name.toList, help.toList, kind.toList, [.sample name.toList none (toString value.toNat).toList]⟩

/-- The histogram as it is read. -/
def durationFamily (buckets : List (String × ℕ)) (total : ℕ) (sum : String) (count : UInt64) :
    Family :=
  ⟨durationName.toList, "Lookup handling latency.".toList, "histogram".toList,
    buckets.map (fun bucket ↦ .sample bucketName.toList (some bucket.1.toList)
        (toString bucket.2).toList) ++
      [.sample bucketName.toList (some "+Inf".toList) (toString total).toList,
        .sample "justkv_request_duration_seconds_sum".toList none sum.toList,
        .sample countName.toList none (toString count.toNat).toList]⟩

def expositionFamilies (loaded : Metrics) (buckets : List (String × ℕ)) (total : ℕ) (sum : String)
    (keys arenaBytes uptime : UInt64) : List Family :=
  [singleFamily "justkv_requests_total" "Total key lookups served." "counter" (loaded .requests),
    singleFamily "justkv_hits_total" "Lookups that found a key." "counter" (loaded .hits),
    singleFamily "justkv_misses_total"
      "Lookups with no matching key, including those served a default." "counter" (loaded .misses),
    singleFamily "justkv_defaults_served_total"
      "Misses answered with the configured default value." "counter" (loaded .defaults),
    singleFamily "justkv_response_bytes_total" "Value bytes written to clients." "counter"
      (loaded .bytes),
    durationFamily buckets total sum (loaded .timed),
    singleFamily "justkv_keys" "Keys loaded." "gauge" keys,
    singleFamily "justkv_arena_bytes" "Bytes of key and value data held in memory." "gauge"
      arenaBytes,
    singleFamily "justkv_uptime_seconds" "Seconds since the server finished loading." "gauge"
      uptime]

section Families

variable {loaded : Metrics} {buckets : List (String × ℕ)} {total : ℕ} {sum : String}
  {keys arenaBytes uptime : UInt64}

theorem valid_singleFamily {name help kind : String} {value : UInt64}
    (hkind : kind = "counter" ∨ kind = "gauge") : (singleFamily name help kind value).Valid := by
  apply Family.Valid.single
  exact hkind.imp (congrArg String.toList) (congrArg String.toList)

theorem valid_durationFamily {count : UInt64} : (durationFamily buckets total sum count).Valid := by
  have hbucket : bucketName.toList = durationName.toList ++ "_bucket".toList := rfl
  have hsum : "justkv_request_duration_seconds_sum".toList = durationName.toList ++ "_sum".toList :=
    rfl
  have hcount : countName.toList = durationName.toList ++ "_count".toList := rfl
  have hbuckets : (buckets.map fun bucket ↦
      Item.sample bucketName.toList (some bucket.1.toList) (toString bucket.2).toList) =
        (buckets.map fun bucket ↦ (bucket.1.toList, (toString bucket.2).toList)).map fun bucket ↦
          .sample bucketName.toList (some bucket.1) bucket.2 := by
    rw [List.map_map]
    rfl
  rw [durationFamily, hbuckets, hbucket, hsum, hcount]
  exact .histogram _

theorem valid_of_mem {family : Family}
    (h : family ∈ expositionFamilies loaded buckets total sum keys arenaBytes uptime) :
    family.Valid := by
  simp only [expositionFamilies, List.mem_cons, List.not_mem_nil, or_false] at h
  rcases h with rfl | rfl | rfl | rfl | rfl | rfl | rfl | rfl | rfl
  case inr.inr.inr.inr.inr.inl => exact valid_durationFamily
  all_goals exact valid_singleFamily (by simp)

/-- No metric is announced twice. -/
theorem nodup_names :
    ((expositionFamilies loaded buckets total sum keys arenaBytes uptime).map
      Family.name).Nodup := by
  have hnames : ["justkv_requests_total", "justkv_hits_total", "justkv_misses_total",
      "justkv_defaults_served_total", "justkv_response_bytes_total", durationName, "justkv_keys",
      "justkv_arena_bytes", "justkv_uptime_seconds"].Nodup := by simp [durationName]
  apply List.Nodup.of_map String.ofList
  simpa only [List.map_map, expositionFamilies, singleFamily, durationFamily, List.map_cons,
    List.map_nil, Function.comp_apply, String.ofList_toList] using hnames

theorem wellformed_singleFamily {name help kind : String} {value : UInt64} (hname : IsName name)
    (hhelp : '\n' ∉ help.toList) (hkind : '\n' ∉ kind.toList) :
    ∀ item ∈ (singleFamily name help kind value).items, item.Wellformed := by
  obtain ⟨hhelp', hkind'⟩ := wellformed_announcement hname hhelp hkind
  have hsample := List.forall_mem_singleton.mpr
    (wellformed_sample hname (newline_notMem_toString value.toNat))
  exact List.forall_mem_cons.mpr ⟨hhelp', List.forall_mem_cons.mpr ⟨hkind', hsample⟩⟩

theorem wellformed_durationFamily {count : UInt64} (hbuckets : ∀ bucket ∈ buckets, IsBound bucket.1)
    (hsum : '\n' ∉ sum.toList) :
    ∀ item ∈ (durationFamily buckets total sum count).items, item.Wellformed := by
  have htext : '\n' ∉ "Lookup handling latency.".toList := newline_notMem_ofList (by decide +kernel)
  have hhistogram : '\n' ∉ "histogram".toList := newline_notMem_ofList (by decide +kernel)
  have hname : IsName durationName := isName_ofList rfl
  obtain ⟨hhelp, hkind⟩ := wellformed_announcement hname htext hhistogram
  have hbucketName : IsName bucketName := isName_ofList rfl
  intro item hitem
  rcases List.mem_cons.mp hitem with rfl | hitem
  · exact hhelp
  · rcases List.mem_cons.mp hitem with rfl | hitem
    · exact hkind
    · rcases List.mem_append.mp hitem with hitem | hitem
      · obtain ⟨bucket, hbucket, rfl⟩ := List.mem_map.mp hitem
        exact wellformed_bucket hbucketName (hbuckets bucket hbucket) bucket.2
      · simp only [List.mem_cons, List.not_mem_nil, or_false] at hitem
        rcases hitem with rfl | rfl | rfl
        · exact wellformed_bucket hbucketName (by decide +kernel) total
        · exact wellformed_sample (isName_ofList rfl) hsum
        · exact wellformed_sample (isName_ofList rfl)
            (newline_notMem_toString count.toNat)

theorem wellformed_of_mem (hbuckets : ∀ bucket ∈ buckets, IsBound bucket.1)
    (hsum : '\n' ∉ sum.toList) :
    ∀ item ∈ (expositionFamilies loaded buckets total sum keys arenaBytes uptime).flatMap
      Family.items, item.Wellformed := by
  intro item hitem
  obtain ⟨family, hfamily, hmem⟩ := List.mem_flatMap.mp hitem
  simp only [expositionFamilies, List.mem_cons, List.not_mem_nil, or_false] at hfamily
  rcases hfamily with rfl | rfl | rfl | rfl | rfl | rfl | rfl | rfl | rfl
  case inr.inr.inr.inr.inr.inl => exact wellformed_durationFamily hbuckets hsum item hmem
  all_goals
    exact wellformed_singleFamily (isName_ofList rfl)
      (newline_notMem_ofList (by decide +kernel)) (newline_notMem_ofList (by decide +kernel))
      item hmem

end Families

theorem isBound_of_mem_bucketLabels : ∀ label ∈ bucketLabels, IsBound label := by decide +kernel

/-- The bounded buckets are samples under the labels that were given. -/
theorem exists_buckets {start total : ℕ} {counts : List (String × UInt64)} {lines : List Line}
    (h : bucketLines start counts = .ok (lines, total)) :
    ∃ buckets : List (String × ℕ), buckets.map Prod.fst = counts.map Prod.fst ∧
      lines = buckets.map fun bucket ↦ .sample bucketName (some bucket.1) bucket.2 := by
  induction counts generalizing start lines with
  | nil =>
    obtain ⟨rfl, -⟩ := Prod.mk.inj (Except.ok.inj h)
    exact ⟨[], rfl, rfl⟩
  | cons count counts ih =>
    obtain ⟨sum, _, hrest⟩ := bind_eq_ok.mp h
    obtain ⟨⟨rest, last⟩, htail, hlines⟩ := bind_eq_ok.mp hrest
    obtain ⟨rfl, rfl⟩ := Prod.mk.inj (Except.ok.inj hlines)
    obtain ⟨buckets, hlabels, rfl⟩ := ih htail
    exact ⟨(count.1, sum) :: buckets, by simp [hlabels], rfl⟩

variable (showSeconds) in
/-- The lines of an exposition are those of its metrics. -/
theorem exists_families {loaded : Metrics} {keys arenaBytes uptime : UInt64} {lines : List Line}
    (h : loaded.render keys arenaBytes uptime = .ok lines) :
    ∃ buckets total, (∀ bucket ∈ buckets, IsBound bucket.1) ∧
      lines.map (Line.item showSeconds) = (expositionFamilies loaded buckets total
        (showSeconds (loaded .sumNanos)) keys arenaBytes uptime).flatMap Family.items := by
  obtain ⟨⟨bounded, sum⟩, hbounded, hrest⟩ := bind_eq_ok.mp h
  obtain ⟨total, _, hlines⟩ := bind_eq_ok.mp hrest
  obtain rfl := Except.ok.inj hlines
  obtain ⟨buckets, hlabels, rfl⟩ := exists_buckets hbounded
  refine ⟨buckets, total, fun bucket hbucket ↦ ?_, ?_⟩
  · apply isBound_of_mem_bucketLabels
    have hmem := List.mem_map_of_mem (f := Prod.fst) hbucket
    rw [hlabels] at hmem
    obtain ⟨count, hcount, hlabel⟩ := List.mem_map.mp hmem
    exact hlabel ▸ (List.of_mem_zip hcount).1
  · simp only [exposition, counterLines, gaugeLines, expositionFamilies, singleFamily,
      durationFamily, Family.items, Line.item, List.map_append, List.map_cons, List.map_nil,
      List.map_map, List.flatMap_cons, List.flatMap_nil, List.cons_append, List.nil_append,
      List.append_assoc, Function.comp_def, Option.map_some, Option.map_none]

/-- As long as the buckets together fit in a word, `/metrics` is answered.  The body is a text that
reads back as the rendered lines, and these are the lines of metrics with distinct names, each
announced before its samples and with the samples of its kind. -/
theorem metrics_text (framework : Framework) (service : Service) (loaded : Metrics) (uptime : ℕ)
    (hseconds : ∀ nanos, '\n' ∉ (framework.showSeconds nanos).toList)
    (hfits : loaded.bucketCounts.sum < 2 ^ 64) :
    ∃ (response : Response) (lines : List Line) (text : String) (families : List Family),
      metrics framework service loaded uptime = .ok response ∧
      loaded.render (UInt64.ofNat service.keys) (UInt64.ofNat service.arenaBytes)
        (UInt64.ofNat uptime) = .ok lines ∧
      fromUtf8 response.body = some text ∧
      readAll text.toList = some (lines.map (Line.item framework.showSeconds)) ∧
      lines.map (Line.item framework.showSeconds) = families.flatMap Family.items ∧
      (families.map Family.name).Nodup ∧ ∀ family ∈ families, family.Valid := by
  obtain ⟨lines, hrender, _⟩ := render_eq_ok loaded hfits (UInt64.ofNat service.keys)
    (UInt64.ofNat service.arenaBytes) (UInt64.ofNat uptime)
  obtain ⟨buckets, total, hbuckets, hitems⟩ := exists_families framework.showSeconds hrender
  refine ⟨_, lines, String.ofList (writeAll (lines.map (Line.item framework.showSeconds))), _,
    bind_eq_ok.mpr ⟨lines, hrender, rfl⟩, hrender, ?_, ?_, hitems, nodup_names,
    fun family ↦ valid_of_mem⟩
  · dsimp only
    rw [← toBytes_writeAll, fromUtf8_toBytes]
  · rw [String.toList_ofList]
    apply readAll_writeAll
    rw [hitems]
    exact wellformed_of_mem hbuckets (hseconds _)

/-- The exposition of a fresh server. -/
theorem metrics_text_fresh :
    let service : Service := ⟨⟨Parts.store ⟨[], [], by decide, by simp⟩ (chained _) fun _ ↦ 7,
      sound_store _ _ _, none, "text/plain", true⟩, 0, 0, "kv.csv", "csv", 0⟩
    let framework : Framework :=
      ⟨percentDecode, fun _ ↦ none, fun _ ↦ [], id, fun _ ↦ "0", fun _ ↦ "0"⟩
    ∃ (response : Response) (text : String) (families : List Family),
      metrics framework service Metrics.new 0 = .ok response ∧
      fromUtf8 response.body = some text ∧
      readAll text.toList = some (families.flatMap Family.items) ∧
      (families.map Family.name).Nodup := by
  intro service framework
  have hseconds : ∀ nanos, '\n' ∉ (framework.showSeconds nanos).toList :=
    fun _ ↦ newline_notMem_toString 0
  obtain ⟨response, _, text, families, hmetrics, _, htext, hread, hitems, hnodup, _⟩ :=
    metrics_text framework service Metrics.new 0 hseconds (by decide)
  exact ⟨response, text, families, hmetrics, htext, hitems ▸ hread, hnodup⟩

end JustKV
