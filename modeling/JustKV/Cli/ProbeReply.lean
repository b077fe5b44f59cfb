import JustKV.Cli.Healthcheck
import JustKV.Library.Decimal
import JustKV.Library.LossyUtf8
import JustKV.Server.Router

/-!
# What a probe accepts

`healthcheck` decodes the beginning of a reply lossily and compares the text.  That compares bytes,
whatever bytes follow and wherever they are cut, so the verdict is the status of the reply.  A
running server passes in every state, and does not count the request.
-/

open Checked Utf8

namespace JustKV

/-- The request that is sent. -/
def probe : Request := ⟨some .get, ["health"], none⟩

/-- The beginning of a reply with this status. -/
def statusLine (status : ℕ) : String := "HTTP/1.1 " ++ toString status

theorem ascii_statusLine (status : ℕ) : ∀ char ∈ (statusLine status).toList, char.toNat < 128 := by
  intro char hmem
  rw [statusLine, String.toList_append, List.mem_append] at hmem
  cases hmem with
  | inl hversion =>
    have hall : ("HTTP/1.1 ".toList.all fun char ↦ char.toNat < 128) = true := by decide +kernel
    exact of_decide_eq_true (List.all_eq_true.mp hall char hversion)
  | inr hstatus =>
    exact (Decimal.toNat_of_mem_toString hstatus).2.trans_lt (by decide)

/-- Statuses have three digits. -/
theorem length_statusLine {status : ℕ} (hmin : 100 ≤ status) (hmax : status < 1000) :
    (toBytes (statusLine status)).length = 12 := by
  have hdigits : status < 10 ^ (2 + 1) := by omega
  have hlength := Decimal.length_toDigits_eq (by decide) 2 hdigits
  rw [Finset.sum_range_succ, Finset.sum_range_one, if_pos (by omega), if_pos (by omega)] at hlength
  rw [toBytes_of_ascii (ascii_statusLine status), List.length_map, statusLine,
    String.toList_append, List.length_append, Decimal.toList_toString, hlength]
  rfl

theorem statusLine_injective : Function.Injective statusLine := by
  intro status other h
  have hlists := congrArg String.toList h
  unfold statusLine at hlists
  rw [String.toList_append, String.toList_append] at hlists
  exact Decimal.toString_injective (String.toList_inj.mp (List.append_cancel_left hlists))

/-- A reply begins with one status at most. -/
theorem statusLine_prefix_unique {status other : ℕ} {reply : Bytes}
    (hstatus : 100 ≤ status ∧ status < 1000) (hother : 100 ≤ other ∧ other < 1000)
    (h : toBytes (statusLine status) <+: reply) (h' : toBytes (statusLine other) <+: reply) :
    status = other := by
  have hlength : (toBytes (statusLine status)).length = (toBytes (statusLine other)).length := by
    rw [length_statusLine hstatus.1 hstatus.2, length_statusLine hother.1 hother.2]
  have hbegins := List.prefix_of_prefix_length_le h h' hlength.le
  exact statusLine_injective (toBytes_injective (hbegins.eq_of_length hlength))

section Verdict

variable {Addr Error : Type} (resolve : String → Except Error (List Addr))
  (exchange : Addr → Except Error Bytes) (bind : String)

/-- The first address of the target replies with these bytes. -/
def Replied (reply : Bytes) : Prop :=
  ∃ addr others, resolve (healthTarget bind) = .ok (addr :: others) ∧ exchange addr = .ok reply

variable {resolve exchange bind}

theorem Replied.unique {reply reply' : Bytes} (h : Replied resolve exchange bind reply)
    (h' : Replied resolve exchange bind reply') : reply = reply' := by
  obtain ⟨addr, others, hresolve, hexchange⟩ := h
  obtain ⟨addr', others', hresolve', hexchange'⟩ := h'
  obtain ⟨rfl, rfl⟩ := List.cons.inj (Except.ok.inj (hresolve.symm.trans hresolve'))
  exact Except.ok.inj (hexchange.symm.trans hexchange')

theorem cmdHealthcheck_of_replied {reply : Bytes} (h : Replied resolve exchange bind reply) :
    cmdHealthcheck resolve exchange bind = 0 ↔ toBytes (statusLine 200) <+: reply := by
  obtain ⟨addr, others, hresolve, hexchange⟩ := h
  have hline : statusLine 200 = "HTTP/1.1 200" := by decide
  have hascii := ascii_statusLine 200
  rw [hline] at hascii ⊢
  have hcut : "HTTP/1.1 200".toList.length ≤ 64 := by decide
  have hhead := prefix_fromUtf8Lossy_take_iff hascii hcut reply
  unfold cmdHealthcheck
  simp only [hresolve, hexchange]
  rw [← hhead]
  by_cases hbegins : "HTTP/1.1 200".toList <+: (fromUtf8Lossy (reply.take 64)).toList
  · rw [if_pos hbegins]
    exact iff_of_true rfl hbegins
  · rw [if_neg hbegins]
    exact iff_of_false (by decide) hbegins

theorem replied_of_cmdHealthcheck (h : cmdHealthcheck resolve exchange bind = 0) :
    ∃ reply, Replied resolve exchange bind reply := by
  unfold cmdHealthcheck at h
  cases hresolve : resolve (healthTarget bind) with
  | error error => simp [hresolve] at h
  | ok addrs =>
    cases addrs with
    | nil => simp [hresolve] at h
    | cons addr others =>
      cases hexchange : exchange addr with
      | error error => simp [hresolve, hexchange] at h
      | ok reply => exact ⟨reply, addr, others, hresolve, hexchange⟩

/-- A probe succeeds exactly when the bytes of the reply begin with the status 200. -/
theorem cmdHealthcheck_eq_zero_iff : cmdHealthcheck resolve exchange bind = 0 ↔
    ∃ reply, Replied resolve exchange bind reply ∧ toBytes (statusLine 200) <+: reply := by
  constructor
  · intro h
    obtain ⟨reply, hreply⟩ := replied_of_cmdHealthcheck h
    exact ⟨reply, hreply, (cmdHealthcheck_of_replied hreply).mp h⟩
  · rintro ⟨reply, hreply, hbegins⟩
    exact (cmdHealthcheck_of_replied hreply).mpr hbegins

/-- Of the replies with a status those succeed that have the status 200. -/
theorem cmdHealthcheck_of_status {reply : Bytes} {status : ℕ}
    (hstatus : 100 ≤ status ∧ status < 1000) (hreply : Replied resolve exchange bind reply)
    (hbegins : toBytes (statusLine status) <+: reply) :
    cmdHealthcheck resolve exchange bind = 0 ↔ status = 200 := by
  rw [cmdHealthcheck_of_replied hreply]
  constructor
  · exact fun h ↦ statusLine_prefix_unique hstatus (by decide) hbegins h
  · exact fun h ↦ h ▸ hbegins

end Verdict

/-- The verdict is the status in the bytes of the reply.  A server answers a probe with the status
200 whatever dataset it serves and whenever it is asked, and does not count it. -/
theorem probe_verdict {Addr Error : Type} (resolve : String → Except Error (List Addr))
    (exchange : Addr → Except Error Bytes) (bind : String) :
    (cmdHealthcheck resolve exchange bind = 0 ↔
      ∃ reply, Replied resolve exchange bind reply ∧ toBytes (statusLine 200) <+: reply) ∧
    (∀ reply status, Replied resolve exchange bind reply → 100 ≤ status → status < 1000 →
      toBytes (statusLine status) <+: reply →
        (cmdHealthcheck resolve exchange bind = 0 ↔ status = 200)) ∧
    ∀ framework service elapsed uptime, ∃ response,
      probe.plan framework service elapsed uptime = .ok (.answer response []) ∧
      ∀ reply, Replied resolve exchange bind reply →
        toBytes (statusLine (probe.sent response).status) <+: reply →
          cmdHealthcheck resolve exchange bind = 0 := by
  refine ⟨cmdHealthcheck_eq_zero_iff, fun reply status hreply hmin hmax hbegins ↦
    cmdHealthcheck_of_status ⟨hmin, hmax⟩ hreply hbegins, fun framework service elapsed uptime ↦
    ⟨health, rfl, fun reply hreply hbegins ↦ ?_⟩⟩
  exact (cmdHealthcheck_of_replied hreply).mpr hbegins

/-- A server that is up but not ready, and whose reply is no text. -/
theorem probe_verdict_unavailable :
    cmdHealthcheck (fun _ ↦ (.ok ["127.0.0.1:8080"] : Except Unit (List String)))
      (fun _ ↦ .ok (toBytes "HTTP/1.1 503" ++ [0xC3, 0x28])) "0.0.0.0:8080" ≠ 0 := by
  intro h
  have hstatus := (probe_verdict (fun _ ↦ (.ok ["127.0.0.1:8080"] : Except Unit (List String)))
    (fun _ ↦ .ok (toBytes "HTTP/1.1 503" ++ [0xC3, 0x28])) "0.0.0.0:8080").2.1
    (toBytes "HTTP/1.1 503" ++ [0xC3, 0x28]) 503 ⟨_, _, rfl, rfl⟩ (by decide) (by decide)
    (List.prefix_append _ _)
  exact absurd (hstatus.mp h) (by decide)

end JustKV
