import JustKV.Library.Replace
import JustKV.Library.Utf8

/-!
# Probing a running server

`healthcheck` is given the string the server was bound to and turns the two wildcard hosts into
loopback addresses.  It does so by replacing text anywhere in the string, so a host that merely
ends like a wildcard is rewritten as well.
-/

open Replace Utf8

namespace JustKV

/-- 0.0.0.0 is a bind address, not a destination. -/
def healthTarget (bind : String) : String :=
  strReplace "[::]:" "[::1]:" (strReplace "0.0.0.0:" "127.0.0.1:" bind)

section Command

variable {Addr Error : Type} (resolve : String → Except Error (List Addr))
  (exchange : Addr → Except Error (List UInt8))

/-- `exchange` connects, sends the request and reads until the server closes. -/
def cmdHealthcheck (bind : String) : UInt8 :=
  match resolve (healthTarget bind) with
  | .error _ => 1
  | .ok [] => 1
  | .ok (addr :: _) =>
    match exchange addr with
    | .error _ => 1
    | .ok reply =>
      if "HTTP/1.1 200".toList <+: (fromUtf8Lossy (reply.take 64)).toList then 0 else 1

end Command

/-- The host to contact for a server that is bound to `host`. -/
def destinationHost (host : String) : String :=
  if host = "0.0.0.0" then "127.0.0.1" else if host = "[::]" then "[::1]" else host

def Occurs (pattern text : String) : Prop := pattern.toList <:+: text.toList

instance (pattern text : String) : Decidable (Occurs pattern text) :=
  inferInstanceAs (Decidable (pattern.toList <:+: text.toList))

/-- The host is a wildcard, or neither wildcard occurs in it up to a colon. -/
def RewrittenWell (host : String) : Prop :=
  host = "0.0.0.0" ∨ host = "[::]" ∨
    ¬Occurs "0.0.0.0:" (host ++ ":") ∧ ¬Occurs "[::]:" (host ++ ":")

section Target

variable {host port : String}

theorem toList_healthTarget (bind : String) : (healthTarget bind).toList =
    replaceAll "[::]:".toList "[::1]:".toList
      (replaceAll "0.0.0.0:".toList "127.0.0.1:".toList bind.toList) := by
  rw [healthTarget, toList_strReplace, toList_strReplace]

/-- Both replacements are longer than their patterns, so they cannot undo each other. -/
theorem healthTarget_eq_self_iff (bind : String) :
    healthTarget bind = bind ↔ ¬Occurs "0.0.0.0:" bind ∧ ¬Occurs "[::]:" bind := by
  have hlonger : "0.0.0.0:".toList.length < "127.0.0.1:".toList.length := by decide
  have hlonger' : "[::]:".toList.length < "[::1]:".toList.length := by decide
  have hsame : healthTarget bind = bind ↔ (healthTarget bind).toList = bind.toList :=
    String.toList_inj.symm
  rw [hsame, toList_healthTarget]
  by_cases hfirst : Occurs "0.0.0.0:" bind
  · have hlt := length_lt_replaceAll hlonger (by decide) hfirst
    have hle := length_le_replaceAll hlonger'
      (replaceAll "0.0.0.0:".toList "127.0.0.1:".toList bind.toList)
    refine ⟨fun hself ↦ ?_, fun h ↦ absurd hfirst h.1⟩
    rw [hself] at hle
    exact absurd hle (not_le.mpr hlt)
  · rw [replaceAll_of_absent hfirst, replaceAll_eq_self_iff hlonger' (by decide)]
    exact (and_iff_right hfirst).symm

/-- An occurrence ends with a colon, so it does not reach into the port. -/
theorem occurs_bind_iff (hport : ':' ∉ port.toList) {pattern : String}
    (hpattern : pattern.toList ≠ []) (hlast : pattern.toList.getLast hpattern = ':') :
    Occurs pattern (host ++ ":" ++ port) ↔ Occurs pattern (host ++ ":") := by
  rw [Occurs, String.toList_append]
  exact infix_append_iff_of_getLast hpattern (hlast ▸ hport)

/-- A pattern that is the whole host gives way to its replacement; the other pattern, which occurs
in neither, changes nothing. -/
theorem healthTarget_ipv4 (hport : ':' ∉ port.toList) :
    healthTarget ("0.0.0.0" ++ ":" ++ port) = "127.0.0.1" ++ ":" ++ port := by
  have hfirst : ¬"0.0.0.0:".toList <:+: port.toList := fun h ↦ hport (h.subset (by decide))
  have hsecond : ¬Occurs "[::]:" ("127.0.0.1" ++ ":" ++ port) := by
    rw [occurs_bind_iff hport (by decide) (by decide)]
    decide
  apply String.toList_inj.mp
  calc
    _ = replaceAll "[::]:".toList "[::1]:".toList (replaceAll "0.0.0.0:".toList "127.0.0.1:".toList
        ("0.0.0.0:".toList ++ port.toList)) := by
      rw [toList_healthTarget, String.toList_append]
      rfl
    _ = replaceAll "[::]:".toList "[::1]:".toList ("127.0.0.1" ++ ":" ++ port).toList := by
      rw [replaceAll_append (by decide), replaceAll_of_absent hfirst, String.toList_append]
      rfl
    _ = ("127.0.0.1" ++ ":" ++ port).toList := replaceAll_of_absent hsecond

theorem healthTarget_ipv6 (hport : ':' ∉ port.toList) :
    healthTarget ("[::]" ++ ":" ++ port) = "[::1]" ++ ":" ++ port := by
  have hfirst : ¬Occurs "0.0.0.0:" ("[::]" ++ ":" ++ port) := by
    rw [occurs_bind_iff hport (by decide) (by decide)]
    decide
  have hsecond : ¬"[::]:".toList <:+: port.toList := fun h ↦ hport (h.subset (by decide))
  apply String.toList_inj.mp
  calc
    _ = replaceAll "[::]:".toList "[::1]:".toList ("[::]:".toList ++ port.toList) := by
      rw [toList_healthTarget, replaceAll_of_absent hfirst, String.toList_append]
      rfl
    _ = ("[::1]" ++ ":" ++ port).toList := by
      rw [replaceAll_append (by decide), replaceAll_of_absent hsecond, String.toList_append]
      rfl

/-- What happens to a bind string is decided by its host. -/
theorem healthTarget_bind_iff (hport : ':' ∉ port.toList) :
    healthTarget (host ++ ":" ++ port) = host ++ ":" ++ port ↔
      ¬Occurs "0.0.0.0:" (host ++ ":") ∧ ¬Occurs "[::]:" (host ++ ":") := by
  rw [healthTarget_eq_self_iff, occurs_bind_iff hport (by decide) (by decide),
    occurs_bind_iff hport (by decide) (by decide)]

theorem healthTarget_of_rewrittenWell (hport : ':' ∉ port.toList) (h : RewrittenWell host) :
    healthTarget (host ++ ":" ++ port) = destinationHost host ++ ":" ++ port := by
  rw [destinationHost]
  split
  case isTrue hipv4 =>
    subst hipv4
    exact healthTarget_ipv4 hport
  case isFalse hipv4 =>
    split
    case isTrue hipv6 =>
      subst hipv6
      exact healthTarget_ipv6 hport
    case isFalse hipv6 =>
      apply (healthTarget_bind_iff hport).mpr
      exact (h.resolve_left hipv4).resolve_left hipv6

/-- Of the hosts without a colon, which are the IPv4 addresses and the names, those are rewritten
that end like the wildcard. -/
theorem rewrittenWell_iff_of_no_colon (hhost : ':' ∉ host.toList) :
    RewrittenWell host ↔ host = "0.0.0.0" ∨ ¬"0.0.0.0".toList <:+ host.toList := by
  have hipv4 : Occurs "0.0.0.0:" (host ++ ":") ↔ "0.0.0.0".toList <:+ host.toList := by
    rw [Occurs, String.toList_append]
    exact infix_concat_iff_suffix "0.0.0.0".toList hhost
  have hipv6 : ¬Occurs "[::]:" (host ++ ":") := fun hoccurs ↦ by
    rw [Occurs, String.toList_append] at hoccurs
    have hsuffix := (infix_concat_iff_suffix "[::]".toList hhost).mp hoccurs
    exact hhost (hsuffix.subset (by decide))
  have hwildcard : host ≠ "[::]" := fun h ↦ hhost (h ▸ by decide)
  rw [RewrittenWell, hipv4, and_iff_left hipv6, or_iff_right hwildcard]

section Bracketed

/-! A bracketed address has its dotted part, if any, after the last colon. -/

variable {groups dotted : List Char} (hhost : host.toList = '[' :: (groups ++ dotted ++ [']']))

include hhost

theorem toList_bracketed :
    (host ++ ":").toList = '[' :: (groups ++ dotted ++ [']']) ++ [':'] := by
  rw [String.toList_append, hhost]
  rfl

theorem not_occurs_ipv4_of_bracketed (hgroups : '.' ∉ groups) (hdotted : ':' ∉ dotted) :
    ¬Occurs "0.0.0.0:" (host ++ ":") := by
  intro hoccurs
  rw [Occurs, toList_bracketed hhost, List.infix_concat_iff] at hoccurs
  rcases hoccurs with hsuffix | hfound
  · -- The bracket would stand before the last colon of the pattern.
    obtain ⟨init, hinit, hsuffix⟩ := (List.suffix_concat_iff.mp hsuffix).resolve_left (by decide)
    have hdigits : "0.0.0.0".toList ++ [':'] = init ++ [':'] := hinit
    obtain rfl := List.append_cancel_right hdigits
    rw [← List.cons_append] at hsuffix
    obtain ⟨front, hfront, _⟩ := (List.suffix_concat_iff.mp hsuffix).resolve_left (by decide)
    have hbracket : ']' ∈ "0.0.0.0".toList :=
      hfront ▸ List.mem_append_right front List.mem_cons_self
    exact absurd hbracket (by decide)
  · -- The last colon of the address stands before its dots.
    have hsplit : '[' :: (groups ++ dotted ++ [']']) = '[' :: groups ++ (dotted ++ [']']) := by simp
    rw [hsplit, infix_append_iff_of_getLast (by decide) (by simpa using hdotted)] at hfound
    have hdot : '.' ∈ '[' :: groups := hfound.subset (by decide)
    exact hgroups (by simpa using hdot)

theorem eq_wildcard_of_occurs (hopen : '[' ∉ groups ++ dotted) (hclose : ']' ∉ groups ++ dotted)
    (hoccurs : Occurs "[::]:" (host ++ ":")) : host = "[::]" := by
  rw [Occurs, toList_bracketed hhost, List.cons_append, List.infix_cons_iff] at hoccurs
  rcases hoccurs with hstart | hfound
  · -- Both texts go up to the first closing bracket.
    apply String.toList_inj.mp
    rw [hhost]
    generalize groups ++ dotted = inner at hclose hstart
    have hinner : ['[', ':', ':', ']', ':'] <+: '[' :: (inner ++ [']'] ++ [':']) := hstart
    match inner with
    | [] => simp at hinner
    | [_] => simp at hinner
    | [a, b] =>
      obtain ⟨rfl, rfl⟩ : ':' = a ∧ ':' = b := by simpa using hinner
      rfl
    | a :: b :: c :: rest =>
      obtain ⟨_, _, rfl, _⟩ : ':' = a ∧ ':' = b ∧ ']' = c ∧ [':'] <+: rest ++ [']', ':'] := by
        simpa using hinner
      simp at hclose
  · have hbracket : '[' ∈ groups ++ dotted ++ [']'] ++ [':'] := hfound.subset (by decide)
    exact absurd (by simpa using hbracket) hopen

/-- No bracketed address is rewritten but the wildcard. -/
theorem rewrittenWell_of_bracketed (hgroups : '.' ∉ groups) (hdotted : ':' ∉ dotted)
    (hopen : '[' ∉ groups ++ dotted) (hclose : ']' ∉ groups ++ dotted) : RewrittenWell host := by
  by_cases hwildcard : host = "[::]"
  · exact Or.inr (Or.inl hwildcard)
  · have hipv4 := not_occurs_ipv4_of_bracketed hhost hgroups hdotted
    have hipv6 : ¬Occurs "[::]:" (host ++ ":") := fun hoccurs ↦
      hwildcard (eq_wildcard_of_occurs hhost hopen hclose hoccurs)
    exact Or.inr (Or.inr ⟨hipv4, hipv6⟩)

end Bracketed

end Target

/-- The target is the address to contact exactly if no wildcard occurs in a longer host. -/
theorem healthTarget_eq_destination_iff (host port : String) (hport : ':' ∉ port.toList) :
    healthTarget (host ++ ":" ++ port) = destinationHost host ++ ":" ++ port ↔
      RewrittenWell host := by
  refine ⟨fun h ↦ ?_, healthTarget_of_rewrittenWell hport⟩
  by_contra hbad
  rw [RewrittenWell, not_or, not_or] at hbad
  obtain ⟨hipv4, hipv6, hoccurs⟩ := hbad
  -- Both replacements lengthen the string, and another host is to be left alone.
  rw [destinationHost, if_neg hipv4, if_neg hipv6] at h
  exact hoccurs ((healthTarget_bind_iff hport).mp h)

/-- An address of the network 10.0.0.0, for which nothing should change. -/
theorem healthTarget_eq_destination_iff_ipv4 :
    healthTarget ("10.0.0.1" ++ ":" ++ "8080") = destinationHost "10.0.0.1" ++ ":" ++ "8080" :=
  (healthTarget_eq_destination_iff "10.0.0.1" "8080" (by decide)).mpr
    (Or.inr (Or.inr ⟨by decide, by decide⟩))

/-- The first address of that network is probed at a host that is no address at all. -/
theorem healthTarget_ends_like_wildcard :
    healthTarget ("10.0.0.0" ++ ":" ++ "8080") = "1127.0.0.1:8080" ∧
      destinationHost "10.0.0.0" ++ ":" ++ "8080" = "10.0.0.0:8080" ∧
      ¬∀ host port : String, ':' ∉ port.toList →
        healthTarget (host ++ ":" ++ port) = destinationHost host ++ ":" ++ port := by
  refine ⟨by decide, by decide, fun h ↦ ?_⟩
  exact absurd (h "10.0.0.0" "8080" (by decide)) (by decide)

end JustKV
