import TravelMode.Core.IpReading
import TravelMode.Daemon.ConntrackText

/-!
# What a flow's key says

A key is the protocol and the two ends of the flow, an end being an address and a port. The
colon between the two is also one of the characters of an IPv6 address, and is the last one of
the end; a hyphen is between the ends only.

- `endpoint_inj`: an end is told by its text, whatever the spelling of its address.
- `key_eq_iff`: a flow is told by its key.
-/

namespace TravelMode

namespace FlowKeys

open TextScan IpText

/-- The text of an end of a flow. -/
def endpoint (addr : IpAddr) (port : UInt16) : List Char :=
  addr.text ++ ':' :: Nat.toDigits 10 port.toNat

theorem text_inj {a b : IpAddr} (h : a.text = b.text) : a = b := by
  have hread := parseIpAddr_text a
  rw [h, parseIpAddr_text] at hread
  exact (Option.some.inj hread).symm

theorem dash_not_mem_text (addr : IpAddr) : '-' ∉ addr.text := fun hmem =>
  not_ipChar (by decide) (by decide) (by decide) (ipChar_text addr _ hmem)

theorem dash_not_mem_toDigits (n : Nat) : '-' ∉ Nat.toDigits 10 n := fun hmem =>
  absurd (Nat.isDigit_of_mem_toDigits (by decide) (by decide) hmem) (by decide)

theorem colon_not_mem_toDigits (n : Nat) : ':' ∉ Nat.toDigits 10 n := fun hmem =>
  absurd (Nat.isDigit_of_mem_toDigits (by decide) (by decide) hmem) (by decide)

theorem dash_not_mem_endpoint (addr : IpAddr) (port : UInt16) : '-' ∉ endpoint addr port := by
  intro hmem
  rcases List.mem_append.mp hmem with hmem | hmem
  · exact dash_not_mem_text addr hmem
  · rcases List.mem_cons.mp hmem with h | hmem
    · exact absurd h (by decide)
    · exact dash_not_mem_toDigits _ hmem

/-- The port is what follows the last colon, and the address is before it. -/
theorem endpoint_inj {a b : IpAddr} {p q : UInt16} (h : endpoint a p = endpoint b q) :
    a = b ∧ p = q := by
  have hdigits := congrArg (afterLast ':') h
  rw [endpoint, endpoint, afterLast_append _ (colon_not_mem_toDigits _),
    afterLast_append _ (colon_not_mem_toDigits _)] at hdigits
  have hport : p = q := UInt16.toNat_inj.mp (toDigits_inj hdigits)
  rw [hport, endpoint, endpoint, List.append_cancel_right_eq] at h
  exact ⟨text_inj h, hport⟩

theorem colon_not_mem_protoName (protocol : Protocol) : ':' ∉ protoName protocol := by
  cases protocol <;> decide

theorem dash_not_mem_protoName (protocol : Protocol) : '-' ∉ protoName protocol := by
  cases protocol <;> decide

theorem protoName_inj {p q : Protocol} (h : protoName p = protoName q) : p = q := by
  revert h
  cases p <;> cases q <;> decide

theorem key_eq (t : FlowTuple) : t.key = .ofList ((protoName t.protocol ++
    ':' :: endpoint t.localAddr t.localPort) ++ '-' :: endpoint t.remoteAddr t.remotePort) := by
  simp [FlowTuple.key, endpoint]

/-- The ends are apart at the hyphen, the protocol and the local end at the first colon. -/
theorem key_inj {t u : FlowTuple} (h : t.key = u.key) : t = u := by
  have hdash : ∀ t : FlowTuple, '-' ∉ protoName t.protocol ++
      ':' :: endpoint t.localAddr t.localPort := by
    intro t hmem
    rcases List.mem_append.mp hmem with hmem | hmem
    · exact dash_not_mem_protoName _ hmem
    · rcases List.mem_cons.mp hmem with h | hmem
      · exact absurd h (by decide)
      · exact dash_not_mem_endpoint _ _ hmem
  rw [key_eq, key_eq, String.ofList_inj] at h
  obtain ⟨hleft, hremote⟩ := splitOnce_inj (hdash t) (hdash u) h
  obtain ⟨hproto, hlocal⟩ := splitOnce_inj (colon_not_mem_protoName _)
    (colon_not_mem_protoName _) hleft
  obtain ⟨hlocalAddr, hlocalPort⟩ := endpoint_inj hlocal
  obtain ⟨hremoteAddr, hremotePort⟩ := endpoint_inj hremote
  obtain ⟨_, _, _, _, _⟩ := t
  obtain ⟨_, _, _, _, _⟩ := u
  rw [FlowTuple.mk.injEq]
  exact ⟨protoName_inj hproto, hlocalAddr, hlocalPort, hremoteAddr, hremotePort⟩

/-- **Keys identify flows**: the keys of two flows are equal exactly if protocol, addresses and
ports are; so it is with the flows of any two lines of the table. -/
theorem key_eq_iff :
    (∀ t u : FlowTuple, t.key = u.key ↔
      t.protocol = u.protocol ∧ t.localAddr = u.localAddr ∧ t.localPort = u.localPort ∧
        t.remoteAddr = u.remoteAddr ∧ t.remotePort = u.remotePort) ∧
    ∀ line line' f g, parseLine line = some f → parseLine line' = some g →
      (f.key = g.key ↔
        f.protocol = g.protocol ∧ f.localAddr = g.localAddr ∧ f.localPort = g.localPort ∧
          f.remoteAddr = g.remoteAddr ∧ f.remotePort = g.remotePort) := by
  have htuple : ∀ t u : FlowTuple, t.key = u.key ↔
      t.protocol = u.protocol ∧ t.localAddr = u.localAddr ∧ t.localPort = u.localPort ∧
        t.remoteAddr = u.remoteAddr ∧ t.remotePort = u.remotePort := by
    intro t u
    constructor
    · intro h
      rw [key_inj h]
      exact ⟨rfl, rfl, rfl, rfl, rfl⟩
    · rintro ⟨hproto, hlocalAddr, hlocalPort, hremoteAddr, hremotePort⟩
      rw [FlowTuple.key, FlowTuple.key, hproto, hlocalAddr, hlocalPort, hremoteAddr, hremotePort]
  refine ⟨htuple, fun line line' f g hf hg => ?_⟩
  rw [parseLine_key hf, parseLine_key hg]
  exact htuple f.tuple g.tuple

/-- A DNS query from `::1:2`, port 3. -/
def queryLine : List Char := "ipv6 10 udp 17 29 src=::1:2 dst=::9 sport=3 dport=53".toList

/-- A DNS query from `::1`, port 23. -/
def otherQueryLine : List Char := "ipv6 10 udp 17 29 src=::1 dst=::9 sport=23 dport=53".toList

/-- The two queries have different keys. -/
theorem key_eq_iff_queries :
    ∃ f g, parseLine queryLine = some f ∧ parseLine otherQueryLine = some g ∧ f.key ≠ g.key := by
  obtain ⟨f, hf⟩ : ∃ f, parseLine queryLine = some f :=
    Option.isSome_iff_exists.mp (by decide +kernel)
  obtain ⟨g, hg⟩ : ∃ g, parseLine otherQueryLine = some g :=
    Option.isSome_iff_exists.mp (by decide +kernel)
  have hport : (parseLine queryLine).map ParsedFlow.localPort ≠
      (parseLine otherQueryLine).map ParsedFlow.localPort := by decide +kernel
  refine ⟨f, g, hf, hg, fun hkey => hport ?_⟩
  obtain ⟨-, -, hlocalPort, -⟩ := (key_eq_iff.2 _ _ f g hf hg).mp hkey
  rw [hf, hg, Option.map_some, Option.map_some, hlocalPort]

end FlowKeys

end TravelMode
