import TravelMode.Daemon.ConntrackText

/-!
# What a line of the conntrack table says

The first group of pairs of a line is the original direction. `valueOf` is the first value a
key has among words, and `Reads` says what the loop of `parse_line` knows of it.

- `reads_foldl`: in the original direction the loop knows the first value of every key, and
  what it knows it has from there.
- `foldl_reply`: in the reply direction it learns the bytes only.
- `first_pairs_iff`: a flow is named by the first pairs of its line, unless one of them
  stands in the place of a leading field.
-/

namespace TravelMode

open TextScan

namespace ConntrackLines

/-! ## Values of keys -/

/-- The value of the pair `token`, if `k` is its key. -/
def fieldOf (k : List Char) (token : List Char) : Option (List Char) :=
  (splitOnce '=' token).bind fun (k', v) => if k' = k then some v else none

/-- The first value of the key `k`. -/
def valueOf (k : List Char) (tokens : List (List Char)) : Option (List Char) :=
  tokens.findSome? (fieldOf k)

/-- The first bytes that can be parsed. -/
def bytesOf (tokens : List (List Char)) : Option Nat :=
  tokens.findSome? fun t => (fieldOf "bytes".toList t).bind parseBytes

theorem fieldOf_none {k token : List Char} (h : splitOnce '=' token = none) :
    fieldOf k token = none := by
  rw [fieldOf, h]
  rfl

theorem fieldOf_some {k k' v token : List Char} (h : splitOnce '=' token = some (k', v)) :
    fieldOf k token = if k' = k then some v else none := by
  rw [fieldOf, h]
  rfl

theorem valueOf_append (k : List Char) (ts us : List (List Char)) :
    valueOf k (ts ++ us) = (valueOf k ts).or (valueOf k us) :=
  List.findSome?_append

theorem bytesOf_append (ts us : List (List Char)) :
    bytesOf (ts ++ us) = (bytesOf ts).or (bytesOf us) :=
  List.findSome?_append

theorem valueOf_cons (k t : List Char) (ts : List (List Char)) :
    valueOf k (t :: ts) = (fieldOf k t).or (valueOf k ts) := by
  rw [valueOf, List.findSome?_cons]
  cases fieldOf k t <;> rfl

theorem bytesOf_cons (t : List Char) (ts : List (List Char)) :
    bytesOf (t :: ts) = ((fieldOf "bytes".toList t).bind parseBytes).or (bytesOf ts) := by
  rw [bytesOf, List.findSome?_cons]
  cases (fieldOf "bytes".toList t).bind parseBytes <;> rfl

theorem valueOf_singleton (k t : List Char) : valueOf k [t] = fieldOf k t :=
  (valueOf_cons k t []).trans Option.or_none

theorem bytesOf_singleton (t : List Char) :
    bytesOf [t] = (fieldOf "bytes".toList t).bind parseBytes :=
  (bytesOf_cons t []).trans Option.or_none

/-! ## The loop -/

/-- A word that is no pair is passed over. -/
theorem visit_noPair {p : Pairs} {t : List Char} (h : splitOnce '=' t = none) : p.visit t = p := by
  rw [Pairs.visit, h]

/-- The first words of the pairs of a TCP line are passed over with the others. -/
theorem foldl_skipState (protocol : Protocol) (tokens : List (List Char)) (p : Pairs) :
    (skipState protocol tokens).foldl Pairs.visit p = tokens.foldl Pairs.visit p := by
  unfold skipState
  split
  · split
    · rfl
    · rename_i t rest h
      rw [List.foldl_cons, visit_noPair (splitOnce_eq_none h)]
  · rfl

/-- What the loop knows after `tokens`. -/
structure Reads (p : Pairs) (tokens : List (List Char)) : Prop where
  /-- In the original direction it has the first value of every key. -/
  orig : p.inReply = false → ∀ k, k ≠ "bytes".toList → p.orig.get? k = valueOf k tokens
  bytes : p.inReply = false → p.origBytes = bytesOf tokens
  reply : p.inReply = false → p.replyBytes = none
  /-- In both directions it has first values only. -/
  first : ∀ k v, k ≠ "bytes".toList → p.orig.get? k = some v → valueOf k tokens = some v

theorem reads_empty : Reads .empty [] where
  orig := fun _ _ _ => rfl
  bytes := fun _ => rfl
  reply := fun _ => rfl
  first := fun _ _ _ h => nomatch h

/-- In the original direction, the first value is what the pairs know. -/
theorem reads_of_orig {p : Pairs} {tokens : List (List Char)}
    (orig : ∀ k, k ≠ "bytes".toList → p.orig.get? k = valueOf k tokens)
    (bytes : p.origBytes = bytesOf tokens) (reply : p.replyBytes = none) : Reads p tokens where
  orig := fun _ => orig
  bytes := fun _ => bytes
  reply := fun _ => reply
  first := fun k v hk hv => by rw [← orig k hk, hv]

/-- A pair of the reply. -/
theorem pair_reply {p : Pairs} (h : p.inReply = true) (k v : List Char) : p.pair k v =
    { p with replyBytes := p.replyBytes.or (if k = "bytes".toList then parseBytes v else none) } := by
  obtain ⟨orig, origBytes, replyBytes, inReply⟩ := p
  rw [Pairs.pair, if_pos h]
  dsimp only
  by_cases hk : k = "bytes".toList
  · cases replyBytes with
    | none => rw [if_pos ⟨hk, rfl⟩, if_pos hk, Option.none_or]
    | some n =>
      rw [if_neg fun hne => nomatch hne.2]
      rfl
  · rw [if_neg fun hb => hk hb.1, if_neg hk, Option.or_none]

theorem inReply_pair (p : Pairs) (k v : List Char) : (p.pair k v).inReply = p.inReply := by
  unfold Pairs.pair
  split_ifs <;> rfl

/-- A pair of the original direction. -/
theorem reads_pair {p : Pairs} {tokens : List (List Char)} (h : Reads p tokens)
    (hreply : p.inReply = false) {t k v : List Char} (ht : splitOnce '=' t = some (k, v)) :
    Reads (p.pair k v) (tokens ++ [t]) := by
  have hkey : ∀ k', k' ≠ "bytes".toList →
      valueOf k' (tokens ++ [t]) = (p.orig.get? k').or (if k = k' then some v else none) := by
    intro k' hk'
    rw [valueOf_append, valueOf_singleton, fieldOf_some ht, h.orig hreply k' hk']
  have hbytes : bytesOf (tokens ++ [t]) =
      p.origBytes.or (if k = "bytes".toList then parseBytes v else none) := by
    rw [bytesOf_append, bytesOf_singleton, fieldOf_some ht, h.bytes hreply]
    split <;> rfl
  rw [Pairs.pair, if_neg (by simp [hreply])]
  by_cases hk : k = "bytes".toList
  · -- the bytes of the direction, unless they are known
    rw [if_pos hk]
    have horig : ∀ k', k' ≠ "bytes".toList → p.orig.get? k' = valueOf k' (tokens ++ [t]) := by
      intro k' hk'
      rw [hkey k' hk', if_neg fun he : k = k' => hk' (he ▸ hk), Option.or_none]
    rw [if_pos hk] at hbytes
    split
    · rename_i hnone
      rw [hnone, Option.none_or] at hbytes
      exact reads_of_orig horig hbytes.symm (h.reply hreply)
    · rename_i hsome
      obtain ⟨n, hn⟩ := Option.ne_none_iff_exists'.mp hsome
      rw [hn, Option.some_or, ← hn] at hbytes
      exact reads_of_orig horig hbytes.symm (h.reply hreply)
  · rw [if_neg hk]
    rw [if_neg hk, Option.or_none] at hbytes
    by_cases hknown : (p.orig.get? k).isSome
    · -- a key counts once
      rw [if_pos hknown]
      refine reads_of_orig ?_ hbytes.symm (h.reply hreply)
      intro k' hk'
      rw [hkey k' hk']
      by_cases he : k = k'
      · subst he
        obtain ⟨w, hw⟩ := Option.isSome_iff_exists.mp hknown
        rw [hw, Option.some_or]
      · rw [if_neg he, Option.or_none]
    · rw [if_neg hknown]
      refine reads_of_orig ?_ hbytes.symm (h.reply hreply)
      intro k' hk'
      show (p.orig.insert k v).get? k' = _
      rw [hkey k' hk']
      by_cases he : k = k'
      · subst he
        rw [KeyedMap.get?_insert_self, if_pos rfl, Option.not_isSome_iff_eq_none.mp hknown,
          Option.none_or]
      · rw [KeyedMap.get?_insert_of_ne (Ne.symm he), if_neg he, Option.or_none]

/-- The step of the loop: the second `src` starts the reply, and what comes then is not of
the original direction. -/
theorem Reads.visit {p : Pairs} {tokens : List (List Char)} (h : Reads p tokens) (t : List Char) :
    Reads (p.visit t) (tokens ++ [t]) := by
  cases ht : splitOnce '=' t with
  | none =>
    -- a word that is no pair leaves everything
    rw [visit_noPair ht]
    have hvalue : ∀ k, valueOf k (tokens ++ [t]) = valueOf k tokens := by
      intro k
      rw [valueOf_append, valueOf_singleton, fieldOf_none ht, Option.or_none]
    have hbytes : bytesOf (tokens ++ [t]) = bytesOf tokens := by
      rw [bytesOf_append, bytesOf_singleton, fieldOf_none ht, Option.bind_none, Option.or_none]
    refine ⟨fun hr k hk => ?_, fun hr => ?_, h.reply, fun k v hk hv => ?_⟩
    · rw [hvalue, h.orig hr k hk]
    · rw [hbytes, h.bytes hr]
    · rw [hvalue, h.first k v hk hv]
  | some kv =>
    obtain ⟨k, v⟩ := kv
    rw [Pairs.visit, ht]
    dsimp only
    cases hr : p.inReply || decide (k = "src".toList ∧ (p.orig.get? "src".toList).isSome) with
    | true =>
      rw [pair_reply rfl]
      refine ⟨fun hr' => (nomatch hr'), fun hr' => (nomatch hr'), fun hr' => (nomatch hr'), ?_⟩
      intro k' v' hk' hv'
      rw [valueOf_append, h.first k' v' hk' hv', Option.some_or]
    | false =>
      have hreply : p.inReply = false := (Bool.or_eq_false_iff.mp hr).1
      rw [← hreply]
      exact reads_pair h hreply ht

theorem reads_foldl (tokens : List (List Char)) : Reads (tokens.foldl Pairs.visit .empty) tokens := by
  induction tokens using List.reverseRecOn with
  | nil => exact reads_empty
  | append_singleton tokens t ih =>
    rw [List.foldl_append]
    exact ih.visit t

/-- In the reply, the first bytes are what is still read. -/
theorem foldl_reply {p : Pairs} (h : p.inReply = true) (tokens : List (List Char)) :
    tokens.foldl Pairs.visit p = { p with replyBytes := p.replyBytes.or (bytesOf tokens) } := by
  induction tokens generalizing p with
  | nil =>
    show p = { p with replyBytes := p.replyBytes.or none }
    rw [Option.or_none]
  | cons t tokens ih =>
    have hvisit : p.visit t =
        { p with replyBytes := p.replyBytes.or ((fieldOf "bytes".toList t).bind parseBytes) } := by
      cases ht : splitOnce '=' t with
      | none => rw [visit_noPair ht, fieldOf_none ht, Option.bind_none, Option.or_none]
      | some kv =>
        obtain ⟨k, v⟩ := kv
        rw [Pairs.visit, ht]
        dsimp only
        rw [h, Bool.true_or, pair_reply rfl, fieldOf_some ht, ← h]
        split <;> rfl
    have hreply : (p.visit t).inReply = true := by
      rw [hvisit]
      exact h
    rw [List.foldl_cons, ih hreply, hvisit, bytesOf_cons, ← Option.or_assoc]

/-- Without another `src` the direction stays. -/
theorem foldl_noSrc {p : Pairs} {tokens : List (List Char)}
    (h : ∀ t ∈ tokens, fieldOf "src".toList t = none) :
    (tokens.foldl Pairs.visit p).inReply = p.inReply := by
  induction tokens generalizing p with
  | nil => rfl
  | cons t tokens ih =>
    rw [List.foldl_cons, ih fun u hu => h u (List.mem_cons_of_mem _ hu)]
    cases ht : splitOnce '=' t with
    | none => rw [visit_noPair ht]
    | some kv =>
      obtain ⟨k, v⟩ := kv
      have hk : k ≠ "src".toList := by
        intro hk
        have hfield := h t List.mem_cons_self
        rw [fieldOf_some ht, if_pos hk] at hfield
        cases hfield
      rw [Pairs.visit, ht]
      dsimp only
      rw [inReply_pair, decide_eq_false fun hagain => hk hagain.1, Bool.or_false]

/-! ## The first pairs of a line -/

/-- `v.parse::<u16>().ok()` -/
def parsePort (v : List Char) : Option UInt16 := (fromStrRadix 10 65536 v).map UInt16.ofNat

/-- The flow is named by the first pair of every key. -/
structure Named (f : ParsedFlow) (words : List (List Char)) : Prop where
  src : (valueOf "src".toList words).bind parseIpAddr = some f.localAddr
  dst : (valueOf "dst".toList words).bind parseIpAddr = some f.remoteAddr
  sport : (valueOf "sport".toList words).bind parsePort = some f.localPort
  dport : (valueOf "dport".toList words).bind parsePort = some f.remotePort

/-- A pair with the key `k` in the place of a leading field, if there is one, reads as the
first pair after the leading fields. -/
def Agrees {α : Type} (read : List Char → Option α) (k : List Char) (words : List (List Char)) :
    Prop :=
  ∀ v, valueOf k (words.take 5) = some v → read v = (valueOf k (words.drop 5)).bind read

/-- No pair that names a flow stands in the place of a leading field, unless it makes no
difference. -/
structure HeaderAgrees (words : List (List Char)) : Prop where
  src : Agrees parseIpAddr "src".toList words
  dst : Agrees parseIpAddr "dst".toList words
  sport : Agrees parsePort "sport".toList words
  dport : Agrees parsePort "dport".toList words

theorem agrees_of_none {α : Type} {read : List Char → Option α} {k : List Char}
    {words : List (List Char)} (h : valueOf k (words.take 5) = none) : Agrees read k words := by
  intro v hv
  rw [h] at hv
  cases hv

theorem value_iff_agrees {α : Type} {read : List Char → Option α} {k : List Char}
    {words : List (List Char)} {a : α} (h : (valueOf k (words.drop 5)).bind read = some a) :
    (valueOf k words).bind read = some a ↔ Agrees read k words := by
  have hsplit : valueOf k words = (valueOf k (words.take 5)).or (valueOf k (words.drop 5)) := by
    rw [← valueOf_append, List.take_append_drop]
  rw [hsplit]
  cases hv : valueOf k (words.take 5) with
  | none =>
    rw [Option.none_or]
    exact ⟨fun _ => agrees_of_none hv, fun _ => h⟩
  | some v =>
    rw [Option.some_or, Option.bind_some]
    constructor
    · intro hread w hw
      rw [hv] at hw
      cases hw
      rw [hread, h]
    · intro hagrees
      rw [hagrees v hv, h]

/-- A field of a flow is read from the first pair after the leading fields. -/
theorem reads_field {α : Type} {read : List Char → Option α} {k : List Char} {p : Pairs}
    {tokens : List (List Char)} (h : Reads p tokens) (hk : k ≠ "bytes".toList) {a : α}
    (ha : (p.orig.get? k).bind read = some a) : (valueOf k tokens).bind read = some a := by
  obtain ⟨v, hv, hread⟩ := Option.bind_eq_some_iff.mp ha
  rw [h.first k v hk hv]
  exact hread

/-- The flow of a line is named by the first pairs after the leading fields. -/
theorem named_drop {line : List Char} {f : ParsedFlow} (h : parseLine line = some f) :
    Named f ((splitWhitespace line).drop 5) := by
  unfold parseLine at h
  split at h
  · rename_i l3 l3num proto l4num timeout tokens hwords
    obtain ⟨protocol, -, h⟩ := Option.bind_eq_some_iff.mp h
    rw [foldl_skipState] at h
    obtain ⟨localAddr, hsrc, h⟩ := Option.bind_eq_some_iff.mp h
    obtain ⟨remoteAddr, hdst, h⟩ := Option.bind_eq_some_iff.mp h
    obtain ⟨localPort, hsport, h⟩ := Option.bind_eq_some_iff.mp h
    obtain ⟨remotePort, hdport, rfl⟩ := Option.map_eq_some_iff.mp h
    have hreads := reads_foldl tokens
    rw [hwords]
    exact ⟨reads_field hreads (by decide) hsrc, reads_field hreads (by decide) hdst,
      reads_field hreads (by decide) hsport, reads_field hreads (by decide) hdport⟩
  · cases h

/-- The flow that is read from a line is the one its first pairs name, exactly when the
leading fields hold none of them. -/
theorem first_pairs_iff {line : List Char} {f : ParsedFlow} (h : parseLine line = some f) :
    Named f (splitWhitespace line) ↔ HeaderAgrees (splitWhitespace line) := by
  have hrest := named_drop h
  constructor
  · intro hnamed
    exact ⟨(value_iff_agrees hrest.src).mp hnamed.src, (value_iff_agrees hrest.dst).mp hnamed.dst,
      (value_iff_agrees hrest.sport).mp hnamed.sport,
      (value_iff_agrees hrest.dport).mp hnamed.dport⟩
  · intro hagrees
    exact ⟨(value_iff_agrees hrest.src).mpr hagrees.src,
      (value_iff_agrees hrest.dst).mpr hagrees.dst,
      (value_iff_agrees hrest.sport).mpr hagrees.sport,
      (value_iff_agrees hrest.dport).mpr hagrees.dport⟩

/-- A UDP line with all of its leading fields. -/
def dnsLine : List Char :=
  ("ipv4 2 udp 17 29 src=10.0.0.5 dst=10.0.0.1 sport=53312 dport=53 " ++
    "src=10.0.0.1 dst=10.0.0.5 sport=53 dport=53312").toList

theorem dnsLine_words : splitWhitespace dnsLine =
    ["ipv4", "2", "udp", "17", "29", "src=10.0.0.5", "dst=10.0.0.1", "sport=53312", "dport=53",
      "src=10.0.0.1", "dst=10.0.0.5", "sport=53", "dport=53312"].map String.toList := by
  decide +kernel

def dnsFlow : ParsedFlow where
  key := "udp:10.0.0.5:53312-10.0.0.1:53"
  protocol := .udp
  localAddr := .v4 ⟨10, 0, 0, 5⟩
  localPort := 53312
  remoteAddr := .v4 ⟨10, 0, 0, 1⟩
  remotePort := 53
  sent := 0
  recv := 0

theorem dnsLine_flow : parseLine dnsLine = some dnsFlow := by
  rw [parseLine, dnsLine_words]
  decide +kernel

theorem dnsLine_header (k : String) (h : k ∈ ["src", "dst", "sport", "dport"]) :
    valueOf k.toList ((splitWhitespace dnsLine).take 5) = none := by
  rw [dnsLine_words]
  revert k
  decide +kernel

theorem first_pairs_iff_dns : Named dnsFlow (splitWhitespace dnsLine) :=
  (first_pairs_iff dnsLine_flow).mpr
    ⟨agrees_of_none (dnsLine_header "src" (by decide)),
      agrees_of_none (dnsLine_header "dst" (by decide)),
      agrees_of_none (dnsLine_header "sport" (by decide)),
      agrees_of_none (dnsLine_header "dport" (by decide))⟩

/-- The line of an offloaded flow, which has no timeout. -/
def offloadedLine : List Char :=
  ("ipv4 2 tcp 6 src=10.0.0.2 dst=1.1.1.1 sport=51234 dport=443 " ++
    "src=1.1.1.1 dst=10.0.0.2 sport=443 dport=51234 [OFFLOAD]").toList

theorem offloadedLine_words : splitWhitespace offloadedLine =
    ["ipv4", "2", "tcp", "6", "src=10.0.0.2", "dst=1.1.1.1", "sport=51234", "dport=443",
      "src=1.1.1.1", "dst=10.0.0.2", "sport=443", "dport=51234", "[OFFLOAD]"].map
      String.toList := by
  decide +kernel

/-- An offloaded flow is said to be from the address that it goes to. -/
theorem offloadedLine_mixed :
    ¬∀ line f, parseLine line = some f → Named f (splitWhitespace line) := by
  intro h
  have hparse : (parseLine offloadedLine).map ParsedFlow.localAddr = some (.v4 ⟨1, 1, 1, 1⟩) := by
    rw [parseLine, offloadedLine_words]
    decide +kernel
  have hsrc : (valueOf "src".toList (splitWhitespace offloadedLine)).bind parseIpAddr =
      some (.v4 ⟨10, 0, 0, 2⟩) := by
    rw [offloadedLine_words]
    decide +kernel
  obtain ⟨f, hf, hlocal⟩ := Option.map_eq_some_iff.mp hparse
  have hnamed := (h offloadedLine f hf).src
  rw [hsrc, hlocal] at hnamed
  exact absurd hnamed (by decide)

end ConntrackLines

end TravelMode
