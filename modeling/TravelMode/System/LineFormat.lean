import TravelMode.Core.IpReading
import TravelMode.System.ConntrackLines

/-!
# The format of the conntrack table

`Prints` is the format of a line, as the module documentation of the tracker gives it: the
leading fields, the original direction, the reply, and further pairs, with white space
between the words and flags anywhere after the timeout.

- `WithFlags`: flags between words; no key has a value in them (`valueOf_withFlags`).
- `parseLine_prints`: a line is read back, each counter in its own direction.
-/

namespace TravelMode

open TextScan

namespace ConntrackLines

/-! ## Words -/

/-- The word `k=v`. -/
def pair (k : String) (v : List Char) : List Char := k.toList ++ '=' :: v

/-- A flag: `[ASSURED]`, `[UNREPLIED]`, etc. -/
def IsFlag (w : List Char) : Prop := IsWord w ∧ ∃ name, w = '[' :: name ++ [']']

/-- `body` is `core` with flags between its words. -/
inductive WithFlags : List (List Char) → List (List Char) → Prop
  | nil : WithFlags [] []
  | word (w : List Char) {core body : List (List Char)} (h : WithFlags core body) :
      WithFlags (w :: core) (w :: body)
  | flag {w : List Char} (hw : IsFlag w) {core body : List (List Char)} (h : WithFlags core body) :
      WithFlags core (w :: body)

/-- One direction of a flow, and how its addresses are spelled. The counters are there when
accounting is on. -/
structure Direction where
  spelling : Spelling
  src : IpAddr
  dst : IpAddr
  sport : UInt16
  dport : UInt16
  packets : Option UInt64
  bytes : Option UInt64

/-- A counter. -/
def counter (k : String) (n : Option UInt64) : List (List Char) :=
  (n.map fun n => pair k (Nat.toDigits 10 n.toNat)).toList

/-- The pairs of a direction after its `src`. -/
def Direction.rest (d : Direction) : List (List Char) :=
  pair "dst" (d.dst.spell d.spelling) :: pair "sport" (Nat.toDigits 10 d.sport.toNat) ::
    pair "dport" (Nat.toDigits 10 d.dport.toNat) ::
    (counter "packets" d.packets ++ counter "bytes" d.bytes)

def Direction.words (d : Direction) : List (List Char) :=
  pair "src" (d.src.spell d.spelling) :: d.rest

/-- A pair after the two directions. -/
def IsExtra (w : List Char) : Prop :=
  IsWord w ∧ ∃ k v, splitOnce '=' w = some (k, v) ∧ k ≠ "src".toList ∧ k ≠ "bytes".toList

/-- What a line of the table is about. -/
structure Entry where
  l3 : List Char
  l3num : List Char
  protocol : Protocol
  l4num : List Char
  timeout : List Char
  state : Option (List Char)
  orig : Direction
  reply : Direction
  extra : List (List Char)
  l3_word : IsWord l3
  l3num_word : IsWord l3num
  protocol_ne : protocol ≠ .other
  l4num_word : IsWord l4num
  timeout_word : IsWord timeout
  state_word : ∀ w ∈ state, IsWord w ∧ '=' ∉ w
  extra_pair : ∀ w ∈ extra, IsExtra w

namespace Entry

/-- The leading fields. -/
def header (e : Entry) : List (List Char) :=
  [e.l3, e.l3num, protoName e.protocol, e.l4num, e.timeout]

/-- What is after the timeout, without flags. -/
def core (e : Entry) : List (List Char) :=
  e.state.toList ++ e.orig.words ++ e.reply.words ++ e.extra

/-- The flow of an entry: the tuple of the original direction, the bytes of both. -/
def flow (e : Entry) : ParsedFlow where
  key := FlowTuple.key ⟨e.protocol, e.orig.src, e.orig.sport, e.orig.dst, e.orig.dport⟩
  protocol := e.protocol
  localAddr := e.orig.src
  localPort := e.orig.sport
  remoteAddr := e.orig.dst
  remotePort := e.orig.dport
  sent := (e.orig.bytes.map UInt64.toNat).getD 0
  recv := (e.reply.bytes.map UInt64.toNat).getD 0

/-- `line` is a line of the table for the entry. -/
def Prints (e : Entry) (line : List Char) : Prop :=
  ∃ (body : List (List Char)) (words : List (List Char × List Char)) (last : List Char),
    WithFlags e.core body ∧ words.map Prod.snd = e.header ++ body ∧
      (∀ w ∈ words, IsBlank w.1) ∧ (∀ w ∈ words.tail, w.1 ≠ []) ∧ IsBlank last ∧
      line = spaced words last

end Entry

/-! ## Pairs -/

theorem splitOnce_pair {k : String} (hk : '=' ∉ k.toList) (v : List Char) :
    splitOnce '=' (pair k v) = some (k.toList, v) :=
  splitOnce_append hk v

theorem fieldOf_pair {k : String} (hk : '=' ∉ k.toList) (k' v : List Char) :
    fieldOf k' (pair k v) = if k.toList = k' then some v else none :=
  fieldOf_some (splitOnce_pair hk v)

theorem isWord_pair {k : String} (hk : IsWord k.toList) {v : List Char}
    (hv : ∀ c ∈ v, isWhitespace c = false) : IsWord (pair k v) := by
  refine ⟨by simp [pair], fun c hc => ?_⟩
  rcases List.mem_append.mp hc with hc | hc
  · exact hk.2 c hc
  · rcases List.mem_cons.mp hc with rfl | hc
    · decide
    · exact hv c hc

/-! ## Flags -/

theorem IsFlag.fieldOf_none {w : List Char} (h : IsFlag w) {k : List Char}
    (hk : k.head? ≠ some '[') : fieldOf k w = none := by
  obtain ⟨-, name, hw⟩ := h
  cases hsplit : splitOnce '=' w with
  | none => exact ConntrackLines.fieldOf_none hsplit
  | some kv =>
    obtain ⟨k', v⟩ := kv
    rw [fieldOf_some hsplit, if_neg]
    rintro rfl
    -- the key of a flag, if it has one, starts as the flag does
    obtain ⟨happend, -⟩ := splitOnce_eq_some hsplit
    rw [hw] at happend
    cases k' with
    | nil => cases happend
    | cons c k' =>
      injection happend with hc
      exact hk (by rw [← hc]; rfl)

/-- Flags have no value of a key. -/
theorem valueOf_withFlags {k : List Char} (hk : k.head? ≠ some '[') {core body : List (List Char)}
    (h : WithFlags core body) : valueOf k body = valueOf k core := by
  induction h with
  | nil => rfl
  | word w h ih => rw [valueOf_cons, ih, valueOf_cons]
  | flag hw h ih => rw [valueOf_cons, hw.fieldOf_none hk, Option.none_or, ih]

theorem bytesOf_withFlags {core body : List (List Char)} (h : WithFlags core body) :
    bytesOf body = bytesOf core := by
  induction h with
  | nil => rfl
  | word w h ih => rw [bytesOf_cons, ih, bytesOf_cons]
  | flag hw h ih =>
    rw [bytesOf_cons, hw.fieldOf_none (by decide), Option.bind_none, Option.none_or, ih]

theorem noField_withFlags {k : List Char} (hk : k.head? ≠ some '[') {core body : List (List Char)}
    (h : WithFlags core body) (hcore : ∀ t ∈ core, fieldOf k t = none) :
    ∀ t ∈ body, fieldOf k t = none := by
  rw [← List.findSome?_eq_none_iff] at hcore ⊢
  exact (valueOf_withFlags hk h).trans hcore

/-- A word of the core separates the body. -/
theorem WithFlags.split {xs ys body : List (List Char)} {w : List Char}
    (h : WithFlags (xs ++ w :: ys) body) :
    ∃ a b, body = a ++ w :: b ∧ WithFlags xs a ∧ WithFlags ys b := by
  generalize hcore : xs ++ w :: ys = core at h
  induction h generalizing xs with
  | nil => exact absurd hcore (by simp)
  | word w' h ih =>
    rename_i core body
    cases xs with
    | nil =>
      cases hcore
      exact ⟨[], _, rfl, .nil, h⟩
    | cons x xs =>
      cases hcore
      obtain ⟨a, b, rfl, ha, hb⟩ := ih rfl
      exact ⟨w' :: a, b, rfl, .word w' ha, hb⟩
  | flag hw h ih =>
    rename_i w' core body
    obtain ⟨a, b, rfl, ha, hb⟩ := ih hcore
    exact ⟨w' :: a, b, rfl, .flag hw ha, hb⟩

/-! ## The loop over a line -/

/-- The second `src` separates the directions. -/
theorem foldl_directions {a b c : List (List Char)} {s s' v v' : List Char}
    (ha : ∀ t ∈ a, fieldOf "src".toList t = none) (hs : splitOnce '=' s = some ("src".toList, v))
    (hb : ∀ t ∈ b, fieldOf "src".toList t = none)
    (hs' : splitOnce '=' s' = some ("src".toList, v')) :
    ∃ p, (a ++ s :: (b ++ s' :: c)).foldl Pairs.visit .empty = p ∧
      (∀ k, k ≠ "bytes".toList → p.orig.get? k = valueOf k (a ++ s :: b)) ∧
      p.origBytes = bytesOf (a ++ s :: b) ∧ p.replyBytes = bytesOf c := by
  have hstart := reads_foldl a
  have hfirst := (foldl_noSrc (p := .empty) ha : (a.foldl Pairs.visit .empty).inReply = false)
  -- the first `src` starts no reply
  have hknown : (a.foldl Pairs.visit .empty).orig.get? "src".toList = none := by
    rw [hstart.orig hfirst _ (by decide)]
    exact List.findSome?_eq_none_iff.mpr ha
  have hsecond : ((a.foldl Pairs.visit .empty).visit s).inReply = false := by
    rw [Pairs.visit, hs]
    dsimp only
    rw [inReply_pair, hfirst, hknown]
    rfl
  have horig : ((a ++ s :: b).foldl Pairs.visit .empty).inReply = false := by
    rw [List.foldl_append, List.foldl_cons, foldl_noSrc hb, hsecond]
  have hreads := reads_foldl (a ++ s :: b)
  have hsrc : ((a ++ s :: b).foldl Pairs.visit .empty).orig.get? "src".toList = some v := by
    rw [hreads.orig horig _ (by decide), valueOf_append, valueOf_cons, fieldOf_some hs, if_pos rfl]
    rw [valueOf, List.findSome?_eq_none_iff.mpr ha]
    rfl
  refine ⟨_, rfl, ?_⟩
  have hsplit : a ++ s :: (b ++ s' :: c) = (a ++ s :: b) ++ s' :: c := by simp
  rw [hsplit, List.foldl_append]
  generalize (a ++ s :: b).foldl Pairs.visit .empty = p at horig hreads hsrc ⊢
  have hreply : p.visit s' = { p with inReply := true } := by
    rw [Pairs.visit, hs']
    dsimp only
    rw [hsrc, horig, pair_reply rfl, if_neg (by decide), Option.or_none]
    rfl
  rw [List.foldl_cons, hreply, foldl_reply rfl]
  refine ⟨fun k hk => hreads.orig horig k hk, hreads.bytes horig, ?_⟩
  show p.replyBytes.or (bytesOf c) = bytesOf c
  rw [hreads.reply horig, Option.none_or]

/-! ## Lines -/

theorem isWord_counter {k : String} (hk : IsWord k.toList)
    {n : Option UInt64} : ∀ w ∈ counter k n, IsWord w := by
  intro w hw
  obtain ⟨m, -, rfl⟩ := Option.map_eq_some_iff.mp (Option.mem_toList.mp hw)
  exact isWord_pair hk (isWord_toDigits _).2

theorem isWord_spell {k : String} (hk : IsWord k.toList)
    (spelling : Spelling) (addr : IpAddr) : IsWord (pair k (addr.spell spelling)) :=
  isWord_pair hk fun c hc => (ipChar_spell spelling addr c hc).not_whitespace

theorem Direction.isWord (d : Direction) : ∀ w ∈ d.words, IsWord w := by
  intro w hw
  simp only [Direction.words, Direction.rest, List.mem_cons, List.mem_append] at hw
  rcases hw with rfl | rfl | rfl | rfl | hw | hw
  · exact isWord_spell (by decide) _ _
  · exact isWord_spell (by decide) _ _
  · exact isWord_pair (by decide) (isWord_toDigits _).2
  · exact isWord_pair (by decide) (isWord_toDigits _).2
  · exact isWord_counter (by decide) w hw
  · exact isWord_counter (by decide) w hw

theorem WithFlags.isWord {core body : List (List Char)} (h : WithFlags core body)
    (hcore : ∀ w ∈ core, IsWord w) : ∀ w ∈ body, IsWord w := by
  induction h with
  | nil => exact hcore
  | word w h ih =>
    intro u hu
    rcases List.mem_cons.mp hu with rfl | hu
    · exact hcore _ List.mem_cons_self
    · exact ih (fun x hx => hcore x (List.mem_cons_of_mem _ hx)) u hu
  | flag hw h ih =>
    intro u hu
    rcases List.mem_cons.mp hu with rfl | hu
    · exact hw.1
    · exact ih hcore u hu

/-- No pair of a direction after its first is a `src`. -/
theorem Direction.rest_noSrc (d : Direction) : ∀ t ∈ d.rest, fieldOf "src".toList t = none := by
  have hcounter : ∀ (k : String) (n : Option UInt64), '=' ∉ k.toList → k.toList ≠ "src".toList →
      ∀ t ∈ counter k n, fieldOf "src".toList t = none := by
    intro k n hk hne t ht
    obtain ⟨m, -, rfl⟩ := Option.map_eq_some_iff.mp (Option.mem_toList.mp ht)
    rw [fieldOf_pair hk, if_neg hne]
  intro t ht
  simp only [Direction.rest, List.mem_cons, List.mem_append] at ht
  rcases ht with rfl | rfl | rfl | ht | ht
  · exact fieldOf_pair (by decide) _ _
  · exact fieldOf_pair (by decide) _ _
  · exact fieldOf_pair (by decide) _ _
  · exact hcounter "packets" _ (by decide) (by decide) t ht
  · exact hcounter "bytes" _ (by decide) (by decide) t ht

/-- The bytes of a direction are its counter. -/
theorem Direction.bytesOf_rest (d : Direction) : bytesOf d.rest = d.bytes.map UInt64.toNat := by
  have hpackets : bytesOf (counter "packets" d.packets) = none := by
    cases d.packets with
    | none => rfl
    | some n =>
      show bytesOf [_] = none
      rw [bytesOf_singleton, fieldOf_pair (by decide), if_neg (by decide)]
      rfl
  have hbytes : bytesOf (counter "bytes" d.bytes) = d.bytes.map UInt64.toNat := by
    cases d.bytes with
    | none => rfl
    | some n =>
      show bytesOf [_] = some n.toNat
      rw [bytesOf_singleton, fieldOf_pair (by decide), if_pos rfl]
      exact fromStrRadix_toDigits n.toNat_lt
  have hother : ∀ (k : String) (v : List Char) (ts : List (List Char)), '=' ∉ k.toList →
      k.toList ≠ "bytes".toList → bytesOf (pair k v :: ts) = bytesOf ts := by
    intro k v ts hk hne
    rw [bytesOf_cons, fieldOf_pair hk, if_neg hne]
    rfl
  rw [Direction.rest, hother _ _ _ (by decide) (by decide), hother _ _ _ (by decide) (by decide),
    hother _ _ _ (by decide) (by decide), bytesOf_append, hpackets, hbytes, Option.none_or]

/-- The pairs that name a flow. -/
structure Direction.NamedIn (d : Direction) (words : List (List Char)) : Prop where
  src : valueOf "src".toList words = some (d.src.spell d.spelling)
  dst : valueOf "dst".toList words = some (d.dst.spell d.spelling)
  sport : valueOf "sport".toList words = some (Nat.toDigits 10 d.sport.toNat)
  dport : valueOf "dport".toList words = some (Nat.toDigits 10 d.dport.toNat)

theorem Direction.namedIn_words (d : Direction) : d.NamedIn d.words := by
  have hhere : ∀ (k : String) (v : List Char) (ts : List (List Char)), '=' ∉ k.toList →
      valueOf k.toList (pair k v :: ts) = some v := by
    intro k v ts hk
    rw [valueOf_cons, fieldOf_pair hk, if_pos rfl, Option.some_or]
  have hnext : ∀ (k : String) (k' v : List Char) (ts : List (List Char)), '=' ∉ k.toList →
      k.toList ≠ k' → valueOf k' (pair k v :: ts) = valueOf k' ts := by
    intro k k' v ts hk hne
    rw [valueOf_cons, fieldOf_pair hk, if_neg hne, Option.none_or]
  refine ⟨?_, ?_, ?_, ?_⟩
  · rw [Direction.words, hhere _ _ _ (by decide)]
  · rw [Direction.words, Direction.rest, hnext _ _ _ _ (by decide) (by decide),
      hhere _ _ _ (by decide)]
  · rw [Direction.words, Direction.rest, hnext _ _ _ _ (by decide) (by decide),
      hnext _ _ _ _ (by decide) (by decide), hhere _ _ _ (by decide)]
  · rw [Direction.words, Direction.rest, hnext _ _ _ _ (by decide) (by decide),
      hnext _ _ _ _ (by decide) (by decide), hnext _ _ _ _ (by decide) (by decide),
      hhere _ _ _ (by decide)]

namespace Entry

theorem isWord_header (e : Entry) : ∀ w ∈ e.header, IsWord w := by
  have hproto : IsWord (protoName e.protocol) := by
    cases hp : e.protocol with
    | tcp => decide
    | udp => decide
    | other => exact absurd hp e.protocol_ne
  intro w hw
  simp only [header, List.mem_cons, List.not_mem_nil, or_false] at hw
  rcases hw with rfl | rfl | rfl | rfl | rfl
  · exact e.l3_word
  · exact e.l3num_word
  · exact hproto
  · exact e.l4num_word
  · exact e.timeout_word

theorem isWord_core (e : Entry) : ∀ w ∈ e.core, IsWord w := by
  intro w hw
  simp only [core, List.mem_append] at hw
  rcases hw with ((hw | hw) | hw) | hw
  · exact (e.state_word w (Option.mem_toList.mp hw)).1
  · exact e.orig.isWord w hw
  · exact e.reply.isWord w hw
  · exact (e.extra_pair w hw).1

/-- The words of a line of the table. -/
theorem Prints.words {e : Entry} {line : List Char} (h : e.Prints line) :
    ∃ body, WithFlags e.core body ∧ splitWhitespace line = e.header ++ body := by
  obtain ⟨body, words, last, hbody, hwords, hblank, hsep, hlast, rfl⟩ := h
  refine ⟨body, hbody, ?_⟩
  rw [splitWhitespace_spaced ?_ hblank hlast hsep, hwords]
  intro w hw
  have hmem : w.2 ∈ e.header ++ body := hwords ▸ List.mem_map_of_mem hw
  rcases List.mem_append.mp hmem with hmem | hmem
  · exact e.isWord_header _ hmem
  · exact hbody.isWord e.isWord_core _ hmem

/-- The header gives the protocol, the other words the rest. -/
theorem parseLine_words {e : Entry} {line : List Char} {body : List (List Char)}
    (h : splitWhitespace line = e.header ++ body) :
    parseLine line = (body.foldl Pairs.visit .empty).flow e.protocol := by
  have hproto : headerProtocol (protoName e.protocol) = some e.protocol := by
    cases hp : e.protocol with
    | tcp => decide
    | udp => decide
    | other => exact absurd hp e.protocol_ne
  rw [parseLine, h]
  show (headerProtocol (protoName e.protocol)).bind _ = _
  rw [hproto, Option.bind_some, foldl_skipState]
  rfl

/-- A connection state is no pair. -/
theorem noField_state (e : Entry) (k : List Char) : ∀ t ∈ e.state.toList, fieldOf k t = none :=
  fun t ht => fieldOf_none (splitOnce_eq_none (e.state_word t (Option.mem_toList.mp ht)).2)

theorem bytesOf_state (e : Entry) : bytesOf e.state.toList = none := by
  refine List.findSome?_eq_none_iff.mpr fun t ht => ?_
  rw [e.noField_state _ t ht]
  rfl

/-- The pairs at the end have no counter. -/
theorem bytesOf_extra (e : Entry) : bytesOf e.extra = none := by
  refine List.findSome?_eq_none_iff.mpr fun w hw => ?_
  obtain ⟨-, k, v, hsplit, -, hk⟩ := e.extra_pair w hw
  rw [fieldOf_some hsplit, if_neg hk]
  rfl

/-- What is before the reply has the values of the original direction. -/
theorem valueOf_orig {e : Entry} {a b : List (List Char)} (ha : WithFlags e.state.toList a)
    (hb : WithFlags e.orig.rest b) {k : List Char} (hk : k.head? ≠ some '[') :
    valueOf k (a ++ pair "src" (e.orig.src.spell e.orig.spelling) :: b) =
      valueOf k e.orig.words := by
  have hnone : valueOf k e.state.toList = none :=
    List.findSome?_eq_none_iff.mpr (e.noField_state k)
  rw [valueOf_append, valueOf_withFlags hk ha, hnone, Option.none_or, valueOf_cons,
    valueOf_withFlags hk hb, ← valueOf_cons, Direction.words]

/-- What the loop has read when it is through the line. -/
theorem flow_core {e : Entry} {body : List (List Char)} (h : WithFlags e.core body) :
    (body.foldl Pairs.visit .empty).flow e.protocol = some e.flow := by
  have hcore : e.core = e.state.toList ++ pair "src" (e.orig.src.spell e.orig.spelling) ::
      (e.orig.rest ++ pair "src" (e.reply.src.spell e.reply.spelling) ::
        (e.reply.rest ++ e.extra)) := by
    simp [core, Direction.words]
  rw [hcore] at h
  obtain ⟨a, body', rfl, ha, h⟩ := h.split
  obtain ⟨b, c, rfl, hb, hc⟩ := h.split
  obtain ⟨p, hp, horig, hsent, hrecv⟩ := foldl_directions (c := c)
    (noField_withFlags (by decide) ha (e.noField_state _)) (splitOnce_pair (by decide) _)
    (noField_withFlags (by decide) hb e.orig.rest_noSrc)
    (splitOnce_pair (k := "src") (by decide) (e.reply.src.spell e.reply.spelling))
  have hvalue : ∀ k, k.head? ≠ some '[' →
      valueOf k (a ++ pair "src" (e.orig.src.spell e.orig.spelling) :: b) =
        valueOf k e.orig.words := fun k hk => valueOf_orig ha hb hk
  have hbytes : p.origBytes = e.orig.bytes.map UInt64.toNat := by
    rw [hsent, bytesOf_append, bytesOf_withFlags ha, e.bytesOf_state, Option.none_or, bytesOf_cons,
      fieldOf_pair (by decide), if_neg (by decide), Option.bind_none, Option.none_or,
      bytesOf_withFlags hb, e.orig.bytesOf_rest]
  have hreply : p.replyBytes = e.reply.bytes.map UInt64.toNat := by
    rw [hrecv, bytesOf_withFlags hc, bytesOf_append, e.bytesOf_extra, Option.or_none,
      e.reply.bytesOf_rest]
  have hnamed := e.orig.namedIn_words
  have hsrc : p.addr "src" = some e.orig.src := by
    rw [Pairs.addr, horig _ (by decide), hvalue _ (by decide), hnamed.src]
    exact parseIpAddr_spell _ _
  have hdst : p.addr "dst" = some e.orig.dst := by
    rw [Pairs.addr, horig _ (by decide), hvalue _ (by decide), hnamed.dst]
    exact parseIpAddr_spell _ _
  have hport : ∀ n : UInt16, (fromStrRadix 10 65536 (Nat.toDigits 10 n.toNat)).map
      UInt16.ofNat = some n := by
    intro n
    rw [fromStrRadix_toDigits n.toNat_lt, Option.map_some, UInt16.ofNat_toNat]
  have hsport : p.port "sport" = some e.orig.sport := by
    rw [Pairs.port, horig _ (by decide), hvalue _ (by decide), hnamed.sport]
    exact hport _
  have hdport : p.port "dport" = some e.orig.dport := by
    rw [Pairs.port, horig _ (by decide), hvalue _ (by decide), hnamed.dport]
    exact hport _
  rw [hp, Pairs.flow, hsrc, hdst, hsport, hdport, hbytes, hreply]
  rfl

end Entry

/-- A line of the table is read back, with the counters of each direction in their place. A
line of another protocol is not read. -/
theorem parseLine_prints :
    (∀ (e : Entry) (line : List Char), e.Prints line → parseLine line = some e.flow) ∧
      ∀ (line w : List Char), (splitWhitespace line)[2]? = some w → w ≠ "tcp".toList →
        w ≠ "udp".toList → parseLine line = none := by
  constructor
  · intro e line h
    obtain ⟨body, hbody, hwords⟩ := h.words
    rw [Entry.parseLine_words hwords, Entry.flow_core hbody]
  · intro line w hw htcp hudp
    unfold parseLine
    split
    · rename_i hwords
      rw [hwords] at hw
      cases hw
      rw [headerProtocol, if_neg htcp, if_neg hudp]
      rfl
    · rfl

/-- A connection in the table. -/
def tcpEntry : Entry where
  l3 := "ipv4".toList
  l3num := "2".toList
  protocol := .tcp
  l4num := "6".toList
  timeout := "431999".toList
  state := some "ESTABLISHED".toList
  orig := ⟨.display, .v4 ⟨10, 0, 0, 5⟩, .v4 ⟨1, 1, 1, 1⟩, 40000, 443, some 10, some 1234⟩
  reply := ⟨.display, .v4 ⟨1, 1, 1, 1⟩, .v4 ⟨10, 0, 0, 5⟩, 443, 40000, none, some 5678⟩
  extra := ["mark=0".toList]
  l3_word := by decide
  l3num_word := by decide
  protocol_ne := by decide
  l4num_word := by decide
  timeout_word := by decide
  state_word := by decide
  extra_pair := fun w hw => by
    cases List.mem_singleton.mp hw
    exact ⟨by decide, "mark".toList, "0".toList, by decide⟩

/-- Its words: the connection is assured. -/
def tcpWords : List (List Char) :=
  tcpEntry.header ++ (tcpEntry.state.toList ++ tcpEntry.orig.words ++ tcpEntry.reply.words ++
    "[ASSURED]".toList :: tcpEntry.extra)

def tcpLine : List Char :=
  ("ipv4 2 tcp 6 431999 ESTABLISHED src=10.0.0.5 dst=1.1.1.1 sport=40000 dport=443 " ++
    "packets=10 bytes=1234 src=1.1.1.1 dst=10.0.0.5 sport=443 dport=40000 bytes=5678 " ++
    "[ASSURED] mark=0\n").toList

theorem withFlags_refl (core : List (List Char)) : WithFlags core core := by
  induction core with
  | nil => exact .nil
  | cons w core ih => exact .word w ih

theorem WithFlags.append {xs ys a b : List (List Char)} (ha : WithFlags xs a)
    (hb : WithFlags ys b) : WithFlags (xs ++ ys) (a ++ b) := by
  induction ha with
  | nil => exact hb
  | word w _ ih => exact .word w ih
  | flag hw _ ih => exact .flag hw ih

theorem tcpEntry_prints : tcpEntry.Prints tcpLine := by
  have hflag : IsFlag "[ASSURED]".toList := ⟨by decide, "ASSURED".toList, by decide⟩
  refine ⟨_, ([], tcpEntry.l3) :: tcpWords.tail.map fun w => ([' '], w), ['\n'],
    (withFlags_refl _).append (.flag hflag (withFlags_refl _)), ?_, ?_, ?_, ?_, ?_⟩
  · rw [List.map_cons, List.map_map]
    exact congrArg (List.cons tcpEntry.l3) (List.map_id tcpWords.tail)
  · intro w hw
    rcases List.mem_cons.mp hw with rfl | hw
    · exact fun c hc => nomatch hc
    · obtain ⟨v, -, rfl⟩ := List.mem_map.mp hw
      exact (by decide : IsBlank [' '])
  · intro w hw
    obtain ⟨v, -, rfl⟩ := List.mem_map.mp hw
    exact List.cons_ne_nil _ _
  · decide
  · decide +kernel

theorem parseLine_prints_tcp : parseLine tcpLine = some tcpEntry.flow ∧
    parseLine "ipv4 2 icmp 1 29".toList = none :=
  ⟨parseLine_prints.1 tcpEntry tcpLine tcpEntry_prints,
    parseLine_prints.2 _ "icmp".toList (by decide +kernel) (by decide) (by decide)⟩

end ConntrackLines

end TravelMode
