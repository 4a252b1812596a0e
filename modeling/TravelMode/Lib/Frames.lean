import Mathlib.Data.List.Basic
import Mathlib.Data.List.Infix

/-!
# Length-prefixed frames and a resumable reader

A frame is the length of its body in four big-endian bytes, then the body. The
reader is the state of a read in progress: it holds the bytes it has taken out of
the transport so far, so that a `poll` with more bytes resumes it — and so that
dropping it loses them.

- `be32` / `ofBe32`: the length prefix, and the number it holds.
- `Reader max`: a read in progress of a frame of at most `max` bytes. A value
  carries that it is short of its header, or of its body.
- `Reader.poll`: feed the reader the bytes at hand.
- `Reader.drive`: feed it chunk after chunk, until it returns or the transport ends.

`poll_resume` reduces every question about a suspended reader to a fresh one that
is given all of the bytes at once; `drive_frame` and `drive_short` say the same of
a transport that delivers them in chunks of any sizes.
-/

namespace Frames

/-- A number's low 32 bits in big-endian order. -/
def be32 (n : Nat) : List UInt8 :=
  [UInt8.ofNat (n >>> 24), UInt8.ofNat (n >>> 16), UInt8.ofNat (n >>> 8), UInt8.ofNat n]

/-- The number that big-endian bytes hold. -/
def ofBe32 (bytes : List UInt8) : Nat :=
  bytes.foldl (fun n b => n * 256 + b.toNat) 0

@[simp] theorem length_be32 (n : Nat) : (be32 n).length = 4 := rfl

theorem ofBe32_be32 {n : Nat} (h : n < 4294967296) : ofBe32 (be32 n) = n := by
  simp only [ofBe32, be32, List.foldl_cons, List.foldl_nil, UInt8.toNat_ofNat',
    Nat.shiftRight_eq_div_pow]
  omega

theorem be32_ofBe32 {bytes : List UInt8} (h : bytes.length = 4) :
    be32 (ofBe32 bytes) = bytes := by
  obtain ⟨a, b, c, d, rfl⟩ : ∃ a b c d, bytes = [a, b, c, d] := by
    match bytes, h with
    | [a, b, c, d], _ => exact ⟨a, b, c, d, rfl⟩
  have ha := a.toNat_lt
  have hb := b.toNat_lt
  have hc := c.toNat_lt
  have hd := d.toNat_lt
  simp only [ofBe32, be32, List.foldl_cons, List.foldl_nil, List.cons.injEq, and_true,
    ← UInt8.toNat_inj, UInt8.toNat_ofNat', Nat.shiftRight_eq_div_pow]
  omega

/-- One frame on the wire. -/
def frame (body : List UInt8) : List UInt8 := be32 body.length ++ body

@[simp] theorem length_frame (body : List UInt8) : (frame body).length = 4 + body.length := by
  rw [frame, List.length_append, length_be32]

/-- A read in progress. Neither stage is complete: a reader that has its whole
header is reading a body, and one that has its whole body has returned. -/
inductive Reader (max : Nat) where
  | header (got : List UInt8) (short : got.length < 4)
  | body (len : Nat) (fits : len ≤ max) (got : List UInt8) (short : got.length < len)

/-- What a poll of the reader comes to. `rest` is what it leaves unread. -/
inductive Outcome (max : Nat) where
  | pending (reader : Reader max)
  | ready (body rest : List UInt8)
  | tooLarge (len : Nat) (rest : List UInt8)

namespace Reader

variable {max : Nat}

/-- A reader that has read nothing. -/
def start : Reader max := .header [] (by decide)

/-- The bytes the reader has taken out of the transport. -/
def consumed : Reader max → List UInt8
  | .header got _ => got
  | .body len _ got _ => be32 len ++ got

/-- Fill the body: a body is complete as soon as `len` bytes are at hand. -/
def pollBody (len : Nat) (fits : len ≤ max) (bytes : List UInt8) : Outcome max :=
  if short : bytes.length < len then .pending (.body len fits bytes short)
  else .ready (bytes.take len) (bytes.drop len)

/-- Feed the reader the bytes at hand. -/
def poll : Reader max → List UInt8 → Outcome max
  | .header got _, input =>
    let bytes := got ++ input
    if short : bytes.length < 4 then .pending (.header bytes short)
    else if fits : ofBe32 (bytes.take 4) ≤ max then
      pollBody (ofBe32 (bytes.take 4)) fits (bytes.drop 4)
    else .tooLarge (ofBe32 (bytes.take 4)) (bytes.drop 4)
  | .body len fits got _, input => pollBody len fits (got ++ input)

@[simp] theorem consumed_start : (start : Reader max).consumed = [] := rfl

/-- Without more bytes a reader stays where it is. -/
theorem poll_nil (r : Reader max) : r.poll [] = .pending r := by
  cases r with
  | header got short =>
    simp only [poll, List.append_nil]
    rw [dif_pos short]
  | body len fits got short =>
    simp only [poll, List.append_nil, pollBody]
    rw [dif_pos short]

/-- A poll that does not complete keeps every byte it was given. -/
theorem consumed_of_pending {r r' : Reader max} {input : List UInt8}
    (h : r.poll input = .pending r') : r'.consumed = r.consumed ++ input := by
  have hbody : ∀ {len : Nat} {fits : len ≤ max} {bytes : List UInt8} {r' : Reader max},
      pollBody len fits bytes = .pending r' → r'.consumed = be32 len ++ bytes := by
    intro len fits bytes r' h
    rw [pollBody] at h
    split at h
    · cases h
      rfl
    · cases h
  cases r with
  | header got short =>
    simp only [poll] at h
    split at h
    · cases h
      rfl
    · rename_i hge
      split at h
      · -- the header is complete: the four bytes that it took are those of the length
        have hfour : ((got ++ input).take 4).length = 4 := by
          rw [List.length_take]
          omega
        rw [hbody h, be32_ofBe32 hfour, List.take_append_drop]
        rfl
      · cases h
  | body len fits got short =>
    rw [hbody h, ← List.append_assoc]
    rfl

/-- **Resumption**: polling a suspended reader is polling a fresh one with what
the suspended one had consumed in front. -/
theorem poll_resume (hmax : max < 4294967296) (r : Reader max) (input : List UInt8) :
    r.poll input = start.poll (r.consumed ++ input) := by
  cases r with
  | header got short => rfl
  | body len fits got short =>
    have hlen : ofBe32 (be32 len) = len := ofBe32_be32 (by omega)
    have htake : (be32 len ++ (got ++ input)).take 4 = be32 len := List.take_left' rfl
    have hdrop : (be32 len ++ (got ++ input)).drop 4 = got ++ input := List.drop_left' rfl
    have hge : ¬ (be32 len ++ (got ++ input)).length < 4 := by
      rw [List.length_append, length_be32]
      omega
    have hfits : ofBe32 ((be32 len ++ (got ++ input)).take 4) ≤ max := by
      rw [htake, hlen]
      exact fits
    simp only [poll, start, consumed, List.nil_append, List.append_assoc]
    rw [dif_neg hge, dif_pos hfits]
    simp only [htake, hdrop, hlen]

/-- A whole frame at the head of the input is read, and only it. -/
theorem poll_frame (hmax : max < 4294967296) {body : List UInt8} (hbody : body.length ≤ max)
    (rest : List UInt8) :
    (start : Reader max).poll (frame body ++ rest) = .ready body rest := by
  have hlen : ofBe32 (be32 body.length) = body.length := ofBe32_be32 (by omega)
  have hbytes : frame body ++ rest = be32 body.length ++ (body ++ rest) := by
    rw [frame, List.append_assoc]
  have htake : (be32 body.length ++ (body ++ rest)).take 4 = be32 body.length :=
    List.take_left' rfl
  have hdrop : (be32 body.length ++ (body ++ rest)).drop 4 = body ++ rest := List.drop_left' rfl
  have hge : ¬ (be32 body.length ++ (body ++ rest)).length < 4 := by
    rw [List.length_append, length_be32]
    omega
  have hfits : ofBe32 ((be32 body.length ++ (body ++ rest)).take 4) ≤ max := by
    rw [htake, hlen]
    exact hbody
  have hfull : ¬ (body ++ rest).length < body.length := by
    rw [List.length_append]
    omega
  rw [hbytes]
  simp only [poll, start, List.nil_append]
  rw [dif_neg hge, dif_pos hfits]
  simp only [htake, hdrop, hlen, pollBody]
  rw [dif_neg hfull, List.take_left, List.drop_left]

/-- A body over the bound whose length fits the header is refused. -/
theorem poll_tooLarge {body : List UInt8} (hlong : max < body.length)
    (hcut : body.length < 4294967296) :
    (start : Reader max).poll (frame body) = .tooLarge body.length body := by
  have hdrop : (frame body).drop 4 = body := List.drop_left' rfl
  have htake : (frame body).take 4 = be32 body.length := List.take_left' rfl
  have hlen : ofBe32 ((frame body).take 4) = body.length := by rw [htake, ofBe32_be32 hcut]
  have hge : ¬ (frame body).length < 4 := by
    rw [length_frame]
    omega
  simp only [poll, start, List.nil_append]
  rw [dif_neg hge, dif_neg (by rw [hlen]; omega), hlen, hdrop]

/-- A body over the bound is never read whole: its length is refused, or, having been cut
to 32 bits, is that of a part of it. -/
theorem poll_oversized {body : List UInt8} (hlong : max < body.length) :
    (∃ len rest, (start : Reader max).poll (frame body) = .tooLarge len rest) ∨
      ∃ part rest, (start : Reader max).poll (frame body) = .ready part rest ∧
        part <+: body ∧ part.length < body.length := by
  have hdrop : (frame body).drop 4 = body := List.drop_left' rfl
  have hge : ¬ (frame body).length < 4 := by
    rw [length_frame]
    omega
  simp only [poll, start, List.nil_append]
  rw [dif_neg hge]
  by_cases hfits : ofBe32 ((frame body).take 4) ≤ max
  · refine .inr ⟨body.take (ofBe32 ((frame body).take 4)),
      body.drop (ofBe32 ((frame body).take 4)), ?_, List.take_prefix _ _, ?_⟩
    · rw [dif_pos hfits, hdrop, pollBody, dif_neg (by omega)]
    · rw [List.length_take]
      omega
  · exact .inl ⟨_, _, dif_neg hfits⟩

/-- Short of a whole frame, the reader waits. -/
theorem poll_short (hmax : max < 4294967296) {body bytes rest : List UInt8}
    (hbody : body.length ≤ max) (hpre : bytes ++ rest = frame body) (hrest : rest ≠ []) :
    ∃ r : Reader max, start.poll bytes = .pending r := by
  have htotal : bytes.length + rest.length = 4 + body.length := by
    rw [← List.length_append, hpre, length_frame]
  have hpos : 0 < rest.length := List.length_pos_iff.mpr hrest
  simp only [poll, start, List.nil_append]
  by_cases hshort : bytes.length < 4
  · rw [dif_pos hshort]
    exact ⟨_, rfl⟩
  · -- the header is there, so it is the one of `body`
    have htake : bytes.take 4 = be32 body.length := by
      have h := congrArg (List.take 4) hpre
      rw [List.take_append_of_le_length (by omega), frame] at h
      exact h.trans (List.take_left' rfl)
    have hlen : ofBe32 (bytes.take 4) = body.length := by
      rw [htake]
      exact ofBe32_be32 (by omega)
    rw [dif_neg hshort, dif_pos (hlen ▸ hbody), pollBody,
      dif_pos (by rw [hlen, List.length_drop]; omega)]
    exact ⟨_, rfl⟩

/-! ### Over a transport that ends -/

/-- Feed the reader chunk after chunk. A pending outcome is that of a transport which
ended before the reader returned; otherwise the chunks after the last one fed are left. -/
def drive : Reader max → List (List UInt8) → Outcome max × List (List UInt8)
  | r, [] => (.pending r, [])
  | r, chunk :: chunks =>
    match r.poll chunk with
    | .pending r => r.drive chunks
    | .ready payload rest => (.ready payload rest, chunks)
    | .tooLarge len rest => (.tooLarge len rest, chunks)

/-- A reader that waits has not got a whole frame. -/
theorem consumed_ne_frame (hmax : max < 4294967296) (r : Reader max) {body : List UInt8}
    (hbody : body.length ≤ max) (rest : List UInt8) : r.consumed ≠ frame body ++ rest := by
  intro h
  have hwait : r.poll [] = .pending r := poll_nil r
  rw [poll_resume hmax, List.append_nil, h, poll_frame hmax hbody] at hwait
  cases hwait

/-- A frame is read off the chunks that hold it, and what follows it is left. -/
theorem drive_frame (hmax : max < 4294967296) {body rest : List UInt8}
    (hbody : body.length ≤ max) (r : Reader max) (chunks : List (List UInt8))
    (h : r.consumed ++ chunks.flatten = frame body ++ rest) :
    ∃ left chunks', r.drive chunks = (.ready body left, chunks') ∧
      left ++ chunks'.flatten = rest := by
  induction chunks generalizing r with
  | nil =>
    rw [List.flatten_nil, List.append_nil] at h
    exact absurd h (consumed_ne_frame hmax r hbody rest)
  | cons chunk chunks ih =>
    rw [List.flatten_cons, ← List.append_assoc] at h
    have hresume := poll_resume hmax r chunk
    -- either the frame ends in this chunk, or the chunk is short of it
    rcases List.append_eq_append_iff.mp h with ⟨missing, hframe, hrest⟩ | ⟨left, hbytes, hrest⟩
    · by_cases hmissing : missing = []
      · rw [hmissing, List.append_nil] at hframe
        have hready := poll_frame hmax hbody []
        rw [List.append_nil, hframe, ← hresume] at hready
        refine ⟨[], chunks, ?_, ?_⟩
        · rw [drive, hready]
        · rw [List.nil_append, hrest, hmissing, List.nil_append]
      · obtain ⟨r', hpoll⟩ := poll_short hmax hbody hframe.symm hmissing
        rw [← hresume] at hpoll
        rw [drive, hpoll]
        refine ih r' ?_
        rw [consumed_of_pending hpoll]
        exact h
    · have hready := poll_frame hmax hbody left
      rw [← hbytes, ← hresume] at hready
      refine ⟨left, chunks, ?_, hrest.symm⟩
      rw [drive, hready]

/-- Short of a frame, the transport ends on a reader that holds all of its bytes. -/
theorem drive_short (hmax : max < 4294967296) {body missing : List UInt8}
    (hbody : body.length ≤ max) (hmissing : missing ≠ []) (r : Reader max)
    (chunks : List (List UInt8)) (h : r.consumed ++ chunks.flatten ++ missing = frame body) :
    ∃ r' : Reader max, r.drive chunks = (.pending r', []) ∧
      r'.consumed = r.consumed ++ chunks.flatten := by
  induction chunks generalizing r with
  | nil => exact ⟨r, rfl, (List.append_nil _).symm⟩
  | cons chunk chunks ih =>
    rw [List.flatten_cons, ← List.append_assoc] at h ⊢
    have hleft : chunks.flatten ++ missing ≠ [] := fun hnil =>
      hmissing (List.append_eq_nil_iff.mp hnil).2
    obtain ⟨r', hpoll⟩ := poll_short hmax hbody ((List.append_assoc _ _ _).symm.trans h) hleft
    rw [← poll_resume hmax] at hpoll
    have hconsumed := consumed_of_pending hpoll
    rw [drive, hpoll, ← hconsumed]
    refine ih r' ?_
    rw [hconsumed]
    exact h

/-- The reader is within its header exactly as long as it holds less than four bytes. -/
theorem length_consumed_lt_iff (r : Reader max) :
    r.consumed.length < 4 ↔ ∃ got short, r = .header got short := by
  cases r with
  | header got short => exact ⟨fun _ => ⟨got, short, rfl⟩, fun _ => short⟩
  | body len fits got short =>
    constructor
    · intro h
      rw [consumed, List.length_append, length_be32] at h
      omega
    · rintro ⟨got', short', h⟩
      cases h

end Reader

/-- The bytes hold at least one whole frame, by the length they announce. -/
def HoldsFrame (bytes : List UInt8) : Prop :=
  4 ≤ bytes.length ∧ 4 + ofBe32 (bytes.take 4) ≤ bytes.length

instance (bytes : List UInt8) : Decidable (HoldsFrame bytes) :=
  inferInstanceAs (Decidable (_ ∧ _))

/-- Where a whole frame is at hand, a poll does not wait. -/
theorem Reader.poll_ne_pending {max : Nat} {bytes : List UInt8} (h : HoldsFrame bytes)
    (r : Reader max) : start.poll bytes ≠ .pending r := by
  intro hp
  simp only [poll, start, List.nil_append] at hp
  rw [dif_neg (Nat.not_lt.mpr h.1)] at hp
  split at hp
  · have hbody := h.2
    rw [pollBody, dif_neg (by rw [List.length_drop]; omega)] at hp
    cases hp
  · cases hp

end Frames
