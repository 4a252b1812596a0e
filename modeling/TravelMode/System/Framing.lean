import TravelMode.System.Overlap

/-!
# Writer and reader of frames

`write_frame` and `read_frame` are separate functions; what holds of the two together:

- `read_frames_truncated`: over every prefix of what was written, in chunks of any sizes,
  repeated reads return exactly the values whose frames lie wholly inside it, and then
  one error, which tells a cut within a header from a cut within a body.
- `accepted_iff_fits`: what was written without an error is read back if and only if its
  body is within `MAX_FRAME`. Only the reader holds the length against that bound, and
  the writer cuts it to 32 bits: `oversized_rules_refused` is a reply that the client
  refuses.
-/

namespace TravelMode

namespace Framing

variable {α : Type} {codec : Codec α}

theorem writeFrame_eq_ok {value : α} {bytes : List UInt8} :
    writeFrame codec value = .ok bytes ↔
      ∃ body, codec.encode value = .ok body ∧ bytes = Frames.frame body := by
  unfold writeFrame
  cases codec.encode value with
  | ok body => simp [eq_comm]
  | error message => simp

/-! ## Truncation -/

/-- How many frames of these sizes lie wholly inside the first `n` bytes. -/
def framesWithin (n : Nat) : List Nat → Nat
  | [] => 0
  | size :: sizes => if size ≤ n then 1 + framesWithin (n - size) sizes else 0

/-- The error of the read that meets the end of the bytes, `n` bytes past the last whole
frame. -/
def cutError (n : Nat) : IpcError := if n < 4 then .closed else .io earlyEof

theorem atEof_eq_cutError (r : Frames.Reader maxFrame) : atEof r = cutError r.consumed.length := by
  unfold cutError
  split
  · rename_i hlt
    obtain ⟨got, short, rfl⟩ := r.length_consumed_lt_iff.mp hlt
    rfl
  · rename_i hge
    cases r with
    | header got short => exact absurd short hge
    | body len fits got short => rfl

/-- A read of a frame that is there. -/
theorem readFrameFrom_frame {value : α} {body rest : List UInt8} {chunks : List (List UInt8)}
    (hround : codec.decode body = .ok value) (hfits : body.length ≤ maxFrame)
    (h : chunks.flatten = Frames.frame body ++ rest) :
    ∃ chunks', readFrameFrom codec .start chunks = (.ok value, chunks') ∧
      chunks'.flatten = rest := by
  obtain ⟨left, chunks', hdrive, hrest⟩ :=
    Frames.Reader.drive_frame maxFrame_lt hfits .start chunks h
  refine ⟨left :: chunks', ?_, hrest⟩
  rw [readFrameFrom_eq, hdrive]
  dsimp only
  rw [decoded, hround]

/-- A read of a frame that is cut short. -/
theorem readFrameFrom_cut {body missing : List UInt8} {chunks : List (List UInt8)}
    (hfits : body.length ≤ maxFrame) (hmissing : missing ≠ [])
    (h : chunks.flatten ++ missing = Frames.frame body) :
    (readFrameFrom codec .start chunks).1 = .error (cutError chunks.flatten.length) := by
  obtain ⟨r, hdrive, hconsumed⟩ :=
    Frames.Reader.drive_short maxFrame_lt hfits hmissing .start chunks h
  rw [readFrameFrom_eq, hdrive]
  show Except.error (atEof r) = _
  rw [atEof_eq_cutError, hconsumed]
  rfl

/-- A read where nothing is left. -/
theorem readFrameFrom_nil {chunks : List (List UInt8)} (h : chunks.flatten = []) :
    (readFrameFrom codec .start chunks).1 = .error .closed := by
  induction chunks with
  | nil => rfl
  | cons chunk chunks ih =>
    obtain ⟨rfl, hrest⟩ := List.append_eq_nil_iff.mp h
    rw [readFrameFrom, readFrame, Frames.Reader.poll_nil]
    exact ih hrest

/-- Writing a list of values writes the first, and then the others. -/
theorem writeFrames_cons {value : α} {values : List α} {frames : List (List UInt8)}
    (h : (value :: values).mapM (writeFrame codec) = .ok frames) :
    ∃ body frames', codec.encode value = .ok body ∧ values.mapM (writeFrame codec) = .ok frames' ∧
      frames = Frames.frame body :: frames' := by
  rw [List.mapM_cons] at h
  cases hfirst : writeFrame codec value with
  | error e =>
    rw [hfirst] at h
    cases h
  | ok bytes =>
    rw [hfirst] at h
    obtain ⟨body, hbody, rfl⟩ := writeFrame_eq_ok.mp hfirst
    cases hrest : values.mapM (writeFrame codec) with
    | error e =>
      rw [hrest] at h
      cases h
    | ok frames' =>
      rw [hrest] at h
      cases h
      exact ⟨body, frames', hbody, rfl, rfl⟩

/-- **Truncation**: over any prefix of the frames written, however it is cut into chunks,
the reads return the values whose frames lie wholly inside it, in order, and then the
error of where it ends. -/
theorem read_frames_truncated {values : List α} {frames : List (List UInt8)}
    (hwrite : values.mapM (writeFrame codec) = .ok frames)
    (hfits : ∀ value ∈ values, codec.Fits value)
    (hround : ∀ value ∈ values, codec.RoundTrips value)
    {chunks : List (List UInt8)} (hstarts : chunks.flatten <+: frames.flatten) :
    let k := framesWithin chunks.flatten.length (frames.map List.length)
    readFrames codec (k + 1) chunks = (values.take k).map .ok ++
      [.error (cutError (chunks.flatten.length - (frames.take k).flatten.length))] := by
  induction values generalizing frames chunks with
  | nil =>
    cases hwrite
    have hnil : chunks.flatten = [] := List.prefix_nil.mp hstarts
    show [(readFrameFrom codec .start chunks).1] = [.error (cutError _)]
    rw [readFrameFrom_nil hnil, hnil]
    rfl
  | cons value values ih =>
    obtain ⟨body, later, hbody, hlater, rfl⟩ := writeFrames_cons hwrite
    have hlen := Codec.fits_of_encode hbody (hfits value List.mem_cons_self)
    rw [List.flatten_cons] at hstarts
    rw [List.map_cons, framesWithin]
    by_cases hwithin : (Frames.frame body).length ≤ chunks.flatten.length
    · -- the first frame is wholly there: it is read, and the rest is a shorter prefix
      obtain ⟨rest, hbytes⟩ :=
        List.prefix_of_prefix_length_le (List.prefix_append _ _) hstarts hwithin
      obtain ⟨chunks', hread, hleft⟩ :=
        readFrameFrom_frame (hround value List.mem_cons_self body hbody) hlen hbytes.symm
      have hrest : chunks'.flatten <+: later.flatten := by
        rw [hleft]
        rw [← hbytes] at hstarts
        exact (List.prefix_append_right_inj _).mp hstarts
      have hlength : chunks.flatten.length - (Frames.frame body).length = rest.length := by
        rw [← hbytes, List.length_append, Nat.add_sub_cancel_left]
      have ih' := ih hlater (fun v hv => hfits v (List.mem_cons_of_mem _ hv))
        (fun v hv => hround v (List.mem_cons_of_mem _ hv)) hrest
      rw [hleft] at ih'
      rw [if_pos hwithin, hlength, Nat.add_comm 1]
      dsimp only at ih' ⊢
      rw [readFrames_succ, hread, List.take_succ_cons, List.take_succ_cons, List.flatten_cons,
        List.length_append, ← Nat.sub_sub, hlength, ih']
      rfl
    · -- the first frame is cut short
      obtain ⟨cut, hframe⟩ := List.prefix_of_prefix_length_le hstarts (List.prefix_append _ _)
        (Nat.le_of_lt (Nat.lt_of_not_le hwithin))
      have hcut : cut ≠ [] := by
        rintro rfl
        rw [List.append_nil] at hframe
        exact hwithin (Nat.le_of_eq (congrArg List.length hframe.symm))
      rw [if_neg hwithin]
      show [(readFrameFrom codec .start chunks).1] = [.error (cutError _)]
      rw [readFrameFrom_cut hlen hcut hframe]
      rfl

/-- The bytes of a text without special characters. -/
def ascii (text : String) : List UInt8 := text.toList.map fun c => c.val.toUInt8

/-- The JSON of the two responses that carry nothing; no other value is written with it. -/
def unitCodec : Codec Response where
  encode
    | .pong => .ok (ascii "\"Pong\"")
    | .ok => .ok (ascii "\"Ok\"")
    | _ => .error "unsupported"
  decode body :=
    if body = ascii "\"Pong\"" then .ok .pong
    else if body = ascii "\"Ok\"" then .ok .ok
    else .error "expected value"

theorem unitCodec_roundTrips (value : Response) : unitCodec.RoundTrips value := by
  intro body henc
  cases value with
  | pong | ok =>
    cases henc
    decide +kernel
  | _ => cases henc

/-- Two replies, in the second of which the transport ends: one chunk ends within the
first header, the other within the second body. -/
def cutReplies : List (List UInt8) :=
  [[0, 0, 0], [6, 34, 80, 111, 110, 103, 34, 0, 0, 0, 4, 34, 79]]

theorem read_frames_truncated_replies :
    framesWithin 16 [10, 8] = 1 ∧
      readFrames unitCodec (1 + 1) cutReplies = [.ok .pong, .error (.io earlyEof)] :=
  ⟨by decide +kernel,
    @read_frames_truncated Response unitCodec [.pong, .ok] _ rfl (by decide +kernel)
      (fun value _ => unitCodec_roundTrips value) cutReplies (by decide +kernel)⟩

/-! ## Frame sizes -/

/-- What is written of the value is read back as that value. -/
def Accepted (codec : Codec α) (value : α) : Prop :=
  ∀ bytes, writeFrame codec value = .ok bytes →
    (readFrameFrom codec .start [bytes]).1 = .ok value

/-- A text cut short is not a text of the value: JSON ends where its value ends. -/
def NoShortForm (codec : Codec α) (value : α) : Prop :=
  ∀ body cut, codec.encode value = .ok body → cut <+: body → codec.decode cut = .ok value →
    cut = body

/-- A body over the bound is not read back: its length is refused, or, where the 32 bits
kept of it are within the bound, only a part of the body is read. -/
theorem not_read_of_oversized {value : α} {body : List UInt8}
    (hcut : NoShortForm codec value) (hbody : codec.encode value = .ok body)
    (hlong : ¬body.length ≤ maxFrame) :
    (readFrameFrom codec .start [Frames.frame body]).1 ≠ .ok value := by
  intro h
  rw [readFrameFrom_eq, Frames.Reader.drive] at h
  -- the prefix announces too much, or it has wrapped and cuts the body short
  rcases Frames.Reader.poll_oversized (Nat.lt_of_not_le hlong) with
    ⟨len, rest, hpoll⟩ | ⟨part, rest, hpoll, hpart, hlt⟩
  · rw [hpoll] at h
    cases h
  · rw [hpoll] at h
    have hdec : codec.decode part = .ok value := by
      change decoded codec part = .ok value at h
      rw [decoded] at h
      cases hdec : codec.decode part with
      | ok value' =>
        rw [hdec] at h
        cases h
        rfl
      | error message =>
        rw [hdec] at h
        cases h
    rw [hcut body part hbody hpart hdec] at hlt
    exact Nat.lt_irrefl _ hlt

/-- **Frame sizes**: what `write_frame` wrote is what `read_frame` returns if and only if
the body is within `MAX_FRAME`. -/
theorem accepted_iff_fits {value : α} (hround : codec.RoundTrips value)
    (hcut : NoShortForm codec value) : Accepted codec value ↔ codec.Fits value := by
  constructor
  · intro h
    rw [Codec.Fits]
    cases hbody : codec.encode value with
    | error message => trivial
    | ok body =>
      by_contra hlong
      refine not_read_of_oversized hcut hbody hlong (h _ ?_)
      exact writeFrame_eq_ok.mpr ⟨body, hbody, rfl⟩
  · intro hfits bytes hwrite
    obtain ⟨body, hbody, rfl⟩ := writeFrame_eq_ok.mp hwrite
    have hflat : [Frames.frame body].flatten = Frames.frame body ++ [] := by simp
    obtain ⟨chunks', hread, -⟩ :=
      readFrameFrom_frame (hround body hbody) (Codec.fits_of_encode hbody hfits) hflat
    rw [hread]

/-- A text cut short of `"Pong"` is no text of it. -/
theorem unitCodec_pong_noShortForm : NoShortForm unitCodec .pong := by
  intro body cut hbody _ hdec
  cases hbody
  simp only [unitCodec] at hdec
  split at hdec
  · assumption
  · split at hdec <;> cases hdec

theorem accepted_iff_fits_pong : unitCodec.Fits .pong ∧ Accepted unitCodec .pong :=
  ⟨by decide +kernel,
    (accepted_iff_fits (unitCodec_roundTrips .pong) unitCodec_pong_noShortForm).mpr
      (by decide +kernel)⟩

/-! ### A reply that is written and not accepted -/

/-- A rule for the program `/a` under this name. -/
def namedInput (name : String) : RuleInput :=
  ⟨name, .ofString "/a", .allow, true, none⟩

/-- The rule that the store makes of it at the epoch. -/
def namedRule (name : String) : Rule where
  id := 1
  name := name
  exePath := .ofString "/a"
  action := .allow
  persistent := true
  expiresAt := none
  profile := "default"
  updatedAt := .epoch

/-- The JSON of `AddRule` for a name that needs no escapes. -/
def addRuleBody (name : List UInt8) : List UInt8 :=
  ascii "\x7b\"AddRule\":\x7b\"rule\":\x7b\"name\":\"" ++ name ++
    ascii "\",\"exe_path\":\"/a\",\"action\":\"Allow\",\"persistent\":true,\"ttl_secs\":null\x7d\x7d\x7d"

/-- The JSON of the reply to `ListRules` then. -/
def rulesBody (name : List UInt8) : List UInt8 :=
  ascii "\x7b\"Rules\":[\x7b\"id\":1,\"name\":\"" ++ name ++
    ascii ("\",\"exe_path\":\"/a\",\"action\":\"Allow\",\"persistent\":true,\"expires_at\":null," ++
      "\"profile\":\"default\",\"updated_at\":\"1970-01-01T00:00:00Z\"\x7d]\x7d")

@[simp] theorem length_ascii (text : String) : (ascii text).length = text.toList.length :=
  List.length_map _

theorem length_addRuleBody (name : List UInt8) :
    (addRuleBody name).length = 99 + name.length := by
  simp [addRuleBody]
  omega

theorem length_rulesBody (name : List UInt8) : (rulesBody name).length = 155 + name.length := by
  simp [rulesBody]
  omega

/-- A name of this many letters. -/
def letters (n : Nat) : String := String.ofList (List.replicate n 'a')

/-- The bytes of that name. -/
def letterBytes (n : Nat) : List UInt8 := List.replicate n 97

/-- The reply to `ListRules` with the one rule of this name, and its JSON; no other value
is written with it. -/
def rulesCodec (n : Nat) : Codec Response where
  encode v := if v = .rules [namedRule (letters n)] then .ok (rulesBody (letterBytes n))
    else .error "unsupported"
  decode body := if body = rulesBody (letterBytes n) then .ok (.rules [namedRule (letters n)])
    else .error "expected value"

theorem rulesCodec_roundTrips (n : Nat) (value : Response) : (rulesCodec n).RoundTrips value := by
  intro body henc
  simp only [rulesCodec] at henc ⊢
  split at henc
  · rename_i heq
    cases henc
    rw [if_pos rfl, heq]
  · cases henc

theorem rulesCodec_encode (n : Nat) :
    (rulesCodec n).encode (.rules [namedRule (letters n)]) = .ok (rulesBody (letterBytes n)) :=
  if_pos rfl

/-- A daemon that has stored one rule lists it. -/
theorem listed_of_added (name : String) : ∃ w handled,
    Runs.run Overlap.step (Overlap.start .firstStart)
      [.perform (.handle .epoch (.addRule (namedInput name)))] = some w ∧
    dispatch w.daemon .epoch .listRules = some handled ∧
    handled.response = .rules [namedRule name] :=
  ⟨_, _, rfl, rfl, rfl⟩

/-- A name can be so long that the request which brings it fits into a frame, the reply that
lists it is written, and the client refuses it. -/
theorem oversized_rules_refused : ∃ n w handled bytes,
    (addRuleBody (letterBytes n)).length ≤ maxFrame ∧
    (∀ value, (rulesCodec n).RoundTrips value) ∧
    Runs.run Overlap.step (Overlap.start .firstStart)
      [.perform (.handle .epoch (.addRule (namedInput (letters n))))] = some w ∧
    dispatch w.daemon .epoch .listRules = some handled ∧
    writeFrame (rulesCodec n) handled.response = .ok bytes ∧
    (readFrameFrom (rulesCodec n) .start [bytes]).1 = .error (.frameTooLarge 16777251) ∧
    ¬Accepted (rulesCodec n) handled.response := by
  -- the request has 99 bytes around the name and the answer 155
  obtain ⟨n, hn⟩ : ∃ n, n = maxFrame - 120 := ⟨_, rfl⟩
  have hmax : maxFrame = 16777216 := rfl
  obtain ⟨w, handled, hrun, hlist, hresponse⟩ := listed_of_added (letters n)
  have hlen : (rulesBody (letterBytes n)).length = 16777251 := by
    rw [length_rulesBody, letterBytes, List.length_replicate]
    omega
  have hwrite : writeFrame (rulesCodec n) handled.response =
      .ok (Frames.frame (rulesBody (letterBytes n))) := by
    rw [hresponse]
    exact writeFrame_eq_ok.mpr ⟨_, rulesCodec_encode n, rfl⟩
  have hread : (readFrameFrom (rulesCodec n) .start
      [Frames.frame (rulesBody (letterBytes n))]).1 = .error (.frameTooLarge 16777251) := by
    have hpoll := @Frames.Reader.poll_tooLarge maxFrame (rulesBody (letterBytes n)) (by omega)
      (by omega)
    rw [readFrameFrom_eq, Frames.Reader.drive, hpoll, hlen]
  refine ⟨n, w, handled, _, ?_, rulesCodec_roundTrips n, hrun, hlist, hwrite, hread, fun h => ?_⟩
  · rw [length_addRuleBody, letterBytes, List.length_replicate]
    omega
  · rw [h _ hwrite] at hread
    cases hread

end Framing

end TravelMode
