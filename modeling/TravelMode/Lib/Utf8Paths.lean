import TravelMode.Lib.UnixPath

/-!
# Paths that are text

`PathBuf.display` is lossy, but not for paths that are UTF-8: these are read back from their
rendering (`ofString_display`), so they render differently when they are different
(`eq_of_display_eq`).

Decoding inverts the encoder of `String`, one character at a time. The ranges that
`utf8Lead` sets for the first continuation byte are what makes it do so.
-/

namespace PathBuf

/-! ## One character -/

theorem ofNat_eq {b : UInt8} {n : Nat} (h : n % 256 = b.toNat) : UInt8.ofNat n = b := by
  refine UInt8.toNat_inj.mp ?_
  rw [UInt8.toNat_ofNat']
  exact h

theorem val_ofNat {n : Nat} (h : n.isValidChar) : (Char.ofNat n).val.toNat = n := by
  unfold Char.ofNat
  rw [dif_pos h]
  unfold Char.ofNatAux
  exact UInt32.toNat_ofNatLT ..

/-- The encoder, by the scalar value of the character. -/
theorem encode_eq {c : Char} {v : Nat} (h : c.val.toNat = v) :
    String.utf8EncodeChar c =
      if v ≤ 0x7f then [UInt8.ofNat v]
      else if v ≤ 0x7ff then [UInt8.ofNat (v / 64 % 32 + 192), UInt8.ofNat (v % 64 + 128)]
      else if v ≤ 0xffff then
        [UInt8.ofNat (v / 4096 % 16 + 224), UInt8.ofNat (v / 64 % 64 + 128),
          UInt8.ofNat (v % 64 + 128)]
      else
        [UInt8.ofNat (v / 262144 % 8 + 240), UInt8.ofNat (v / 4096 % 64 + 128),
          UInt8.ofNat (v / 64 % 64 + 128), UInt8.ofNat (v % 64 + 128)] := by
  subst h
  rfl

theorem encode_one {b : UInt8} (hb : b.toNat < 0x80) :
    String.utf8EncodeChar (Char.ofNat b.toNat) = [b] := by
  have hvalid : b.toNat.isValidChar := .inl (by omega)
  rw [encode_eq (val_ofNat hvalid), if_pos (by omega), ofNat_eq (b := b) (by omega)]

theorem encode_two {b c : UInt8} (hb : 0xC2 ≤ b.toNat ∧ b.toNat < 0xE0)
    (hc : 0x80 ≤ c.toNat ∧ c.toNat ≤ 0xBF) :
    String.utf8EncodeChar (Char.ofNat (b.toNat % 32 * 64 + c.toNat % 64)) = [b, c] := by
  have hvalid : (b.toNat % 32 * 64 + c.toNat % 64).isValidChar := .inl (by omega)
  rw [encode_eq (val_ofNat hvalid), if_neg (by omega), if_pos (by omega), ofNat_eq (b := b) (by omega),
    ofNat_eq (b := c) (by omega)]

theorem encode_three {b c d : UInt8} (hb : 0xE0 ≤ b.toNat ∧ b.toNat < 0xF0)
    (hc : 0x80 ≤ c.toNat ∧ c.toNat ≤ 0xBF) (hd : 0x80 ≤ d.toNat ∧ d.toNat ≤ 0xBF)
    (hlow : b.toNat = 0xE0 → 0xA0 ≤ c.toNat) (hhigh : b.toNat = 0xED → c.toNat ≤ 0x9F) :
    String.utf8EncodeChar
      (Char.ofNat ((b.toNat % 16 * 64 + c.toNat % 64) * 64 + d.toNat % 64)) = [b, c, d] := by
  -- the narrowed ranges leave out overlong forms and surrogates
  have hvalid : ((b.toNat % 16 * 64 + c.toNat % 64) * 64 + d.toNat % 64).isValidChar := by
    unfold Nat.isValidChar
    omega
  rw [encode_eq (val_ofNat hvalid), if_neg (by omega), if_neg (by omega), if_pos (by omega), ofNat_eq (b := b) (by omega),
    ofNat_eq (b := c) (by omega), ofNat_eq (b := d) (by omega)]

theorem encode_four {b c d e : UInt8} (hb : 0xF0 ≤ b.toNat ∧ b.toNat ≤ 0xF4)
    (hc : 0x80 ≤ c.toNat ∧ c.toNat ≤ 0xBF) (hd : 0x80 ≤ d.toNat ∧ d.toNat ≤ 0xBF)
    (he : 0x80 ≤ e.toNat ∧ e.toNat ≤ 0xBF)
    (hlow : b.toNat = 0xF0 → 0x90 ≤ c.toNat) (hhigh : b.toNat = 0xF4 → c.toNat ≤ 0x8F) :
    String.utf8EncodeChar (Char.ofNat
      (((b.toNat % 8 * 64 + c.toNat % 64) * 64 + d.toNat % 64) * 64 + e.toNat % 64)) =
        [b, c, d, e] := by
  have hvalid : (((b.toNat % 8 * 64 + c.toNat % 64) * 64 + d.toNat % 64) * 64 +
      e.toNat % 64).isValidChar := by
    unfold Nat.isValidChar
    omega
  rw [encode_eq (val_ofNat hvalid), if_neg (by omega), if_neg (by omega), if_neg (by omega), ofNat_eq (b := b) (by omega),
    ofNat_eq (b := c) (by omega), ofNat_eq (b := d) (by omega), ofNat_eq (b := e) (by omega)]

/-- Continuation bytes, one at a time. -/
theorem continuation_succ {n : Nat} {lo hi : UInt8} {bs : List UInt8}
    (h : continuation (n + 1) lo hi bs = n + 1) :
    ∃ c cs, bs = c :: cs ∧ (lo.toNat ≤ c.toNat ∧ c.toNat ≤ hi.toNat) ∧
      continuation n 0x80 0xBF cs = n := by
  cases bs with
  | nil => cases h
  | cons c cs =>
    rw [continuation] at h
    split at h
    · rename_i hrange
      exact ⟨c, cs, rfl, hrange, by omega⟩
    · cases h

/-- What a lead byte announces, by the ranges that lead bytes fall into. -/
theorem utf8Lead_eq_some {b lo hi : UInt8} {n : Nat} (h : utf8Lead b = some (n, lo, hi)) :
    (n = 0 ∧ b.toNat < 0x80) ∨
    (n = 1 ∧ (0xC2 ≤ b.toNat ∧ b.toNat < 0xE0) ∧ lo.toNat = 0x80 ∧ hi.toNat = 0xBF) ∨
    (n = 2 ∧ (0xE0 ≤ b.toNat ∧ b.toNat < 0xF0) ∧ 0x80 ≤ lo.toNat ∧ hi.toNat ≤ 0xBF ∧
      (b.toNat = 0xE0 → lo.toNat = 0xA0) ∧ (b.toNat = 0xED → hi.toNat = 0x9F)) ∨
    (n = 3 ∧ (0xF0 ≤ b.toNat ∧ b.toNat ≤ 0xF4) ∧ 0x80 ≤ lo.toNat ∧ hi.toNat ≤ 0xBF ∧
      (b.toNat = 0xF0 → lo.toNat = 0x90) ∧ (b.toNat = 0xF4 → hi.toNat = 0x8F)) := by
  unfold utf8Lead at h
  split_ifs at h with h80 hC2 hE0 heqE0 heqED hF0 heqF0 hF4 heqF4
  all_goals
    simp only [UInt8.lt_iff_toNat_lt, ← UInt8.toNat_inj, UInt8.reduceToNat] at *
  · cases h
    exact .inl ⟨rfl, h80⟩
  · cases h
    exact .inr (.inl ⟨rfl, ⟨by omega, hE0⟩, rfl, rfl⟩)
  · cases h
    refine .inr (.inr (.inl ⟨rfl, by omega, by decide, by decide, fun _ => rfl, fun h => ?_⟩))
    omega
  · cases h
    refine .inr (.inr (.inl ⟨rfl, by omega, by decide, by decide, fun h => ?_, fun _ => rfl⟩))
    omega
  · cases h
    exact .inr (.inr (.inl ⟨rfl, by omega, by decide, by decide, fun h => absurd h heqE0,
      fun h => absurd h heqED⟩))
  · cases h
    refine .inr (.inr (.inr ⟨rfl, by omega, by decide, by decide, fun _ => rfl, fun h => ?_⟩))
    omega
  · cases h
    refine .inr (.inr (.inr ⟨rfl, by omega, by decide, by decide, fun h => absurd h heqF0,
      fun h => ?_⟩))
    omega
  · cases h
    refine .inr (.inr (.inr ⟨rfl, by omega, by decide, by decide, fun h => ?_, fun _ => rfl⟩))
    omega

/-- **One character**: where the sequence is complete, its encoding is its bytes. -/
theorem encode_utf8Head {b : UInt8} {bs : List UInt8} {n : Nat} {lo hi : UInt8}
    (hlead : utf8Lead b = some (n, lo, hi)) (hcont : continuation n lo hi bs = n) :
    String.utf8EncodeChar (utf8Head b bs).1 ++ (utf8Head b bs).2 = b :: bs ∧
      (utf8Head b bs).2 = bs.drop n := by
  have hhead : utf8Head b bs = (Char.ofNat (utf8Scalar b (bs.take n)), bs.drop n) := by
    unfold utf8Head
    rw [hlead]
    simp only [hcont, if_true]
  rw [hhead]
  refine ⟨?_, rfl⟩
  rcases utf8Lead_eq_some hlead with ⟨rfl, hb⟩ | ⟨rfl, hb, hlo, hhi⟩ |
    ⟨rfl, hb, hlo, hhi, hlow, hhigh⟩ | ⟨rfl, hb, hlo, hhi, hlow, hhigh⟩
  · show String.utf8EncodeChar (Char.ofNat b.toNat) ++ bs = b :: bs
    rw [encode_one hb]
    rfl
  · obtain ⟨c, cs, rfl, hc, -⟩ := continuation_succ hcont
    show String.utf8EncodeChar (Char.ofNat (b.toNat % 32 * 64 + c.toNat % 64)) ++ cs = _
    rw [encode_two hb (by omega)]
    rfl
  · obtain ⟨c, cs, rfl, hc, hcont⟩ := continuation_succ hcont
    obtain ⟨d, ds, rfl, hd, -⟩ := continuation_succ hcont
    show String.utf8EncodeChar
      (Char.ofNat ((b.toNat % 16 * 64 + c.toNat % 64) * 64 + d.toNat % 64)) ++ ds = _
    rw [encode_three hb (by omega) hd (by omega) (by omega)]
    rfl
  · obtain ⟨c, cs, rfl, hc, hcont⟩ := continuation_succ hcont
    obtain ⟨d, ds, rfl, hd, hcont⟩ := continuation_succ hcont
    obtain ⟨e, es, rfl, he, -⟩ := continuation_succ hcont
    show String.utf8EncodeChar (Char.ofNat
      (((b.toNat % 8 * 64 + c.toNat % 64) * 64 + d.toNat % 64) * 64 + e.toNat % 64)) ++ es = _
    rw [encode_four hb (by omega) hd he (by omega) (by omega)]
    rfl

/-! ## Whole paths -/

theorem encode_utf8LossyAux {fuel : Nat} {bs : List UInt8} (h : utf8ValidAux fuel bs = true)
    (hfuel : bs.length ≤ fuel) :
    (utf8LossyAux fuel bs).flatMap String.utf8EncodeChar = bs := by
  induction fuel generalizing bs with
  | zero =>
    cases bs with
    | nil => rfl
    | cons b bs => cases hfuel
  | succ fuel ih =>
    cases bs with
    | nil => rfl
    | cons b bs =>
      rw [utf8ValidAux] at h
      cases hlead : utf8Lead b with
      | none =>
        rw [hlead] at h
        cases h
      | some announced =>
        obtain ⟨n, lo, hi⟩ := announced
        rw [hlead] at h
        obtain ⟨hcont, hrest⟩ := Bool.and_eq_true_iff.mp h
        obtain ⟨hencode, hdrop⟩ := encode_utf8Head hlead (beq_iff_eq.mp hcont)
        have hlen : (bs.drop n).length ≤ fuel := by
          rw [List.length_cons] at hfuel
          rw [List.length_drop]
          omega
        rw [utf8LossyAux]
        dsimp only
        rw [List.flatMap_cons, hdrop, ih hrest hlen, ← hdrop]
        exact hencode

/-- **Round trip**: a path that is UTF-8 is the one with its rendering for a text. -/
theorem ofString_display {p : PathBuf} (h : p.isUtf8 = true) : ofString p.display = p := by
  have hbytes := encode_utf8LossyAux h (Nat.le_refl _)
  rw [ofString, display, String.toList_ofList]
  exact congrArg PathBuf.mk hbytes

/-- Paths that are UTF-8 and rendered alike are the same. -/
theorem eq_of_display_eq {p q : PathBuf} (hp : p.isUtf8 = true) (hq : q.isUtf8 = true)
    (h : p.display = q.display) : p = q := by
  rw [← ofString_display hp, h, ofString_display hq]

/-! ## Slashes in text -/

theorem ofNat_eq_slash {n : Nat} (h : n < 256) : slash = UInt8.ofNat n ↔ n = 47 := by
  rw [← UInt8.toNat_inj, UInt8.toNat_ofNat', Nat.mod_eq_of_lt h]
  exact eq_comm

/-- No character but `/` has its byte in it. -/
theorem slash_mem_encode {c : Char} : slash ∈ String.utf8EncodeChar c ↔ c = '/' := by
  have hchar : c = '/' ↔ c.val.toNat = 47 := by
    rw [Char.ext_iff, ← UInt32.toNat_inj]
    rfl
  rw [hchar, encode_eq rfl]
  split_ifs with hone
  · rw [List.mem_singleton]
    exact ofNat_eq_slash (by omega)
  -- the bytes of the others have their high bit set
  all_goals
    simp (disch := omega) only [List.mem_cons, List.not_mem_nil, or_false, ofNat_eq_slash]
    omega

theorem slash_mem_ofString {s : String} : slash ∈ (ofString s).bytes ↔ '/' ∈ s.toList := by
  rw [ofString, List.mem_flatMap]
  constructor
  · rintro ⟨c, hc, hslash⟩
    rwa [← slash_mem_encode.mp hslash]
  · intro h
    exact ⟨'/', h, slash_mem_encode.mpr rfl⟩

end PathBuf
