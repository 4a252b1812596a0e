import TravelMode.Daemon.Rules

/-!
# The lifetime of a temporary rule

`ttl_secs` is a `u64` that comes from a client as it is. `RuleStore::add` casts it to
`i64`, hands it to a constructor that panics, and adds it to the clock with a check whose
failure means that the rule never expires.

- `Timely`: what a lifetime is to mean, in exact arithmetic.
- `timely_iff`: which lifetimes do mean it. Up to `i64::MAX / 1000` seconds all is well;
  above, only a lifetime whose cast is so far below zero that the sum has no date.
-/

namespace TravelMode

namespace Lifetime

/-- `i64::MAX / 1000`: the longest that `Duration::seconds` takes, in either direction. -/
def maxSeconds : Int := 9223372036854775

/-- `add` stores a rule that is in force up to `ttl` seconds from now, and no longer. -/
def Timely (st : Inner) (input : RuleInput) (ttl : UInt64) (now : DateTime) : Prop :=
  ∃ rule st', st.add input now = some (rule, st') ∧ rule ∈ st'.rules ∧
    ∀ u : DateTime, now ≤ u →
      (isExpired rule u = false ↔ u.nanos < now.nanos + ttl.toNat * nanosPerSec)

/-- The lifetime is short enough; or its cast is negative, the constructor takes that, and
the sum lies before the earliest date. -/
def Representable (ttl : UInt64) (now : DateTime) : Prop :=
  ttl.toNat ≤ maxSeconds ∨
    (u64Bound - maxSeconds ≤ ttl.toNat ∧
      now.nanos + (ttl.toNat - u64Bound) * nanosPerSec < minNanos)

/-- What the store makes of a lifetime: it is its cast that counts. -/
theorem timely_iff_cast {st : Inner} {input : RuleInput} {ttl : UInt64} {now : DateTime}
    (httl : input.ttlSecs = some ttl) :
    Timely st input ttl now ↔
      st.nextId + 1 < u64Bound ∧ (-maxSeconds ≤ asI64 ttl ∧ asI64 ttl ≤ maxSeconds) ∧
        ∀ u : DateTime, now ≤ u → ((now.nanos + asI64 ttl * nanosPerSec < minNanos ∨
          u.nanos < now.nanos + asI64 ttl * nanosPerSec) ↔
            u.nanos < now.nanos + ttl.toNat * nanosPerSec) := by
  constructor
  · rintro ⟨rule, st', hadd, -, hlife⟩
    obtain ⟨e, he, hnext, hrule, -⟩ := Inner.add_eq_some.mp hadd
    rw [httl] at he
    refine ⟨hnext, exists_ruleExpiry_iff.mp ⟨e, he⟩, fun u hu => ?_⟩
    have hexp : ruleExpiry (some ttl) now = some rule.expiresAt := by
      rw [hrule]
      exact he
    exact (isExpired_ruleExpiry hexp u).symm.trans (hlife u hu)
  · rintro ⟨hnext, hsecs, hlife⟩
    obtain ⟨e, he⟩ := exists_ruleExpiry_iff.mpr hsecs
    refine ⟨st.newRule input now e, _, Inner.add_eq_some.mpr ⟨e, httl ▸ he, hnext, rfl, rfl⟩,
      List.mem_append_right _ List.mem_cons_self, fun u hu => ?_⟩
    have hexp : ruleExpiry (some ttl) now = some (st.newRule input now e).expiresAt := he
    exact (isExpired_ruleExpiry hexp u).trans (hlife u hu)

/-- **Lifetimes**: for every store, every lifetime and every current time, `add` stores a
rule that is in force for exactly that long if and only if there is an id left and the
lifetime is representable. -/
theorem timely_iff {st : Inner} {input : RuleInput} {ttl : UInt64} {now : DateTime}
    (httl : input.ttlSecs = some ttl) :
    Timely st input ttl now ↔ st.nextId + 1 < u64Bound ∧ Representable ttl now := by
  rw [timely_iff_cast httl]
  refine and_congr_right fun _ => ?_
  have hlt := ttl.toNat_lt
  have hnow := now.inRange
  have hmax : i64Max = 9223372036854775807 := rfl
  have hbound : (u64Bound : Int) = 18446744073709551616 := rfl
  have hmin : minNanos = -8334601228800 * 1000000000 := rfl
  have hlast : maxNanos = 8210266876800 * 1000000000 - 1 := rfl
  have hnanos : nanosPerSec = 1000000000 := rfl
  have hsecs : maxSeconds = 9223372036854775 := rfl
  rw [hmin, hlast] at hnow
  unfold Representable
  rw [hnanos, hmin, hsecs, hbound]
  rcases asI64_cases ttl with ⟨hle, hcast⟩ | ⟨hgt, hcast⟩
  · -- the cast is the lifetime itself
    rw [hcast]
    constructor
    · rintro ⟨⟨-, h⟩, -⟩
      exact .inl h
    · rintro (h | ⟨h, -⟩)
      · refine ⟨⟨by omega, h⟩, fun u hu => ?_⟩
        omega
      · omega
  · rw [hcast, hbound]
    constructor
    · rintro ⟨⟨h, -⟩, hlife⟩
      -- a rule stored with a past date is expired at once
      have hat := hlife now (Int.le_refl _)
      omega
    · rintro (h | ⟨h, hbefore⟩)
      · omega
      · refine ⟨by omega, fun u _ => ?_⟩
        have hu := u.inRange
        rw [hmin, hlast] at hu
        omega

/-- A rule for an hour. -/
theorem timely_iff_hour :
    Timely .firstStart ⟨"curl", .ofString "/usr/bin/curl", .block, false, some 3600⟩ 3600 .epoch ↔
      Inner.firstStart.nextId + 1 < u64Bound ∧ Representable 3600 .epoch :=
  timely_iff rfl

/-- A block of `/usr/bin/curl` for so many seconds. -/
def blockFor (ttl : UInt64) : RuleInput :=
  ⟨"curl", .ofString "/usr/bin/curl", .block, false, some ttl⟩

/-- The largest lifetime is over before it starts, and `i64::MAX` seconds are a panic. -/
theorem long_lifetimes_fail :
    (∃ rule st', Inner.firstStart.add (blockFor 18446744073709551615) .epoch = some (rule, st') ∧
      isExpired rule .epoch = true ∧ st'.isBlocked (.ofString "/usr/bin/curl") .epoch = false) ∧
    Inner.firstStart.add (blockFor 9223372036854775807) .epoch = none ∧
    ¬Timely .firstStart (blockFor 18446744073709551615) 18446744073709551615 .epoch ∧
    ¬Timely .firstStart (blockFor 9223372036854775807) 9223372036854775807 .epoch := by
  have hlong : ¬Representable 18446744073709551615 .epoch := by
    unfold Representable
    decide
  have hpanic : ¬Representable 9223372036854775807 .epoch := by
    unfold Representable
    decide
  refine ⟨⟨_, _, rfl, by decide, by decide⟩, by decide, ?_, ?_⟩
  · exact fun h => hlong ((timely_iff rfl).mp h).2
  · exact fun h => hpanic ((timely_iff rfl).mp h).2

end Lifetime

end TravelMode
