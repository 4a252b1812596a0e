import Mathlib.Data.List.Nodup
import Mathlib.Data.List.Pairwise
import TravelMode.Core.Types

/-!
# The rule store (`daemon/src/rules.rs`)

The in-memory half of the store: `add`, `remove`, `reap_expired`, `is_blocked`
and `load` as functions on the guarded `Inner`. Each call is atomic in the
source (it holds the mutex throughout), so a store operation is one function.

- `add` is partial: `Duration::seconds` panics on a lifetime it cannot represent,
  and so does `next_id += 1` on the largest `u64` (checked arithmetic); in both
  cases the call returns nothing.
- `Inner.Inv`: ids are pairwise distinct and below `next_id`, and no two rules
  share path and action. Every operation keeps it (`add_inv`, `remove_inv`,
  `reapExpired_inv`), and so does loading a file that satisfies it (`load_inv`).
- `Inner.exec` runs an operation given as data (`RuleOp`) and reports what the
  call returned and whether it went through `save_locked`.
-/

namespace TravelMode

/-- One more than the largest `u64`. -/
def u64Bound : Nat := 18446744073709551616

/-! ## Lifetimes -/

/-- `i64::MAX`. -/
def i64Max : Int := 9223372036854775807

/-- The cast `n as i64`. -/
def asI64 (n : UInt64) : Int :=
  if n.toNat ≤ i64Max then n.toNat else n.toNat - u64Bound

/-- `Duration::seconds`, in nanoseconds; `none` is its panic. -/
def durationSeconds (secs : Int) : Option Int :=
  if -(i64Max / 1000) ≤ secs ∧ secs ≤ i64Max / 1000 then some (secs * nanosPerSec) else none

/-- `ttl_secs.and_then(|ttl| now.checked_add_signed(..))`; the outer `none` is a panic. -/
def ruleExpiry (ttl : Option UInt64) (now : DateTime) : Option (Option DateTime) :=
  match ttl with
  | none => some none
  | some ttl => (durationSeconds (asI64 ttl)).map fun delta => now.checkedAddSigned delta

/-- `is_expired`. -/
def isExpired (rule : Rule) (now : DateTime) : Bool :=
  match rule.expiresAt with
  | none => false
  | some exp => decide (exp ≤ now)

/-- A lifetime counts as its `i64` cast. A sum before the earliest date is no expiry, and
one after the latest date is as good as none. -/
theorem isExpired_ruleExpiry {rule : Rule} {ttl : UInt64} {now : DateTime}
    (h : ruleExpiry (some ttl) now = some rule.expiresAt) (u : DateTime) :
    isExpired rule u = false ↔ now.nanos + asI64 ttl * nanosPerSec < minNanos ∨
      u.nanos < now.nanos + asI64 ttl * nanosPerSec := by
  obtain ⟨delta, hdelta, hadd⟩ := Option.map_eq_some_iff.mp h
  unfold durationSeconds at hdelta
  split at hdelta
  · cases hdelta
    rw [isExpired, ← hadd, DateTime.checkedAddSigned]
    by_cases hrange : minNanos ≤ now.nanos + asI64 ttl * nanosPerSec ∧
        now.nanos + asI64 ttl * nanosPerSec ≤ maxNanos
    · rw [dif_pos hrange]
      simp only [decide_eq_false_iff_not, DateTime.le_def]
      omega
    · -- without an expiry the sum lies before every instant, or after every one
      rw [dif_neg hrange]
      have hu := u.inRange.2
      simp only [true_iff]
      omega
  · cases hdelta

/-- Whether the constructor panics. -/
theorem exists_ruleExpiry_iff {ttl : UInt64} {now : DateTime} :
    (∃ e, ruleExpiry (some ttl) now = some e) ↔
      -(i64Max / 1000) ≤ asI64 ttl ∧ asI64 ttl ≤ i64Max / 1000 := by
  rw [ruleExpiry, durationSeconds]
  split
  · rename_i h
    exact ⟨fun _ => h, fun _ => ⟨_, rfl⟩⟩
  · rename_i h
    exact ⟨fun ⟨_, he⟩ => (nomatch he), fun h' => absurd h' h⟩

/-- The cast wraps in the upper half. -/
theorem asI64_cases (ttl : UInt64) :
    (ttl.toNat ≤ i64Max ∧ asI64 ttl = ttl.toNat) ∨
      (i64Max < ttl.toNat ∧ asI64 ttl = ttl.toNat - u64Bound) := by
  by_cases h : (ttl.toNat : Int) ≤ i64Max
  · exact .inl ⟨h, if_pos h⟩
  · exact .inr ⟨Int.not_le.mp h, if_neg h⟩

/-! ## The store -/

/-- What is written to the rules file. -/
structure Persisted where
  nextId : Nat
  rules : List Rule
deriving DecidableEq

/-- The state behind the store's mutex. -/
structure Inner where
  nextId : Nat
  rules : List Rule
  path : PathBuf
deriving DecidableEq

namespace Inner

/-- The `Persisted` that `save_locked` serializes. -/
def persisted (st : Inner) : Persisted := ⟨st.nextId, st.rules⟩

/-- `RuleStore::list`. -/
def list (st : Inner) : List Rule := st.rules

/-- `RuleStore::count`. -/
def count (st : Inner) : Nat := st.rules.length

/-- The store of a first start, at the default place of its file. -/
def firstStart : Inner := ⟨1, [], .ofString "/etc/travelmode/rules.json"⟩

/-- The two rules are for the same executable path and action. -/
def sameTarget (r s : Rule) : Bool := r.exePath.pathEq s.exePath && decide (r.action = s.action)

/-- The rule that `add` stores for `input` under the next id. -/
def newRule (st : Inner) (input : RuleInput) (now : DateTime) (expiresAt : Option DateTime) :
    Rule where
  id := st.nextId
  name := input.name
  exePath := input.exePath
  action := input.action
  persistent := input.persistent
  expiresAt := expiresAt
  profile := "default"
  updatedAt := now

/-- `RuleStore::add`, up to its call of `save_locked`: replace any rule for the same
path and action by a new one under a fresh id. -/
def add (st : Inner) (input : RuleInput) (now : DateTime) : Option (Rule × Inner) :=
  match ruleExpiry input.ttlSecs now with
  | none => none
  | some expiresAt =>
    let rule := st.newRule input now expiresAt
    if st.nextId + 1 < u64Bound then
      some (rule,
        { st with
          nextId := st.nextId + 1
          rules := st.rules.filter (fun r => !sameTarget r rule) ++ [rule] })
    else none

/-- `RuleStore::remove`, up to `save_locked`: the first rule with this id. -/
def remove (st : Inner) (id : Nat) : Option (Rule × Inner) :=
  (st.rules.find? fun r => r.id == id).map fun rule =>
    (rule, { st with rules := st.rules.eraseP fun r => r.id == id })

/-- `RuleStore::reap_expired`, up to `save_locked`: the ids dropped, and the rest. -/
def reapExpired (st : Inner) (now : DateTime) : List Nat × Inner :=
  ((st.rules.filter fun r => isExpired r now).map Rule.id,
    { st with rules := st.rules.filter fun r => !isExpired r now })

/-- `RuleStore::is_blocked`. -/
def isBlocked (st : Inner) (exePath : PathBuf) (now : DateTime) : Bool :=
  st.rules.any fun r => r.blocks exePath && !isExpired r now

/-- `rules.iter().map(|r| r.id).max().unwrap_or(0)`. -/
def maxId (rules : List Rule) : Nat := (rules.map Rule.id).foldr max 0

/-- `RuleStore::load` on what the file parsed to (`none`: missing, unreadable or
unparsable). Rules that expired meanwhile are dropped; `max_id + 1` is checked. -/
def load (path : PathBuf) (persisted : Option Persisted) (now : DateTime) : Option Inner :=
  let nextId := (persisted.map Persisted.nextId).getD 1
  let rules := ((persisted.map Persisted.rules).getD []).filter fun r => !isExpired r now
  if maxId rules + 1 < u64Bound then
    some { nextId := max nextId (maxId rules + 1), rules := rules, path := path }
  else none

/-! ## The invariant -/

/-- What holds of the stored rules and the counter after every operation. -/
structure Inv (p : Persisted) : Prop where
  ids : (p.rules.map Rule.id).Nodup
  fresh : ∀ r ∈ p.rules, r.id < p.nextId
  targets : p.rules.Pairwise fun r s => sameTarget r s = false
  counter : 0 < p.nextId ∧ p.nextId < u64Bound

/-- Dropping rules keeps the invariant. -/
theorem inv_sublist {p : Persisted} {rules : List Rule} (h : Inv p)
    (hs : List.Sublist rules p.rules) : Inv ⟨p.nextId, rules⟩ where
  ids := h.ids.sublist (hs.map Rule.id)
  fresh r hr := h.fresh r (hs.subset hr)
  targets := h.targets.sublist hs
  counter := h.counter

theorem sameTarget_comm (r s : Rule) : sameTarget r s = sameTarget s r := by
  rw [sameTarget, sameTarget, PathBuf.pathEq_comm, decide_eq_decide.mpr eq_comm]

/-- A path has one Block rule at most. -/
theorem blockRule_unique {p : Persisted} (h : Inv p) {r s : Rule} (hr : r ∈ p.rules)
    (hs : s ∈ p.rules) {exe : PathBuf} (hrblocks : r.blocks exe = true)
    (hsblocks : s.blocks exe = true) : r = s := by
  have hsymm : Std.Symm fun r s => sameTarget r s = false :=
    ⟨fun r s hrs => (sameTarget_comm s r).trans hrs⟩
  by_contra hne
  have hdiffer := h.targets.forall hr hs hne
  obtain ⟨hraction, hrpath⟩ := Rule.blocks_iff.mp hrblocks
  obtain ⟨hsaction, hspath⟩ := Rule.blocks_iff.mp hsblocks
  rw [PathBuf.pathEq_comm] at hspath
  rw [sameTarget, PathBuf.pathEq_trans hrpath hspath, hraction, hsaction] at hdiffer
  cases hdiffer

/-- The empty store that a missing file yields. -/
theorem inv_empty : Inv ⟨1, []⟩ where
  ids := List.nodup_nil
  fresh _ hr := nomatch hr
  targets := List.Pairwise.nil
  counter := by decide

/-- What a completed `add` does. -/
theorem add_eq_some {st st' : Inner} {input : RuleInput} {now : DateTime} {rule : Rule} :
    st.add input now = some (rule, st') ↔
      ∃ expiresAt, ruleExpiry input.ttlSecs now = some expiresAt ∧
        st.nextId + 1 < u64Bound ∧ rule = st.newRule input now expiresAt ∧
        st' = { st with
          nextId := st.nextId + 1
          rules := st.rules.filter (fun r => !sameTarget r rule) ++ [rule] } := by
  unfold add
  cases hexp : ruleExpiry input.ttlSecs now with
  | none => simp
  | some expiresAt =>
    dsimp only
    -- the counter must not overflow
    by_cases hc : st.nextId + 1 < u64Bound
    · rw [if_pos hc]
      constructor
      · intro h
        obtain ⟨rfl, rfl⟩ := Prod.mk.inj (Option.some.inj h)
        exact ⟨expiresAt, rfl, hc, rfl, rfl⟩
      · rintro ⟨e, he, -, rfl, rfl⟩
        cases he
        rfl
    · rw [if_neg hc]
      constructor
      · intro h
        cases h
      · rintro ⟨e, -, hc', -⟩
        exact absurd hc' hc

/-- What a completed `remove` does, in a store with distinct ids. -/
theorem remove_eq_some {st st' : Inner} {id : Nat} {rule : Rule}
    (h : st.remove id = some (rule, st')) :
    rule ∈ st.rules ∧ rule.id = id ∧
      st' = { st with rules := st.rules.eraseP fun r => r.id == id } := by
  obtain ⟨r, hr, he⟩ := Option.map_eq_some_iff.mp h
  obtain ⟨rfl, rfl⟩ := Prod.mk.inj he
  exact ⟨List.mem_of_find?_eq_some hr, by simpa using List.find?_some hr, rfl⟩

/-- With distinct ids, erasing the first rule with an id erases every rule with it. -/
theorem eraseP_id_eq_filter {rules : List Rule} (h : (rules.map Rule.id).Nodup) (id : Nat) :
    (rules.eraseP fun r => r.id == id) = rules.filter fun r => !(r.id == id) := by
  induction rules with
  | nil => rfl
  | cons r rs ih =>
    obtain ⟨hr, hrs⟩ := List.nodup_cons.mp h
    by_cases hid : r.id = id
    · have hb : (r.id == id) = true := by simpa using hid
      rw [List.eraseP_cons_of_pos (p := fun r : Rule => r.id == id) hb,
        List.filter_cons_of_neg (by simp [hb])]
      refine (List.filter_eq_self.mpr fun s hs => ?_).symm
      have hne : s.id ≠ id := fun he => hr (List.mem_map.mpr ⟨s, hs, he.trans hid.symm⟩)
      simpa using hne
    · have hb : ¬(r.id == id) = true := by simpa using hid
      rw [List.eraseP_cons_of_neg (p := fun r : Rule => r.id == id) hb,
        List.filter_cons_of_pos (by simpa using hid), ih hrs]

/-- With distinct ids, dropping the ids of some rules drops those rules. -/
theorem filter_not_mem_ids {rules : List Rule} (h : (rules.map Rule.id).Nodup)
    (p : Rule → Bool) :
    rules.filter (fun r => decide (r.id ∉ (rules.filter p).map Rule.id)) =
      rules.filter fun r => !p r := by
  refine List.filter_congr fun r hr => ?_
  rw [Bool.eq_iff_iff, decide_eq_true_iff, Bool.not_eq_true']
  constructor
  · intro hid
    cases hp : p r with
    | false => rfl
    | true => exact absurd (List.mem_map.mpr ⟨r, List.mem_filter.mpr ⟨hr, hp⟩, rfl⟩) hid
  · intro hp hmem
    obtain ⟨s, hs, hid⟩ := List.mem_map.mp hmem
    have hsr : s = r := List.inj_on_of_nodup_map h (List.mem_filter.mp hs).1 hr hid
    rw [hsr] at hs
    rw [(List.mem_filter.mp hs).2] at hp
    cases hp

theorem add_inv {st st' : Inner} {input : RuleInput} {now : DateTime} {rule : Rule}
    (hi : Inv st.persisted) (h : st.add input now = some (rule, st')) : Inv st'.persisted := by
  obtain ⟨expiresAt, -, hc, hrule, rfl⟩ := add_eq_some.mp h
  have hid : rule.id = st.nextId := by rw [hrule]; rfl
  -- what `add` keeps is a sublist; the new rule is above it and has no target in it
  have hkept : Inv ⟨st.nextId, st.rules.filter fun r => !sameTarget r rule⟩ :=
    inv_sublist hi List.filter_sublist
  refine { ids := ?_, fresh := ?_, targets := ?_, counter := ⟨Nat.succ_pos _, hc⟩ }
  · show (List.map Rule.id (_ ++ [rule])).Nodup
    rw [List.map_append, List.map_singleton, List.nodup_append]
    refine ⟨hkept.ids, by simp, ?_⟩
    intro a ha b hb he
    obtain ⟨r, hr, rfl⟩ := List.mem_map.mp ha
    have hlt : r.id < st.nextId := hkept.fresh r hr
    have hb' : b = rule.id := List.mem_singleton.mp hb
    omega
  · intro r hr
    show r.id < st.nextId + 1
    rcases List.mem_append.mp hr with hr | hr
    · exact Nat.lt_succ_of_lt (hkept.fresh r hr)
    · rw [List.mem_singleton.mp hr, hid]
      exact Nat.lt_succ_self _
  · show List.Pairwise _ (_ ++ [rule])
    rw [List.pairwise_append]
    refine ⟨hkept.targets, List.pairwise_singleton _ _, ?_⟩
    intro r hr s hs
    rw [List.mem_singleton.mp hs]
    simpa using (List.mem_filter.mp hr).2

theorem remove_inv {st st' : Inner} {id : Nat} {rule : Rule}
    (hi : Inv st.persisted) (h : st.remove id = some (rule, st')) : Inv st'.persisted := by
  obtain ⟨-, -, rfl⟩ := remove_eq_some h
  exact inv_sublist hi List.eraseP_sublist

theorem reapExpired_inv {st : Inner} (hi : Inv st.persisted) (now : DateTime) :
    Inv (st.reapExpired now).2.persisted :=
  inv_sublist hi List.filter_sublist

/-! ## Loading -/

/-- `maxId` bounds every id, and is attained unless the list is empty. -/
theorem maxId_lt {rules : List Rule} {n : Nat} (hn : 0 < n) (h : ∀ r ∈ rules, r.id < n) :
    maxId rules < n := by
  induction rules with
  | nil => exact hn
  | cons r rs ih =>
    have h1 : r.id < n := h r List.mem_cons_self
    have h2 : maxId rs < n := ih fun s hs => h s (List.mem_cons_of_mem _ hs)
    exact Nat.max_lt.mpr ⟨h1, h2⟩

/-- Loading a file that satisfies the invariant: the counter is the persisted one, and
the rules are the unexpired ones. -/
theorem load_eq {p : Persisted} (hi : Inv p) (path : PathBuf) (now : DateTime) :
    load path (some p) now =
      some ⟨p.nextId, p.rules.filter (fun r => !isExpired r now), path⟩ := by
  have hfresh : ∀ r ∈ p.rules.filter (fun r => !isExpired r now), r.id < p.nextId :=
    fun r hr => hi.fresh r (List.mem_filter.mp hr).1
  have hmax := maxId_lt hi.counter.1 hfresh
  have hbound := hi.counter.2
  unfold load
  simp only [Option.map_some, Option.getD_some]
  rw [if_pos (by omega), Nat.max_eq_left (by omega)]

theorem load_inv {p : Persisted} (hi : Inv p) {path : PathBuf} {now : DateTime} {st : Inner}
    (h : load path (some p) now = some st) : Inv st.persisted := by
  rw [load_eq hi] at h
  cases h
  exact inv_sublist hi List.filter_sublist

/-! ## Operations as data -/

end Inner

/-- A call of one of the three mutating operations. -/
inductive RuleOp where
  | add (input : RuleInput)
  | remove (id : Nat)
  | reapExpired
deriving DecidableEq

/-- What a call did: the rule `add` returned, the new store, and whether the call went
through `save_locked`. -/
structure Outcome where
  returned : Option Rule
  store : Inner
  saves : Bool

namespace Inner

/-- Run one call at clock value `now`. A call that panics leaves the store unchanged. -/
def exec (st : Inner) (now : DateTime) : RuleOp → Outcome
  | .add input =>
    match st.add input now with
    | some (rule, st') => ⟨some rule, st', true⟩
    | none => ⟨none, st, false⟩
  | .remove id =>
    match st.remove id with
    | some (_, st') => ⟨none, st', true⟩
    | none => ⟨none, st, false⟩
  | .reapExpired =>
    let st' := (st.reapExpired now).2
    ⟨none, st', st'.rules.length != st.rules.length⟩

/-- Everything one call can do to the store, the value it returns included. -/
theorem exec_cases (st : Inner) (now : DateTime) (op : RuleOp) :
    (∃ input rule st', op = .add input ∧ st.add input now = some (rule, st') ∧
        st.exec now op = ⟨some rule, st', true⟩) ∨
    (∃ input, op = .add input ∧ st.add input now = none ∧ st.exec now op = ⟨none, st, false⟩) ∨
    (∃ id rule st', op = .remove id ∧ st.remove id = some (rule, st') ∧
        st.exec now op = ⟨none, st', true⟩) ∨
    (∃ id, op = .remove id ∧ st.remove id = none ∧ st.exec now op = ⟨none, st, false⟩) ∨
    (op = .reapExpired ∧ st.exec now op = ⟨none, (st.reapExpired now).2,
        (st.reapExpired now).2.rules.length != st.rules.length⟩) := by
  cases op with
  | add input =>
    cases h : st.add input now with
    | none => exact .inr (.inl ⟨input, rfl, h, by simp only [exec, h]⟩)
    | some p => exact .inl ⟨input, p.1, p.2, rfl, h, by simp only [exec, h]⟩
  | remove id =>
    cases h : st.remove id with
    | none => exact .inr (.inr (.inr (.inl ⟨id, rfl, h, by simp only [exec, h]⟩)))
    | some p => exact .inr (.inr (.inl ⟨id, p.1, p.2, rfl, h, by simp only [exec, h]⟩))
  | reapExpired => exact .inr (.inr (.inr (.inr ⟨rfl, rfl⟩)))

theorem exec_inv {st : Inner} (hi : Inv st.persisted) (now : DateTime) (op : RuleOp) :
    Inv (st.exec now op).store.persisted := by
  rcases exec_cases st now op with ⟨_, _, _, -, h, he⟩ | ⟨_, -, -, he⟩ | ⟨_, _, _, -, h, he⟩ |
    ⟨_, -, -, he⟩ | ⟨-, he⟩
  · rw [he]
    exact add_inv hi h
  · rw [he]
    exact hi
  · rw [he]
    exact remove_inv hi h
  · rw [he]
    exact hi
  · rw [he]
    exact reapExpired_inv hi now

end Inner

end TravelMode
