import TravelMode.Daemon.RuleFile
import TravelMode.Daemon.State

/-!
# Verdicts over whole histories

What the rule store is for, said without its vector: per executable, the *last*
Block rule added for it decides, unless it was removed by its id or has expired.

- `LogEntry` records the calls that completed; `policy` is the last-writer-wins map
  that a log stands for, and `policy_eq_some_iff` reads it off the log.
- `Refines`: the vector represents the map. Replacement, lazy expiry at query time
  and eager expiry by the reaper all keep it (`step_refines`).
- `decide_drop_iff`: the verdict on a packet of an executable, at any later time, in
  terms of the log alone — and what may be left out of the log.
-/

namespace TravelMode

namespace Policy

open TravelMode.Inner

/-! ## The last-writer-wins map -/

/-- A completed `add`: when, from what input, and the id it returned. -/
structure Added where
  now : DateTime
  input : RuleInput
  id : Nat
deriving DecidableEq

/-- A completed call. -/
inductive LogEntry where
  | added (e : Added)
  | removed (id : Nat)
  | reaped
deriving DecidableEq

/-- The call added a Block rule for the executable. -/
def Added.blocks (e : Added) (exe : PathBuf) : Bool :=
  decide (e.input.action = .block) && e.input.exePath.pathEq exe

/-- The added rule is past its lifetime: clock value plus `ttl_secs`, in exact
arithmetic, is not later than `u`. -/
def Added.Expired (e : Added) (u : DateTime) : Prop :=
  ∃ ttl, e.input.ttlSecs = some ttl ∧ e.now.nanos + ttl.toNat * nanosPerSec ≤ u.nanos

/-- One call on the map from executables to the Block rule that decides. -/
def policyStep (P : PathBuf → Option Added) : LogEntry → PathBuf → Option Added
  | .added e => fun exe => if e.blocks exe then some e else P exe
  | .removed id => fun exe => (P exe).filter fun e => e.id != id
  | .reaped => P

/-- The map that a log stands for. -/
def policy (log : List LogEntry) : PathBuf → Option Added := log.foldl policyStep fun _ => none

/-- The executable is blocked at `u`: the most recent Block rule added for it was not
removed by its id afterwards, and has not expired. -/
def Blocks (log : List LogEntry) (exe : PathBuf) (u : DateTime) : Prop :=
  ∃ pre e post, log = pre ++ .added e :: post ∧ e.blocks exe = true ∧
    (∀ e', .added e' ∈ post → e'.blocks exe = false) ∧ .removed e.id ∉ post ∧ ¬e.Expired u

/-- An entry that changes nothing for the executable: a reaper pass, an Allow rule or a
rule for another path, or the removal of an id that is not the deciding rule's. -/
def Inert (pre : List LogEntry) (exe : PathBuf) : LogEntry → Prop
  | .added e => e.blocks exe = false
  | .removed id => ∀ e, policy pre exe = some e → e.id ≠ id
  | .reaped => True

theorem policy_snoc (log : List LogEntry) (x : LogEntry) :
    policy (log ++ [x]) = policyStep (policy log) x := by
  rw [policy, List.foldl_append]
  rfl

/-- The rule is the deciding one: the last Block rule added for the executable, not
removed by its id afterwards. -/
def Decides (log : List LogEntry) (exe : PathBuf) (e : Added) : Prop :=
  ∃ pre post, log = pre ++ .added e :: post ∧ e.blocks exe = true ∧
    (∀ e', .added e' ∈ post → e'.blocks exe = false) ∧ .removed e.id ∉ post

/-- One more entry: it adds the deciding rule, or it neither replaces nor removes the one
there was. -/
theorem decides_snoc {log : List LogEntry} {x : LogEntry} {exe : PathBuf} {e : Added} :
    Decides (log ++ [x]) exe e ↔ (x = .added e ∧ e.blocks exe = true) ∨
      (Decides log exe e ∧ (∀ e', x = .added e' → e'.blocks exe = false) ∧
        x ≠ .removed e.id) := by
  constructor
  · rintro ⟨pre, post, heq, he, hlast, hrem⟩
    rcases List.eq_nil_or_concat post with rfl | ⟨post, y, rfl⟩
    · -- the last entry is the deciding one
      obtain ⟨rfl, hx⟩ := List.append_inj' heq rfl
      cases hx
      exact .inl ⟨rfl, he⟩
    · rw [List.concat_eq_append] at heq hlast hrem
      rw [← List.cons_append, ← List.append_assoc] at heq
      obtain ⟨rfl, hx⟩ := List.append_inj' heq rfl
      cases hx
      have hmem : x ∈ post ++ [x] := List.mem_append_right _ List.mem_cons_self
      refine .inr ⟨⟨pre, post, rfl, he, ?_, ?_⟩, ?_, ?_⟩
      · exact fun e' h => hlast e' (List.mem_append_left _ h)
      · exact fun h => hrem (List.mem_append_left _ h)
      · rintro e' rfl
        exact hlast e' hmem
      · rintro rfl
        exact hrem hmem
  · rintro (⟨rfl, he⟩ | ⟨⟨pre, post, rfl, he, hlast, hrem⟩, hadd, hne⟩)
    · exact ⟨log, [], rfl, he, fun _ h => (nomatch h), fun h => (nomatch h)⟩
    · refine ⟨pre, post ++ [x], by simp, he, ?_, ?_⟩
      · intro e' hmem
        rcases List.mem_append.mp hmem with hmem | hmem
        · exact hlast e' hmem
        · exact hadd e' (List.mem_singleton.mp hmem).symm
      · intro hmem
        rcases List.mem_append.mp hmem with hmem | hmem
        · exact hrem hmem
        · exact hne (List.mem_singleton.mp hmem).symm

/-- The map, read off the log. -/
theorem policy_eq_some_iff {log : List LogEntry} {exe : PathBuf} {e : Added} :
    policy log exe = some e ↔ Decides log exe e := by
  induction log using List.reverseRecOn generalizing e with
  | nil =>
    constructor
    · intro h
      cases h
    · rintro ⟨pre, post, h, -⟩
      cases pre <;> cases h
  | append_singleton log x ih =>
    rw [policy_snoc, decides_snoc, ← ih]
    cases x with
    | added e' =>
      simp only [policyStep]
      cases hb : e'.blocks exe with
      | true =>
        -- an entry that blocks this executable takes over; any other leaves the decision alone
        constructor
        · intro h
          cases h
          exact .inl ⟨rfl, hb⟩
        · rintro (⟨h, -⟩ | ⟨-, hadd, -⟩)
          · cases h
            rfl
          · rw [hadd e' rfl] at hb
            cases hb
      | false =>
        constructor
        · intro h
          refine .inr ⟨h, ?_, fun h => (nomatch h)⟩
          rintro e'' h'
          cases h'
          exact hb
        · rintro (⟨h, he⟩ | ⟨h, -, -⟩)
          · cases h
            rw [hb] at he
            cases he
          · exact h
    | removed id =>
      simp only [policyStep]
      rw [Option.filter_eq_some_iff, bne_iff_ne]
      constructor
      · rintro ⟨h, hid⟩
        refine .inr ⟨h, fun e' h' => (nomatch h'), ?_⟩
        rintro h'
        cases h'
        exact hid rfl
      · rintro (⟨h, -⟩ | ⟨h, -, hid⟩)
        · cases h
        · exact ⟨h, fun h' => hid (h' ▸ rfl)⟩
    | reaped =>
      simp [policyStep]

/-- Blocking in terms of the map. -/
theorem blocks_iff_policy {log : List LogEntry} {exe : PathBuf} {u : DateTime} :
    Blocks log exe u ↔ ∃ e, policy log exe = some e ∧ ¬e.Expired u := by
  constructor
  · rintro ⟨pre, e, post, hlog, he, hlast, hrem, hexp⟩
    exact ⟨e, policy_eq_some_iff.mpr ⟨pre, post, hlog, he, hlast, hrem⟩, hexp⟩
  · rintro ⟨e, hp, hexp⟩
    obtain ⟨pre, post, hlog, he, hlast, hrem⟩ := policy_eq_some_iff.mp hp
    exact ⟨pre, e, post, hlog, he, hlast, hrem, hexp⟩

/-- What follows in the log sees of its past only the map, executable by executable. -/
theorem foldl_policyStep_congr {exe : PathBuf} (post : List LogEntry)
    {P Q : PathBuf → Option Added} (h : P exe = Q exe) :
    post.foldl policyStep P exe = post.foldl policyStep Q exe := by
  induction post generalizing P Q with
  | nil => exact h
  | cons x post ih =>
    refine ih ?_
    cases x with
    | added e =>
      simp only [policyStep]
      rw [h]
    | removed id =>
      simp only [policyStep]
      rw [h]
    | reaped => exact h

/-- An inert entry may be left out. -/
theorem policy_drop_inert {pre post : List LogEntry} {x : LogEntry} {exe : PathBuf}
    (h : Inert pre exe x) : policy (pre ++ x :: post) exe = policy (pre ++ post) exe := by
  rw [policy, policy, List.foldl_append, List.foldl_append, List.foldl_cons]
  refine foldl_policyStep_congr post ?_
  show policyStep (policy pre) x exe = policy pre exe
  cases x with
  | added e =>
    simp only [policyStep]
    rw [if_neg (Bool.eq_false_iff.mp h)]
  | removed id =>
    simp only [policyStep]
    cases hp : policy pre exe with
    | none => rfl
    | some e => exact Option.filter_eq_some_iff.mpr ⟨rfl, bne_iff_ne.mpr (h e hp)⟩
  | reaped => rfl

theorem Added.blocks_congr {p q : PathBuf} (h : p.pathEq q = true) (e : Added) :
    e.blocks p = e.blocks q := by
  rw [Added.blocks, Added.blocks, PathBuf.pathEq_congr_right h]

/-- The map respects the equality of paths. -/
theorem policy_congr {p q : PathBuf} (h : p.pathEq q = true) (log : List LogEntry) :
    policy log p = policy log q := by
  induction log using List.reverseRecOn with
  | nil => rfl
  | append_singleton log x ih =>
    rw [policy_snoc]
    cases x with
    | added e =>
      simp only [policyStep]
      rw [e.blocks_congr h, ih]
    | removed id =>
      simp only [policyStep]
      rw [ih]
    | reaped => exact ih

/-! ## The store's history -/

/-- The store and the calls that completed on it. -/
structure History where
  store : Inner
  log : List LogEntry

/-- The log entry of a call. An `add` that panicked is none. -/
def entryOf (now : DateTime) : RuleOp → Option Rule → Option LogEntry
  | .add input, some rule => some (.added ⟨now, input, rule.id⟩)
  | .add _, none => none
  | .remove id, _ => some (.removed id)
  | .reapExpired, _ => some .reaped

/-- One call at a clock value. -/
def step (h : History) (c : DateTime × RuleOp) : Option History :=
  let out := h.store.exec c.1 c.2
  some ⟨out.store, h.log ++ (entryOf c.1 c.2 out.returned).toList⟩

/-- The empty store. -/
def start (path : PathBuf) : History := ⟨⟨1, [], path⟩, []⟩

/-- The expiry of a call lies in chrono's range. -/
def ExpiryInRange (c : DateTime × RuleOp) : Prop :=
  ∀ input ttl, c.2 = .add input → input.ttlSecs = some ttl →
    c.1.nanos + ttl.toNat * nanosPerSec ≤ maxNanos

/-- A lifetime whose sum is in range is its own cast. -/
theorem asI64_of_inRange {now : DateTime} {ttl : UInt64}
    (h : now.nanos + ttl.toNat * nanosPerSec ≤ maxNanos) : asI64 ttl = ttl.toNat := by
  have hmin := now.inRange.1
  have hn : nanosPerSec = 1000000000 := rfl
  have hmx : maxNanos = 8210266876800 * 1000000000 - 1 := rfl
  have hmn : minNanos = -8334601228800 * 1000000000 := rfl
  have hmax : i64Max = 9223372036854775807 := rfl
  rw [hn, hmx] at h
  rw [hmn] at hmin
  rcases asI64_cases ttl with ⟨-, hcast⟩ | ⟨hgt, -⟩
  · exact hcast
  · omega

/-- The stored rule is the one this call returned. -/
structure Matches (r : Rule) (e : Added) : Prop where
  id : r.id = e.id
  exePath : r.exePath = e.input.exePath
  action : r.action = e.input.action
  expired : ∀ u, isExpired r u = true ↔ e.Expired u

/-- A rule just added, with its expiry in range, is what was asked for. -/
theorem newRule_matches {st : Inner} {now : DateTime} {input : RuleInput}
    {expiresAt : Option DateTime} (hexp : ruleExpiry input.ttlSecs now = some expiresAt)
    (hrange : ExpiryInRange (now, .add input)) :
    Matches (st.newRule input now expiresAt) ⟨now, input, st.nextId⟩ where
  id := rfl
  exePath := rfl
  action := rfl
  expired u := by
    cases httl : input.ttlSecs with
    | none =>
      rw [httl] at hexp
      cases hexp
      simp [isExpired, newRule, Added.Expired, httl]
    | some ttl =>
      have hsum := hrange input ttl rfl httl
      have hmin := now.inRange.1
      have hn : nanosPerSec = 1000000000 := rfl
      rw [httl] at hexp
      have hlife : isExpired (st.newRule input now expiresAt) u = false ↔ _ :=
        isExpired_ruleExpiry hexp u
      have hexpired : Added.Expired ⟨now, input, st.nextId⟩ u ↔
          now.nanos + ttl.toNat * nanosPerSec ≤ u.nanos := by
        simp [Added.Expired, httl]
      rw [asI64_of_inRange hsum] at hlife
      rw [← Bool.not_eq_false, hlife, hexpired, hn]
      omega

/-- A stored Block rule is replaced by an added one exactly if that blocks its path. -/
theorem Matches.sameTarget_eq {r rule : Rule} {e : Added} {exe : PathBuf} (hm : Matches rule e)
    (haction : r.action = .block) (hpath : r.exePath.pathEq exe = true) :
    sameTarget r rule = e.blocks exe := by
  rw [PathBuf.pathEq_comm] at hpath
  rw [sameTarget, Added.blocks, haction, ← hm.action, PathBuf.pathEq_comm,
    ← PathBuf.pathEq_congr_right hpath, hm.exePath, Bool.and_comm]
  simp [eq_comm]

/-! ## The vector represents the map -/

/-- The store's vector represents the log's map at every time from `t` on: each Block
rule is the deciding one for its path, and each deciding rule is stored or expired. -/
structure Refines (h : History) (t : DateTime) : Prop where
  store : Inv h.store.persisted
  sound : ∀ r ∈ h.store.rules, r.action = .block →
    ∃ e, policy h.log r.exePath = some e ∧ Matches r e
  complete : ∀ exe e, policy h.log exe = some e →
    e.Expired t ∨ ∃ r ∈ h.store.rules, r.blocks exe = true ∧ Matches r e

theorem expired_mono {e : Added} {t u : DateTime} (h : e.Expired t) (htu : t ≤ u) :
    e.Expired u := by
  obtain ⟨ttl, httl, hle⟩ := h
  exact ⟨ttl, httl, Int.le_trans hle htu⟩

/-- A refining store answers queries as the log does. -/
theorem Refines.isBlocked_iff {h : History} {t u : DateTime} (hr : Refines h t) (htu : t ≤ u)
    (exe : PathBuf) : h.store.isBlocked exe u = true ↔ Blocks h.log exe u := by
  rw [blocks_iff_policy, isBlocked, List.any_eq_true]
  constructor
  · rintro ⟨r, hmem, hb⟩
    obtain ⟨hblocks, hexp⟩ := Bool.and_eq_true_iff.mp hb
    obtain ⟨haction, hpath⟩ := Rule.blocks_iff.mp hblocks
    obtain ⟨e, he, hm⟩ := hr.sound r hmem haction
    refine ⟨e, (policy_congr hpath h.log) ▸ he, fun hex => ?_⟩
    rw [(hm.expired u).mpr hex] at hexp
    cases hexp
  · rintro ⟨e, he, hex⟩
    rcases hr.complete exe e he with hex' | ⟨r, hmem, hblocks, hm⟩
    · exact absurd (expired_mono hex' htu) hex
    · refine ⟨r, hmem, ?_⟩
      rw [hblocks, Bool.true_and, Bool.not_eq_true']
      exact Bool.eq_false_iff.mpr fun hx => hex ((hm.expired u).mp hx)

theorem start_refines (path : PathBuf) (t : DateTime) : Refines (start path) t where
  store := inv_empty
  sound _ hr := nomatch hr
  complete _ _ hp := nomatch hp

/-- A completed `add` keeps the representation: what it replaces has the same target, and
it becomes the deciding rule if it blocks. -/
theorem add_refines {st st' : Inner} {log : List LogEntry} {t now : DateTime}
    {input : RuleInput} {rule : Rule} (hr : Refines ⟨st, log⟩ t)
    (hrange : ExpiryInRange (now, .add input)) (h : st.add input now = some (rule, st')) :
    Refines ⟨st', log ++ [.added ⟨now, input, rule.id⟩]⟩ t := by
  obtain ⟨expiresAt, hexp, -, hrule, hst⟩ := add_eq_some.mp h
  have hnew : Matches rule ⟨now, input, rule.id⟩ := by
    rw [hrule]
    exact newRule_matches hexp hrange
  have hmem : ∀ r, r ∈ st'.rules ↔ (r ∈ st.rules ∧ sameTarget r rule = false) ∨ r = rule := by
    intro r
    rw [hst]
    simp [List.mem_append, List.mem_filter]
  refine { store := add_inv hr.store h, sound := ?_, complete := ?_ }
  · intro r hrmem haction
    show ∃ e, policy (log ++ [_]) r.exePath = some e ∧ Matches r e
    rw [policy_snoc]
    simp only [policyStep]
    rcases (hmem r).mp hrmem with ⟨hold, hsame⟩ | rfl
    · -- a Block rule that was kept has another path, if the new one blocks at all
      rw [← hnew.sameTarget_eq haction (PathBuf.pathEq_refl _), hsame]
      exact hr.sound r hold haction
    · have hb : Added.blocks ⟨now, input, r.id⟩ r.exePath = true := by
        rw [Added.blocks, ← hnew.exePath, PathBuf.pathEq_refl, ← hnew.action, haction]
        rfl
      rw [if_pos hb]
      exact ⟨_, rfl, hnew⟩
  · intro exe e he
    change policy (log ++ [_]) exe = some e at he
    rw [policy_snoc] at he
    simp only [policyStep] at he
    by_cases hb : Added.blocks ⟨now, input, rule.id⟩ exe = true
    · rw [if_pos hb] at he
      cases he
      refine .inr ⟨rule, (hmem rule).mpr (.inr rfl), ?_, hnew⟩
      rw [Rule.blocks, hnew.action, hnew.exePath]
      exact hb
    · rw [if_neg hb] at he
      rcases hr.complete exe e he with hex | ⟨r, hold, hblocks, hm⟩
      · exact .inl hex
      · refine .inr ⟨r, (hmem r).mpr (.inl ⟨hold, ?_⟩), hblocks, hm⟩
        obtain ⟨haction, hpath⟩ := Rule.blocks_iff.mp hblocks
        rw [hnew.sameTarget_eq haction hpath]
        exact Bool.eq_false_iff.mpr hb

/-- A call of `remove` keeps the representation, whether or not it finds the id. -/
theorem remove_refines {st st' : Inner} {log : List LogEntry} {t : DateTime} {id : Nat}
    (hr : Refines ⟨st, log⟩ t) (hst : st'.rules = st.rules.filter fun r => !(r.id == id))
    (hinv : Inv st'.persisted) : Refines ⟨st', log ++ [.removed id]⟩ t := by
  refine { store := hinv, sound := ?_, complete := ?_ }
  · intro r hrmem haction
    show ∃ e, policy (log ++ [_]) r.exePath = some e ∧ Matches r e
    have hrmem' : r ∈ st'.rules := hrmem
    rw [hst, List.mem_filter] at hrmem'
    obtain ⟨e, he, hm⟩ := hr.sound r hrmem'.1 haction
    refine ⟨e, ?_, hm⟩
    rw [policy_snoc]
    -- the rule is still stored, so the id removed is not its own
    refine Option.filter_eq_some_iff.mpr ⟨he, ?_⟩
    rw [← hm.id]
    exact hrmem'.2
  · intro exe e he
    change policy (log ++ [_]) exe = some e at he
    rw [policy_snoc] at he
    obtain ⟨he, hid⟩ := Option.filter_eq_some_iff.mp he
    rcases hr.complete exe e he with hex | ⟨r, hold, hblocks, hm⟩
    · exact .inl hex
    · refine .inr ⟨r, ?_, hblocks, hm⟩
      show r ∈ st'.rules
      rw [hst, List.mem_filter, hm.id]
      exact ⟨hold, hid⟩

/-- A reaper pass at or before `t` keeps the representation: what it drops had expired. -/
theorem reapExpired_refines {st : Inner} {log : List LogEntry} {t now : DateTime}
    (hr : Refines ⟨st, log⟩ t) (hnow : now ≤ t) :
    Refines ⟨(st.reapExpired now).2, log ++ [.reaped]⟩ t := by
  refine { store := reapExpired_inv hr.store now, sound := ?_, complete := ?_ }
  · intro r hrmem haction
    show ∃ e, policy (log ++ [_]) r.exePath = some e ∧ Matches r e
    rw [policy_snoc]
    exact hr.sound r (List.mem_filter.mp hrmem).1 haction
  · intro exe e he
    change policy (log ++ [_]) exe = some e at he
    rw [policy_snoc] at he
    rcases hr.complete exe e he with hex | ⟨r, hold, hblocks, hm⟩
    · exact .inl hex
    · by_cases hexp : isExpired r now = true
      · exact .inl (expired_mono ((hm.expired now).mp hexp) hnow)
      · refine .inr ⟨r, List.mem_filter.mpr ⟨hold, ?_⟩, hblocks, hm⟩
        rw [Bool.not_eq_true']
        exact Bool.eq_false_iff.mpr hexp

/-- One call at or before `t` keeps the representation. -/
theorem step_refines {h h' : History} {t : DateTime} {c : DateTime × RuleOp}
    (hr : Refines h t) (hc : c.1 ≤ t) (hrange : ExpiryInRange c) (hs : step h c = some h') :
    Refines h' t := by
  obtain ⟨now, op⟩ := c
  cases hs
  rcases exec_cases h.store now op with ⟨input, rule, st', rfl, hadd, he⟩ |
    ⟨input, rfl, hadd, he⟩ | ⟨id, rule, st', rfl, hrem, he⟩ | ⟨id, rfl, hrem, he⟩ | ⟨rfl, he⟩
  · rw [he]
    exact add_refines hr hrange hadd
  · rw [he]
    show Refines ⟨h.store, h.log ++ []⟩ t
    rw [List.append_nil]
    exact hr
  · rw [he]
    have hinv := remove_inv hr.store hrem
    obtain ⟨-, -, hst⟩ := remove_eq_some hrem
    refine remove_refines hr ?_ hinv
    rw [hst]
    exact eraseP_id_eq_filter hr.store.ids id
  · -- nothing has the id
    rw [he]
    refine remove_refines hr (List.filter_eq_self.mpr fun r hrmem => ?_).symm hr.store
    have hnone := List.find?_eq_none.mp (Option.map_eq_none_iff.mp hrem) r hrmem
    simpa using hnone
  · rw [he]
    exact reapExpired_refines hr hc

/-- The store represents the log after every run. -/
theorem run_refines {path : PathBuf} {ops : List (DateTime × RuleOp)} {h : History}
    (hrun : Runs.run step (start path) ops = some h) (hrange : ∀ c ∈ ops, ExpiryInRange c)
    {t : DateTime} (ht : ∀ c ∈ ops, c.1 ≤ t) : Refines h t := by
  refine Runs.run_history
    (I := fun tr m => (∀ c ∈ tr, ExpiryInRange c) → (∀ c ∈ tr, c.1 ≤ t) → Refines m t)
    (fun _ _ => start_refines path t) ?_ hrun hrange ht
  intro tr m m' c _ ih hs hrange' ht'
  have hc : c ∈ tr ++ [c] := List.mem_append_right _ List.mem_cons_self
  refine step_refines (ih ?_ ?_) (ht' c hc) (hrange' c hc) hs
  · exact fun d hd => hrange' d (List.mem_append_left _ hd)
  · exact fun d hd => ht' d (List.mem_append_left _ hd)

/-! ## Verdicts -/

/-- **Verdicts over histories**: after any run of calls from the empty store, a packet
that parses and is attributed to a process of `exe` is dropped, at any time not before
those calls, if and only if the daemon is not paused and the most recent Block rule
added for `exe` was neither removed by its id nor has expired. Inert entries of the log
may be left out. -/
theorem decide_drop_iff {path : PathBuf} {ops : List (DateTime × RuleOp)} {h : History}
    (hrun : Runs.run step (start path) ops = some h) (hrange : ∀ c ∈ ops, ExpiryInRange c)
    {st : DaemonState} (hst : st.rules = h.store) {fs : ProcFs} {clock : DaemonState.Clock}
    (hclock : ∀ c ∈ ops, c.1 ≤ clock.now) {payload : List UInt8} {packet : Packet} {pid : Nat}
    {exe : PathBuf} (hparse : parsePacket payload = .ok (some packet))
    (hpid : (st.attributeFlow fs packet.protocol packet.localPort).1.pid = some pid)
    (hexe : (st.attributeFlow fs packet.protocol packet.localPort).1.exe = some exe) :
    ((∃ st', st.decide fs clock payload = .ok (.drop, st')) ↔
      st.paused = false ∧ Blocks h.log exe clock.now) ∧
    ∀ pre x post, h.log = pre ++ x :: post → Inert pre exe x →
      (Blocks h.log exe clock.now ↔ Blocks (pre ++ post) exe clock.now) := by
  have hr := run_refines hrun hrange hclock
  constructor
  · cases hpaused : st.paused with
    | true =>
      rw [DaemonState.decide_paused hpaused]
      simp
    | false =>
      obtain ⟨st', hd⟩ : ∃ st', st.decide fs clock payload =
          .ok (if st.rules.isBlocked exe clock.now then .drop else .accept, st') :=
        DaemonState.decide_attributed hpaused hparse hpid hexe
      rw [hd, hst, ← hr.isBlocked_iff (Int.le_refl _) exe]
      cases h.store.isBlocked exe clock.now <;> simp
  · intro pre x post hlog hinert
    rw [blocks_iff_policy, blocks_iff_policy, hlog, policy_drop_inert hinert]

/-! ### A verdict on concrete input -/

/-- A block of `/usr/bin/curl` for an hour, from the epoch on. -/
def hourBlock : DateTime × RuleOp :=
  (.epoch, .add ⟨"curl", .ofString "/usr/bin/curl", .block, false, some 3600⟩)

/-- The daemon whose store has handled `hourBlock`. -/
def blocking : DaemonState := .new
  ⟨2, [⟨1, "curl", .ofString "/usr/bin/curl", .block, false,
    some ⟨3600000000000, by decide⟩, "default", .epoch⟩], .ofString "/etc/travelmode/rules.json"⟩

/-- Curl is blocked for an hour, allowed as well, and blocked anew; in between, wget is blocked
for no time, the reaper comes, and ids are removed: the new rule is the one that decides. -/
def blockHistory : List (DateTime × RuleOp) :=
  [hourBlock, (.epoch, .add ⟨"curl", .ofString "/usr/bin/curl", .allow, true, none⟩),
    (.epoch, .add ⟨"wget", .ofString "/usr/bin/wget", .block, false, some 0⟩),
    (.epoch, .reapExpired), (.epoch, .remove 2), hourBlock, (.epoch, .remove 1)]

theorem blockHistory_runs :
    (Runs.run step (start (.ofString "/etc/travelmode/rules.json")) blockHistory).isSome =
      true := by
  decide +kernel

theorem blockHistory_inRange : ∀ c ∈ blockHistory, ExpiryInRange c := by
  intro c hc input ttl hop httl
  simp only [blockHistory, hourBlock, List.mem_cons, List.not_mem_nil, or_false] at hc
  rcases hc with rfl | rfl | rfl | rfl | rfl | rfl | rfl <;> cases hop <;> cases httl <;> decide

theorem decide_drop_iff_history :
    let h := (Runs.run step (start (.ofString "/etc/travelmode/rules.json")) blockHistory).get
      blockHistory_runs
    let st := DaemonState.new h.store
    h.log.length = 7 ∧ h.store.list.map Rule.id = [4] ∧
      ((∃ st', st.decide DaemonState.curlProcFs ⟨.epoch, 0⟩ DaemonState.synPacket =
          .ok (.drop, st')) ↔
        st.paused = false ∧ Blocks h.log (.ofString "/usr/bin/curl") .epoch) ∧
      ∀ pre x post, h.log = pre ++ x :: post → Inert pre (.ofString "/usr/bin/curl") x →
        (Blocks h.log (.ofString "/usr/bin/curl") .epoch ↔
          Blocks (pre ++ post) (.ofString "/usr/bin/curl") .epoch) :=
  ⟨by decide +kernel, by decide +kernel,
    @decide_drop_iff (.ofString "/etc/travelmode/rules.json") blockHistory _
      (Option.some_get blockHistory_runs).symm blockHistory_inRange _ rfl DaemonState.curlProcFs
      ⟨.epoch, 0⟩ (by decide +kernel) DaemonState.synPacket
      ⟨.tcp, 51234, .v4 ⟨93, 184, 216, 34⟩, 443⟩ 4242 (.ofString "/usr/bin/curl") (by rfl)
      (by decide +kernel) (by decide +kernel)⟩

end Policy

end TravelMode
