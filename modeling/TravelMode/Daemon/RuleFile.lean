import Mathlib.Data.List.Nodup
import TravelMode.Daemon.Rules
import TravelMode.Lib.Runs

/-!
# The rule store and its file, across restarts (`daemon/src/rules.rs`)

`StoreFile` is the store together with the rules file. Every mutating call goes
through `save_locked`, a restart reads the last saved file back with `load`, and
the two must agree: the counter has to survive restarts that drop expired rules,
or an id would be handed out twice.

- `RulesJson` is serde_json as the store uses it (a third-party crate, hence a
  parameter); `RoundTrip` is the only fact about it that is used.
- `FileInv` relates memory, file and the history of ids: the file decodes to a
  well-formed `Persisted` with the *same* counter as the memory. It is kept by
  every call and every restart (`step_inv`), so it holds of every run
  (`run_inv`).
- `ruleStore_ids_unique`: ids are never reused, restarts included.
- `restart_keeps_iff`: which rules a restart should keep, and when it does. A
  rule with neither persistence nor expiry is meant to end with the daemon, yet
  `save_locked` writes it and `load` keeps it.
-/

namespace TravelMode

/-- serde_json on `Persisted`: `to_string_pretty` and `from_str`, `none` for `Err`. -/
structure RulesJson where
  toStringPretty : Persisted → Option String
  fromStr : String → Option Persisted

namespace RulesJson

/-- What is serialized is parsed back. -/
def RoundTrip (J : RulesJson) : Prop :=
  ∀ p text, J.toStringPretty p = some text → J.fromStr text = some p

/-- A codec that knows one document. -/
def just (p : Persisted) (text : String) : RulesJson where
  toStringPretty q := if q = p then some text else none
  fromStr s := if s = text then some p else none

theorem just_roundTrip (p : Persisted) (text : String) : (just p text).RoundTrip := by
  intro q t h
  simp only [just] at h ⊢
  by_cases hq : q = p
  · rw [if_pos hq] at h
    rw [if_pos (Option.some.inj h).symm, hq]
  · rw [if_neg hq] at h
    cases h

end RulesJson

/-- The rule store, the contents of its file (`none`: no file), and the rules that
`add` has returned since the first start, oldest first. -/
structure StoreFile where
  store : Inner
  text : Option String
  issued : List Rule
deriving DecidableEq

/-- What happens to the store: a call at some clock value, the save on shutdown, or a
restart of the daemon. -/
inductive StoreOp where
  | call (now : DateTime) (op : RuleOp)
  | save
  | restart (now : DateTime)

namespace StoreFile

open TravelMode.Inner

/-- First start: no rules file. -/
def start (path : PathBuf) : StoreFile := ⟨⟨1, [], path⟩, none, []⟩

variable (J : RulesJson)

/-- `save_locked` when every step of it succeeds: the file holds the store. -/
def saveLocked (w : StoreFile) : Option StoreFile :=
  (J.toStringPretty w.store.persisted).map fun text => { w with text := some text }

/-- One event; `none` when a save fails. -/
def step (w : StoreFile) : StoreOp → Option StoreFile
  | .call now op =>
    let out := w.store.exec now op
    let w' : StoreFile := ⟨out.store, w.text, w.issued ++ out.returned.toList⟩
    if out.saves then w'.saveLocked J else some w'
  | .save => w.saveLocked J
  | .restart now =>
    (load w.store.path (w.text.bind J.fromStr) now).map fun st => { w with store := st }

/-! ## The invariant -/

/-- What holds of memory and history alone. -/
structure MemInv (w : StoreFile) : Prop where
  store : Inv w.store.persisted
  issuedIds : (w.issued.map Rule.id).Nodup
  issuedBelow : ∀ r ∈ w.issued, r.id < w.store.nextId
  stored : ∀ r ∈ w.store.rules, r ∈ w.issued

/-- Memory, history and file. Without a file nothing was ever issued; with one, it
decodes to a well-formed store with the counter of the memory. -/
structure FileInv (w : StoreFile) : Prop extends MemInv w where
  noFile : w.text = none → w.store.nextId = 1 ∧ w.issued = []
  file : ∀ text, w.text = some text → ∃ p, J.fromStr text = some p ∧ Inv p ∧
    p.nextId = w.store.nextId ∧ ∀ r ∈ p.rules, r ∈ w.issued

theorem start_inv (path : PathBuf) : FileInv J (start path) where
  store := inv_empty
  issuedIds := List.nodup_nil
  issuedBelow _ h := nomatch h
  stored _ h := nomatch h
  noFile _ := ⟨rfl, rfl⟩
  file _ h := nomatch h

variable {J} in
/-- A successful save establishes the file half from the memory half. -/
theorem saveLocked_inv (hJ : J.RoundTrip) {w w' : StoreFile} (hm : MemInv w)
    (h : w.saveLocked J = some w') : FileInv J w' := by
  obtain ⟨text, ht, rfl⟩ := Option.map_eq_some_iff.mp h
  refine { hm with noFile := ?_, file := ?_ }
  · intro hn
    cases hn
  · intro text' he
    cases he
    exact ⟨w.store.persisted, hJ _ _ ht, hm.store, rfl, hm.stored⟩

/-- A completed `add`: its rule is the one new member of store and history. -/
theorem MemInv.add {w : StoreFile} (hm : MemInv w) {input : RuleInput} {now : DateTime}
    {rule : Rule} {st' : Inner} (h : w.store.add input now = some (rule, st')) :
    MemInv ⟨st', w.text, w.issued ++ [rule]⟩ := by
  have hinv := add_inv hm.store h
  obtain ⟨expiresAt, -, -, hrule, rfl⟩ := add_eq_some.mp h
  have hid : rule.id = w.store.nextId := by rw [hrule]; rfl
  refine { store := hinv, issuedIds := ?_, issuedBelow := ?_, stored := ?_ }
  · show (List.map Rule.id (w.issued ++ [rule])).Nodup
    rw [List.map_append, List.nodup_append]
    refine ⟨hm.issuedIds, by simp, ?_⟩
    -- the ids of the history are below the counter, where the new one is
    intro a ha b hb hab
    obtain ⟨r, hr, rfl⟩ := List.mem_map.mp ha
    have hlt := hm.issuedBelow r hr
    have hb' : b = rule.id := List.mem_singleton.mp hb
    omega
  · intro r hr
    show r.id < w.store.nextId + 1
    rcases List.mem_append.mp hr with hr | hr
    · exact Nat.lt_succ_of_lt (hm.issuedBelow r hr)
    · rw [List.mem_singleton.mp hr, hid]
      exact Nat.lt_succ_self _
  · intro r hr
    rcases List.mem_append.mp hr with hr | hr
    · exact List.mem_append_left _ (hm.stored r (List.mem_filter.mp hr).1)
    · exact List.mem_append_right _ hr

/-- A call that only drops rules. -/
theorem MemInv.drop {w : StoreFile} (hm : MemInv w) {st' : Inner} (hinv : Inv st'.persisted)
    (hnext : st'.nextId = w.store.nextId) (hsub : ∀ r ∈ st'.rules, r ∈ w.store.rules) :
    MemInv ⟨st', w.text, w.issued⟩ where
  store := hinv
  issuedIds := hm.issuedIds
  issuedBelow r hr := by
    show r.id < st'.nextId
    rw [hnext]
    exact hm.issuedBelow r hr
  stored r hr := hm.stored r (hsub r hr)

/-- A call keeps the memory half: what `add` returns is new, and nothing else enters
the store. -/
theorem exec_memInv {w : StoreFile} (hm : MemInv w) (now : DateTime) (op : RuleOp) :
    MemInv ⟨(w.store.exec now op).store, w.text,
      w.issued ++ (w.store.exec now op).returned.toList⟩ := by
  have hinv := exec_inv hm.store now op
  rcases exec_cases w.store now op with ⟨input, rule, st', -, h, he⟩ | ⟨_, -, -, he⟩ |
    ⟨_, _, st', -, h, he⟩ | ⟨_, -, -, he⟩ | ⟨-, he⟩ <;> rw [he] at hinv ⊢
  · exact hm.add h
  · simpa using hm
  · -- a removal
    obtain ⟨-, -, rfl⟩ := remove_eq_some h
    simpa using hm.drop hinv rfl fun r hr => List.mem_of_mem_eraseP hr
  · simpa using hm
  · -- a reaper pass
    simpa using hm.drop hinv rfl fun r hr => (List.mem_filter.mp hr).1

/-- A call that does not save returns nothing and keeps the counter. -/
theorem exec_not_saves {st : Inner} {now : DateTime} {op : RuleOp}
    (h : (st.exec now op).saves = false) :
    (st.exec now op).returned = none ∧ (st.exec now op).store.nextId = st.nextId := by
  rcases exec_cases st now op with ⟨_, _, _, -, -, he⟩ | ⟨_, -, -, he⟩ | ⟨_, _, _, -, -, he⟩ |
    ⟨_, -, -, he⟩ | ⟨-, he⟩ <;> rw [he] at h ⊢
  · cases h
  · exact ⟨rfl, rfl⟩
  · cases h
  · exact ⟨rfl, rfl⟩
  · exact ⟨rfl, rfl⟩

variable {J} in
/-- A restart keeps the invariant: what it loads is the file, less the expired rules,
under the same counter. -/
theorem restart_inv {w w' : StoreFile} {now : DateTime} (hi : FileInv J w)
    (h : step J w (.restart now) = some w') : FileInv J w' := by
  obtain ⟨st, hst, rfl⟩ := Option.map_eq_some_iff.mp h
  cases ht : w.text with
  -- no file: nothing was ever issued, and the store starts empty
  | none =>
    obtain ⟨hn, hiss⟩ := hi.noFile ht
    rw [ht] at hst
    cases hst
    refine { store := inv_empty, issuedIds := hi.issuedIds, issuedBelow := ?_, stored := ?_,
             noFile := fun _ => ⟨rfl, hiss⟩, file := ?_ }
    · intro r hr
      rw [hiss] at hr
      cases hr
    · intro r hr
      cases hr
    · intro text he
      cases he
  | some text =>
    -- the file holds the last store saved; loading drops what has expired
    obtain ⟨p, hp, hpi, hnext, hmem⟩ := hi.file text ht
    rw [ht, Option.bind_some, hp] at hst
    have hst' := hst
    rw [load_eq hpi] at hst'
    cases hst'
    refine { store := load_inv hpi hst, issuedIds := hi.issuedIds, issuedBelow := ?_,
             stored := ?_, noFile := ?_, file := ?_ }
    · intro r hr
      show r.id < p.nextId
      rw [hnext]
      exact hi.issuedBelow r hr
    · intro r hr
      exact hmem r (List.mem_filter.mp hr).1
    · intro he
      cases he
    · intro text' he
      cases he
      exact ⟨p, hp, hpi, rfl, hmem⟩

variable {J} in
/-- One event keeps the invariant. -/
theorem step_inv (hJ : J.RoundTrip) {w w' : StoreFile} {op : StoreOp} (hi : FileInv J w)
    (h : step J w op = some w') : FileInv J w' := by
  cases op with
  | call now op =>
    have hm := exec_memInv hi.toMemInv now op
    simp only [step] at h
    by_cases hs : (w.store.exec now op).saves = true
    · rw [if_pos hs] at h
      exact saveLocked_inv hJ hm h
    · rw [if_neg hs] at h
      cases h
      obtain ⟨hret, hnext⟩ := exec_not_saves (Bool.eq_false_iff.mpr hs)
      refine { hm with noFile := ?_, file := ?_ }
      · intro ht
        obtain ⟨h1, h2⟩ := hi.noFile ht
        refine ⟨hnext.trans h1, ?_⟩
        simp [hret, h2]
      · intro text ht
        obtain ⟨p, hp, hpi, hpn, hmem⟩ := hi.file text ht
        refine ⟨p, hp, hpi, hpn.trans hnext.symm, fun r hr => ?_⟩
        exact List.mem_append_left _ (hmem r hr)
  | save => exact saveLocked_inv hJ hi.toMemInv h
  | restart now => exact restart_inv hi h

variable {J} in
/-- **The store's invariant across restarts**: it holds after every run. -/
theorem run_inv (hJ : J.RoundTrip) {path : PathBuf} {ops : List StoreOp} {w : StoreFile}
    (h : Runs.run (step J) (start path) ops = some w) : FileInv J w :=
  Runs.run_invariant (fun hi hs => step_inv hJ hi hs) (start_inv J path) h

/-! ## Ids are handed out once -/

variable {J} in
/-- **Ids across restarts**: in every state a run of calls and restarts reaches, ids are
distinct and below the counter, there is one rule per path and action, no two calls of
`add` in the whole history returned the same id, and removing by an id once returned
removes the rule it was returned with. -/
theorem ruleStore_ids_unique (hJ : J.RoundTrip) {path : PathBuf} {ops : List StoreOp}
    {w : StoreFile} (h : Runs.run (step J) (start path) ops = some w) :
    (w.store.rules.map Rule.id).Nodup ∧
    (∀ r ∈ w.store.rules, r.id < w.store.nextId) ∧
    w.store.rules.Pairwise
      (fun r s => ¬(r.exePath.pathEq s.exePath = true ∧ r.action = s.action)) ∧
    (w.issued.map Rule.id).Nodup ∧
    ∀ r ∈ w.issued, ∀ r' st', w.store.remove r.id = some (r', st') → r' = r := by
  have hi := run_inv hJ h
  refine ⟨hi.store.ids, hi.store.fresh, hi.store.targets.imp ?_, hi.issuedIds, ?_⟩
  · intro r s hrs
    rw [sameTarget, Bool.and_eq_false_iff, decide_eq_false_iff_not] at hrs
    rintro ⟨hp, ha⟩
    rcases hrs with hrs | hrs
    · rw [hp] at hrs
      cases hrs
    · exact hrs ha
  · intro r hr r' st' hrem
    obtain ⟨hmem, hid, -⟩ := remove_eq_some hrem
    exact List.inj_on_of_nodup_map hi.issuedIds (hi.stored r' hmem) hr hid

/-! ### A run on concrete input -/

/-- `/etc/travelmode/rules.json`. -/
def rulesFile : PathBuf := .ofString "/etc/travelmode/rules.json"

/-- `travelmode block /usr/bin/curl --no-persist`: neither persistent nor temporary. -/
def sessionBlock : RuleInput where
  name := "curl"
  exePath := .ofString "/usr/bin/curl"
  action := .block
  persistent := false
  ttlSecs := none

/-- The rule stored for `sessionBlock` in a fresh store. -/
def sessionRule : Rule :=
  (start rulesFile).store.newRule sessionBlock .epoch none

/-- The rules file after `sessionBlock`. -/
def sessionText : String :=
  "\x7b\n  \"next_id\": 2,\n  \"rules\": [\n    \x7b\n      \"id\": 1,\n" ++
  "      \"name\": \"curl\",\n      \"exe_path\": \"/usr/bin/curl\",\n" ++
  "      \"action\": \"Block\",\n      \"persistent\": false,\n" ++
  "      \"expires_at\": null,\n      \"profile\": \"default\",\n" ++
  "      \"updated_at\": \"1970-01-01T00:00:00Z\"\n    \x7d\n  ]\n\x7d"

/-- serde_json on the store that holds `sessionRule`. -/
def sessionJson : RulesJson := .just ⟨2, [sessionRule]⟩ sessionText

/-- Store and file after `sessionBlock`. -/
def sessionFile : StoreFile := ⟨⟨2, [sessionRule], rulesFile⟩, some sessionText, [sessionRule]⟩

theorem sessionFile_run :
    Runs.run (step sessionJson) (start rulesFile) [.call .epoch (.add sessionBlock)] =
      some sessionFile := by
  decide +kernel

/-- Across a restart, `sessionRule` is still the rule that id 1 removes. -/
theorem ruleStore_ids_unique_session :
    (∀ p text, sessionJson.toStringPretty p = some text → sessionJson.fromStr text = some p) ∧
    Runs.run (step sessionJson) (start rulesFile)
      [.call .epoch (.add sessionBlock), .restart .epoch] = some sessionFile ∧
    ((sessionFile.store.rules.map Rule.id).Nodup ∧
    (∀ r ∈ sessionFile.store.rules, r.id < sessionFile.store.nextId) ∧
    sessionFile.store.rules.Pairwise
      (fun r s => ¬(r.exePath.pathEq s.exePath = true ∧ r.action = s.action)) ∧
    (sessionFile.issued.map Rule.id).Nodup ∧
    ∀ r ∈ sessionFile.issued, ∀ r' st',
      sessionFile.store.remove r.id = some (r', st') → r' = r) :=
  ⟨RulesJson.just_roundTrip _ _, by decide +kernel,
    @ruleStore_ids_unique sessionJson (RulesJson.just_roundTrip _ _) rulesFile
      [.call .epoch (.add sessionBlock), .restart .epoch] _ (by decide +kernel)⟩

/-! ## What a restart keeps -/

/-- The rules that outlive the daemon, as `Rule.persistent` documents it: unexpired, and
either persistent or temporary with an expiry of their own. -/
def survivesRestart (now : DateTime) (r : Rule) : Bool :=
  !isExpired r now && (r.persistent || r.expiresAt.isSome)

/-- Loading `text` at `now` yields exactly the rules of `st` that outlive the daemon, in
the same order. -/
def RestartKeeps (J : RulesJson) (st : Inner) (text : String) (now : DateTime) : Prop :=
  (load st.path (J.fromStr text) now).map Inner.list =
    some (st.list.filter (survivesRestart now))

instance (J : RulesJson) (st : Inner) (text : String) (now : DateTime) :
    Decidable (RestartKeeps J st text now) :=
  inferInstanceAs (Decidable (_ = _))

/-- Without persistence and without expiry, a rule does not expire. -/
theorem isExpired_of_expiresAt_none {r : Rule} (h : r.expiresAt = none) (now : DateTime) :
    isExpired r now = false := by
  rw [isExpired, h]

variable {J} in
/-- **Restart**: in every reachable store and at every restart time, the saved file loads
to the rules that should outlive the daemon if and only if no stored rule is both
non-persistent and without expiry. -/
theorem restart_keeps_iff (hJ : J.RoundTrip) {path : PathBuf} {ops : List StoreOp}
    {w : StoreFile} (h : Runs.run (step J) (start path) ops = some w) {text : String}
    (hsave : J.toStringPretty w.store.persisted = some text) (now : DateTime) :
    RestartKeeps J w.store text now ↔
      ∀ r ∈ w.store.rules, r.persistent = true ∨ r.expiresAt.isSome = true := by
  have hi := run_inv hJ h
  rw [RestartKeeps, hJ _ _ hsave, load_eq hi.store, Option.map_some, Option.some.injEq]
  show List.filter _ w.store.rules = List.filter _ w.store.rules ↔ _
  constructor
  · intro heq r hr
    cases hexp : r.expiresAt with
    | some exp => exact .inr rfl
    | none =>
      -- such a rule never expires, so it is loaded, so it has to be one that survives
      have hloaded : r ∈ w.store.rules.filter fun r => !isExpired r now :=
        List.mem_filter.mpr ⟨hr, by rw [isExpired_of_expiresAt_none hexp]; rfl⟩
      rw [heq] at hloaded
      have hs := (List.mem_filter.mp hloaded).2
      rw [survivesRestart, hexp, Bool.and_eq_true] at hs
      exact .inl (by simpa using hs.2)
  · intro hall
    refine List.filter_congr fun r hr => ?_
    have hor : (r.persistent || r.expiresAt.isSome) = true := by
      rw [Bool.or_eq_true]
      exact hall r hr
    rw [survivesRestart, hor, Bool.and_true]

/-- The equivalence at `sessionFile`, where both of its sides fail. -/
theorem restart_keeps_iff_session :
    (∀ p text, sessionJson.toStringPretty p = some text → sessionJson.fromStr text = some p) ∧
    Runs.run (step sessionJson) (start rulesFile) [.call .epoch (.add sessionBlock)] =
      some sessionFile ∧
    sessionJson.toStringPretty sessionFile.store.persisted = some sessionText ∧
    (RestartKeeps sessionJson sessionFile.store sessionText .epoch ↔
      ∀ r ∈ sessionFile.store.rules, r.persistent = true ∨ r.expiresAt.isSome = true) :=
  ⟨RulesJson.just_roundTrip _ _, sessionFile_run, by decide +kernel,
    restart_keeps_iff (RulesJson.just_roundTrip _ _) sessionFile_run (by decide +kernel) .epoch⟩

/-- A `--no-persist` block without a lifetime is still there after a restart. -/
theorem restart_keeps_session_rule :
    Runs.run (step sessionJson) (start rulesFile) [.call .epoch (.add sessionBlock)] =
      some sessionFile ∧
    sessionJson.toStringPretty sessionFile.store.persisted = some sessionText ∧
    ¬RestartKeeps sessionJson sessionFile.store sessionText .epoch := by
  decide +kernel

end StoreFile

namespace Inner

/-- A store that some history of calls, saves and restarts leads to. -/
def Reachable (st : Inner) : Prop :=
  ∃ J : RulesJson, J.RoundTrip ∧ ∃ path ops w,
    Runs.run (StoreFile.step J) (StoreFile.start path) ops = some w ∧ w.store = st

theorem Reachable.inv {st : Inner} (h : st.Reachable) : Inv st.persisted := by
  obtain ⟨J, hJ, path, ops, w, hrun, rfl⟩ := h
  exact (StoreFile.run_inv hJ hrun).store

/-- A first start. -/
theorem reachable_start (path : PathBuf) : Reachable ⟨1, [], path⟩ :=
  ⟨.just ⟨1, []⟩ "", RulesJson.just_roundTrip _ _, path, [], StoreFile.start path, rfl, rfl⟩

end Inner

end TravelMode
