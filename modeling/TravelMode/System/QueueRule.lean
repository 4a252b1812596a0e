import Mathlib.Data.List.Chain
import TravelMode.System.Pause

/-!
# How many queue rules

`pause` flushes the chain whatever is in it, `resume` appends to whatever is in it, and
neither looks. The toggles are those of `Pause`, in any interleaving that lets them
complete in the order of the requests.

- `chainOf`: the chain after toggles, one after the other.
- `Served`: the moments at which the first requests are through, their toggles included.
- `one_queue_rule_iff`: at all of them the chain has one queue rule or none, as the flag
  says, exactly if no request resumes a daemon that is not paused.
- `resumed_twice`: what such a request leaves.
-/

namespace TravelMode

namespace QueueRule

open Pause

/-! ## The chain as a function of the toggles -/

/-- The chain that `setup` loads. -/
def loaded (queueNum : UInt16) (paused : Bool) : List (List String) :=
  if paused then [] else [queueRule queueNum]

/-- The chain after toggles to these values. -/
def chainOf (queueNum : UInt16) (rules : List (List String)) (values : List Bool) :
    List (List String) :=
  values.foldl (fun rules value => if value then [] else rules ++ [queueRule queueNum]) rules

/-- The number of queue rules in a chain. -/
def queueRules (rules : List (List String)) : Nat := rules.countP fun rule => "queue" ∈ rule

/-- The setting after requests for these values. -/
def setting (paused : Bool) (values : List Bool) : Bool := values.getLast?.getD paused

/-- No request resumes a daemon that is not paused. -/
def NoIdleResume (paused : Bool) (values : List Bool) : Prop :=
  (paused :: values).IsChain fun before asked => before = true ∨ asked = true

theorem queueRules_loaded (queueNum : UInt16) (paused : Bool) :
    queueRules (loaded queueNum paused) = if paused then 0 else 1 := by
  cases paused with
  | true => rfl
  | false => simp [loaded, queueRules, queueRule]

theorem setting_cons (paused value : Bool) (values : List Bool) :
    setting paused (value :: values) = setting value values := by
  unfold setting
  cases values with
  | nil => rfl
  | cons v vs =>
    rw [List.getLast?_cons_cons, List.getLast?_cons]
    rfl

/-- One toggle that is no idle resume leaves what `setup` would load. -/
theorem chainOf_one {queueNum : UInt16} {paused value : Bool} (h : paused = true ∨ value = true) :
    chainOf queueNum (loaded queueNum paused) [value] = loaded queueNum value := by
  cases value with
  | true => rfl
  | false =>
    rcases h with rfl | h
    · rfl
    · cases h

/-- Without idle resumes, the chain is what `setup` would load for the setting. -/
theorem chainOf_eq_loaded {queueNum : UInt16} {paused : Bool} {values : List Bool}
    (h : NoIdleResume paused values) :
    chainOf queueNum (loaded queueNum paused) values = loaded queueNum (setting paused values) := by
  induction values generalizing paused with
  | nil => rfl
  | cons value values ih =>
    obtain ⟨hfirst, hrest⟩ := List.isChain_cons_cons.mp h
    rw [setting_cons, ← ih hrest, ← chainOf_one hfirst]
    rfl

/-- Where the chain is right after each toggle, none was an idle resume. -/
theorem noIdleResume_of_queueRules {queueNum : UInt16} {paused : Bool} {values : List Bool}
    (h : ∀ n, n ≤ values.length →
      queueRules (chainOf queueNum (loaded queueNum paused) (values.take n)) =
        if setting paused (values.take n) then 0 else 1) :
    NoIdleResume paused values := by
  induction values generalizing paused with
  | nil => exact .singleton _
  | cons value values ih =>
    have hfirst : paused = true ∨ value = true := by
      have hone := h 1 (Nat.succ_le_succ (Nat.zero_le _))
      cases paused with
      | true => exact .inl rfl
      | false =>
        cases value with
        | true => exact .inr rfl
        | false => simp [chainOf, loaded, queueRules, queueRule, setting] at hone
    refine List.isChain_cons_cons.mpr ⟨hfirst, ih fun n hn => ?_⟩
    -- after the first toggle, the chain is the one that `setup` would load
    have hlater := h (n + 1) (Nat.succ_le_succ hn)
    rw [List.take_succ_cons, setting_cons] at hlater
    rw [← chainOf_one hfirst]
    exact hlater

/-! ## Runs -/

/-- The requests that have performed a stage, in the order in which they did. -/
def performed (stage : Stage) (as : List Action) : List Nat :=
  (as.filter fun a => decide (a.stage = stage)).map Action.task

/-- The first `n` requests have been handled and their toggles have completed, in their
order, and no others. -/
structure Served (n : Nat) (as : List Action) : Prop where
  stored : performed .store as = List.range n
  toggled : performed .toggle as = List.range n

/-- The chain has one queue rule when the daemon is not paused, and none when it is. -/
def OneQueueRule (w : World) : Prop :=
  ∃ rules, w.kernel = some rules ∧ queueRules rules = if w.daemon.paused then 0 else 1

theorem performed_append (stage : Stage) (as more : List Action) :
    performed stage (as ++ more) = performed stage as ++ performed stage more := by
  unfold performed
  rw [List.filter_append, List.map_append]

variable {d : DaemonState} {queueNum : UInt16} {values : List Bool} {as : List Action} {w : World}

/-- The requests of a range are those of the list. -/
theorem values_range (values : List Bool) (n : Nat) :
    (List.range n).filterMap (fun i => values[i]?) = values.take n := by
  induction n with
  | zero => rfl
  | succ n ih =>
    rw [List.range_succ, List.filterMap_append, ih, List.take_add_one, List.filterMap_cons]
    cases values[n]? with
    | none => rfl
    | some value => rfl

/-- The chain is that of the toggles performed, in their order. -/
theorem run_kernel (h : Runs.run step (start d queueNum values) as = some w) :
    w.kernel = some (chainOf queueNum (loaded queueNum d.paused)
      ((performed .toggle as).filterMap fun i => values[i]?)) := by
  refine Runs.run_history (I := fun as w => w.kernel = some (chainOf queueNum
    (loaded queueNum d.paused) ((performed .toggle as).filterMap fun i => values[i]?)))
    ?_ ?_ h
  · show some (if (!d.paused) = true then [queueRule queueNum] else []) = _
    cases d.paused <;> rfl
  · intro tr m m' a hrun hkernel hstep
    have hinv := run_inv hrun
    obtain ⟨t, w₁, ht, -, heffect, rfl⟩ := step_eq_some.mp hstep
    obtain ⟨-, hafter⟩ := effect_kernel hinv.firewall hkernel heffect
    have hvalue : values[a.task]? = some t.value := by
      rw [← hinv.tasks, List.getElem?_map, ht]
      rfl
    show w₁.kernel = _
    rw [hafter, performed_append, List.filterMap_append]
    by_cases htoggle : a.stage = .toggle
    · have hone : performed .toggle [a] = [a.task] := by simp [performed, htoggle]
      rw [if_pos htoggle, hone, List.filterMap_cons, hvalue]
      unfold chainOf
      rw [List.foldl_append]
      rfl
    · have hnone : performed .toggle [a] = [] := by simp [performed, htoggle]
      rw [if_neg htoggle, hnone, List.filterMap_nil, List.append_nil]

/-- When the first `n` requests are through, flag and chain are those of their values. -/
theorem Served.state {n : Nat} (h : Runs.run step (start d queueNum values) as = some w)
    (hserved : Served n as) :
    n ≤ values.length ∧ w.daemon.paused = setting d.paused (values.take n) ∧
      w.kernel = some (chainOf queueNum (loaded queueNum d.paused) (values.take n)) := by
  have hinv := run_inv h
  have hlast : lastValue values .store as = (List.range n).getLast?.bind fun i => values[i]? := by
    rw [← hserved.stored, performed, List.getLast?_map, lastValue, Option.bind_map]
    rfl
  have hkernel := run_kernel h
  rw [hserved.toggled, values_range] at hkernel
  have hle : n ≤ values.length := by
    cases n with
    | zero => exact Nat.zero_le _
    | succ n =>
      -- the last of them is a request of the list
      have hmem : n ∈ performed .store as := by
        rw [hserved.stored]
        exact List.mem_range.mpr (Nat.lt_succ_self n)
      obtain ⟨a, ha, rfl⟩ := List.mem_map.mp hmem
      exact hinv.range a (List.mem_of_mem_filter ha)
  refine ⟨hle, ?_, hkernel⟩
  rw [hinv.flag, hlast, setting, List.getLast?_range, List.getLast?_take]
  cases n with
  | zero => rfl
  | succ n =>
    have hget : values[n]? = some values[n] := List.getElem?_eq_getElem hle
    rw [if_neg (Nat.succ_ne_zero n), if_neg (Nat.succ_ne_zero n), Nat.add_sub_cancel,
      Option.bind_some, hget, Option.some_or]

/-! ## Serving one request after the other -/

/-- All of one request: its handler, and its task. -/
def serveOne (i : Nat) : List Action :=
  [⟨.store, i⟩, ⟨.publish, i⟩, ⟨.spawn, i⟩, ⟨.lock, i⟩, ⟨.toggle, i⟩]

/-- The first `n` requests, each with its task before the next. -/
def serveAll (n : Nat) : List Action := (List.range n).flatMap serveOne

theorem serveAll_succ (n : Nat) : serveAll (n + 1) = serveAll n ++ serveOne n := by
  unfold serveAll
  rw [List.range_succ, List.flatMap_append, List.flatMap_singleton]

theorem served_serveAll (n : Nat) : Served n (serveAll n) := by
  induction n with
  | zero => exact ⟨rfl, rfl⟩
  | succ n ih =>
    constructor
    · rw [serveAll_succ, performed_append, ih.stored, List.range_succ]
      rfl
    · rw [serveAll_succ, performed_append, ih.toggled, List.range_succ]
      rfl

/-- Nothing is in the way of a request that has the daemon to itself. -/
structure Idle (n : Nat) (values : List Bool) (w : World) : Prop where
  unlocked : w.locked = false
  firewall : ∃ fw, w.daemon.firewall = some fw
  kernel : ∃ rules, w.kernel = some rules
  waiting : ∀ i, n ≤ i → w.tasks[i]? = (values[i]?).map fun value => ⟨value, 0⟩

/-- A stage that can be performed: its effect, and the request moves on. -/
theorem step_stage {w₁ : World} (stage : Stage) {i : Nat} {t : Pause.Task}
    (ht : w.tasks[i]? = some t) (hpc : t.pc = stage.index)
    (he : effect w t.value stage = some w₁) :
    ∃ w', step w ⟨stage, i⟩ = some w' ∧ w'.daemon = w₁.daemon ∧ w'.kernel = w₁.kernel ∧
      w'.locked = w₁.locked ∧ w'.tasks[i]? = some { t with pc := t.pc + 1 } ∧
      ∀ j, j ≠ i → w'.tasks[j]? = w.tasks[j]? := by
  refine ⟨_, step_of stage ht hpc he, rfl, rfl, rfl, ?_, fun j hj => ?_⟩
  · exact List.getElem?_set_self (List.getElem?_eq_some_iff.mp ht).1
  · exact List.getElem?_set_ne (Ne.symm hj)

/-- A toggle succeeds: the table is there. -/
theorem effect_toggle (value : Bool) (hfw : ∃ fw, w.daemon.firewall = some fw)
    (hk : ∃ rules, w.kernel = some rules) :
    ∃ w₁, effect w value .toggle = some w₁ ∧ w₁.daemon = w.daemon ∧ w₁.locked = false ∧
      ∃ rules, w₁.kernel = some rules := by
  obtain ⟨fw, hfw⟩ := hfw
  obtain ⟨rules, hk⟩ := hk
  cases value with
  | true => exact ⟨{ w with kernel := some [], locked := false }, by simp [effect, hfw, hk,
      Firewall.pause_some], rfl, rfl, [], rfl⟩
  | false => exact ⟨{ w with kernel := some (rules ++ [queueRule fw.queueNum]), locked := false },
      by simp [effect, hfw, hk, Firewall.resume_some], rfl, rfl, _, rfl⟩

theorem Idle.serveOne {n : Nat} (h : Idle n values w) (hn : n < values.length) :
    ∃ w', Runs.run step w (serveOne n) = some w' ∧ Idle (n + 1) values w' := by
  have ht := h.waiting n (Nat.le_refl n)
  rw [List.getElem?_eq_getElem hn, Option.map_some] at ht
  -- the five stages, each with what the next one needs
  obtain ⟨w₁, hstore, hd₁, hk₁, hl₁, ht₁, ho₁⟩ := step_stage .store ht rfl rfl
  obtain ⟨w₂, hpublish, hd₂, hk₂, hl₂, ht₂, ho₂⟩ := step_stage .publish ht₁ rfl rfl
  obtain ⟨w₃, hspawn, hd₃, hk₃, hl₃, ht₃, ho₃⟩ := step_stage .spawn ht₂ rfl rfl
  have hunlocked : w₃.locked = false := by
    rw [hl₃, hl₂, hl₁]
    exact h.unlocked
  have hfree : effect w₃ values[n] .lock = some { w₃ with locked := true } := by
    rw [effect, hunlocked]
    rfl
  obtain ⟨w₄, hlock, hd₄, hk₄, hl₄, ht₄, ho₄⟩ := step_stage .lock ht₃ rfl hfree
  have hfw : ∃ fw, w₄.daemon.firewall = some fw := by
    obtain ⟨fw, hfw⟩ := h.firewall
    exact ⟨fw, by rw [hd₄, hd₃, hd₂, hd₁]; exact hfw⟩
  have hk : ∃ rules, w₄.kernel = some rules := by
    obtain ⟨rules, hk⟩ := h.kernel
    exact ⟨rules, by rw [hk₄, hk₃, hk₂, hk₁]; exact hk⟩
  obtain ⟨w₅', he, hd₅', hl₅', hk₅'⟩ := effect_toggle values[n] hfw hk
  obtain ⟨w₅, htoggle, hd₅, hk₅, hl₅, -, ho₅⟩ := step_stage .toggle ht₄ rfl he
  refine ⟨w₅, ?_, ?_⟩
  · exact Runs.run_cons_eq_some.mpr ⟨w₁, hstore, Runs.run_cons_eq_some.mpr ⟨w₂, hpublish,
      Runs.run_cons_eq_some.mpr ⟨w₃, hspawn, Runs.run_cons_eq_some.mpr ⟨w₄, hlock,
        Runs.run_cons_eq_some.mpr ⟨w₅, htoggle, rfl⟩⟩⟩⟩⟩
  · refine ⟨hl₅.trans hl₅', ?_, hk₅ ▸ hk₅', fun i hi => ?_⟩
    · rw [hd₅, hd₅']
      exact hfw
    · have hne : i ≠ n := by omega
      rw [ho₅ i hne, ho₄ i hne, ho₃ i hne, ho₂ i hne, ho₁ i hne]
      exact h.waiting i (by omega)

/-- Requests can be served one after the other. -/
theorem run_serveAll (d : DaemonState) (queueNum : UInt16) {values : List Bool} {n : Nat}
    (hn : n ≤ values.length) :
    ∃ w, Runs.run step (start d queueNum values) (serveAll n) = some w ∧ Idle n values w := by
  induction n with
  | zero =>
    refine ⟨start d queueNum values, rfl, rfl, ⟨_, rfl⟩, ⟨_, rfl⟩, fun i _ => ?_⟩
    exact List.getElem?_map ..
  | succ n ih =>
    obtain ⟨w, hrun, hidle⟩ := ih (Nat.le_of_succ_le hn)
    obtain ⟨w', hone, hidle'⟩ := hidle.serveOne hn
    refine ⟨w', ?_, hidle'⟩
    rw [serveAll_succ]
    exact Runs.run_append_eq_some.mpr ⟨w, hrun, hone⟩

/-! ## One queue rule -/

theorem setting_take_succ {paused value : Bool} {n : Nat} (h : values[n]? = some value) :
    setting paused (values.take (n + 1)) = value := by
  rw [setting, List.getLast?_take, if_neg (Nat.succ_ne_zero n), Nat.add_sub_cancel, h]
  rfl

/-- Without idle resumes, the chain is the one that `setup` would load for the flag. -/
theorem Served.kernel_eq {n : Nat} (h : Runs.run step (start d queueNum values) as = some w)
    (hserved : Served n as) (hidle : NoIdleResume d.paused values) :
    w.kernel = some (loaded queueNum w.daemon.paused) := by
  obtain ⟨-, hflag, hkernel⟩ := hserved.state h
  have hfirst : (d.paused :: values.take n) <+: (d.paused :: values) :=
    List.cons_prefix_cons.mpr ⟨rfl, List.take_prefix n values⟩
  have htaken : NoIdleResume d.paused (values.take n) := List.IsChain.prefix hidle hfirst
  rw [hkernel, chainOf_eq_loaded htaken, hflag]

/-- **One queue rule**: whatever the requests, and in every interleaving whose toggles
complete in their order, there is one queue rule when the daemon is not paused and none when
it is, and a request for the present setting leaves the chain alone, if and only if no
request resumes a daemon that is not paused. -/
theorem one_queue_rule_iff (d : DaemonState) (queueNum : UInt16) (values : List Bool) :
    ((∀ n as w, Runs.run step (start d queueNum values) as = some w → Served n as →
        OneQueueRule w) ∧
      ∀ n as more w w', Runs.run step (start d queueNum values) as = some w →
        Runs.run step w more = some w' → Served n as → Served (n + 1) (as ++ more) →
        values[n]? = some w.daemon.paused → w'.kernel = w.kernel) ↔
      (d.paused :: values).IsChain fun before asked => before = true ∨ asked = true := by
  constructor
  · rintro ⟨hone, -⟩
    -- one request after the other, every prefix of them is a moment to look at the chain
    refine @noIdleResume_of_queueRules queueNum d.paused values fun n hn => ?_
    obtain ⟨w, hrun, -⟩ := run_serveAll d queueNum hn
    have hserved := served_serveAll n
    obtain ⟨-, hflag, hkernel⟩ := hserved.state hrun
    obtain ⟨rules, hrules, hcount⟩ := hone n _ w hrun hserved
    rw [hkernel] at hrules
    cases hrules
    rw [hcount, hflag]
  · intro hidle
    constructor
    · intro n as w hrun hserved
      exact ⟨_, hserved.kernel_eq hrun hidle, queueRules_loaded queueNum _⟩
    · intro n as more w w' hrun hmore hserved hserved' hvalue
      have hrun' := Runs.run_append_eq_some.mpr ⟨w, hrun, hmore⟩
      have hsame : w'.daemon.paused = w.daemon.paused :=
        (hserved'.state hrun').2.1.trans (setting_take_succ hvalue)
      rw [hserved'.kernel_eq hrun' hidle, hserved.kernel_eq hrun hidle, hsame]

/-- What a request to resume leaves of a daemon that is not paused. -/
def resumedEnd : World where
  daemon := { idle with firewall := some ⟨0⟩ }
  kernel := some [queueRule 0, queueRule 0]
  published := [.pausedChanged false]
  locked := false
  tasks := [⟨false, 5⟩]

/-- **An idle resume**: the chain has its queue rule twice. -/
theorem resumed_twice :
    Runs.run step (start idle 0 [false]) (serveAll 1) = some resumedEnd ∧
      Served 1 (serveAll 1) ∧ ¬OneQueueRule resumedEnd := by
  refine ⟨rfl, served_serveAll 1, ?_⟩
  rintro ⟨rules, hrules, hcount⟩
  cases hrules
  revert hcount
  decide +kernel

end QueueRule

end TravelMode
