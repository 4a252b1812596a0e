import TravelMode.Daemon.Main
import TravelMode.Lib.Runs

/-!
# Pausing: flag, event and nftables chain

`SetPaused` is handled in three unsynchronised steps — store the flag, publish
`PausedChanged`, spawn a task — and the task later takes the firewall lock and
toggles the queue rule by the value it *captured*, not by the flag. `World` runs
any number of such requests side by side.

- A request's program counter counts the stages it has performed; `step` performs
  one stage of one request, so a schedule is any interleaving.
- `Inv`: flag, last event and chain are functions of the schedule: each is set by
  the *last* action of its stage.
- `agree_iff`: once all have finished, the three views agree if and only if the
  last store, the last publication and the last toggle are of the same value.
- `handler_eq_dispatch`: undisturbed, the three handler steps are `dispatch`.
-/

namespace TravelMode

namespace Pause

/-- The stages of one request, in its own order. -/
inductive Stage where
  | store
  | publish
  | spawn
  | lock
  | toggle
deriving DecidableEq, Repr

/-- How many stages precede this one. -/
def Stage.index : Stage → Nat
  | .store => 0
  | .publish => 1
  | .spawn => 2
  | .lock => 3
  | .toggle => 4

/-- A request and its spawned task: the value asked for, and the stages performed. -/
structure Task where
  value : Bool
  pc : Nat
deriving DecidableEq, Repr

/-- One stage of one request. -/
structure Action where
  stage : Stage
  task : Nat
deriving DecidableEq, Repr

/-- The daemon, the kernel, the events published and the requests in progress. -/
structure World where
  daemon : DaemonState
  kernel : Nft
  published : List Event
  /-- The firewall lock is held. -/
  locked : Bool
  tasks : List Task

/-- The effect of a stage. The toggle acts on the value its task captured. -/
def effect (w : World) (value : Bool) : Stage → Option World
  | .store => some { w with daemon := { w.daemon with paused := value } }
  | .publish => some { w with published := w.published ++ [.pausedChanged value] }
  | .spawn => some w
  | .lock => if w.locked then none else some { w with locked := true }
  | .toggle =>
    match w.daemon.firewall with
    | none => some { w with locked := false }
    | some fw =>
      (if value then fw.pause w.kernel else fw.resume w.kernel).map fun k =>
        { w with kernel := k, locked := false }

/-- Perform a stage, if it is the request's next one. -/
def step (w : World) (a : Action) : Option World :=
  match w.tasks[a.task]? with
  | none => none
  | some t =>
    if t.pc = a.stage.index then
      (effect w t.value a.stage).map fun w' =>
        { w' with tasks := w.tasks.set a.task { t with pc := t.pc + 1 } }
    else none

/-- The daemon after `Firewall::setup`, and requests for the given values. -/
def start (d : DaemonState) (queueNum : UInt16) (values : List Bool) : World where
  daemon := { d with firewall := some (Firewall.setup queueNum d.paused).1 }
  kernel := (Firewall.setup queueNum d.paused).2
  published := []
  locked := false
  tasks := values.map fun v => ⟨v, 0⟩

/-- All handlers and tasks have finished. -/
def Finished (w : World) : Prop := ∀ t ∈ w.tasks, t.pc = 5

instance (w : World) : Decidable (Finished w) := inferInstanceAs (Decidable (∀ t ∈ w.tasks, _))

/-- The chain has at least one queue rule. -/
def HasQueueRule (k : Nft) : Prop := ∃ rules, k = some rules ∧ ∃ rule ∈ rules, "queue" ∈ rule

/-- The three views of pausing agree. -/
def Agree (w : World) : Prop :=
  (HasQueueRule w.kernel ↔ w.daemon.paused = false) ∧
    ∀ e, w.published.getLast? = some e → e = .pausedChanged w.daemon.paused

/-- The value of the last action of a stage. -/
def lastValue (values : List Bool) (stage : Stage) (as : List Action) : Option Bool :=
  ((as.filter fun a => decide (a.stage = stage)).getLast?).bind fun a => values[a.task]?

/-- The last store, the last publication and the last toggle are of the same value. -/
def SameLast (values : List Bool) (as : List Action) : Prop :=
  lastValue values .publish as = lastValue values .store as ∧
    lastValue values .toggle as = lastValue values .store as

/-! ## One step -/

/-- What a step does: the effect of its stage, and the request moves on. -/
theorem step_eq_some {w w' : World} {a : Action} :
    step w a = some w' ↔ ∃ t w₁, w.tasks[a.task]? = some t ∧ t.pc = a.stage.index ∧
      effect w t.value a.stage = some w₁ ∧
      w' = { w₁ with tasks := w.tasks.set a.task { t with pc := t.pc + 1 } } := by
  unfold step
  cases w.tasks[a.task]? with
  | none => simp
  | some t =>
    dsimp only
    by_cases hpc : t.pc = a.stage.index
    · rw [if_pos hpc, Option.map_eq_some_iff]
      constructor
      · rintro ⟨w₁, he, rfl⟩
        exact ⟨t, w₁, rfl, hpc, he, rfl⟩
      · rintro ⟨t', w₁, ht, -, he, rfl⟩
        cases ht
        exact ⟨w₁, he, rfl⟩
    · rw [if_neg hpc]
      constructor
      · intro h
        cases h
      · rintro ⟨t', w₁, ht, hpc', -⟩
        cases ht
        exact absurd hpc' hpc

theorem step_of {w w₁ : World} (stage : Stage) {i : Nat} {t : Task} (ht : w.tasks[i]? = some t)
    (hpc : t.pc = stage.index) (he : effect w t.value stage = some w₁) :
    step w ⟨stage, i⟩ = some { w₁ with tasks := w.tasks.set i { t with pc := t.pc + 1 } } :=
  step_eq_some.mpr ⟨t, w₁, ht, hpc, he, rfl⟩

/-- The flag is set by the store, and by nothing else. -/
theorem effect_paused {w w₁ : World} {value : Bool} {stage : Stage}
    (h : effect w value stage = some w₁) :
    w₁.daemon.paused = if stage = .store then value else w.daemon.paused := by
  cases stage with
  | store =>
    cases h
    rfl
  | publish =>
    cases h
    rfl
  | spawn =>
    cases h
    rfl
  | lock =>
    simp only [effect] at h
    split at h <;> cases h
    rfl
  | toggle =>
    simp only [effect] at h
    split at h
    · cases h
      rfl
    · obtain ⟨k, -, rfl⟩ := Option.map_eq_some_iff.mp h
      rfl

/-- Events are published by the publish stage, and by nothing else. -/
theorem effect_published {w w₁ : World} {value : Bool} {stage : Stage}
    (h : effect w value stage = some w₁) :
    w₁.published =
      if stage = .publish then w.published ++ [.pausedChanged value] else w.published := by
  cases stage with
  | store =>
    cases h
    rfl
  | publish =>
    cases h
    rfl
  | spawn =>
    cases h
    rfl
  | lock =>
    simp only [effect] at h
    split at h <;> cases h
    rfl
  | toggle =>
    simp only [effect] at h
    split at h
    · cases h
      rfl
    · obtain ⟨k, -, rfl⟩ := Option.map_eq_some_iff.mp h
      rfl

/-- The chain is changed by the toggle, and by nothing else: it is flushed, or it gets
one more queue rule. The handle stays. -/
theorem effect_kernel {w w₁ : World} {value : Bool} {stage : Stage} {fw : Firewall}
    {rules : List (List String)} (hfw : w.daemon.firewall = some fw) (hk : w.kernel = some rules)
    (h : effect w value stage = some w₁) :
    w₁.daemon.firewall = some fw ∧
      w₁.kernel = some (if stage = .toggle then
        (if value then [] else rules ++ [queueRule fw.queueNum]) else rules) := by
  cases stage with
  | store =>
    cases h
    exact ⟨hfw, hk⟩
  | publish =>
    cases h
    exact ⟨hfw, hk⟩
  | spawn =>
    cases h
    exact ⟨hfw, hk⟩
  | lock =>
    simp only [effect] at h
    split at h <;> cases h
    exact ⟨hfw, hk⟩
  | toggle =>
    simp only [effect, hfw, hk, Firewall.pause_some, Firewall.resume_some] at h
    obtain ⟨k, hk', rfl⟩ := Option.map_eq_some_iff.mp h
    refine ⟨hfw, ?_⟩
    cases value with
    | true =>
      cases hk'
      rfl
    | false =>
      cases hk'
      rfl

/-! ## The handler is `dispatch` -/

/-- The three handler steps without interference do what `dispatch` does. -/
theorem handler_eq_dispatch {w : World} {i : Nat} {value : Bool}
    (h : w.tasks[i]? = some ⟨value, 0⟩) (env : Env) :
    ∃ w' handled, Runs.run step w [⟨.store, i⟩, ⟨.publish, i⟩, ⟨.spawn, i⟩] = some w' ∧
      dispatch w.daemon env (.setPaused value) = some handled ∧
      w'.daemon = handled.state ∧ w'.published = w.published ++ handled.published ∧
      handled.toggles = [value] := by
  have hlt : i < w.tasks.length := (List.getElem?_eq_some_iff.mp h).1
  have hset : ∀ (ts : List Task) (t : Task), i < ts.length → (ts.set i t)[i]? = some t :=
    fun ts t hlt => List.getElem?_set_self hlt
  have h1 := step_of .store h rfl rfl
  have h2 := step_of .publish (t := ⟨value, 1⟩)
    (w := { w with
      daemon := { w.daemon with paused := value }
      tasks := w.tasks.set i ⟨value, 1⟩ })
    (hset w.tasks _ hlt) rfl rfl
  have h3 := step_of .spawn (t := ⟨value, 2⟩)
    (w := { w with
      daemon := { w.daemon with paused := value }
      published := w.published ++ [.pausedChanged value]
      tasks := (w.tasks.set i ⟨value, 1⟩).set i ⟨value, 2⟩ })
    (hset (w.tasks.set i ⟨value, 1⟩) _ (by rwa [List.length_set])) rfl rfl
  exact ⟨_, _, Runs.run_cons_eq_some.mpr ⟨_, h1, Runs.run_cons_eq_some.mpr
    ⟨_, h2, Runs.run_cons_eq_some.mpr ⟨_, h3, rfl⟩⟩⟩, rfl, rfl, rfl, rfl⟩

/-! ## The last action of a stage -/

/-- An action is the last of its own stage, and leaves the other stages alone. -/
theorem lastValue_snoc (values : List Bool) (stage : Stage) (as : List Action) (a : Action) :
    lastValue values stage (as ++ [a]) =
      if a.stage = stage then values[a.task]? else lastValue values stage as := by
  unfold lastValue
  rw [List.filter_append]
  by_cases h : a.stage = stage
  · rw [if_pos h, List.filter_cons_of_pos (by simpa using h), List.filter_nil,
      List.getLast?_concat]
    rfl
  · rw [if_neg h, List.filter_cons_of_neg (by simpa using h), List.filter_nil, List.append_nil]

/-- A stage that has been performed by a request has a last value. -/
theorem lastValue_isSome {values : List Bool} {stage : Stage} {as : List Action}
    (hrange : ∀ a ∈ as, a.task < values.length) (h : ∃ a ∈ as, a.stage = stage) :
    (lastValue values stage as).isSome = true := by
  obtain ⟨a, ha, hstage⟩ := h
  have hmem : a ∈ as.filter fun a => decide (a.stage = stage) :=
    List.mem_filter.mpr ⟨ha, by simpa using hstage⟩
  cases hlast : (as.filter fun a => decide (a.stage = stage)).getLast? with
  | none =>
    rw [List.getLast?_eq_none_iff.mp hlast] at hmem
    cases hmem
  | some b =>
    have hb := (List.mem_filter.mp (List.mem_of_getLast? hlast)).1
    rw [lastValue, hlast, Option.bind_some, List.getElem?_eq_getElem (hrange b hb)]
    rfl

/-! ## The invariant -/

/-- Flag, last event and chain are those of the last action of their stage. -/
structure Inv (d : DaemonState) (queueNum : UInt16) (values : List Bool) (as : List Action)
    (w : World) : Prop where
  tasks : w.tasks.map Task.value = values
  range : ∀ a ∈ as, a.task < values.length
  performed : ∀ t ∈ w.tasks, ∀ stage : Stage, stage.index < t.pc → ∃ a ∈ as, a.stage = stage
  firewall : w.daemon.firewall = some ⟨queueNum⟩
  flag : w.daemon.paused = (lastValue values .store as).getD d.paused
  published : w.published.getLast? = (lastValue values .publish as).map .pausedChanged
  kernel : ∃ rules, w.kernel = some rules ∧
    ((∃ rule ∈ rules, "queue" ∈ rule) ↔ (lastValue values .toggle as).getD d.paused = false)

theorem start_inv (d : DaemonState) (queueNum : UInt16) (values : List Bool) :
    Inv d queueNum values [] (start d queueNum values) where
  tasks := by
    show List.map Task.value (List.map _ values) = values
    rw [List.map_map]
    exact List.map_id values
  range a ha := nomatch ha
  performed t ht stage hlt := by
    obtain ⟨v, -, rfl⟩ := List.mem_map.mp ht
    exact absurd hlt (Nat.not_lt_zero _)
  firewall := rfl
  flag := rfl
  published := rfl
  kernel := by
    refine ⟨_, rfl, ?_⟩
    show (∃ rule ∈ (if (!d.paused) = true then [queueRule queueNum] else []), "queue" ∈ rule) ↔
      d.paused = false
    cases d.paused with
    | true => simp
    | false => simp [queueRule]

/-- The stage just performed is in the schedule, and so are all before it. -/
theorem performed_snoc {as : List Action} {a : Action} {t : Task} (hpc : t.pc = a.stage.index)
    (h : ∀ stage : Stage, stage.index < t.pc → ∃ b ∈ as, b.stage = stage) (stage : Stage)
    (hlt : stage.index < t.pc + 1) : ∃ b ∈ as ++ [a], b.stage = stage := by
  by_cases hnew : stage.index = a.stage.index
  · refine ⟨a, List.mem_append_right _ List.mem_cons_self, ?_⟩
    revert hnew
    cases a.stage <;> cases stage <;> simp [Stage.index]
  · obtain ⟨b, hb, hbs⟩ := h stage (by omega)
    exact ⟨b, List.mem_append_left _ hb, hbs⟩

/-- One stage keeps the invariant. -/
theorem step_inv {d : DaemonState} {queueNum : UInt16} {values : List Bool} {as : List Action}
    {w w' : World} {a : Action} (hi : Inv d queueNum values as w) (h : step w a = some w') :
    Inv d queueNum values (as ++ [a]) w' := by
  obtain ⟨t, w₁, ht, hpc, heffect, rfl⟩ := step_eq_some.mp h
  obtain ⟨rules, hrules, hqueue⟩ := hi.kernel
  obtain ⟨hfirewall, hkernel⟩ := effect_kernel hi.firewall hrules heffect
  have hvalue : values[a.task]? = some t.value := by
    rw [← hi.tasks, List.getElem?_map, ht]
    rfl
  refine { tasks := ?_, range := ?_, performed := ?_, firewall := hfirewall, flag := ?_,
           published := ?_, kernel := ⟨_, hkernel, ?_⟩ }
  · show List.map Task.value (w.tasks.set a.task _) = values
    rw [List.map_set, hi.tasks]
    obtain ⟨hlt, he⟩ := List.getElem?_eq_some_iff.mp hvalue
    rw [← he]
    exact List.set_getElem_self hlt
  · intro b hb
    rcases List.mem_append.mp hb with hb | hb
    · exact hi.range b hb
    · rw [List.mem_singleton.mp hb]
      exact (List.getElem?_eq_some_iff.mp hvalue).1
  · intro t' ht' stage hstage
    -- another task is as before; this one has its new stage in the run
    rcases List.mem_or_eq_of_mem_set ht' with ht' | rfl
    · obtain ⟨b, hb, hbs⟩ := hi.performed t' ht' stage hstage
      exact ⟨b, List.mem_append_left _ hb, hbs⟩
    · exact performed_snoc hpc (hi.performed t (List.mem_of_getElem? ht)) stage hstage
  · show w₁.daemon.paused = _
    -- only the store sets the flag, and its value is the last one stored
    rw [effect_paused heffect, lastValue_snoc, hvalue, hi.flag]
    split <;> rfl
  · show w₁.published.getLast? = _
    rw [effect_published heffect, lastValue_snoc, hvalue]
    split
    · exact List.getLast?_concat
    · exact hi.published
  · rw [lastValue_snoc, hvalue]
    split
    · cases t.value with
      | true => simp
      | false => simp [queueRule]
    · exact hqueue

/-- After every run, flag, last event and chain are those of the last action of their
stage. -/
theorem run_inv {d : DaemonState} {queueNum : UInt16} {values : List Bool} {as : List Action}
    {w : World} (h : Runs.run step (start d queueNum values) as = some w) :
    Inv d queueNum values as w :=
  Runs.run_history (I := Inv d queueNum values) (start_inv d queueNum values)
    (fun _ hi hs => step_inv hi hs) h

/-- Once all have finished, every stage was performed, unless nothing was asked for. -/
theorem Inv.lastValue_finished {d : DaemonState} {queueNum : UInt16} {values : List Bool}
    {as : List Action} {w : World} (hi : Inv d queueNum values as w) (hf : Finished w)
    (stage : Stage) : (lastValue values stage as).isSome = true ∨ values = [] := by
  cases htasks : w.tasks with
  | nil =>
    refine .inr ?_
    rw [← hi.tasks, htasks]
    rfl
  | cons t ts =>
    refine .inl (lastValue_isSome hi.range (hi.performed t ?_ stage ?_))
    · rw [htasks]
      exact List.mem_cons_self
    · rw [hf t (by rw [htasks]; exact List.mem_cons_self)]
      cases stage <;> decide

/-- Without requests there is no last value. -/
theorem lastValue_nil (stage : Stage) (as : List Action) : lastValue [] stage as = none := by
  unfold lastValue
  cases (as.filter fun a => decide (a.stage = stage)).getLast? <;> rfl

/-- **Pause agreement**: in every interleaving of handlers and tasks that has finished,
chain, flag and last event agree if and only if the last store, the last publication and
the last toggle are of the same value. -/
theorem agree_iff {d : DaemonState} {queueNum : UInt16} {values : List Bool}
    {as : List Action} {w : World}
    (h : Runs.run step (start d queueNum values) as = some w) (hf : Finished w) :
    Agree w ↔ SameLast values as := by
  have hi := run_inv h
  have hqueue : HasQueueRule w.kernel ↔ (lastValue values .toggle as).getD d.paused = false := by
    obtain ⟨rules, hk, hq⟩ := hi.kernel
    rw [← hq, HasQueueRule, hk]
    simp
  rw [Agree, SameLast, hqueue, hi.flag, hi.published]
  by_cases hvalues : values = []
  · subst hvalues
    simp [lastValue_nil]
  · have hsome : ∀ stage, ∃ v, lastValue values stage as = some v := fun stage =>
      Option.isSome_iff_exists.mp ((hi.lastValue_finished hf stage).resolve_right hvalues)
    obtain ⟨x, hx⟩ := hsome .store
    obtain ⟨y, hy⟩ := hsome .publish
    obtain ⟨z, hz⟩ := hsome .toggle
    rw [hx, hy, hz]
    cases x <;> cases y <;> cases z <;> simp

/-! ### Runs on concrete input -/

/-- A daemon with no rules. -/
def idle : DaemonState := .new .firstStart

/-- Pause, then resume, then pause; handlers and tasks overlap, and each stage keeps the
order of the requests. -/
def overlapping : List Action :=
  [⟨.store, 0⟩, ⟨.store, 1⟩, ⟨.publish, 0⟩, ⟨.spawn, 0⟩, ⟨.publish, 1⟩, ⟨.lock, 0⟩, ⟨.store, 2⟩,
    ⟨.spawn, 1⟩, ⟨.publish, 2⟩, ⟨.toggle, 0⟩, ⟨.lock, 1⟩, ⟨.spawn, 2⟩, ⟨.toggle, 1⟩, ⟨.lock, 2⟩,
    ⟨.toggle, 2⟩]

theorem overlapping_runs :
    (Runs.run step (start idle 0 [true, false, true]) overlapping).isSome = true := by
  decide +kernel

theorem agree_iff_overlapping :
    let w := (Runs.run step (start idle 0 [true, false, true]) overlapping).get overlapping_runs
    Finished w ∧ w.daemon.paused = true ∧
      (Agree w ↔ SameLast [true, false, true] overlapping) :=
  have hfinished : Finished
      ((Runs.run step (start idle 0 [true, false, true]) overlapping).get overlapping_runs) := by
    decide +kernel
  ⟨hfinished, by decide +kernel, agree_iff (Option.some_get overlapping_runs).symm hfinished⟩

/-- Pause, then resume; the tasks take the lock in the other order. -/
def overtaken : List Action :=
  [⟨.store, 0⟩, ⟨.publish, 0⟩, ⟨.spawn, 0⟩, ⟨.store, 1⟩, ⟨.publish, 1⟩, ⟨.spawn, 1⟩,
    ⟨.lock, 1⟩, ⟨.toggle, 1⟩, ⟨.lock, 0⟩, ⟨.toggle, 0⟩]

/-- What `overtaken` leads to: an empty chain under a flag that says resumed. -/
def overtakenEnd : World where
  daemon := { idle with paused := false, firewall := some ⟨0⟩ }
  kernel := some []
  published := [.pausedChanged true, .pausedChanged false]
  locked := false
  tasks := [⟨true, 5⟩, ⟨false, 5⟩]

theorem overtaken_disagrees :
    Runs.run step (start idle 0 [true, false]) overtaken = some overtakenEnd ∧
      Finished overtakenEnd ∧ ¬Agree overtakenEnd := by
  refine ⟨rfl, by decide, ?_⟩
  intro h
  obtain ⟨rules, hk, rule, hrule, -⟩ := h.1.mpr rfl
  cases hk
  cases hrule

end Pause

end TravelMode
