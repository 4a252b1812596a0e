import TravelMode.Gui.Operations
import TravelMode.Lib.Meter

/-!
# Speeds account for every byte

Once a second, `tick` turns the growth of the byte counters into the speeds that the pages
show. The totals and the two counters of every app are meters (`Meter`), and events let
them grow.

- `applyEvent_totals`, `applyEvent_app`: what an event does to a meter. An entry that an
  event makes starts like one of zeros.
- `balanced_operate`, `app_balanced`: the accounts over any events and ticks.
- `speeds_account`: from a snapshot on, the speeds shown and what is not yet shown are what
  was counted; for an app, over the time it stays.
-/

namespace TravelMode

namespace ClientState

/-! ## The meters -/

/-- The bytes sent in total, as `tick` samples them. -/
def meterUp (s : ClientState) : Meter := ⟨s.totalUp, s.prevTotalUp, s.speedUp⟩

/-- The bytes received in total. -/
def meterDown (s : ClientState) : Meter := ⟨s.totalDown, s.prevTotalDown, s.speedDown⟩

/-- The bytes an app has sent. -/
def meterSent (app : AppEntry) : Meter := ⟨app.bytesSent, app.prevSent, app.speedUp⟩

/-- The bytes an app has received. -/
def meterRecv (app : AppEntry) : Meter := ⟨app.bytesRecv, app.prevRecv, app.speedDown⟩

theorem tick_up (s : ClientState) : s.tick.meterUp = s.meterUp.sample := rfl

theorem tick_down (s : ClientState) : s.tick.meterDown = s.meterDown.sample := rfl

theorem get?_tick (s : ClientState) (key : String) :
    s.tick.apps.get? key = (s.apps.get? key).map sampleApp := KeyedMap.get?_mapVals ..

/-! ## Events -/

theorem removeConn_totals (s : ClientState) (key : String) :
    (s.removeConn key).meterUp = s.meterUp ∧ (s.removeConn key).meterDown = s.meterDown := by
  unfold removeConn
  cases s.conns.get? key with
  | none => exact ⟨rfl, rfl⟩
  | some conn => exact ⟨rfl, rfl⟩

/-- No event lets a total shrink, or takes it for sampled. -/
theorem applyEvent_totals (s : ClientState) (e : Event) :
    s.meterUp.Grows (s.applyEvent e).meterUp ∧ s.meterDown.Grows (s.applyEvent e).meterDown := by
  cases e with
  | connectionOpened conn => exact ⟨⟨rfl, Nat.le_add_right _ _⟩, ⟨rfl, Nat.le_add_right _ _⟩⟩
  | connectionUpdated conn => exact ⟨⟨rfl, Nat.le_add_right _ _⟩, ⟨rfl, Nat.le_add_right _ _⟩⟩
  | connectionClosed key =>
    obtain ⟨hup, hdown⟩ := removeConn_totals s key
    show s.meterUp.Grows (s.removeConn key).meterUp ∧ s.meterDown.Grows (s.removeConn key).meterDown
    rw [hup, hdown]
    exact ⟨.refl _, .refl _⟩
  | _ => exact ⟨.refl _, .refl _⟩

/-- An entry of zeros: what a new one is for its meters. -/
def blank : AppEntry := { name := "", exe := none }

/-- The entry under a key, or one of zeros. -/
def entryAt (s : ClientState) (key : String) : AppEntry := (s.apps.get? key).getD blank

theorem entryAt_of_some {s : ClientState} {key : String} {app : AppEntry}
    (h : s.apps.get? key = some app) : s.entryAt key = app := by
  rw [entryAt, h]
  rfl

/-- The meters of an entry have grown, or are as they were. -/
structure AppGrows (app app' : AppEntry) : Prop where
  sent : (meterSent app).Grows (meterSent app')
  recv : (meterRecv app).Grows (meterRecv app')

theorem AppGrows.of_eq {app app' : AppEntry} (hsent : meterSent app' = meterSent app)
    (hrecv : meterRecv app' = meterRecv app) : AppGrows app app' :=
  ⟨hsent ▸ .refl _, hrecv ▸ .refl _⟩

theorem upsertConn_app {s : ClientState} {conn : ConnectionInfo} {isOpen : Bool} {key : String}
    {app : AppEntry} (h : (s.upsertConn conn isOpen).apps.get? key = some app) :
    AppGrows (s.entryAt key) app := by
  change (s.apps.insert _ _).get? key = some app at h
  rw [KeyedMap.get?_insert] at h
  by_cases hkey : key = conn.appKey
  · rw [if_pos hkey] at h
    cases h
    subst hkey
    -- a new entry has the zeros of the blank one
    unfold entryAt appOf
    cases s.apps.get? conn.appKey with
    | none => exact ⟨⟨rfl, Nat.le_add_right _ _⟩, ⟨rfl, Nat.le_add_right _ _⟩⟩
    | some old => exact ⟨⟨rfl, Nat.le_add_right _ _⟩, ⟨rfl, Nat.le_add_right _ _⟩⟩
  · rw [if_neg hkey] at h
    rw [entryAt_of_some h]
    exact .of_eq rfl rfl

theorem removeConn_app {s : ClientState} {closed key : String} {app : AppEntry}
    (h : (s.removeConn closed).apps.get? key = some app) : AppGrows (s.entryAt key) app := by
  cases hconn : s.conns.get? closed with
  | none =>
    simp only [removeConn, hconn] at h
    rw [entryAt_of_some h]
    exact .of_eq rfl rfl
  | some conn =>
    simp only [removeConn, hconn] at h
    obtain ⟨old, hold, rfl | rfl⟩ := get?_releaseApp h
    · rw [entryAt_of_some hold]
      exact .of_eq rfl rfl
    · rw [entryAt_of_some hold]
      exact .of_eq rfl rfl

theorem refreshRuleFlags_app {s : ClientState} {rules : List Rule} {key : String}
    {app : AppEntry} (h : (refreshRuleFlags { s with rules := rules }).apps.get? key = some app) :
    AppGrows (s.entryAt key) app := by
  rw [get?_refreshRuleFlags, get?_addBlockedApps] at h
  obtain ⟨h, -⟩ := Option.filter_eq_some_iff.mp h
  obtain ⟨old, hold, rfl⟩ := Option.map_eq_some_iff.mp h
  unfold entryAt
  cases hbefore : s.apps.get? key with
  | some before =>
    rw [hbefore] at hold
    cases hold
    exact .of_eq rfl rfl
  | none =>
    rw [hbefore, Option.none_or] at hold
    obtain ⟨r, -, rfl⟩ := Option.map_eq_some_iff.mp hold
    exact .of_eq rfl rfl

/-- No event lets a counter of an app shrink, or takes it for sampled. -/
theorem applyEvent_app {s : ClientState} {e : Event} {key : String} {app : AppEntry}
    (h : (s.applyEvent e).apps.get? key = some app) : AppGrows (s.entryAt key) app := by
  cases e with
  | connectionOpened conn => exact upsertConn_app h
  | connectionUpdated conn => exact upsertConn_app h
  | connectionClosed closed => exact removeConn_app h
  | ruleAdded rule => exact refreshRuleFlags_app h
  | ruleRemoved id => exact refreshRuleFlags_app h
  | _ =>
    have hsame : s.apps.get? key = some app := h
    rw [entryAt_of_some hsame]
    exact .of_eq rfl rfl

/-! ## Runs -/

/-- The states right after the ticks of a sequence. -/
def ticks (s : ClientState) : List Op → List ClientState
  | [] => []
  | .tick :: ops => s.tick :: ticks s.tick ops
  | op :: ops => ticks (s.perform op) ops

theorem ticks_append (s : ClientState) (ops more : List Op) :
    s.ticks (ops ++ more) = s.ticks ops ++ (s.operate ops).ticks more := by
  induction ops generalizing s with
  | nil => rfl
  | cons op ops ih =>
    cases op with
    | tick => exact congrArg (List.cons s.tick) (ih s.tick)
    | snapshot S => exact ih (s.load S)
    | event e => exact ih (s.applyEvent e)

/-- The sequence has events and ticks only. -/
def NoSnapshot (ops : List Op) : Prop := ∀ S, .snapshot S ∉ ops

/-- **Every account**: a meter that ticks sample, and that events let grow where it is
`live`, is balanced throughout. -/
theorem balanced_operate (meter : ClientState → Meter) (live : ClientState → Prop)
    (htick : ∀ s, meter s.tick = (meter s).sample)
    (hevent : ∀ s e, live (s.applyEvent e) → (meter s).Grows (meter (s.applyEvent e)))
    {s : ClientState} {ops : List Op} (hops : NoSnapshot ops)
    (hlive : ∀ pre, pre <+: ops → live (s.operate pre)) {base : Nat}
    (h : Meter.Balanced base [] (meter s)) :
    Meter.Balanced base ((s.ticks ops).map fun s => (meter s).speed) (meter (s.operate ops)) := by
  induction ops using List.reverseRecOn with
  | nil => exact h
  | append_singleton ops op ih =>
    have hbefore := ih (fun S hS => hops S (List.mem_append_left _ hS))
      fun pre hpre => hlive pre (hpre.trans (List.prefix_append ops [op]))
    have hnow := hlive _ (List.prefix_refl (ops ++ [op]))
    rw [operate_snoc] at hnow ⊢
    rw [ticks_append, List.map_append]
    cases op with
    | snapshot S => exact absurd (List.mem_append_right _ (List.mem_singleton.mpr rfl)) (hops S)
    | event e =>
      show Meter.Balanced base (_ ++ []) _
      rw [List.append_nil]
      exact hbefore.grows (hevent _ e hnow)
    | tick =>
      show Meter.Balanced base (_ ++ [(meter (s.operate ops).tick).speed])
        (meter (s.operate ops).tick)
      rw [htick]
      exact hbefore.sample

/-- The app is there after each of the operations. -/
def Stays (key : String) (s : ClientState) (ops : List Op) : Prop :=
  ∀ pre, pre <+: ops → ((s.operate pre).apps.get? key).isSome = true

/-- A tick samples the entry under a key; the blank one stays blank. -/
theorem entryAt_tick (s : ClientState) (key : String) :
    meterSent (s.tick.entryAt key) = (meterSent (s.entryAt key)).sample ∧
      meterRecv (s.tick.entryAt key) = (meterRecv (s.entryAt key)).sample := by
  unfold entryAt
  rw [get?_tick]
  cases s.apps.get? key with
  | none => exact ⟨rfl, rfl⟩
  | some app => exact ⟨rfl, rfl⟩

/-- While an app stays, events let its counters grow. -/
theorem entryAt_event {s : ClientState} {e : Event} {key : String}
    (h : ((s.applyEvent e).apps.get? key).isSome = true) :
    AppGrows (s.entryAt key) ((s.applyEvent e).entryAt key) := by
  obtain ⟨app, happ⟩ := Option.isSome_iff_exists.mp h
  rw [entryAt_of_some happ]
  exact applyEvent_app happ

/-- **An app's account**, over a time it stays. -/
theorem app_balanced {s : ClientState} {ops : List Op} (hops : NoSnapshot ops) {key : String}
    (hstays : Stays key s ops) {base base' : Nat}
    (hsent : Meter.Balanced base [] (meterSent (s.entryAt key)))
    (hrecv : Meter.Balanced base' [] (meterRecv (s.entryAt key))) :
    Meter.Balanced base ((s.ticks ops).map fun s => (s.entryAt key).speedUp)
        (meterSent ((s.operate ops).entryAt key)) ∧
      Meter.Balanced base' ((s.ticks ops).map fun s => (s.entryAt key).speedDown)
          (meterRecv ((s.operate ops).entryAt key)) :=
  ⟨balanced_operate (fun s => meterSent (s.entryAt key))
      (fun s => (s.apps.get? key).isSome = true) (fun s => (entryAt_tick s key).1)
      (fun _ _ h => (entryAt_event h).sent) hops hstays hsent,
    balanced_operate (fun s => meterRecv (s.entryAt key))
      (fun s => (s.apps.get? key).isSome = true) (fun s => (entryAt_tick s key).2)
      (fun _ _ h => (entryAt_event h).recv) hops hstays hrecv⟩

/-! ## From a snapshot on -/

/-- Bytes are counted from `base`: nothing was dropped, and nothing reported twice. -/
structure Accounted (base : Nat) (speeds : List Nat) (bytes prev : Nat) : Prop where
  grown : base ≤ bytes
  sampled : prev ≤ bytes
  sum : speeds.sum + (bytes - prev) = bytes - base

theorem accounted {base : Nat} {speeds : List Nat} {m : Meter} (h : Meter.Balanced base speeds m) :
    Accounted base speeds m.total m.prev :=
  ⟨h.growth.1, h.le, h.growth.2⟩

/-- The account of an app that stays, from what its counters were on. -/
theorem app_accounted {s : ClientState} {ops : List Op} (hops : NoSnapshot ops) {key : String}
    (hstays : Stays key s ops) {base base' : Nat}
    (hsent : Meter.Balanced base [] (meterSent (s.entryAt key)))
    (hrecv : Meter.Balanced base' [] (meterRecv (s.entryAt key))) {app : AppEntry}
    (happ : (s.operate ops).apps.get? key = some app) :
    Accounted base ((s.ticks ops).map fun s => (s.entryAt key).speedUp) app.bytesSent
        app.prevSent ∧
      Accounted base' ((s.ticks ops).map fun s => (s.entryAt key).speedDown) app.bytesRecv
        app.prevRecv := by
  obtain ⟨hsent, hrecv⟩ := app_balanced hops hstays hsent hrecv
  rw [entryAt_of_some happ] at hsent hrecv
  exact ⟨accounted hsent, accounted hrecv⟩

/-- After a snapshot, everything counted is sampled. -/
theorem load_sampled (s : ClientState) (S : Snapshot) :
    (s.load S).meterUp.prev = (s.load S).meterUp.total ∧
      (s.load S).meterDown.prev = (s.load S).meterDown.total ∧
      ∀ key app, (s.load S).apps.get? key = some app →
        (meterSent app).prev = (meterSent app).total ∧
          (meterRecv app).prev = (meterRecv app).total := by
  refine ⟨rfl, rfl, fun key app h => ?_⟩
  obtain ⟨pre, -, -, hload⟩ := applySnapshot_apps s S.status S.network S.top S.conns S.rules
  rw [load, hload, KeyedMap.get?_mapVals] at h
  obtain ⟨old, -, rfl⟩ := Option.map_eq_some_iff.mp h
  exact ⟨rfl, rfl⟩

/-- A new entry has not been sampled: its operation was an event. -/
theorem perform_new {s : ClientState} {op : Op} {key : String} {app : AppEntry}
    (hop : ∀ S, op ≠ .snapshot S) (hnone : s.apps.get? key = none)
    (happ : (s.perform op).apps.get? key = some app) :
    (meterSent app).prev = 0 ∧ (meterRecv app).prev = 0 := by
  cases op with
  | snapshot S => exact absurd rfl (hop S)
  | tick =>
    have hget : s.tick.apps.get? key = some app := happ
    rw [get?_tick, hnone] at hget
    cases hget
  | event e =>
    have hgrows := applyEvent_app (e := e) happ
    rw [entryAt, hnone] at hgrows
    exact ⟨hgrows.sent.prev, hgrows.recv.prev⟩

/-- **Every byte once**: in any events and ticks after a snapshot (or from the beginning), the
speeds of the ticks and what no tick has seen yet are the growth of the totals; for an app,
of its counters, over the time it stays: since the snapshot, or since the operation that
made it. -/
theorem speeds_account {start : ClientState}
    (hstart : start = default ∨ ∃ s S, start = load s S) {ops : List Op}
    (hops : ∀ S, .snapshot S ∉ ops) :
    let last := start.operate ops
    Accounted start.totalUp ((start.ticks ops).map fun s => s.speedUp) last.totalUp
        last.prevTotalUp ∧
      Accounted start.totalDown ((start.ticks ops).map fun s => s.speedDown) last.totalDown
        last.prevTotalDown ∧
      (∀ key app₀ app, start.apps.get? key = some app₀ → Stays key start ops →
        last.apps.get? key = some app →
        Accounted app₀.bytesSent ((start.ticks ops).map fun s => (s.entryAt key).speedUp)
            app.bytesSent app.prevSent ∧
          Accounted app₀.bytesRecv ((start.ticks ops).map fun s => (s.entryAt key).speedDown)
            app.bytesRecv app.prevRecv) ∧
      ∀ key app before op life, ops = before ++ op :: life →
        (start.operate before).apps.get? key = none →
        Stays key (start.operate (before ++ [op])) life → last.apps.get? key = some app →
        Accounted 0 (((start.operate (before ++ [op])).ticks life).map
            fun s => (s.entryAt key).speedUp) app.bytesSent app.prevSent ∧
          Accounted 0 (((start.operate (before ++ [op])).ticks life).map
            fun s => (s.entryAt key).speedDown) app.bytesRecv app.prevRecv := by
  intro last
  obtain ⟨hup, hdown, happs⟩ : start.meterUp.prev = start.meterUp.total ∧
      start.meterDown.prev = start.meterDown.total ∧
      ∀ key app, start.apps.get? key = some app →
        (meterSent app).prev = (meterSent app).total ∧
          (meterRecv app).prev = (meterRecv app).total := by
    rcases hstart with rfl | ⟨s, S, rfl⟩
    · exact ⟨rfl, rfl, fun _ _ h => (nomatch h)⟩
    · exact load_sampled s S
  refine ⟨?_, ?_, ?_, ?_⟩
  · exact accounted (balanced_operate meterUp (fun _ => True) tick_up
      (fun s e _ => (applyEvent_totals s e).1) hops (fun _ _ => trivial)
      (Meter.balanced_start hup))
  · exact accounted (balanced_operate meterDown (fun _ => True) tick_down
      (fun s e _ => (applyEvent_totals s e).2) hops (fun _ _ => trivial)
      (Meter.balanced_start hdown))
  · intro key app₀ app happ₀ hstays happ
    obtain ⟨hsent, hrecv⟩ := happs key app₀ happ₀
    refine app_accounted hops hstays ?_ ?_ happ
    · rw [entryAt_of_some happ₀]
      exact Meter.balanced_start hsent
    · rw [entryAt_of_some happ₀]
      exact Meter.balanced_start hrecv
  · intro key app before op life hsplit hnone hstays happ
    -- what follows the operation that made the entry is a sequence of its own
    have hlast : last = (start.operate (before ++ [op])).operate life := by
      rw [← operate_append, List.append_assoc]
      exact congrArg start.operate hsplit
    have hlife : NoSnapshot life := fun S hS => hops S (by simp [hsplit, hS])
    have hop : ∀ S, op ≠ .snapshot S := fun S hS => hops S (by simp [hsplit, hS])
    obtain ⟨new, hnew⟩ : ∃ new, (start.operate (before ++ [op])).apps.get? key = some new :=
      Option.isSome_iff_exists.mp (hstays [] List.nil_prefix)
    have hmade : ((start.operate before).perform op).apps.get? key = some new := by
      rw [← operate_snoc]
      exact hnew
    obtain ⟨hsent, hrecv⟩ := perform_new hop hnone hmade
    rw [hlast] at happ
    refine app_accounted hlife hstays ?_ ?_ happ
    · rw [entryAt_of_some hnew]
      exact Meter.balanced_new hsent
    · rw [entryAt_of_some hnew]
      exact Meter.balanced_new hrecv

/-- A flow over three seconds, the last of which is not over. -/
theorem speeds_account_flow :
    let ops : List Op := [.event (.connectionOpened { flow 0 with bytesSent := 1000 }), .tick,
      .event (.connectionUpdated { flow 0 with bytesSent := 1700 }), .tick,
      .event (.connectionUpdated { flow 0 with bytesSent := 1750 })]
    (default.ticks ops).map (fun s => s.speedUp) = [1000, 700] ∧
      Accounted 0 ((default.ticks ops).map fun s => s.speedUp) (default.operate ops).totalUp
        (default.operate ops).prevTotalUp :=
  ⟨by decide, (speeds_account (.inl rfl) (by simp)).1⟩

end ClientState

end TravelMode
