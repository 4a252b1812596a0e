import TravelMode.Daemon.Procs
import TravelMode.Lib.Runs

/-!
# What the scanner's events say of the process map

A scan compares pids, and then replaces the map with whole records. `replayProcess` is what
its events say; a subscriber that folds them has a copy of the map.

- `step`: one scan, in any order of iteration.
- `step_replays_iff`: it keeps the copy exact if it found every pid that stays with the
  record it had.
- `replays_iff`: over a run, the copy is exact throughout exactly if all scans did;
  `exec_unannounced` is a process that ran another binary.
-/

namespace TravelMode

namespace ProcessEvents

/-! ## Scans -/

/-- The processes that a scan tells of as started. -/
def newcomers (d : DaemonState) (current : KeyedMap Nat ProcessInfo) : List ProcessInfo :=
  (current.entries.filter fun e => (d.processes.get? e.1).isNone).map fun e => e.2

/-- The processes that it tells of as exited. -/
def gone (d : DaemonState) (current : KeyedMap Nat ProcessInfo) : List Nat :=
  d.processes.keys.filter fun pid => (current.get? pid).isNone

/-- A scan: what its visits found, each under its own pid, and the orders in which the two
maps are iterated. -/
structure Scan where
  current : KeyedMap Nat ProcessInfo
  filed : ∀ pid info, current.get? pid = some info → info.pid = pid
  started : List ProcessInfo
  exited : List Nat

/-- The daemon and what the scanner has published. -/
structure World where
  daemon : DaemonState
  published : List Event

/-- One scan. -/
def step (w : World) (scan : Scan) : Option World :=
  if scan.started.Perm (newcomers w.daemon scan.current) ∧
      scan.exited.Perm (gone w.daemon scan.current) then
    some ⟨(commitScan w.daemon scan.current).1,
      w.published ++ scanEvents scan.started scan.exited⟩
  else none

theorem step_eq_some {w w' : World} {scan : Scan} (h : step w scan = some w') :
    scan.started.Perm (newcomers w.daemon scan.current) ∧
      scan.exited.Perm (gone w.daemon scan.current) ∧
      w'.daemon.processes = scan.current ∧
      w'.published = w.published ++ scanEvents scan.started scan.exited := by
  unfold step at h
  split at h
  · rename_i horders
    cases h
    exact ⟨horders.1, horders.2, rfl, rfl⟩
  · cases h

theorem mem_newcomers {d : DaemonState} {scan : Scan} {info : ProcessInfo} :
    info ∈ newcomers d scan.current ↔
      scan.current.get? info.pid = some info ∧ d.processes.get? info.pid = none := by
  constructor
  · intro h
    obtain ⟨⟨pid, info⟩, he, rfl⟩ := List.mem_map.mp h
    obtain ⟨he, hnew⟩ := List.mem_filter.mp he
    have hget := KeyedMap.mem_entries_iff.mp he
    rw [scan.filed pid info hget]
    exact ⟨hget, Option.isNone_iff_eq_none.mp hnew⟩
  · rintro ⟨hget, hnew⟩
    refine List.mem_map.mpr ⟨⟨info.pid, info⟩, List.mem_filter.mpr ⟨?_, ?_⟩, rfl⟩
    · exact KeyedMap.mem_entries_iff.mpr hget
    · exact Option.isNone_iff_eq_none.mpr hnew

theorem mem_gone {d : DaemonState} {current : KeyedMap Nat ProcessInfo} {pid : Nat} :
    pid ∈ gone d current ↔ (∃ info, d.processes.get? pid = some info) ∧ current.get? pid = none := by
  rw [gone, List.mem_filter, KeyedMap.mem_keys_iff, Option.isNone_iff_eq_none]

/-! ## The meaning of the events -/

/-- What an event says of the process map. -/
def replayProcess (processes : KeyedMap Nat ProcessInfo) : Event → KeyedMap Nat ProcessInfo
  | .processStarted info => processes.insert info.pid info
  | .processExited pid => processes.erase pid
  | _ => processes

/-- A copy of the map, kept by the events. -/
def replayProcesses (processes : KeyedMap Nat ProcessInfo) (events : List Event) :
    KeyedMap Nat ProcessInfo :=
  events.foldl replayProcess processes

/-- Started processes, where those of one pid have one record. -/
theorem get?_replay_started {started : List ProcessInfo} {pid : Nat} {found : Option ProcessInfo}
    (hfound : ∀ info ∈ started, info.pid = pid → found = some info)
    (m : KeyedMap Nat ProcessInfo) :
    (replayProcesses m (started.map .processStarted)).get? pid =
      if ∃ info ∈ started, info.pid = pid then found else m.get? pid := by
  induction started generalizing m with
  | nil => simp [replayProcesses]
  | cons info rest ih =>
    have hrest := ih (fun i hi => hfound i (List.mem_cons_of_mem _ hi)) (m.insert info.pid info)
    refine hrest.trans ?_
    rw [KeyedMap.get?_insert]
    by_cases hlater : ∃ i ∈ rest, i.pid = pid
    · obtain ⟨i, hi, hpid⟩ := hlater
      rw [if_pos ⟨i, hi, hpid⟩, if_pos ⟨i, List.mem_cons_of_mem _ hi, hpid⟩]
    · rw [if_neg hlater]
      by_cases hpid : pid = info.pid
      · rw [if_pos hpid, if_pos ⟨info, List.mem_cons_self, hpid.symm⟩]
        exact (hfound info List.mem_cons_self hpid.symm).symm
      · have hnone : ¬∃ i ∈ info :: rest, i.pid = pid := by
          rintro ⟨i, hi, hpid'⟩
          rcases List.mem_cons.mp hi with rfl | hi
          · exact hpid hpid'.symm
          · exact hlater ⟨i, hi, hpid'⟩
        rw [if_neg hpid, if_neg hnone]

theorem get?_replay_exited (exited : List Nat) (m : KeyedMap Nat ProcessInfo) (pid : Nat) :
    (replayProcesses m (exited.map .processExited)).get? pid =
      if pid ∈ exited then none else m.get? pid := by
  induction exited generalizing m with
  | nil => simp [replayProcesses]
  | cons q rest ih =>
    refine (ih (m.erase q)).trans ?_
    rw [KeyedMap.get?_erase]
    by_cases hlater : pid ∈ rest
    · rw [if_pos hlater, if_pos (List.mem_cons_of_mem _ hlater)]
    · by_cases hq : pid = q
      · rw [if_neg hlater, if_pos hq, if_pos (hq ▸ List.mem_cons_self)]
      · rw [if_neg hlater, if_neg hq, if_neg (List.not_mem_cons_of_ne_of_not_mem hq hlater)]

/-! ## The copy -/

/-- The copy is the map: name, executable and all. -/
def Replays (initial : KeyedMap Nat ProcessInfo) (w : World) : Prop :=
  ∀ pid, (replayProcesses initial w.published).get? pid = w.daemon.processes.get? pid

/-- Every process that stays was found with the record it had. -/
def SameRecords (w : World) (scan : Scan) : Prop :=
  ∀ pid old new, w.daemon.processes.get? pid = some old → scan.current.get? pid = some new →
    new = old

/-- What a scan's events make of the copy at one pid. -/
theorem get?_replay_scan {initial : KeyedMap Nat ProcessInfo} {w w' : World} {scan : Scan}
    (h : step w scan = some w') (pid : Nat) :
    (replayProcesses initial w'.published).get? pid =
      match w.daemon.processes.get? pid, scan.current.get? pid with
      | none, some new => some new
      | some _, none => none
      | _, _ => (replayProcesses initial w.published).get? pid := by
  obtain ⟨hstarted, hexited, -, hpublished⟩ := step_eq_some h
  have hsplit : replayProcesses initial w'.published =
      replayProcesses (replayProcesses (replayProcesses initial w.published)
        (scan.started.map .processStarted)) (scan.exited.map .processExited) := by
    unfold replayProcesses
    rw [hpublished, scanEvents, List.foldl_append, List.foldl_append]
  have hfound : ∀ info ∈ scan.started, info.pid = pid → scan.current.get? pid = some info := by
    rintro info hinfo rfl
    exact (mem_newcomers.mp (hstarted.mem_iff.mp hinfo)).1
  have hnew : (∃ info ∈ scan.started, info.pid = pid) ↔
      (∃ info, scan.current.get? pid = some info) ∧ w.daemon.processes.get? pid = none := by
    constructor
    · rintro ⟨info, hinfo, rfl⟩
      obtain ⟨hget, hnone⟩ := mem_newcomers.mp (hstarted.mem_iff.mp hinfo)
      exact ⟨⟨info, hget⟩, hnone⟩
    · rintro ⟨⟨info, hget⟩, hnone⟩
      have hpid := scan.filed pid info hget
      refine ⟨info, hstarted.mem_iff.mpr (mem_newcomers.mpr ?_), hpid⟩
      rw [hpid]
      exact ⟨hget, hnone⟩
  have hgone : pid ∈ scan.exited ↔
      (∃ info, w.daemon.processes.get? pid = some info) ∧ scan.current.get? pid = none :=
    hexited.mem_iff.trans mem_gone
  rw [hsplit, get?_replay_exited, get?_replay_started hfound]
  cases hold : w.daemon.processes.get? pid with
  | none =>
    have hstays : pid ∉ scan.exited := fun hmem => by simpa [hold] using hgone.mp hmem
    rw [if_neg hstays]
    cases hcurrent : scan.current.get? pid with
    | none => rw [if_neg fun hmem => by simpa [hcurrent] using hnew.mp hmem]
    | some new => rw [if_pos (hnew.mpr ⟨⟨new, hcurrent⟩, hold⟩)]
  | some old =>
    have hknown : ¬∃ info ∈ scan.started, info.pid = pid := fun hmem => by
      simpa [hold] using hnew.mp hmem
    rw [if_neg hknown]
    cases hcurrent : scan.current.get? pid with
    | none => rw [if_pos (hgone.mpr ⟨⟨old, hold⟩, hcurrent⟩)]
    | some new => rw [if_neg fun hmem => by simpa [hcurrent] using hgone.mp hmem]

/-- **One scan** keeps the copy exact if every process that stays has the record it had, and
only then. -/
theorem step_replays_iff {initial : KeyedMap Nat ProcessInfo} {w w' : World} {scan : Scan}
    (hw : Replays initial w) (h : step w scan = some w') :
    Replays initial w' ↔ SameRecords w scan := by
  have hafter : w'.daemon.processes = scan.current := (step_eq_some h).2.2.1
  constructor
  · intro hw' pid old new hold hnew
    -- no event is about a pid that stays, so the copy has the old record
    have hcopy := hw' pid
    rw [get?_replay_scan h, hold, hnew, hafter, hnew] at hcopy
    have hbefore := (hw pid).trans hold
    dsimp only at hcopy
    rw [hbefore] at hcopy
    exact (Option.some.inj hcopy).symm
  · intro hsame pid
    rw [get?_replay_scan h, hafter]
    cases hold : w.daemon.processes.get? pid with
    | none =>
      cases hnew : scan.current.get? pid with
      | none => exact (hw pid).trans hold
      | some new => rfl
    | some old =>
      cases hnew : scan.current.get? pid with
      | none => rfl
      | some new =>
        rw [hsame pid old new hold hnew]
        exact (hw pid).trans hold

/-- **Runs**: the copy is exact after every scan, if and only if every scan found each process
that stays with the record it had. -/
theorem replays_iff {d : DaemonState} {scans : List Scan} {w : World}
    (h : Runs.run step ⟨d, []⟩ scans = some w) :
    (∀ pre, pre <+: scans → ∀ m, Runs.run step ⟨d, []⟩ pre = some m → ∀ pid,
        (replayProcesses d.processes m.published).get? pid = m.daemon.processes.get? pid) ↔
      Runs.AlongRun step (fun m scan => ∀ pid old new, m.daemon.processes.get? pid = some old →
        scan.current.get? pid = some new → new = old) ⟨d, []⟩ scans :=
  Runs.run_forall_iff_along (I := fun _ => True) (Q := Replays d.processes) (P := SameRecords)
    (fun _ _ => trivial) (fun _ hQ hs => step_replays_iff hQ hs) trivial (fun _ => rfl) h

/-! ### A process that runs another binary -/

/-- A shell with a socket. -/
def shell : ProcessInfo := ⟨7, "sh", some (.ofString "/bin/sh"), none, 1⟩

/-- The same process, once it runs `curl`. -/
def execed : ProcessInfo := ⟨7, "curl", some (.ofString "/usr/bin/curl"), none, 1⟩

/-- A scan that finds one process, and tells of it if it is new. -/
def scanOf (info : ProcessInfo) (started : List ProcessInfo) : Scan where
  current := KeyedMap.empty.insert info.pid info
  filed pid found h := by
    rw [KeyedMap.get?_insert] at h
    split at h
    · rename_i hpid
      rw [hpid, ← Option.some.inj h]
    · cases h
  started := started
  exited := []

/-- The daemon after a scan that finds the shell, and one that finds this process. -/
def afterScans (info : ProcessInfo) : World where
  daemon := { DaemonState.new .firstStart with processes := KeyedMap.empty.insert info.pid info }
  published := [.processStarted shell]

theorem run_scans (info : ProcessInfo) (hpid : info.pid = 7) :
    Runs.run step ⟨.new .firstStart, []⟩ [scanOf shell [shell], scanOf info []] =
      some (afterScans info) := by
  have hfirst : step ⟨.new .firstStart, []⟩ (scanOf shell [shell]) = some (afterScans shell) :=
    if_pos ⟨by decide, by decide⟩
  have hnew : newcomers (afterScans shell).daemon (scanOf info []).current = [] := by
    refine List.eq_nil_iff_forall_not_mem.mpr fun found hfound => ?_
    obtain ⟨hget, hnone⟩ := mem_newcomers.mp hfound
    have hseven : found.pid = 7 := by
      by_contra hne
      rw [scanOf, KeyedMap.get?_insert_of_ne (hpid ▸ hne)] at hget
      cases hget
    rw [hseven] at hnone
    cases hnone
  have hgone : gone (afterScans shell).daemon (scanOf info []).current = [] := by
    refine List.eq_nil_iff_forall_not_mem.mpr fun pid hmem => ?_
    obtain ⟨⟨old, hold⟩, hnone⟩ := mem_gone.mp hmem
    have hseven : pid = 7 := by
      by_contra hne
      have hother : (KeyedMap.empty.insert shell.pid shell).get? pid = some old := hold
      rw [KeyedMap.get?_insert_of_ne (show pid ≠ shell.pid from hne)] at hother
      cases hother
    rw [hseven, scanOf, ← hpid, KeyedMap.get?_insert_self] at hnone
    cases hnone
  have hsecond : step (afterScans shell) (scanOf info []) = some (afterScans info) :=
    if_pos ⟨hnew ▸ List.Perm.refl _, hgone ▸ List.Perm.refl _⟩
  exact Runs.run_cons_eq_some.mpr ⟨_, hfirst, Runs.run_cons_eq_some.mpr ⟨_, hsecond, rfl⟩⟩

/-- The shell is found twice, as it was. -/
theorem replays_iff_shell :
    (∀ pre, pre <+: [scanOf shell [shell], scanOf shell []] → ∀ m,
        Runs.run step ⟨.new .firstStart, []⟩ pre = some m → ∀ pid,
          (replayProcesses (DaemonState.new .firstStart).processes m.published).get? pid =
            m.daemon.processes.get? pid) ↔
      Runs.AlongRun step (fun m scan => ∀ pid old new, m.daemon.processes.get? pid = some old →
        scan.current.get? pid = some new → new = old) ⟨.new .firstStart, []⟩
          [scanOf shell [shell], scanOf shell []] :=
  replays_iff (run_scans shell rfl)

/-- **Exec**: the second scan has nothing to tell, and the copy keeps the shell. -/
theorem exec_unannounced :
    Runs.run step ⟨.new .firstStart, []⟩ [scanOf shell [shell], scanOf execed []] =
        some (afterScans execed) ∧
      (replayProcesses .empty (afterScans execed).published).get? 7 = some shell ∧
      (afterScans execed).daemon.processes.get? 7 = some execed ∧ execed ≠ shell :=
  ⟨run_scans execed rfl, by decide, by decide, by decide⟩

end ProcessEvents

end TravelMode
