import TravelMode.Daemon.Procs
import TravelMode.Lib.Runs

/-!
# The process table and the processes

Processes start, exec and exit at any time, also between the visits of a scan. The machine
remembers, for every process, the `/proc` of its visit by the last completed scan.

- `cacheOk_of_run`: the process table is what these visits found.
- `attribute_agrees_iff`: attribution has the executable that a direct lookup has, exactly
  when the process runs what it ran at its visit.
- `attribute_stale`: it need not.
-/

namespace TravelMode

/-! ## Events of processes -/

/-- What happens to processes. A pid is reused when a process exits and another one starts. -/
inductive ProcEvent where
  | start (pid : Nat) (info : ProcessInfo) (links : List (List Char))
  | exec (pid : Nat) (name : String) (exe : Option PathBuf)
  | exit (pid : Nat)
  /-- Descriptors are opened or closed. -/
  | links (pid : Nat) (links : List (List Char))
  /-- Rows of the socket tables come and go. -/
  | tables (netFile : String → Option (List Char))

/-- What `/proc` shows after an event. -/
def ProcFs.after (fs : ProcFs) : ProcEvent → ProcFs
  | .start pid info links =>
    { fs with
      fdDirs := fs.fdDirs.insert pid links
      process := fun q => if q = pid then some { info with pid := pid } else fs.process q }
  | .exec pid name exe =>
    { fs with
      process := fun q =>
        if q = pid then (fs.process q).map fun p => { p with name := name, exe := exe }
        else fs.process q }
  | .exit pid =>
    { fs with
      fdDirs := fs.fdDirs.erase pid
      process := fun q => if q = pid then none else fs.process q }
  | .links pid links => { fs with fdDirs := fs.fdDirs.insert pid links }
  | .tables netFile => { fs with netFile := netFile }

namespace ProcessCache

/-! ## The machine -/

/-- The visit of a process: what `/proc` was, and the name of the user. -/
structure Visit where
  fs : ProcFs
  user : Option String

/-- A scan in progress. -/
structure Scan where
  visits : KeyedMap Nat Visit
  current : KeyedMap Nat ProcessInfo

/-- The daemon and `/proc`. -/
structure Machine where
  fs : ProcFs
  daemon : DaemonState
  scan : Option Scan
  /-- The visits of the last completed scan. -/
  lastScan : KeyedMap Nat Visit

/-- The daemon starts without a process table. -/
def Machine.start (fs : ProcFs) (rules : Inner) : Machine := ⟨fs, .new rules, none, .empty⟩

inductive Act where
  | proc (e : ProcEvent)
  | beginScan
  | visit (pid : Nat) (user : Option String)
  | commit
  | attributeFlow (proto : Protocol) (port : UInt16)
  /-- Other work of the daemon. No other task writes the process table. -/
  | work (d : DaemonState)

/-- `attribute`, at this moment. -/
def Machine.attribution (m : Machine) (proto : Protocol) (port : UInt16) : Attribution :=
  (m.daemon.attributeFlow m.fs proto port).1

/-- One action. The scanner is one task, and `/proc` lists a process once. -/
def step (m : Machine) : Act → Option Machine
  | .proc e => some { m with fs := m.fs.after e }
  | .beginScan =>
    match m.scan with
    | none => some { m with scan := some ⟨.empty, .empty⟩ }
    | some _ => none
  | .visit pid user =>
    match m.scan with
    | none => none
    | some scan =>
      match scan.visits.get? pid with
      | some _ => none
      | none => some { m with
          scan := some ⟨scan.visits.insert pid ⟨m.fs, user⟩,
            visitProcess m.fs user pid scan.current⟩ }
  | .commit =>
    match m.scan with
    | none => none
    | some scan => some { m with
        daemon := (commitScan m.daemon scan.current).1
        scan := none
        lastScan := scan.visits }
  | .attributeFlow proto port =>
    some { m with daemon := (m.daemon.attributeFlow m.fs proto port).2 }
  | .work d => some { m with daemon := { d with processes := m.daemon.processes } }

/-! ## What is in the table -/

/-- The entries of a table are what the visits found. -/
def Found (visits : KeyedMap Nat Visit) (table : KeyedMap Nat ProcessInfo) : Prop :=
  ∀ pid, table.get? pid =
    (visits.get? pid).bind fun visit => inspectProcess visit.fs visit.user pid

theorem found_empty : Found .empty .empty := fun _ => rfl

theorem Found.visit {visits : KeyedMap Nat Visit} {table : KeyedMap Nat ProcessInfo}
    (h : Found visits table) {pid : Nat} (hnew : visits.get? pid = none) (visit : Visit) :
    Found (visits.insert pid visit) (visitProcess visit.fs visit.user pid table) := by
  intro j
  rw [get?_visitProcess, KeyedMap.get?_insert]
  by_cases hj : j = pid
  · -- there was no entry before the visit
    subst hj
    rw [if_pos rfl, if_pos rfl, h j, hnew, Option.bind_none, Option.or_none, Option.bind_some]
  · rw [if_neg hj, if_neg hj, h j]

/-- The process table is what the last completed scan found, and the scan in progress goes on
from what it has found. -/
structure CacheOk (m : Machine) : Prop where
  table : Found m.lastScan m.daemon.processes
  scan : ∀ scan, m.scan = some scan → Found scan.visits scan.current

theorem CacheOk.start (fs : ProcFs) (rules : Inner) : CacheOk (.start fs rules) where
  table := found_empty
  scan := fun _ h => nomatch h

theorem cacheOk_step {m m' : Machine} {a : Act} (h : CacheOk m) (hstep : step m a = some m') :
    CacheOk m' := by
  cases a with
  | proc e =>
    cases hstep
    exact ⟨h.table, h.scan⟩
  | beginScan =>
    unfold step at hstep
    dsimp only at hstep
    split at hstep
    · cases hstep
      refine ⟨h.table, fun scan hscan => ?_⟩
      cases hscan
      exact found_empty
    · cases hstep
  | visit pid user =>
    unfold step at hstep
    dsimp only at hstep
    split at hstep
    · cases hstep
    · rename_i scan hscan
      split at hstep
      · cases hstep
      · rename_i hnew
        cases hstep
        refine ⟨h.table, fun scan' hscan' => ?_⟩
        cases hscan'
        exact (h.scan scan hscan).visit hnew ⟨m.fs, user⟩
  | commit =>
    unfold step at hstep
    dsimp only at hstep
    split at hstep
    · cases hstep
    · rename_i scan hscan
      cases hstep
      exact ⟨h.scan scan hscan, fun _ hnone => nomatch hnone⟩
  | attributeFlow proto port =>
    cases hstep
    exact ⟨h.table, h.scan⟩
  | work d =>
    cases hstep
    exact ⟨h.table, h.scan⟩

/-- In every run, the process table is what the last completed scan found. -/
theorem cacheOk_of_run {fs : ProcFs} {rules : Inner} {acts : List Act} {m : Machine}
    (h : Runs.run step (.start fs rules) acts = some m) : CacheOk m :=
  Runs.run_invariant cacheOk_step (CacheOk.start fs rules) h

/-! ## Attribution -/

/-- The last completed scan has not found the process, or it found it running what it runs
now. -/
def Unchanged (m : Machine) (pid : Nat) : Prop :=
  ∀ visit, m.lastScan.get? pid = some visit → hasSocket visit.fs pid = true →
    ∀ before, lookupProcess visit.fs pid = some before →
      ∀ now, lookupProcess m.fs pid = some now → before.exe = now.exe

theorem attribution_pid {m : Machine} {proto : Protocol} {port : UInt16} {pid : Nat}
    (h : (m.attribution proto port).pid = some pid) :
    m.attribution proto port = m.daemon.describe m.fs pid := by
  unfold Machine.attribution DaemonState.attributeFlow at h ⊢
  dsimp only at h ⊢
  cases hfound : (m.daemon.attrib.lookup m.fs proto port).1 with
  | none =>
    rw [hfound] at h
    cases h
  | some found =>
    rw [hfound] at h
    dsimp only at h
    rw [DaemonState.describe_pid] at h
    cases h
    rfl

/-- In every run, and at every call of `attribute` that resolves a live process: it has the
executable that the direct lookup has, exactly when the process was not found by the last
completed scan or still runs what it ran when the scan visited it. -/
theorem attribute_agrees_iff {fs : ProcFs} {rules : Inner} {acts : List Act} {m : Machine}
    (h : Runs.run step (.start fs rules) acts = some m) {proto : Protocol} {port : UInt16}
    {pid : Nat} (hpid : (m.attribution proto port).pid = some pid) {now : ProcessInfo}
    (hlive : lookupProcess m.fs pid = some now) :
    (m.attribution proto port).exe = now.exe ↔ Unchanged m pid := by
  have htable := (cacheOk_of_run h).table pid
  rw [attribution_pid hpid]
  unfold DaemonState.describe
  cases hentry : m.daemon.processes.get? pid with
  | none =>
    -- the direct lookup is what attribution falls back to
    rw [show m.fs.process pid = some now from hlive]
    refine iff_of_true rfl ?_
    intro visit hvisit hsocket before hbefore
    rw [hentry, hvisit, Option.bind_some] at htable
    rw [inspectProcess_eq_some.mpr ⟨hsocket, before, hbefore, rfl⟩] at htable
    cases htable
  | some info =>
    rw [hentry] at htable
    obtain ⟨visit, hvisit, hinfo⟩ := Option.bind_eq_some_iff.mp htable.symm
    obtain ⟨hsocket, before, hbefore, rfl⟩ := inspectProcess_eq_some.mp hinfo
    constructor
    · intro hexe visit' hvisit' _ before' hbefore' now' hnow'
      rw [hvisit] at hvisit'
      cases hvisit'
      rw [hbefore] at hbefore'
      cases hbefore'
      rw [hlive] at hnow'
      cases hnow'
      exact hexe
    · intro hunchanged
      exact hunchanged visit hvisit hsocket before hbefore now hlive

/-! ### A process that execs -/

open DaemonState (curlProcFs)

/-- A scan of the one process there is. -/
def scanCurl : List Act := [.beginScan, .visit 4242 none, .commit]

/-- What it leaves. -/
def scannedCurl : Machine where
  fs := curlProcFs
  daemon := { DaemonState.new .firstStart with
    processes := visitProcess curlProcFs none 4242 .empty }
  scan := none
  lastScan := KeyedMap.empty.insert 4242 ⟨curlProcFs, none⟩

theorem run_scanCurl : Runs.run step (.start curlProcFs .firstStart) scanCurl = some scannedCurl :=
  rfl

/-- Right after the scan, attribution has what `/proc` shows. -/
theorem attribute_agrees_iff_curl :
    (scannedCurl.attribution .tcp 51234).exe = some (.ofString "/usr/bin/curl") := by
  have hpid : (scannedCurl.attribution .tcp 51234).pid = some 4242 := by decide +kernel
  have hlive : lookupProcess scannedCurl.fs 4242 =
      some ⟨4242, "curl", some (.ofString "/usr/bin/curl"), none, 1⟩ := by decide +kernel
  refine (attribute_agrees_iff run_scanCurl hpid hlive).mpr ?_
  intro visit hvisit _ before hbefore now hnow
  have hsame : visit = ⟨curlProcFs, none⟩ := by
    rw [scannedCurl, KeyedMap.get?_insert_self] at hvisit
    exact (Option.some.inj hvisit).symm
  subst hsame
  rw [show lookupProcess scannedCurl.fs 4242 = some before from hbefore] at hnow
  exact congrArg ProcessInfo.exe (Option.some.inj hnow)

/-- The process execs another program. -/
def execWget : Act := .proc (.exec 4242 "wget" (some (.ofString "/usr/bin/wget")))

/-- What was scanned is what the process was. Until the next scan it is attributed to the
program that it no longer runs. -/
theorem attribute_stale :
    ¬∀ (fs : ProcFs) (rules : Inner) (acts : List Act) (m : Machine) (proto : Protocol)
      (port : UInt16) (pid : Nat) (now : ProcessInfo),
      Runs.run step (.start fs rules) acts = some m → (m.attribution proto port).pid = some pid →
        lookupProcess m.fs pid = some now → (m.attribution proto port).exe = now.exe := by
  intro h
  let wget : ProcessInfo := ⟨4242, "wget", some (.ofString "/usr/bin/wget"), none, 1⟩
  let m : Machine := { scannedCurl with
    fs := curlProcFs.after (.exec 4242 "wget" (some (.ofString "/usr/bin/wget"))) }
  have hrun : Runs.run step (.start curlProcFs .firstStart) (scanCurl ++ [execWget]) = some m := rfl
  have hexe := h _ _ _ m .tcp 51234 4242 wget hrun (by decide +kernel) (by decide +kernel)
  have hstale : (m.attribution .tcp 51234).exe = some (.ofString "/usr/bin/curl") := by
    decide +kernel
  rw [hstale] at hexe
  exact absurd hexe (by decide +kernel)

end ProcessCache

end TravelMode
