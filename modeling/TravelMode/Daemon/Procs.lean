import TravelMode.Daemon.State
import TravelMode.Daemon.Tasks

/-!
# Process scanner (`daemon/src/procs.rs`)

A scan visits the processes one after the other, while `/proc` goes on changing, and then
replaces the process table.

- `inspectProcess` is what a scan makes of a process at its visit, `visitProcess` one round of
  its loop, `commitScan` its end.
- `lookupProcess` is the direct lookup.
- `UserCache.name` is the name that a user is known by, from `/etc/passwd` where it has one.
-/

namespace TravelMode

open TextScan

/-- `has_socket` -/
def hasSocket (fs : ProcFs) (pid : Nat) : Bool :=
  match fs.fdDirs.get? pid with
  | none => false
  | some targets => targets.any fun t => (socketInodeOf t).isSome

/-- `inspect_process`: an entry for a process that holds at least one socket, with the name
that its user is known by. -/
def inspectProcess (fs : ProcFs) (user : Option String) (pid : Nat) : Option ProcessInfo :=
  if hasSocket fs pid then
    (fs.process pid).map fun p => { p with pid := pid, user := user }
  else none

/-- `lookup_process` -/
def lookupProcess (fs : ProcFs) (pid : Nat) : Option ProcessInfo := fs.process pid

/-! ## Users -/

/-- `parse::<u32>` of a user id. -/
def parseUid (field : List Char) : Option UInt32 :=
  (fromStrRadix 10 (2 ^ 32) field).map UInt32.ofNat

/-- The loop of `find_user_in_passwd`: a line with too few fields, or without a user id, ends
the search. -/
def findUserInLines (uid : UInt32) : List (List Char) → Option String
  | [] => none
  | line :: rest =>
    match line.splitOn ':' with
    | name :: _password :: field :: _ =>
      (parseUid field).bind fun lineUid =>
        if lineUid = uid then some (.ofList name) else findUserInLines uid rest
    | _ => none

/-- `find_user_in_passwd` -/
def findUserInPasswd (text : List Char) (uid : UInt32) : Option String :=
  findUserInLines uid (lines text)

/-- `lookup_uid`, of a file that may not be readable. -/
def lookupUid (passwd : Option (List Char)) (uid : UInt32) : Option String :=
  passwd.bind fun text => findUserInPasswd text uid

/-- Names that were looked up. -/
structure UserCache where
  map : KeyedMap UInt32 String

namespace UserCache

/-- `UserCache::new` -/
def new : UserCache := ⟨.empty⟩

/-- `UserCache::name`, with the cache it leaves: a user that is not found is known by its id. -/
def name (users : UserCache) (passwd : Option (List Char)) (uid : UInt32) : String × UserCache :=
  match users.map.get? uid with
  | some name => (name, users)
  | none =>
    let name := (lookupUid passwd uid).getD (.ofList (Nat.toDigits 10 uid.toNat))
    (name, ⟨users.map.insert uid name⟩)

end UserCache

/-! ## Scans -/

/-- One round of the loop of `scan_once`. -/
def visitProcess (fs : ProcFs) (user : Option String) (pid : Nat)
    (current : KeyedMap Nat ProcessInfo) : KeyedMap Nat ProcessInfo :=
  match inspectProcess fs user pid with
  | some info => current.insert info.pid info
  | none => current

/-- The end of `scan_once`: tell of the processes that are new, then of those that are gone,
and replace the table. -/
def commitScan (d : DaemonState) (current : KeyedMap Nat ProcessInfo) :
    DaemonState × List Event :=
  let started := current.entries.filter fun e => (d.processes.get? e.1).isNone
  let exited := d.processes.keys.filter fun pid => (current.get? pid).isNone
  ({ d with processes := current }, scanEvents (started.map fun e => e.2) exited)

theorem inspectProcess_pid {fs : ProcFs} {user : Option String} {pid : Nat} {info : ProcessInfo}
    (h : inspectProcess fs user pid = some info) : info.pid = pid := by
  unfold inspectProcess at h
  split at h
  · obtain ⟨p, -, rfl⟩ := Option.map_eq_some_iff.mp h
    rfl
  · cases h

/-- A visit changes the entry of its process only. -/
theorem get?_visitProcess (fs : ProcFs) (user : Option String) (pid : Nat)
    (current : KeyedMap Nat ProcessInfo) (j : Nat) :
    (visitProcess fs user pid current).get? j =
      if j = pid then (inspectProcess fs user pid).or (current.get? j) else current.get? j := by
  unfold visitProcess
  cases hinfo : inspectProcess fs user pid with
  | none => rw [Option.none_or, ite_self]
  | some info =>
    dsimp only
    rw [KeyedMap.get?_insert, inspectProcess_pid hinfo]
    rfl

/-- The executable of an entry is what `/proc` showed at the visit. -/
theorem inspectProcess_eq_some {fs : ProcFs} {user : Option String} {pid : Nat}
    {info : ProcessInfo} : inspectProcess fs user pid = some info ↔ hasSocket fs pid = true ∧
      ∃ p, lookupProcess fs pid = some p ∧ info = { p with pid := pid, user := user } := by
  unfold inspectProcess lookupProcess
  split
  · rename_i hsocket
    rw [Option.map_eq_some_iff]
    refine (and_iff_right hsocket).symm.trans (and_congr_right fun _ => ?_)
    exact exists_congr fun p => and_congr_right fun _ => eq_comm
  · rename_i hsocket
    exact ⟨fun h => (nomatch h), fun h => absurd h.1 hsocket⟩

end TravelMode
