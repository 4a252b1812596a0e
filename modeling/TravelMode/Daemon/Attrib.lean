import TravelMode.Core.Types
import TravelMode.Lib.KeyedMap
import TravelMode.Lib.TextScan

/-!
# Flow to process attribution (`daemon/src/attrib.rs`)

Given a protocol and a local port, the socket inode is found in the tables under
`/proc/net`, then the process that holds it in the links under `/proc/<pid>/fd`.

- `ProcFs` is one snapshot of `/proc`; every call here is evaluated against one.
- `Attributor.lookup` keeps an inode cache, verifies a cached process and rescans
  once otherwise.
- `lookup_eq_some`, `lookup_of_sole_holder`: whatever the cache holds, the answer
  is a current holder of the inode found, and some holder is found if there is one.
-/

namespace TravelMode

open TextScan

/-- A snapshot of `/proc`. -/
structure ProcFs where
  /-- `read_to_string` of a table under `/proc/net`; `none` when it fails. -/
  netFile : String → Option (List Char)
  /-- The numeric entries of `/proc` in directory order, each with the targets of the
  links in its `fd` directory that can be read. -/
  fdDirs : KeyedMap Nat (List (List Char))
  /-- The name and executable of a process, as the procfs crate reads them. -/
  process : Nat → Option ProcessInfo

/-- `socket_inode_of`: the inode in a link target `socket:[12345]`. -/
def socketInodeOf (target : List Char) : Option Nat :=
  if ("socket:[".toList).isPrefixOf target then
    let inner := target.drop 8
    if inner.getLast? = some ']' then fromStrRadix 10 (2 ^ 64) inner.dropLast else none
  else none

/-- The process holds a descriptor of the socket. -/
def ProcFs.Holds (fs : ProcFs) (pid inode : Nat) : Prop :=
  ∃ targets, fs.fdDirs.get? pid = some targets ∧ ∃ t ∈ targets, socketInodeOf t = some inode

/-- `pid_owns_inode`. -/
def pidOwnsInode (fs : ProcFs) (pid inode : Nat) : Bool :=
  match fs.fdDirs.get? pid with
  | none => false
  | some targets => targets.any fun t => decide (socketInodeOf t = some inode)

/-- One link of `collect_pid_sockets`. -/
def collectTarget (pid : Nat) (map : KeyedMap Nat Nat) (target : List Char) : KeyedMap Nat Nat :=
  match socketInodeOf target with
  | none => map
  | some inode => map.insert inode pid

/-- `collect_pid_sockets`. -/
def collectPidSockets (map : KeyedMap Nat Nat) (dir : Σ _ : Nat, List (List Char)) :
    KeyedMap Nat Nat :=
  dir.2.foldl (collectTarget dir.1) map

/-- `scan_proc_fds`: a socket held by several processes is the last one's. -/
def scanProcFds (fs : ProcFs) : KeyedMap Nat Nat := fs.fdDirs.entries.foldl collectPidSockets .empty

/-- The columns of a socket row that are read: local port, remote port and inode. -/
structure NetLine where
  localPort : UInt16
  remotePort : UInt16
  inode : Nat
deriving DecidableEq

/-- The port of an address column: hexadecimal, after the last colon. -/
def portOf (column : List Char) : Option UInt16 :=
  (fromStrRadix 16 65536 (afterLast ':' column)).map UInt16.ofNat

/-- `parse_proc_net_line`. -/
def parseProcNetLine (line : List Char) : Option NetLine :=
  match splitWhitespace line with
  | sl :: localAddr :: remAddr :: _ :: _ :: _ :: _ :: _ :: _ :: inodeColumn :: _ =>
    if sl.getLast? = some ':' then
      (portOf localAddr).bind fun localPort =>
      (portOf remAddr).bind fun remotePort =>
      (fromStrRadix 10 (2 ^ 64) inodeColumn).bind fun inode =>
        if inode = 0 then none else some ⟨localPort, remotePort, inode⟩
    else none
  | _ => none

/-- The tables searched for a protocol, in order. -/
def socketTables : Protocol → List String
  | .tcp => ["/proc/net/tcp", "/proc/net/tcp6"]
  | .udp => ["/proc/net/udp", "/proc/net/udp6"]
  | .other => []

/-- The inode of a line for the port. -/
def lineInode (localPort : UInt16) (line : List Char) : Option Nat :=
  (parseProcNetLine line).bind fun row =>
    if row.localPort = localPort then some row.inode else none

/-- `find_socket_inode`: the first row with this local port, whatever its addresses. -/
def findSocketInode (fs : ProcFs) (proto : Protocol) (localPort : UInt16) : Option Nat :=
  (socketTables proto).findSome? fun file =>
    (fs.netFile file).bind fun text => (lines text).findSome? (lineInode localPort)

/-- The inode cache. -/
structure Attributor where
  inodeToPid : KeyedMap Nat Nat

namespace Attributor

/-- `Attributor::new`. -/
def new : Attributor := ⟨.empty⟩

/-- `Attributor::refresh`. -/
def refresh (fs : ProcFs) : Attributor := ⟨scanProcFds fs⟩

/-- The cached process of an inode, if it still holds it. -/
def cached (a : Attributor) (fs : ProcFs) (inode : Nat) : Option Nat :=
  (a.inodeToPid.get? inode).filter fun pid => pidOwnsInode fs pid inode

/-- `Attributor::lookup`, with the cache it leaves. -/
def lookup (a : Attributor) (fs : ProcFs) (proto : Protocol) (localPort : UInt16) :
    Option Nat × Attributor :=
  match findSocketInode fs proto localPort with
  | none => (none, a)
  | some inode =>
    match a.cached fs inode with
    | some pid => (some pid, a)
    | none => ((refresh fs).inodeToPid.get? inode, refresh fs)

end Attributor

/-! ## Holders -/

theorem pidOwnsInode_iff {fs : ProcFs} {pid inode : Nat} :
    pidOwnsInode fs pid inode = true ↔ fs.Holds pid inode := by
  unfold pidOwnsInode ProcFs.Holds
  cases fs.fdDirs.get? pid with
  | none => simp
  | some targets => simp

/-- What a fold of `collectTarget` finds at an inode: the process, if one of the links
is the inode's, else what was there. -/
theorem get?_collectTargets (pid inode : Nat) (targets : List (List Char))
    (map : KeyedMap Nat Nat) :
    (targets.foldl (collectTarget pid) map).get? inode =
      if (∃ t ∈ targets, socketInodeOf t = some inode) then some pid else map.get? inode := by
  induction targets generalizing map with
  | nil => simp
  | cons t ts ih =>
    rw [List.foldl_cons, ih]
    have hstep : (collectTarget pid map t).get? inode =
        if socketInodeOf t = some inode then some pid else map.get? inode := by
      unfold collectTarget
      cases ht : socketInodeOf t with
      | none => simp
      | some i =>
        dsimp only
        rw [KeyedMap.get?_insert]
        by_cases hi : inode = i
        · simp [hi]
        · rw [if_neg hi, if_neg fun h => hi (Option.some.inj h).symm]
    -- a later descriptor overwrites with the same process, so the first one does not matter
    by_cases h1 : ∃ t' ∈ ts, socketInodeOf t' = some inode
    · obtain ⟨t', ht', he⟩ := h1
      rw [if_pos ⟨t', ht', he⟩, if_pos ⟨t', List.mem_cons_of_mem _ ht', he⟩]
    · rw [if_neg h1, hstep]
      refine if_congr ?_ rfl rfl
      constructor
      · intro h
        exact ⟨t, List.mem_cons_self, h⟩
      · rintro ⟨t', ht', he⟩
        rcases List.mem_cons.mp ht' with rfl | ht'
        · exact he
        · exact absurd ⟨t', ht', he⟩ h1

/-- The scan of a list of directories: every answer is a holder or was there before, and
a holder in the list guarantees an answer. -/
theorem scanDirs_spec (inode : Nat) (dirs : List (Σ _ : Nat, List (List Char)))
    (map : KeyedMap Nat Nat) :
    (∀ pid, (dirs.foldl collectPidSockets map).get? inode = some pid →
      (∃ dir ∈ dirs, dir.1 = pid ∧ ∃ t ∈ dir.2, socketInodeOf t = some inode) ∨
        map.get? inode = some pid) ∧
    ((∃ dir ∈ dirs, ∃ t ∈ dir.2, socketInodeOf t = some inode) ∨ (map.get? inode).isSome = true →
      ((dirs.foldl collectPidSockets map).get? inode).isSome = true) := by
  induction dirs generalizing map with
  | nil =>
    refine ⟨fun pid h => .inr h, ?_⟩
    rintro (⟨dir, hdir, -⟩ | h)
    · cases hdir
    · exact h
  | cons dir dirs ih =>
    -- the first directory is read into the map that the others start from
    obtain ⟨hsound, hcomplete⟩ := ih (collectPidSockets map dir)
    have hget := get?_collectTargets dir.1 inode dir.2 map
    rw [List.foldl_cons]
    constructor
    · intro pid h
      rcases hsound pid h with ⟨d, hd, hp, ht⟩ | h
      · exact .inl ⟨d, List.mem_cons_of_mem _ hd, hp, ht⟩
      · rw [collectPidSockets, hget] at h
        by_cases hex : ∃ t ∈ dir.2, socketInodeOf t = some inode
        · rw [if_pos hex] at h
          exact .inl ⟨dir, List.mem_cons_self, Option.some.inj h, hex⟩
        · rw [if_neg hex] at h
          exact .inr h
    · intro h
      refine hcomplete ?_
      rw [collectPidSockets, hget]
      rcases h with ⟨d, hd, ht⟩ | h
      · rcases List.mem_cons.mp hd with rfl | hd
        · rw [if_pos ht]
          exact .inr rfl
        · exact .inl ⟨d, hd, ht⟩
      · refine .inr ?_
        split
        · rfl
        · exact h

/-- The full rescan answers with a holder. -/
theorem scanProcFds_holds {fs : ProcFs} {inode pid : Nat}
    (h : (scanProcFds fs).get? inode = some pid) : fs.Holds pid inode := by
  rcases (scanDirs_spec inode fs.fdDirs.entries .empty).1 pid h with ⟨dir, hdir, rfl, ht⟩ | h
  · exact ⟨dir.2, KeyedMap.mem_entries_iff.mp hdir, ht⟩
  · cases h

/-- The full rescan finds a holder if there is one. -/
theorem scanProcFds_isSome {fs : ProcFs} {inode pid : Nat} (h : fs.Holds pid inode) :
    ((scanProcFds fs).get? inode).isSome = true := by
  obtain ⟨targets, hget, ht⟩ := h
  exact (scanDirs_spec inode fs.fdDirs.entries .empty).2
    (.inl ⟨⟨pid, targets⟩, KeyedMap.mem_entries_iff.mpr hget, ht⟩)

namespace Attributor

/-- Whatever the cache holds, the answer holds the inode found for the port. -/
theorem lookup_eq_some {a : Attributor} {fs : ProcFs} {proto : Protocol} {port : UInt16}
    {pid : Nat} (h : (a.lookup fs proto port).1 = some pid) :
    ∃ inode, findSocketInode fs proto port = some inode ∧ fs.Holds pid inode := by
  unfold lookup at h
  cases hf : findSocketInode fs proto port with
  | none =>
    rw [hf] at h
    cases h
  | some inode =>
    rw [hf] at h
    dsimp only at h
    cases hc : a.cached fs inode with
    | some q =>
      rw [hc] at h
      cases h
      exact ⟨inode, rfl, pidOwnsInode_iff.mp (Option.filter_eq_some_iff.mp hc).2⟩
    | none =>
      rw [hc] at h
      exact ⟨inode, rfl, scanProcFds_holds h⟩

/-- Whatever the cache holds, a holder of the inode found is answered. -/
theorem lookup_isSome {a : Attributor} {fs : ProcFs} {proto : Protocol} {port : UInt16}
    {inode pid : Nat} (hf : findSocketInode fs proto port = some inode)
    (h : fs.Holds pid inode) : ((a.lookup fs proto port).1).isSome = true := by
  unfold lookup
  rw [hf]
  dsimp only
  cases hc : a.cached fs inode with
  | some q => rfl
  | none => exact scanProcFds_isSome h

/-- A sole holder of the inode found is the answer. -/
theorem lookup_of_sole_holder {a : Attributor} {fs : ProcFs} {proto : Protocol} {port : UInt16}
    {inode pid : Nat} (hf : findSocketInode fs proto port = some inode)
    (h : ∀ q, fs.Holds q inode ↔ q = pid) : (a.lookup fs proto port).1 = some pid := by
  obtain ⟨q, hq⟩ := Option.isSome_iff_exists.mp (lookup_isSome (a := a) hf ((h pid).mpr rfl))
  obtain ⟨inode', hf', hholds⟩ := lookup_eq_some hq
  rw [hf] at hf'
  cases hf'
  rw [hq, (h q).mp hholds]

end Attributor

end TravelMode
