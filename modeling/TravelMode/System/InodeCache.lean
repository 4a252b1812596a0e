import TravelMode.Daemon.Attrib

/-!
# The inode cache is transparent

`Attributor.lookup` answers from its cache where a check of one process allows it, and
from a full scan otherwise. Processes come and go between two calls, so what the cache
holds need not be true of any moment.

- `Allowed`: what a lookup may answer, said of the snapshot alone.
- `lookup_allowed`: it does, whatever the cache holds.
- `lookup_transparent`: after any calls on any snapshots; a sole holder is answered as
  without a cache.
- `lookup_again`: on one snapshot, the second lookup is a hit with the first one's answer.
-/

namespace TravelMode

namespace InodeCache

/-- A call on the attributor, on the snapshot of `/proc` that it finds. -/
inductive Call where
  | refresh (fs : ProcFs)
  | lookup (fs : ProcFs) (proto : Protocol) (port : UInt16)

/-- The attributor that a call leaves. -/
def after (a : Attributor) : Call → Attributor
  | .refresh fs => .refresh fs
  | .lookup fs proto port => (a.lookup fs proto port).2

/-! ## The specification -/

/-- Some process holds the socket that the port's row names. -/
def Held (fs : ProcFs) (proto : Protocol) (port : UInt16) (pid : Nat) : Prop :=
  ∃ inode, findSocketInode fs proto port = some inode ∧ fs.Holds pid inode

/-- A lookup may answer with any holder, and has to if there is one. -/
def Allowed (fs : ProcFs) (proto : Protocol) (port : UInt16) : Option Nat → Prop
  | some pid => Held fs proto port pid
  | none => ∀ pid, ¬Held fs proto port pid

/-- What a lookup may answer says whether there is a holder. -/
theorem Allowed.isSome_iff {fs : ProcFs} {proto : Protocol} {port : UInt16}
    {answer : Option Nat} (h : Allowed fs proto port answer) :
    answer.isSome = true ↔ ∃ pid, Held fs proto port pid := by
  cases answer with
  | none => exact iff_of_false Bool.false_ne_true fun ⟨pid, hpid⟩ => h pid hpid
  | some pid => exact iff_of_true rfl ⟨pid, h⟩

/-- Of a sole holder, there is one thing to answer. -/
theorem Allowed.of_sole {fs : ProcFs} {proto : Protocol} {port : UInt16} {pid : Nat}
    {answer : Option Nat} (h : Allowed fs proto port answer)
    (hsole : ∀ q, Held fs proto port q ↔ q = pid) : answer = some pid := by
  cases answer with
  | none => exact absurd ((hsole pid).mpr rfl) (h pid)
  | some q => rw [(hsole q).mp h]

/-! ## The cache -/

/-- **One lookup**: whatever the cache holds, the answer is one the snapshot allows. -/
theorem lookup_allowed (a : Attributor) (fs : ProcFs) (proto : Protocol) (port : UInt16) :
    Allowed fs proto port (a.lookup fs proto port).1 := by
  cases hanswer : (a.lookup fs proto port).1 with
  | some pid => exact Attributor.lookup_eq_some hanswer
  | none =>
    rintro pid ⟨inode, hinode, hholds⟩
    have hsome := Attributor.lookup_isSome (a := a) hinode hholds
    rw [hanswer] at hsome
    cases hsome

/-- **Transparency**: after any history, from any cache, a lookup answers with a current
holder if and only if there is one, and with a sole holder as it would without a cache. -/
theorem lookup_transparent (a : Attributor) (history : List Call) (fs : ProcFs)
    (proto : Protocol) (port : UInt16) :
    let answer := ((history.foldl after a).lookup fs proto port).1
    (∀ pid, answer = some pid → ∃ inode, findSocketInode fs proto port = some inode ∧
      fs.Holds pid inode) ∧
    (answer.isSome = true ↔ ∃ pid inode, findSocketInode fs proto port = some inode ∧
      fs.Holds pid inode) ∧
    (∀ inode, findSocketInode fs proto port = some inode → (∃! pid, fs.Holds pid inode) →
      answer = (Attributor.new.lookup fs proto port).1) := by
  intro answer
  have hallowed : Allowed fs proto port answer :=
    lookup_allowed (history.foldl after a) fs proto port
  refine ⟨fun pid hpid => ?_, hallowed.isSome_iff, ?_⟩
  · rw [hpid] at hallowed
    exact hallowed
  · rintro inode hinode ⟨pid, hpid, hunique⟩
    -- with and without the cache, there is one answer that is allowed
    have hsole : ∀ q, Held fs proto port q ↔ q = pid := by
      intro q
      constructor
      · rintro ⟨inode', hinode', hq⟩
        rw [hinode] at hinode'
        cases hinode'
        exact hunique q hq
      · rintro rfl
        exact ⟨inode, hinode, hpid⟩
    rw [hallowed.of_sole hsole, (lookup_allowed .new fs proto port).of_sole hsole]

/-- A server and its worker hold one listening socket. -/
def sharedSocket : ProcFs where
  netFile file :=
    if file = "/proc/net/tcp" then some "0: 0:01BB 0:0000 0A 0:0 0:0 0 0 0 77".toList else none
  fdDirs := (KeyedMap.empty.insert 1 ["socket:[77]".toList]).insert 2 ["socket:[77]".toList]
  process _ := none

-- Of several holders, the cached one is answered, so the third part needs a sole one.
example : (Attributor.lookup ⟨KeyedMap.empty.insert 77 1⟩ sharedSocket .tcp 443).1 = some 1 ∧
    (Attributor.lookup ⟨KeyedMap.empty.insert 77 2⟩ sharedSocket .tcp 443).1 = some 2 := by
  decide +kernel

/-- A lookup that finds a process leaves a cache that has it. -/
theorem lookup_cached {a : Attributor} {fs : ProcFs} {proto : Protocol} {port : UInt16}
    {pid inode : Nat} (hinode : findSocketInode fs proto port = some inode)
    (h : (a.lookup fs proto port).1 = some pid) :
    (a.lookup fs proto port).2.cached fs inode = some pid := by
  unfold Attributor.lookup at h ⊢
  rw [hinode] at h ⊢
  dsimp only at h ⊢
  cases hhit : a.cached fs inode with
  | some q =>
    rw [hhit] at h
    cases h
    exact hhit
  | none =>
    -- the rescan answers with a holder, which the check of the next lookup finds
    rw [hhit] at h
    have howns := pidOwnsInode_iff.mpr (scanProcFds_holds h)
    exact Option.filter_eq_some_iff.mpr ⟨h, howns⟩

/-- A cached process that still holds the socket is the answer. -/
theorem lookup_of_cached {a : Attributor} {fs : ProcFs} {proto : Protocol} {port : UInt16}
    {pid inode : Nat} (hinode : findSocketInode fs proto port = some inode)
    (h : a.cached fs inode = some pid) : a.lookup fs proto port = (some pid, a) := by
  unfold Attributor.lookup
  rw [hinode]
  dsimp only
  rw [h]

/-- **Stability**: on one snapshot, a lookup that found a process finds it again, and
leaves the cache as it is. -/
theorem lookup_again {a : Attributor} {fs : ProcFs} {proto : Protocol} {port : UInt16}
    {pid : Nat} (h : (a.lookup fs proto port).1 = some pid) :
    (a.lookup fs proto port).2.lookup fs proto port = (some pid, (a.lookup fs proto port).2) := by
  obtain ⟨inode, hinode, -⟩ := Attributor.lookup_eq_some h
  exact lookup_of_cached hinode (lookup_cached hinode h)

end InodeCache

end TravelMode
