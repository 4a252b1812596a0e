import Mathlib.Algebra.Order.BigOperators.Group.List
import TravelMode.Lib.Grouping
import TravelMode.Daemon.ConntrackText
import TravelMode.Daemon.Main

/-!
# Usage per application

What `top_apps` makes of a connection map. The map and the groups are hash maps: the
connections come in any order (`order`), and so do the groups (`Lists`).

- `topApps_conserves`: an entry for every group, nothing lost, nothing counted twice.
- `orderIndependent_iff`: the entries do not depend on the orders, exactly when the key of a
  group tells apart whatever an entry shows of its first connection.
-/

namespace TravelMode

namespace TopApps

open Grouping

/-- What `top_apps` may return, the groups being in one order of theirs. -/
def Lists (rules : Inner) (now : DateTime) (order : List ConnectionInfo) (apps : List AppUsage) :
    Prop :=
  ∃ vals : List AppUsage, vals.Perm (topGroups order).vals ∧ apps = sortUsage (vals.map (flagUsage rules now))

/-- `a.bytes_sent + a.bytes_recv` -/
def total (usage : AppUsage) : Nat := usage.bytesSent + usage.bytesRecv

/-- The entry of the group under a key. -/
def entryOf (rules : Inner) (now : DateTime) (order : List ConnectionInfo) (k : String) :
    Option AppUsage :=
  (usageOf (groupOf order k)).map (flagUsage rules now)

theorem topApps_lists (rules : Inner) (now : DateTime) (order : List ConnectionInfo) :
    Lists rules now order (topApps rules now order) :=
  ⟨_, .refl _, rfl⟩

variable {rules : Inner} {now : DateTime} {order : List ConnectionInfo} {apps : List AppUsage}

theorem groupOf_eq (order : List ConnectionInfo) (k : String) :
    groupOf order k = group topKey order k := rfl

/-- The group of a connection has an entry. -/
theorem exists_usage {conn : ConnectionInfo} (h : conn ∈ order) :
    ∃ usage, usageOf (groupOf order (topKey conn)) = some usage := by
  obtain ⟨first, rest, hgroup⟩ := List.exists_cons_of_ne_nil
    (List.ne_nil_of_mem (mem_group.mpr ⟨h, rfl⟩ : conn ∈ group topKey order (topKey conn)))
  rw [groupOf_eq, hgroup]
  exact ⟨_, rfl⟩

/-- The keys of the groups are the keys of the connections. -/
theorem keys_topGroups (order : List ConnectionInfo) :
    (topGroups order).keys.Perm (order.map topKey).dedup := by
  refine (List.perm_ext_iff_of_nodup (topGroups order).keys_nodup (List.nodup_dedup _)).mpr ?_
  intro k
  rw [KeyedMap.mem_keys_iff, List.mem_dedup, List.mem_map, get?_topGroups]
  constructor
  · rintro ⟨usage, h⟩
    obtain ⟨first, hfirst, -⟩ := Option.map_eq_some_iff.mp h
    exact ⟨first, mem_group.mp (List.mem_of_head? hfirst)⟩
  · rintro ⟨conn, hconn, rfl⟩
    exact exists_usage hconn

/-- One entry for every key. -/
theorem Lists.entries (h : Lists rules now order apps) :
    (apps.map some).Perm ((order.map topKey).dedup.map (entryOf rules now order)) := by
  obtain ⟨vals, hvals, rfl⟩ := h
  have hsort : (sortUsage (vals.map (flagUsage rules now))).Perm
      ((topGroups order).vals.map (flagUsage rules now)) :=
    (List.mergeSort_perm _ _).trans (hvals.map _)
  have hkeys : ((topGroups order).vals.map (flagUsage rules now)).map some =
      (topGroups order).keys.map (entryOf rules now order) := by
    have hentry : (topGroups order).keys.map (entryOf rules now order) =
        ((topGroups order).keys.map (topGroups order).get?).map
          (Option.map (flagUsage rules now)) := by
      rw [List.map_map]
      exact List.map_congr_left fun k _ => by rw [entryOf, ← get?_topGroups]; rfl
    rw [hentry, ← KeyedMap.map_some_vals, List.map_map, List.map_map]
    rfl
  refine (hsort.map some).trans ?_
  rw [hkeys]
  exact (keys_topGroups order).map _

/-- What is counted in the entries is what is counted in the groups. -/
theorem Lists.sum (h : Lists rules now order apps) {field : AppUsage → Nat}
    {f : ConnectionInfo → Nat}
    (hfield : ∀ k usage, entryOf rules now order k = some usage →
      field usage = ((group topKey order k).map f).sum) :
    (apps.map field).sum = (order.map f).sum := by
  have hsome : (apps.map field) = (apps.map some).map fun usage => (usage.map field).getD 0 := by
    rw [List.map_map]
    rfl
  rw [hsome, (h.entries.map _).sum_eq, List.map_map]
  have hgroups : ((order.map topKey).dedup.map
      ((fun usage : Option AppUsage => (usage.map field).getD 0) ∘ entryOf rules now order)) =
      (order.map topKey).dedup.map fun k => ((group topKey order k).map f).sum := by
    refine List.map_congr_left fun k hk => ?_
    obtain ⟨conn, hconn, rfl⟩ := List.mem_map.mp (List.mem_dedup.mp hk)
    obtain ⟨usage, husage⟩ : ∃ usage, entryOf rules now order (topKey conn) = some usage := by
      obtain ⟨usage, husage⟩ := exists_usage hconn
      exact ⟨_, by rw [entryOf, husage]; rfl⟩
    rw [← hfield _ usage husage, Function.comp_apply, husage]
    rfl
  rw [hgroups]
  exact sum_groups (List.nodup_dedup _)
    (fun conn hconn => List.mem_dedup.mpr (List.mem_map_of_mem hconn)) f

/-- The busiest apps come first. -/
theorem Lists.sorted (h : Lists rules now order apps) :
    apps.Pairwise fun a b => total b ≤ total a := by
  obtain ⟨vals, -, rfl⟩ := h
  refine (List.pairwise_mergeSort ?_ ?_ _).imp fun hle => of_decide_eq_true hle
  · intro a b c hab hbc
    exact decide_eq_true (Nat.le_trans (of_decide_eq_true hbc) (of_decide_eq_true hab))
  · intro a b
    rw [Bool.or_eq_true, decide_eq_true_iff, decide_eq_true_iff]
    exact Nat.le_total _ _

/-- What the entry of a group counts. -/
theorem entryOf_counts {k : String} {usage : AppUsage} (h : entryOf rules now order k = some usage) :
    usage.connections = ((group topKey order k).map fun _ => 1).sum ∧
      usage.bytesSent = ((group topKey order k).map ConnectionInfo.bytesSent).sum ∧
      usage.bytesRecv = ((group topKey order k).map ConnectionInfo.bytesRecv).sum := by
  obtain ⟨usage', husage, rfl⟩ := Option.map_eq_some_iff.mp h
  obtain ⟨first, -, rfl⟩ := Option.map_eq_some_iff.mp husage
  refine ⟨?_, rfl, rfl⟩
  show (groupOf order k).length = _
  rw [List.map_const', List.sum_replicate, Nat.nsmul_eq_mul, Nat.mul_one]
  rfl

/-- **Traffic is conserved.** For every order of the connections and of the groups: one entry
for every key, which counts the connections with that key; the entries count every connection
and every byte; no sum of bytes leaves `u64`; the busiest come first. -/
theorem topApps_conserves {conns : KeyedMap String ConnectionInfo}
    (hbytes : (conns.vals.map ConnectionInfo.bytesSent).sum +
      (conns.vals.map ConnectionInfo.bytesRecv).sum < 2 ^ 64)
    (horder : order.Perm conns.vals) (h : Lists rules now order apps) :
    (apps.map some).Perm ((order.map topKey).dedup.map fun k =>
        (usageOf (groupOf order k)).map (flagUsage rules now)) ∧
      (apps.map AppUsage.connections).sum = conns.size ∧
      (apps.map AppUsage.bytesSent).sum = (conns.vals.map ConnectionInfo.bytesSent).sum ∧
      (apps.map AppUsage.bytesRecv).sum = (conns.vals.map ConnectionInfo.bytesRecv).sum ∧
      (∀ usage ∈ apps, usage.bytesSent + usage.bytesRecv < 2 ^ 64) ∧
      apps.Pairwise fun a b => b.bytesSent + b.bytesRecv ≤ a.bytesSent + a.bytesRecv := by
  have hconnections : (apps.map AppUsage.connections).sum = conns.size := by
    rw [h.sum fun k usage hk => (entryOf_counts hk).1, List.map_const', List.sum_replicate,
      Nat.nsmul_eq_mul, Nat.mul_one, horder.length_eq, KeyedMap.length_vals]
  have hsent : (apps.map AppUsage.bytesSent).sum =
      (conns.vals.map ConnectionInfo.bytesSent).sum := by
    rw [h.sum fun k usage hk => (entryOf_counts hk).2.1, (horder.map _).sum_eq]
  have hrecv : (apps.map AppUsage.bytesRecv).sum =
      (conns.vals.map ConnectionInfo.bytesRecv).sum := by
    rw [h.sum fun k usage hk => (entryOf_counts hk).2.2, (horder.map _).sum_eq]
  refine ⟨h.entries, hconnections, hsent, hrecv, fun usage husage => ?_, h.sorted⟩
  have hle := List.le_sum_of_mem (List.mem_map_of_mem (f := AppUsage.bytesSent) husage)
  have hle' := List.le_sum_of_mem (List.mem_map_of_mem (f := AppUsage.bytesRecv) husage)
  omega

/-! ## Orders -/

/-- Any two runs list the same entries; only entries of one total may change places. -/
def SameEntries (conns : List ConnectionInfo) : Prop :=
  ∀ (rules : Inner) (now : DateTime) (order order' : List ConnectionInfo)
    (apps apps' : List AppUsage), order.Perm conns → order'.Perm conns →
      Lists rules now order apps → Lists rules now order' apps' →
        apps.Perm apps' ∧ apps.map total = apps'.map total

/-- An entry is for one executable, or for one name without an executable. -/
def OneApp (conns : List ConnectionInfo) : Prop :=
  ∀ c ∈ conns, ∀ d ∈ conns, topKey c = topKey d →
    c.exe = d.exe ∧ (c.exe = none → c.processName = d.processName)

/-- What tells the entries apart tells what they show: executables do not render alike, the
processes of an executable have one name, a process without an executable is not named like
one, nor "unknown" where there is one without a name. -/
structure Told (conns : List ConnectionInfo) : Prop where
  exes : ∀ c ∈ conns, ∀ d ∈ conns, ∀ p ∈ c.exe, ∀ q ∈ d.exe, p.display = q.display → p = q
  names : ∀ c ∈ conns, ∀ d ∈ conns, ∀ p ∈ c.exe, p ∈ d.exe →
    c.processName.getD "unknown" = d.processName.getD "unknown"
  apart : ∀ c ∈ conns, ∀ d ∈ conns, ∀ p ∈ c.exe, d.exe = none →
    d.processName.getD "unknown" ≠ p.display
  unknown : ∀ c ∈ conns, ∀ d ∈ conns, c.exe = none → d.exe = none → c.processName = none →
    d.processName ≠ some "unknown"

theorem topKey_some {c : ConnectionInfo} {p : PathBuf} (h : c.exe = some p) :
    topKey c = p.display := by
  rw [topKey, h]

theorem topKey_none {c : ConnectionInfo} (h : c.exe = none) :
    topKey c = c.processName.getD "unknown" := by
  rw [topKey, h]

/-- What tells the entries apart tells the apps apart. -/
theorem Told.oneApp {conns : List ConnectionInfo} (h : Told conns) : OneApp conns := by
  intro c hc d hd hkey
  cases hcexe : c.exe with
  | some p =>
    rw [topKey_some hcexe] at hkey
    cases hdexe : d.exe with
    | some q =>
      rw [topKey_some hdexe] at hkey
      rw [h.exes c hc d hd p hcexe q hdexe hkey]
      exact ⟨rfl, fun hnone => nomatch hnone⟩
    | none =>
      rw [topKey_none hdexe] at hkey
      exact absurd hkey.symm (h.apart c hc d hd p hcexe hdexe)
  | none =>
    rw [topKey_none hcexe] at hkey
    cases hdexe : d.exe with
    | some q =>
      rw [topKey_some hdexe] at hkey
      exact absurd hkey (h.apart d hd c hc q hdexe hcexe)
    | none =>
      rw [topKey_none hdexe] at hkey
      refine ⟨rfl, fun _ => ?_⟩
      cases hcname : c.processName with
      | none =>
        cases hdname : d.processName with
        | none => rfl
        | some n =>
          rw [hcname, hdname] at hkey
          have hn : "unknown" = n := hkey
          exact absurd (hn ▸ hdname) (h.unknown c hc d hd hcexe hdexe hcname)
      | some n =>
        cases hdname : d.processName with
        | none =>
          rw [hcname, hdname] at hkey
          have hn : n = "unknown" := hkey
          exact absurd (hn ▸ hcname) (h.unknown d hd c hc hdexe hcexe hdname)
        | some m =>
          rw [hcname, hdname] at hkey
          exact congrArg some hkey

/-- The first connection of a group may be another one, but it shows the same. -/
theorem Told.newUsage_eq {conns : List ConnectionInfo} (h : Told conns) {c d : ConnectionInfo}
    (hc : c ∈ conns) (hd : d ∈ conns) (hkey : topKey c = topKey d) : newUsage c = newUsage d := by
  obtain ⟨hexe, hname⟩ := h.oneApp c hc d hd hkey
  have hnames : c.processName.getD "unknown" = d.processName.getD "unknown" := by
    cases hcexe : c.exe with
    | some p => exact h.names c hc d hd p hcexe (hexe ▸ hcexe)
    | none => rw [hname hcexe]
  rw [newUsage, newUsage, hexe, hnames]

theorem Told.entryOf_eq {conns order order' : List ConnectionInfo} (h : Told conns)
    (horder : order.Perm conns) (horder' : order'.Perm conns) (k : String) :
    entryOf rules now order k = entryOf rules now order' k := by
  have hgroup : (groupOf order k).Perm (groupOf order' k) :=
    group_perm topKey (horder.trans horder'.symm) k
  have hmem : ∀ c ∈ groupOf order k, c ∈ conns ∧ topKey c = k := fun c hc => by
    obtain ⟨hc, hkey⟩ := mem_group.mp hc
    exact ⟨horder.mem_iff.mp hc, hkey⟩
  suffices hsame : usageOf (groupOf order k) = usageOf (groupOf order' k) by
    rw [entryOf, entryOf, hsame]
  generalize groupOf order k = g at hgroup hmem ⊢
  generalize groupOf order' k = g' at hgroup ⊢
  cases g with
  | nil => rw [hgroup.nil_eq]
  | cons first rest =>
    cases g' with
    | nil => cases hgroup.eq_nil
    | cons first' rest' =>
      obtain ⟨hfirst, hkey⟩ := hmem first List.mem_cons_self
      obtain ⟨hfirst', hkey'⟩ := hmem first' (hgroup.mem_iff.mpr List.mem_cons_self)
      have hnew := h.newUsage_eq hfirst hfirst' (hkey.trans hkey'.symm)
      simp only [usageOf, List.head?_cons, Option.map_some, hnew,
        (hgroup.map ConnectionInfo.bytesSent).sum_eq,
        (hgroup.map ConnectionInfo.bytesRecv).sum_eq, hgroup.length_eq]

theorem Told.sameEntries {conns : List ConnectionInfo} (h : Told conns) : SameEntries conns := by
  intro rules now order order' apps apps' horder horder' hlists hlists'
  have hkeys : (order.map topKey).dedup.Perm (order'.map topKey).dedup :=
    ((horder.trans horder'.symm).map topKey).dedup
  have hentries : (apps.map some).Perm (apps'.map some) := by
    refine hlists.entries.trans ((hkeys.map _).trans ?_)
    rw [List.map_congr_left fun k _ => h.entryOf_eq horder horder' k]
    exact hlists'.entries.symm
  have hperm : apps.Perm apps' := by
    have hvalues := hentries.filterMap id
    rwa [List.filterMap_map, List.filterMap_map, Function.id_comp, List.filterMap_some,
      List.filterMap_some] at hvalues
  have hsort : (apps.map total).Pairwise fun a b => b ≤ a := List.pairwise_map.mpr hlists.sorted
  have hsort' : (apps'.map total).Pairwise fun a b => b ≤ a :=
    List.pairwise_map.mpr hlists'.sorted
  refine ⟨hperm, List.Perm.eq_of_pairwise ?_ hsort hsort' (hperm.map total)⟩
  exact fun a b _ _ hab hba => Nat.le_antisymm hba hab

/-- Lists that differ in one entry have different entries. -/
theorem eq_of_perm_cons {α : Type} [DecidableEq α] {a b : α} {l : List α}
    (h : (a :: l).Perm (b :: l)) : a = b := by
  by_contra hne
  have hcount := h.count_eq a
  rw [List.count_cons_self, List.count_cons_of_ne (Ne.symm hne)] at hcount
  omega

/-- Either of two connections of a group may be its first. -/
theorem SameEntries.names {conns : List ConnectionInfo} (h : SameEntries conns)
    {c d : ConnectionInfo} (hc : c ∈ conns) (hd : d ∈ conns) (hkey : topKey c = topKey d) :
    c.processName.getD "unknown" = d.processName.getD "unknown" := by
  by_cases hcd : c = d
  · rw [hcd]
  have hd : d ∈ conns.erase c := (List.mem_erase_of_ne (Ne.symm hcd)).mpr hd
  have horder : (c :: d :: (conns.erase c).erase d).Perm conns :=
    ((List.perm_cons_erase hd).symm.cons c).trans (List.perm_cons_erase hc).symm
  generalize (conns.erase c).erase d = rest at horder
  have horder' : (d :: c :: rest).Perm conns := (List.Perm.swap c d rest).trans horder
  obtain ⟨hperm, -⟩ := h .firstStart .epoch _ _ _ _ horder horder' (topApps_lists _ _ _)
    (topApps_lists _ _ _)
  have hlists := topApps_lists .firstStart .epoch (c :: d :: rest)
  have hlists' := topApps_lists .firstStart .epoch (d :: c :: rest)
  have hentries := (hlists.entries.symm.trans (hperm.map some)).trans hlists'.entries
  have hkeys : (c :: d :: rest).map topKey = (d :: c :: rest).map topKey := by
    simp only [List.map_cons, hkey]
  -- only the entry of the two can differ
  rw [← hkeys] at hentries
  have hnodup := List.nodup_dedup ((c :: d :: rest).map topKey)
  have hmem : topKey c ∈ ((c :: d :: rest).map topKey).dedup :=
    List.mem_dedup.mpr List.mem_cons_self
  generalize ((c :: d :: rest).map topKey).dedup = keys at hentries hnodup hmem
  have hsplit := List.perm_cons_erase hmem
  have hother : (keys.erase (topKey c)).map (entryOf .firstStart .epoch (d :: c :: rest)) =
      (keys.erase (topKey c)).map (entryOf .firstStart .epoch (c :: d :: rest)) := by
    refine List.map_congr_left fun k hk => ?_
    have hne : topKey c ≠ k := fun he => hnodup.not_mem_erase (he ▸ hk)
    rw [entryOf, entryOf, groupOf_eq, groupOf_eq, group_swap hkey rest hne]
  have hsame := ((hsplit.map _).symm.trans hentries).trans (hsplit.map _)
  rw [List.map_cons, List.map_cons, hother] at hsame
  have hentry := eq_of_perm_cons hsame
  have hfirst : groupOf (c :: d :: rest) (topKey c) = c :: groupOf (d :: rest) (topKey c) :=
    group_cons_self topKey c _
  have hfirst' : groupOf (d :: c :: rest) (topKey c) = d :: groupOf (c :: rest) (topKey c) := by
    rw [hkey]
    exact group_cons_self topKey d _
  rw [entryOf, entryOf, hfirst, hfirst'] at hentry
  exact congrArg AppUsage.name (Option.some.inj hentry)

/-- **Usage does not depend on an order**, and an entry is for one app, exactly when what
tells the entries apart tells what they show. -/
theorem orderIndependent_iff (conns : KeyedMap String ConnectionInfo) :
    SameEntries conns.vals ∧ OneApp conns.vals ↔ Told conns.vals := by
  constructor
  · rintro ⟨hentries, happ⟩
    refine ⟨?_, ?_, ?_, ?_⟩
    · intro c hc d hd p hp q hq hdisplay
      have hkey : topKey c = topKey d := by rw [topKey_some hp, topKey_some hq, hdisplay]
      obtain ⟨hexe, -⟩ := happ c hc d hd hkey
      rw [hp, hq] at hexe
      exact Option.some.inj hexe
    · intro c hc d hd p hp hp'
      exact hentries.names hc hd (by rw [topKey_some hp, topKey_some hp'])
    · intro c hc d hd p hp hnone hname
      have hkey : topKey c = topKey d := by rw [topKey_some hp, topKey_none hnone, hname]
      obtain ⟨hexe, -⟩ := happ c hc d hd hkey
      rw [hp, hnone] at hexe
      cases hexe
    · intro c hc d hd hnone hnone' hname hunknown
      have hkey : topKey c = topKey d := by
        rw [topKey_none hnone, topKey_none hnone', hname, hunknown]
        rfl
      obtain ⟨-, hsame⟩ := happ c hc d hd hkey
      have hsame := hsame hnone
      rw [hname, hunknown] at hsame
      cases hsame
  · exact fun h => ⟨h.sameEntries, h.oneApp⟩

/-! ### Samples -/

/-- A connection from one of the local ports. -/
def flowOf (port : UInt16) (exe : Option PathBuf) (processName : Option String) :
    ConnectionInfo where
  key := FlowTuple.key ⟨.tcp, .v4 ⟨10, 0, 0, 2⟩, port, .v4 ⟨1, 1, 1, 1⟩, 443⟩
  protocol := .tcp
  localAddr := .v4 ⟨10, 0, 0, 2⟩
  localPort := port
  remoteAddr := .v4 ⟨1, 1, 1, 1⟩
  remotePort := 443
  bytesSent := 100
  bytesRecv := 200
  pid := none
  processName := processName
  exe := exe
  started := .epoch
  lastSeen := .epoch

/-- Two scripts of one interpreter, which are processes with names of their own. -/
def twoScripts : KeyedMap String ConnectionInfo :=
  let first := flowOf 1 (some (.ofString "/bin/sh")) (some "backup")
  let second := flowOf 2 (some (.ofString "/bin/sh")) (some "sync")
  (KeyedMap.empty.insert first.key first).insert second.key second

theorem topApps_conserves_twoScripts :
    ((topApps .firstStart .epoch twoScripts.vals.reverse).map AppUsage.connections).sum = 2 :=
  (topApps_conserves (by decide +kernel) (List.reverse_perm _) (topApps_lists _ _ _)).2.1

/-- Their entry has the name of the script that comes first. And a process without an
executable is in the entry of the executable that it is named like. -/
theorem twoScripts_order_dependent :
    ¬(∀ conns : KeyedMap String ConnectionInfo, SameEntries conns.vals) ∧
      ¬∀ conns : KeyedMap String ConnectionInfo, OneApp conns.vals := by
  refine ⟨fun h => ?_, fun h => ?_⟩
  · obtain ⟨hperm, -⟩ := h twoScripts .firstStart .epoch _ _ _ _ (.refl _) (List.reverse_perm _)
      (topApps_lists _ _ _) (topApps_lists _ _ _)
    have hname : ((topApps .firstStart .epoch twoScripts.vals).map AppUsage.name).Perm
        ((topApps .firstStart .epoch twoScripts.vals.reverse).map AppUsage.name) :=
      hperm.map AppUsage.name
    exact absurd hname (by decide +kernel)
  · let shell := flowOf 1 (some (.ofString "/bin/sh")) (some "sh")
    let named := flowOf 2 none (some "/bin/sh")
    have hsame := h ((KeyedMap.empty.insert shell.key shell).insert named.key named) shell
      (by decide +kernel) named (by decide +kernel) (by decide +kernel)
    exact absurd hsame.1 (by decide +kernel)

end TopApps

end TravelMode
