import TravelMode.Daemon.NftCalls
import TravelMode.System.QueueRule

/-!
# A table of its own

The daemon promises to touch no table but `inet travelmode`, and that traffic flows whatever
becomes of the daemon. Between its runs of nft other programs edit the ruleset; nft may fail; a
daemon may be killed, its nft may go on without it, and another one finds what was left. There
may be several at once.

- `Host`: the ruleset, the daemons with their runs of nft, and runs that have lost their daemon.
- `others`: the same run without any daemon. `tables_untouched`: the other tables are what they
  are in it.
- `fails_open`: what there is of our table lets a packet pass or hands it to a program that
  listens.
- `Alone`: one daemon, and nothing fails. `chain_restored`: whatever it found, its chain is that
  of `QueueRule` for the toggles so far, and it leaves no table.
-/

namespace TravelMode

namespace OwnTable

open Nftables

/-! ## Daemons and their runs of nft -/

/-- Where a daemon is with its table. The firewall lock is held while nft runs for a toggle. -/
inductive Phase where
  /-- `setup`: nft removes what may be left of the table. -/
  | deleting (queueNum : UInt16) (paused : Bool)
  /-- `setup`: nft loads the table. -/
  | loading (queueNum : UInt16) (paused : Bool)
  /-- The handle is in the state. -/
  | idle (fw : Firewall)
  | toggling (fw : Firewall) (paused : Bool)
  /-- `teardown`. -/
  | removing
  /-- No handle: `setup` has failed, or the daemon is gone. -/
  | down
deriving DecidableEq

namespace Phase

/-- What nft is running. -/
def call : Phase → Option String
  | .deleting _ _ => some deleteCall
  | .loading queueNum paused => some (tableScript (!paused) queueNum)
  | .toggling fw paused => some (fw.toggleCall paused)
  | .removing => some deleteCall
  | .idle _ => none
  | .down => none

/-- When it exits. The result of the first removal is ignored, the others are logged. -/
def next (success : Bool) : Phase → Phase
  | .deleting queueNum paused => .loading queueNum paused
  | .loading queueNum _ => if success then .idle ⟨queueNum⟩ else .down
  | .toggling fw _ => .idle fw
  | .removing => .down
  | .idle fw => .idle fw
  | .down => .down

/-- The edit of the `Nft` that the run of nft is. -/
def edit : Phase → Nft → Option Nft
  | .deleting _ _ => nft ["delete", "table", "inet", "travelmode"]
  | .loading queueNum paused => addTableScript (!paused) queueNum
  | .toggling fw paused => if paused then fw.pause else fw.resume
  | .removing => nft ["delete", "table", "inet", "travelmode"]
  | .idle _ => some
  | .down => some

theorem performs_call {p : Phase} {text : String} (h : p.call = some text) :
    Performs text p.edit := by
  cases p with
  | deleting queueNum paused =>
    cases h
    exact performs_deleteCall
  | loading queueNum paused =>
    cases h
    exact performs_tableScript (!paused) queueNum
  | idle fw => cases h
  | toggling fw paused =>
    cases h
    cases paused with
    | true => exact performs_pauseCall fw
    | false => exact performs_resumeCall fw
  | removing =>
    cases h
    exact performs_deleteCall
  | down => cases h

end Phase

/-- A host: its ruleset, its daemons, and what nft is running for daemons that are gone. -/
structure Host where
  ruleset : Ruleset
  daemons : List Phase
  orphans : List String

inductive Action where
  | launch (queueNum : UInt16) (paused : Bool)
  /-- The nft of a daemon exits, without having done anything if something is wrong. -/
  | exit (i : Nat) (fault : Bool)
  /-- The task of a `SetPaused` request gets the firewall lock. -/
  | toggle (i : Nat) (paused : Bool)
  | shutdown (i : Nat)
  | kill (i : Nat)
  /-- So does the nft of a daemon that is gone. -/
  | orphan (j : Nat) (fault : Bool)
  /-- Another program edits the ruleset. -/
  | other (f : Ruleset → Option Ruleset)

/-- One run of nft: whether it succeeds, and the ruleset after it. -/
def exec (tool : NftTool) (text : String) (fault : Bool) (k : Ruleset) : Bool × Ruleset :=
  match (if fault then none else tool text k) with
  | some k' => (true, k')
  | none => (false, k)

/-- One action. -/
def step (tool : NftTool) (h : Host) : Action → Option Host
  | .launch queueNum paused => some { h with daemons := h.daemons ++ [.deleting queueNum paused] }
  | .exit i fault =>
    h.daemons[i]?.bind fun p => p.call.map fun text =>
      let (success, k) := exec tool text fault h.ruleset
      { h with ruleset := k, daemons := h.daemons.set i (p.next success) }
  | .toggle i paused =>
    match h.daemons[i]? with
    | some (.idle fw) => some { h with daemons := h.daemons.set i (.toggling fw paused) }
    | _ => none
  | .shutdown i =>
    match h.daemons[i]? with
    | some (.idle _) => some { h with daemons := h.daemons.set i .removing }
    | _ => none
  | .kill i =>
    h.daemons[i]?.map fun p =>
      { h with daemons := h.daemons.set i .down, orphans := h.orphans ++ p.call.toList }
  | .orphan j fault =>
    h.orphans[j]?.map fun text =>
      { h with ruleset := (exec tool text fault h.ruleset).2, orphans := h.orphans.eraseIdx j }
  | .other f => (f h.ruleset).map fun k => { h with ruleset := k }

/-- The same action on a host without the daemon. -/
def others (k : Ruleset) : Action → Option Ruleset
  | .other f => f k
  | _ => some k

/-- Other programs leave our table alone. -/
def Polite : Action → Prop
  | .other f => Respects ownTable f
  | _ => True

/-! ## One step -/

/-- What nft runs without a daemon was begun by one. -/
def Begun (h : Host) : Prop := ∀ text ∈ h.orphans, ∃ p : Phase, p.call = some text

variable {tool : NftTool} {h h' : Host} {a : Action}

/-- A run of nft does nothing, or what the tool does. -/
theorem exec_cases (tool : NftTool) (text : String) (fault : Bool) (k : Ruleset) :
    (exec tool text fault k).2 = k ∨ tool text k = some (exec tool text fault k).2 := by
  unfold exec
  split
  · rename_i k' hk'
    split at hk'
    · cases hk'
    · exact .inr hk'
  · exact .inl rfl

/-- What an action does to the ruleset: what nft does in some phase, what another program does,
or nothing. -/
theorem step_cases (hbegun : Begun h) (hstep : step tool h a = some h') :
    Begun h' ∧ ((∃ f, a = .other f ∧ f h.ruleset = some h'.ruleset) ∨
      ((∀ k, others k a = some k) ∧ (h'.ruleset = h.ruleset ∨
        ∃ p text, Phase.call p = some text ∧ tool text h.ruleset = some h'.ruleset))) := by
  have hexec : ∀ {p : Phase} {text : String} (fault : Bool), p.call = some text →
      (exec tool text fault h.ruleset).2 = h.ruleset ∨ ∃ p text', Phase.call p = some text' ∧
        tool text' h.ruleset = some (exec tool text fault h.ruleset).2 :=
    fun fault hcall => (exec_cases tool _ fault h.ruleset).imp id fun h => ⟨_, _, hcall, h⟩
  cases a with
  | launch queueNum paused =>
    cases hstep
    exact ⟨hbegun, .inr ⟨fun _ => rfl, .inl rfl⟩⟩
  | exit i fault =>
    obtain ⟨p, -, hrest⟩ := Option.bind_eq_some_iff.mp hstep
    obtain ⟨text, hcall, rfl⟩ := Option.map_eq_some_iff.mp hrest
    exact ⟨hbegun, .inr ⟨fun _ => rfl, hexec fault hcall⟩⟩
  | toggle i paused =>
    simp only [step] at hstep
    split at hstep <;> cases hstep
    exact ⟨hbegun, .inr ⟨fun _ => rfl, .inl rfl⟩⟩
  | shutdown i =>
    simp only [step] at hstep
    split at hstep <;> cases hstep
    exact ⟨hbegun, .inr ⟨fun _ => rfl, .inl rfl⟩⟩
  | kill i =>
    obtain ⟨p, -, rfl⟩ := Option.map_eq_some_iff.mp hstep
    refine ⟨fun text htext => ?_, .inr ⟨fun _ => rfl, .inl rfl⟩⟩
    rcases List.mem_append.mp htext with htext | htext
    · exact hbegun text htext
    · exact ⟨p, Option.mem_toList.mp htext⟩
  | orphan j fault =>
    obtain ⟨text, htext, rfl⟩ := Option.map_eq_some_iff.mp hstep
    refine ⟨fun text' htext' => hbegun text' (List.mem_of_mem_eraseIdx htext'), ?_⟩
    obtain ⟨p, hcall⟩ := hbegun text (List.mem_of_getElem? htext)
    exact .inr ⟨fun _ => rfl, hexec fault hcall⟩
  | other f =>
    obtain ⟨k, hk, rfl⟩ := Option.map_eq_some_iff.mp hstep
    exact ⟨hbegun, .inl ⟨f, rfl, hk⟩⟩

/-- A host before its first daemon. -/
def boot (k : Ruleset) : Host := ⟨k, [], []⟩

theorem begun_boot (k : Ruleset) : Begun (boot k) := fun _ htext => nomatch htext

/-! ## The other tables -/

/-- The host and one without daemons have the same other tables. -/
structure Agrees (h : Host) (k : Ruleset) : Prop where
  begun : Begun h
  tables : AgreeOff ownTable h.ruleset k

theorem agrees_step (htool : Documented tool) {k : Ruleset} (h₀ : Agrees h k) (ha : Polite a)
    (hstep : step tool h a = some h') : ∃ k', others k a = some k' ∧ Agrees h' k' := by
  obtain ⟨hbegun, ⟨f, rfl, hf⟩ | ⟨hothers, hsame | ⟨p, text, hcall, hnft⟩⟩⟩ :=
    step_cases h₀.begun hstep
  · obtain ⟨-, k', hk', hagree⟩ := ha h.ruleset k h₀.tables h'.ruleset hf
    exact ⟨k', hk', hbegun, hagree⟩
  · exact ⟨k, hothers k, hbegun, hsame ▸ h₀.tables⟩
  · have hframe := (Phase.performs_call hcall).frame htool hnft
    exact ⟨k, hothers k, hbegun, hframe.trans h₀.tables⟩

/-- **No other table is touched**: after any actions of any daemons, whatever fails and whoever
is killed, the other tables are as if there had never been a daemon. -/
theorem tables_untouched (htool : Documented tool) {k : Ruleset} {actions : List Action}
    (hpolite : ∀ a ∈ actions, Polite a)
    (hrun : Runs.run (step tool) (boot k) actions = some h) :
    ∃ k₀, Runs.run others k actions = some k₀ ∧
      ∀ id, id ≠ ownTable → h.ruleset.get? id = k₀.get? id := by
  obtain ⟨k₀, hk₀, hagrees⟩ := Runs.run_simulates (R := Agrees) (agrees_step htool)
    ⟨begun_boot k, agreeOff_refl ownTable k⟩ hrun hpolite
  exact ⟨k₀, hk₀, hagrees.tables⟩

/-- Another program adds a table. -/
def addNat : Cmd := ⟨⟨"ip", "nat"⟩, .addTable⟩

/-- A daemon is killed while nft adds the queue rule once more. -/
def killedActions : List Action :=
  [.launch 0 false, .exit 0 true, .exit 0 false, .other fun k => addNat.run k, .toggle 0 false,
    .kill 0, .orphan 0 false]

theorem killedActions_polite : ∀ a ∈ killedActions, Polite a := by
  have hnat : Respects ownTable fun k => addNat.run k := respects_run (by decide)
  simp [killedActions, Polite, hnat]

/-- The other table is there. -/
theorem tables_untouched_killed : ∃ h k₀,
    Runs.run (step plainNft) (boot .empty) killedActions = some h ∧
      Runs.run others .empty killedActions = some k₀ ∧
        h.ruleset.get? ⟨"ip", "nat"⟩ = k₀.get? ⟨"ip", "nat"⟩ := by
  obtain ⟨h, hrun⟩ := Option.isSome_iff_exists.mp
    (by decide +kernel : (Runs.run (step plainNft) (boot .empty) killedActions).isSome = true)
  obtain ⟨k₀, hk₀, hsame⟩ :=
    tables_untouched plainNft_exact.documented killedActions_polite hrun
  exact ⟨h, k₀, hrun, hk₀, hsame _ (by decide)⟩

/-! ## Our table -/

/-- All rules are queue rules. -/
def Queues (v : Nft) : Prop :=
  ∀ rules, v = some rules → ∀ rule ∈ rules, ∃ queueNum, rule = queueRule queueNum

theorem queues_none : Queues none := fun _ h => nomatch h

theorem queues_nil : Queues (some []) := by
  rintro rules ⟨⟩ rule hrule
  cases hrule

theorem Queues.append {rules : List (List String)} (h : Queues (some rules)) (queueNum : UInt16) :
    Queues (some (rules ++ [queueRule queueNum])) := by
  rintro _ ⟨⟩ rule hrule
  rcases List.mem_append.mp hrule with hrule | hrule
  · exact h rules rfl rule hrule
  · exact ⟨queueNum, List.mem_singleton.mp hrule⟩

/-- So they stay whatever nft does for a daemon. -/
theorem Phase.edit_queues {p : Phase} {v v' : Nft} (h : p.edit v = some v') (hv : Queues v) :
    Queues v' := by
  cases p with
  | deleting queueNum paused =>
    obtain ⟨rules, -, rfl⟩ := Option.map_eq_some_iff.mp h
    exact queues_none
  | loading queueNum paused =>
    cases h
    cases paused with
    | true =>
      cases v with
      | none => exact queues_nil
      | some rules => simpa [scriptRules] using hv
    | false =>
      cases v with
      | none => exact queues_nil.append queueNum
      | some rules => exact hv.append queueNum
  | idle fw =>
    cases h
    exact hv
  | toggling fw paused =>
    cases paused with
    | true =>
      obtain ⟨rules, -, rfl⟩ := Option.map_eq_some_iff.mp h
      exact queues_nil
    | false =>
      obtain ⟨rules, rfl, rfl⟩ := Option.map_eq_some_iff.mp h
      exact hv.append fw.queueNum
  | removing =>
    obtain ⟨rules, -, rfl⟩ := Option.map_eq_some_iff.mp h
    exact queues_none
  | down =>
    cases h
    exact hv

/-- What every action keeps of our table. -/
structure Inv (h : Host) : Prop where
  begun : Begun h
  table : ∃ v, Shows (h.ruleset.get? ownTable) v ∧ Queues v

theorem inv_step (htool : Documented tool) (hinv : Inv h) (ha : Polite a)
    (hstep : step tool h a = some h') : Inv h' := by
  obtain ⟨v, hshows, hv⟩ := hinv.table
  obtain ⟨hbegun, ⟨f, rfl, hf⟩ | ⟨-, hsame | ⟨p, text, hcall, hnft⟩⟩⟩ :=
    step_cases hinv.begun hstep
  · obtain ⟨hown, -⟩ := ha h.ruleset h.ruleset (agreeOff_refl ownTable _) h'.ruleset hf
    exact ⟨hbegun, v, hown ▸ hshows, hv⟩
  · exact ⟨hbegun, v, hsame ▸ hshows, hv⟩
  · obtain ⟨v', hedit, hshows'⟩ := (Phase.performs_call hcall).shows htool hshows hnft
    exact ⟨hbegun, v', hshows', Phase.edit_queues hedit hv⟩

theorem inv_run (htool : Documented tool) {k : Ruleset} (hk : k.get? ownTable = none)
    {actions : List Action} (hpolite : ∀ a ∈ actions, Polite a)
    (hrun : Runs.run (step tool) (boot k) actions = some h) : Inv h := by
  refine Runs.run_invariant_along (P := fun _ a => Polite a)
    (fun hinv ha hstep => inv_step htool hinv ha hstep) ?_ hrun
    (Runs.alongRun_of_forall fun a ha _ => hpolite a ha)
  exact ⟨begun_boot k, none, hk, queues_none⟩

/-- Queue rules let pass, or hand over to a program that listens. -/
theorem fateBy_queues (listening : String → Bool) (isNew : Bool) {rules : List (List String)}
    (h : ∀ rule ∈ rules, ∃ queueNum, rule = queueRule queueNum) :
    fateBy listening isNew "accept" rules = some .passed ∨
      ∃ num, fateBy listening isNew "accept" rules = some (.queued num) ∧ listening num = true := by
  induction rules with
  | nil => exact .inl rfl
  | cons rule rules ih =>
    obtain ⟨queueNum, rfl⟩ := h rule List.mem_cons_self
    have hrest := ih fun r hr => h r (List.mem_cons_of_mem _ hr)
    cases isNew with
    | false => exact hrest
    | true =>
      have hfate : fateBy listening true "accept" (queueRule queueNum :: rules) =
          if listening (toString queueNum.toNat) then some (.queued (toString queueNum.toNat))
          else some .passed := rfl
      by_cases hlistening : listening (toString queueNum.toNat) = true
      · exact .inr ⟨_, hfate.trans (if_pos hlistening), hlistening⟩
      · exact .inl (hfate.trans (if_neg hlistening))

/-- **Traffic flows**: after any actions of any daemons, whatever fails and whoever is killed,
our table has the chain `output` if it is there at all, and the chain lets a packet pass or
hands it to a program that listens: without one, all packets pass. -/
theorem fails_open (htool : Documented tool) {k : Ruleset} (hk : k.get? ownTable = none)
    {actions : List Action} (hpolite : ∀ a ∈ actions, Polite a)
    (hrun : Runs.run (step tool) (boot k) actions = some h) {t : Table}
    (ht : h.ruleset.get? ownTable = some t) :
    ∃ c, (∀ name, t.get? name = if name = "output" then some c else none) ∧
      ∀ listening isNew, c.fate listening isNew = some .passed ∨
        ∃ num, c.fate listening isNew = some (.queued num) ∧ listening num = true := by
  obtain ⟨v, hshows, hv⟩ := (inv_run htool hk hpolite hrun).table
  cases v with
  | none =>
    rw [ht] at hshows
    cases hshows
  | some rules =>
    obtain ⟨t', ht', hget⟩ := hshows
    cases ht.symm.trans ht'
    exact ⟨_, hget, fun listening isNew => fateBy_queues listening isNew (hv rules rfl)⟩

theorem killed_runs : ∃ h t, Runs.run (step plainNft) (boot .empty) killedActions = some h ∧
    h.ruleset.get? ownTable = some t ∧ h.daemons = [.down] ∧ h.orphans = [] := by
  have hall : ((Runs.run (step plainNft) (boot .empty) killedActions).bind fun h =>
      (h.ruleset.get? ownTable).map fun _ => (h.daemons, h.orphans)) = some ([.down], []) := by
    decide +kernel
  obtain ⟨h, hrun, hh⟩ := Option.bind_eq_some_iff.mp hall
  obtain ⟨t, ht, hfacts⟩ := Option.map_eq_some_iff.mp hh
  obtain ⟨hdaemons, horphans⟩ := Prod.mk.inj hfacts
  exact ⟨h, t, hrun, ht, hdaemons, horphans⟩

/-- The killed daemon leaves a table, through which packets pass. -/
theorem fails_open_killed : ∃ h t c,
    Runs.run (step plainNft) (boot .empty) killedActions = some h ∧
      h.ruleset.get? ownTable = some t ∧ t.get? "output" = some c ∧
        ∀ isNew, c.fate (fun _ => false) isNew = some .passed := by
  obtain ⟨h, t, hrun, ht, -⟩ := killed_runs
  obtain ⟨c, hget, hfate⟩ :=
    fails_open plainNft_exact.documented rfl killedActions_polite hrun ht
  refine ⟨h, t, c, hrun, ht, (hget "output").trans (if_pos rfl), fun isNew => ?_⟩
  rcases hfate (fun _ => false) isNew with hpassed | ⟨num, -, hlistening⟩
  · exact hpassed
  · cases hlistening

/-! ## One daemon, after others -/

/-- The values of the toggles. -/
def toggled (actions : List Action) : List Bool :=
  actions.filterMap fun
    | .toggle _ paused => some paused
    | _ => none

/-- Nothing fails, nobody is killed, and no further daemon is launched. -/
def Calm : Action → Prop
  | .exit _ fault => fault = false
  | .toggle _ _ => True
  | .shutdown _ => True
  | .other f => Respects ownTable f
  | _ => False

/-- What there is of our table, in every phase of a daemon to which nothing happens. -/
def Restored (queueNum : UInt16) (paused : Bool) (values : List Bool) (table : Option Table) :
    Phase → Prop
  | .deleting queueNum' paused' =>
    queueNum' = queueNum ∧ paused' = paused ∧ values = [] ∧ ∃ v, Shows table v
  | .loading queueNum' paused' =>
    queueNum' = queueNum ∧ paused' = paused ∧ values = [] ∧ Shows table none
  | .idle fw => fw = ⟨queueNum⟩ ∧
    Shows table (some (QueueRule.chainOf queueNum (QueueRule.loaded queueNum paused) values))
  | .toggling fw value => fw = ⟨queueNum⟩ ∧ ∃ earlier, values = earlier ++ [value] ∧
    Shows table (some (QueueRule.chainOf queueNum (QueueRule.loaded queueNum paused) earlier))
  | .removing => ∃ rules, Shows table (some rules)
  | .down => Shows table none

/-- A run of nft that has no reason to fail does what it should, or nothing where it should. -/
theorem exec_exact (htool : Exact tool) {p : Phase} {text : String} (hcall : p.call = some text)
    {k : Ruleset} {v : Nft} (hshows : Shows (k.get? ownTable) v) :
    (exec tool text false k).1 = (p.edit v).isSome ∧
      Shows ((exec tool text false k).2.get? ownTable) ((p.edit v).getD v) := by
  have hperforms := Phase.performs_call hcall
  have hexact := hperforms.exact htool hshows
  cases hrun : tool text k with
  | none =>
    have hexec : exec tool text false k = (false, k) := by simp [exec, hrun]
    rw [hrun] at hexact
    rw [hexec, Option.isSome_eq_false_iff.mp hexact.symm |> Option.isNone_iff_eq_none.mp]
    exact ⟨rfl, hshows⟩
  | some k' =>
    have hexec : exec tool text false k = (true, k') := by simp [exec, hrun]
    obtain ⟨v', hv', hshows'⟩ := hperforms.shows htool.documented hshows hrun
    rw [hexec, hv']
    exact ⟨rfl, hshows'⟩

variable {queueNum : UInt16} {paused : Bool} {values : List Bool} {k : Ruleset} {p : Phase}

/-- When nft exits. -/
theorem Restored.exit (htool : Exact tool) {text : String} (hcall : p.call = some text)
    (h₀ : Restored queueNum paused values (k.get? ownTable) p) :
    Restored queueNum paused values ((exec tool text false k).2.get? ownTable)
      (p.next (exec tool text false k).1) := by
  cases p with
  | deleting queueNum' paused' =>
    obtain ⟨rfl, rfl, hvalues, v, hshows⟩ := h₀
    refine ⟨rfl, rfl, hvalues, ?_⟩
    have hexec := (exec_exact htool hcall hshows).2
    cases v with
    | none => exact hexec
    | some rules => exact hexec
  | loading queueNum' paused' =>
    obtain ⟨rfl, rfl, rfl, hshows⟩ := h₀
    obtain ⟨hsuccess, hexec⟩ := exec_exact htool hcall hshows
    rw [hsuccess]
    refine ⟨rfl, ?_⟩
    cases paused' <;> exact hexec
  | idle fw => cases hcall
  | toggling fw value =>
    obtain ⟨rfl, earlier, rfl, hshows⟩ := h₀
    refine ⟨rfl, ?_⟩
    have hexec := (exec_exact htool hcall hshows).2
    rw [QueueRule.chainOf, List.foldl_append]
    cases value <;> exact hexec
  | removing =>
    obtain ⟨rules, hshows⟩ := h₀
    exact (exec_exact htool hcall hshows).2
  | down => cases hcall

/-- What every calm action keeps, after a daemon has been launched. -/
structure Alone (queueNum : UInt16) (paused : Bool) (gone : List Phase) (actions : List Action)
    (h : Host) : Prop where
  orphans : h.orphans = []
  daemon : ∃ p, h.daemons = gone ++ [p] ∧
    Restored queueNum paused (toggled actions) (h.ruleset.get? ownTable) p

theorem toggled_snoc (actions : List Action) (a : Action) :
    toggled (actions ++ [a]) = toggled actions ++ toggled [a] := List.filterMap_append

/-- Only the last daemon does anything. -/
theorem daemon_eq {gone daemons : List Phase} (hgone : ∀ p ∈ gone, p = .down)
    (hdaemons : daemons = gone ++ [p]) {i : Nat} {p' : Phase} (hp' : daemons[i]? = some p')
    (hup : p' ≠ .down) : p' = p ∧ ∀ q, daemons.set i q = gone ++ [q] := by
  subst hdaemons
  rcases Nat.lt_trichotomy i gone.length with hi | rfl | hi
  · rw [List.getElem?_append_left hi] at hp'
    exact absurd (hgone p' (List.mem_of_getElem? hp')) hup
  · simp at hp'
    simp [hp']
  · have hlen : (gone ++ [p]).length ≤ i := by
      rw [List.length_append]
      exact hi
    rw [List.getElem?_eq_none hlen] at hp'
    cases hp'

theorem alone_step (htool : Exact tool) {gone : List Phase} (hgone : ∀ p ∈ gone, p = .down)
    {actions : List Action} (h₀ : Alone queueNum paused gone actions h) (ha : Calm a)
    (hstep : step tool h a = some h') : Alone queueNum paused gone (actions ++ [a]) h' := by
  obtain ⟨p, hdaemons, hp⟩ := h₀.daemon
  cases a with
  | launch queueNum' paused' => exact ha.elim
  | exit i fault =>
    obtain ⟨p', hp', hrest⟩ := Option.bind_eq_some_iff.mp hstep
    obtain ⟨text, hcall, rfl⟩ := Option.map_eq_some_iff.mp hrest
    have hup : p' ≠ .down := by
      rintro rfl
      cases hcall
    obtain ⟨rfl, hset⟩ := daemon_eq hgone hdaemons hp' hup
    obtain rfl : fault = false := ha
    refine ⟨h₀.orphans, p'.next (exec tool text false h.ruleset).1, hset _, ?_⟩
    rw [toggled_snoc, show toggled [.exit i false] = [] from rfl, List.append_nil]
    exact hp.exit htool hcall
  | toggle i value =>
    simp only [step] at hstep
    split at hstep <;> cases hstep
    rename_i fw hp'
    obtain ⟨rfl, hset⟩ := daemon_eq hgone hdaemons hp' (by simp)
    exact ⟨h₀.orphans, .toggling fw value, hset _, hp.1, toggled actions, toggled_snoc _ _, hp.2⟩
  | shutdown i =>
    simp only [step] at hstep
    split at hstep <;> cases hstep
    rename_i fw hp'
    obtain ⟨rfl, hset⟩ := daemon_eq hgone hdaemons hp' (by simp)
    exact ⟨h₀.orphans, .removing, hset _, _, hp.2⟩
  | kill i => exact ha.elim
  | orphan j fault => exact ha.elim
  | other f =>
    obtain ⟨k', hk', rfl⟩ := Option.map_eq_some_iff.mp hstep
    obtain ⟨hown, -⟩ := ha h.ruleset h.ruleset (agreeOff_refl ownTable _) k' hk'
    refine ⟨h₀.orphans, p, hdaemons, ?_⟩
    rw [toggled_snoc, show toggled [.other f] = [] from rfl, List.append_nil]
    exact hown ▸ hp

/-- **The chain is restored**: whatever earlier daemons have left, killed or not, when nothing of
theirs runs any more, a daemon to which nothing happens has its chain as its toggles make it from
a fresh one, and takes its table with it. -/
theorem chain_restored (htool : Exact tool) (hk : k.get? ownTable = none) {before : List Action}
    (hbefore : ∀ a ∈ before, Polite a) {h₀ : Host}
    (hrun₀ : Runs.run (step tool) (boot k) before = some h₀)
    (hgone : ∀ p ∈ h₀.daemons, p = .down) (hquiet : h₀.orphans = []) {actions : List Action}
    (hcalm : ∀ a ∈ actions, Calm a)
    (hrun : Runs.run (step tool) h₀ (.launch queueNum paused :: actions) = some h) :
    ∃ p, h.daemons = h₀.daemons ++ [p] ∧
      (∀ fw, p = .idle fw → fw = ⟨queueNum⟩ ∧ ∃ t, h.ruleset.get? ownTable = some t ∧
        ∀ name, t.get? name =
          if name = "output" then
            some ⟨outputHook, "accept", QueueRule.chainOf queueNum
              (QueueRule.loaded queueNum paused) (toggled actions)⟩
          else none) ∧
      (p = .down → h.ruleset.get? ownTable = none) := by
  obtain ⟨m, hlaunch, hrest⟩ := Runs.run_cons_eq_some.mp hrun
  cases hlaunch
  obtain ⟨v, hshows, -⟩ := (inv_run htool.documented hk hbefore hrun₀).table
  have hfirst : Alone queueNum paused h₀.daemons []
      { h₀ with daemons := h₀.daemons ++ [.deleting queueNum paused] } :=
    ⟨hquiet, _, rfl, rfl, rfl, rfl, v, hshows⟩
  obtain ⟨-, p, hdaemons, hp⟩ := Runs.run_history
    (I := fun tr h => (∀ a ∈ tr, Calm a) → Alone queueNum paused h₀.daemons tr h)
    (fun _ => hfirst) (fun _ hinv hstep hcalm =>
      alone_step htool hgone (hinv fun a ha => hcalm a (List.mem_append_left _ ha))
        (hcalm _ (List.mem_append_right _ (List.mem_singleton_self _))) hstep) hrest hcalm
  refine ⟨p, hdaemons, ?_, ?_⟩
  · rintro fw rfl
    exact hp
  · rintro rfl
    exact hp

/-- Another daemon is launched, paused and resumed. -/
def resumedActions : List Action :=
  [.exit 1 false, .exit 1 false, .toggle 1 true, .exit 1 false, .toggle 1 false, .exit 1 false]

/-- It has one queue rule. -/
theorem chain_restored_killed : ∃ h₀ h t,
    Runs.run (step plainNft) (boot .empty) killedActions = some h₀ ∧
      Runs.run (step plainNft) h₀ (.launch 0 false :: resumedActions) = some h ∧
      h.ruleset.get? ownTable = some t ∧
      t.get? "output" = some ⟨outputHook, "accept", [queueRule 0]⟩ := by
  obtain ⟨h₀, -, hrun₀, -, hgone, hquiet⟩ := killed_runs
  have hall : ((Runs.run (step plainNft) (boot .empty) killedActions).bind fun h₀ =>
      Runs.run (step plainNft) h₀ (.launch 0 false :: resumedActions)).map Host.daemons =
        some [.down, .idle ⟨0⟩] := by
    decide +kernel
  rw [hrun₀, Option.bind_some] at hall
  obtain ⟨h, hrun, hdaemons⟩ := Option.map_eq_some_iff.mp hall
  obtain ⟨p, hp, hidle, -⟩ := chain_restored plainNft_exact rfl killedActions_polite hrun₀
    (by simp [hgone]) hquiet (by simp [resumedActions, Calm]) hrun
  have hlast : p = .idle ⟨0⟩ := by simpa [hgone, hdaemons] using hp.symm
  obtain ⟨-, t, ht, hget⟩ := hidle _ hlast
  exact ⟨h₀, h, t, hrun₀, hrun, ht, hget "output"⟩

end OwnTable

end TravelMode
