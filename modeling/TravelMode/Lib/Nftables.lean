import TravelMode.Lib.KeyedMap

/-!
# Rulesets and the commands that edit them

The packet filter of the kernel as nft shows it: tables of chains of rules, shared by all
programs of a host. A program with a table of its own needs few commands, and each of them
names its table.

- `Edit.apply`: what a command does to the table that it names. That it does nothing else is
  how `Cmd.run` is defined, from the contents of that table alone.
- `runAll`: the commands of one text, all of them or none.
- `runAll_frame` and `runAll_agree`: other tables stay as they are; and what they are makes no
  difference.
- `Chain.fate`: where a chain sends a packet.
-/

namespace Nftables

/-- A table: its address family and its name. -/
structure TableId where
  family : String
  name : String
deriving DecidableEq

/-- A statement as its words. -/
abbrev Statement := List String

/-- A chain: where it is hooked in (nothing, for a chain that is only jumped to), what becomes
of packets that no rule decides about, and its rules. -/
structure Chain where
  hook : Statement
  policy : String
  rules : List Statement
deriving DecidableEq

/-- As chains are made. -/
def Chain.fresh : Chain := ⟨[], "accept", []⟩

abbrev Table := KeyedMap String Chain

abbrev Ruleset := KeyedMap TableId Table

/-- An edit of a table. -/
inductive Edit where
  | deleteTable
  /-- The table need not be new. -/
  | addTable
  /-- Nor need the chain. -/
  | addChain (chain : String)
  | setHook (chain : String) (hook : Statement)
  | setPolicy (chain : String) (policy : String)
  | addRule (chain : String) (rule : Statement)
  | flushChain (chain : String)
deriving DecidableEq

/-- A command names a table and edits it. -/
structure Cmd where
  table : TableId
  edit : Edit
deriving DecidableEq

/-! ## What commands do -/

/-- Edit a chain that has to be there. -/
def onChain (chain : String) (f : Chain → Option Chain) (table : Option Table) :
    Option (Option Table) :=
  table.bind fun t => (t.get? chain).bind fun c => (f c).map fun c' => some (t.insert chain c')

/-- What becomes of the table (`none` in it: there is no such table), or that the edit is
refused. A chain is not moved from one hook to another. -/
def Edit.apply : Edit → Option Table → Option (Option Table)
  | .deleteTable, table => table.map fun _ => none
  | .addTable, table => some (some (table.getD .empty))
  | .addChain chain, table =>
    table.map fun t => some (t.insert chain ((t.get? chain).getD .fresh))
  | .setHook chain hook, table =>
    onChain chain
      (fun c => if c.hook = [] ∨ c.hook = hook then some { c with hook := hook } else none) table
  | .setPolicy chain policy, table =>
    onChain chain (fun c => some { c with policy := policy }) table
  | .addRule chain rule, table =>
    onChain chain (fun c => some { c with rules := c.rules ++ [rule] }) table
  | .flushChain chain, table => onChain chain (fun c => some { c with rules := [] }) table

/-- The ruleset with other contents of a table. -/
def put (k : Ruleset) (id : TableId) : Option Table → Ruleset
  | none => k.erase id
  | some table => k.insert id table

theorem get?_put (k : Ruleset) (id : TableId) (table : Option Table) (id' : TableId) :
    (put k id table).get? id' = if id' = id then table else k.get? id' := by
  cases table with
  | none => exact k.get?_erase id id'
  | some table => exact k.get?_insert id table id'

/-- Run a command; `none` when it is refused. -/
def Cmd.run (k : Ruleset) (cmd : Cmd) : Option Ruleset :=
  (cmd.edit.apply (k.get? cmd.table)).map fun table => put k cmd.table table

/-- Run the commands of one text, all of them or none. -/
def runAll (k : Ruleset) (cmds : List Cmd) : Option Ruleset := cmds.foldlM Cmd.run k

@[simp] theorem runAll_nil (k : Ruleset) : runAll k [] = some k := rfl

@[simp] theorem runAll_cons (k : Ruleset) (cmd : Cmd) (cmds : List Cmd) :
    runAll k (cmd :: cmds) = (cmd.run k).bind fun k' => runAll k' cmds := rfl

/-- The edits of one table, one after the other. -/
def applyAll (edits : List Edit) (table : Option Table) : Option (Option Table) :=
  edits.foldlM (fun t e => e.apply t) table

@[simp] theorem applyAll_nil (table : Option Table) : applyAll [] table = some table := rfl

@[simp] theorem applyAll_cons (e : Edit) (es : List Edit) (table : Option Table) :
    applyAll (e :: es) table = (e.apply table).bind fun t => applyAll es t := rfl

theorem applyAll_step {e : Edit} {es : List Edit} {table t t' : Option Table}
    (h : e.apply table = some t) (h' : applyAll es t = some t') :
    applyAll (e :: es) table = some t' := by
  rw [applyAll_cons, h]
  exact h'

/-! ## Commands on one table -/

/-- Rulesets that differ in this table at most. -/
def AgreeOff (own : TableId) (k k' : Ruleset) : Prop := ∀ id, id ≠ own → k.get? id = k'.get? id

theorem agreeOff_refl (own : TableId) (k : Ruleset) : AgreeOff own k k := fun _ _ => rfl

theorem AgreeOff.trans {own : TableId} {k₁ k₂ k₃ : Ruleset} (h : AgreeOff own k₁ k₂)
    (h' : AgreeOff own k₂ k₃) : AgreeOff own k₁ k₃ :=
  fun id hid => (h id hid).trans (h' id hid)

/-- The named table becomes what the edit makes of it, and the others stay as they are. -/
theorem run_eq_some {k k' : Ruleset} {cmd : Cmd} (h : cmd.run k = some k') :
    cmd.edit.apply (k.get? cmd.table) = some (k'.get? cmd.table) ∧ AgreeOff cmd.table k' k := by
  obtain ⟨table, htable, rfl⟩ := Option.map_eq_some_iff.mp h
  refine ⟨?_, fun id hid => ?_⟩
  · rw [get?_put, if_pos rfl]
    exact htable
  · rw [get?_put, if_neg hid]

/-- So do they with all commands of a text that are about one table. -/
theorem runAll_eq_some {own : TableId} {cmds : List Cmd} (hown : ∀ cmd ∈ cmds, cmd.table = own)
    {k k' : Ruleset} (h : runAll k cmds = some k') :
    applyAll (cmds.map Cmd.edit) (k.get? own) = some (k'.get? own) ∧ AgreeOff own k' k := by
  induction cmds generalizing k with
  | nil =>
    cases h
    exact ⟨rfl, agreeOff_refl own _⟩
  | cons cmd cmds ih =>
    obtain ⟨m, hm, hrest⟩ := Option.bind_eq_some_iff.mp h
    obtain ⟨hedit, hoff⟩ := run_eq_some hm
    obtain ⟨hedits, hoff'⟩ := ih (fun c hc => hown c (List.mem_cons_of_mem _ hc)) hrest
    rw [hown cmd List.mem_cons_self] at hedit hoff
    refine ⟨?_, hoff'.trans hoff⟩
    rw [List.map_cons, applyAll_cons, hedit]
    exact hedits

/-- **Frame**: the tables that no command names stay as they are. -/
theorem runAll_frame {own : TableId} {cmds : List Cmd} (hown : ∀ cmd ∈ cmds, cmd.table = own)
    {k k' : Ruleset} (h : runAll k cmds = some k') : AgreeOff own k' k :=
  (runAll_eq_some hown h).2

/-- Edits that go through for the table go through. -/
theorem runAll_of_applyAll {own : TableId} {cmds : List Cmd} (hown : ∀ cmd ∈ cmds, cmd.table = own)
    {k : Ruleset} {table : Option Table}
    (h : applyAll (cmds.map Cmd.edit) (k.get? own) = some table) :
    ∃ k', runAll k cmds = some k' ∧ k'.get? own = table := by
  induction cmds generalizing k with
  | nil => exact ⟨_, rfl, Option.some.inj h⟩
  | cons cmd cmds ih =>
    rw [List.map_cons, applyAll_cons] at h
    obtain ⟨t, ht, hrest⟩ := Option.bind_eq_some_iff.mp h
    have hput : (put k own t).get? own = t := by rw [get?_put, if_pos rfl]
    rw [← hput] at hrest
    obtain ⟨k', hk', htable⟩ := ih (fun c hc => hown c (List.mem_cons_of_mem _ hc)) hrest
    refine ⟨k', ?_, htable⟩
    rw [runAll_cons, Cmd.run, hown cmd List.mem_cons_self, ht]
    exact hk'

/-- A program that has nothing to do with a table: it leaves the table alone, and does to the
others what it would do whatever the table held. -/
def Respects (own : TableId) (f : Ruleset → Option Ruleset) : Prop :=
  ∀ k k₀, AgreeOff own k k₀ → ∀ k', f k = some k' →
    k'.get? own = k.get? own ∧ ∃ k₀', f k₀ = some k₀' ∧ AgreeOff own k' k₀'

/-- Commands that name other tables are such a program. -/
theorem respects_run {own : TableId} {cmd : Cmd} (hother : cmd.table ≠ own) :
    Respects own cmd.run := by
  intro k k₀ hoff k' hrun
  obtain ⟨table, htable, rfl⟩ := Option.map_eq_some_iff.mp hrun
  refine ⟨?_, put k₀ cmd.table table, ?_, fun id hid => ?_⟩
  · rw [get?_put, if_neg hother.symm]
  · show (cmd.edit.apply (k₀.get? cmd.table)).map _ = _
    rw [← hoff cmd.table hother, htable]
    rfl
  · rw [get?_put, get?_put, hoff id hid]

/-! ## Tables with one chain -/

/-- The table has this chain, and no other. -/
def Sole (chain : String) (c : Chain) (table : Option Table) : Prop :=
  ∃ t, table = some t ∧ ∀ name, t.get? name = if name = chain then some c else none

variable {chain : String} {c c' : Chain} {table : Option Table}

theorem sole_insert {t : Table} (h : ∀ name, name ≠ chain → t.get? name = none) :
    Sole chain c (some (t.insert chain c)) := by
  refine ⟨_, rfl, fun name => ?_⟩
  rw [KeyedMap.get?_insert]
  split
  · rfl
  · exact h name ‹_›

/-- The chain is edited. -/
theorem Sole.onChain (h : Sole chain c table) {f : Chain → Option Chain} (hf : f c = some c') :
    ∃ table', Nftables.onChain chain f table = some table' ∧ Sole chain c' table' := by
  obtain ⟨t, rfl, hget⟩ := h
  refine ⟨some (t.insert chain c'), ?_, sole_insert fun name hname => ?_⟩
  · have hchain : t.get? chain = some c := (hget chain).trans (if_pos rfl)
    simp [Nftables.onChain, hchain, hf]
  · rw [hget, if_neg hname]

theorem sole_addChain (chain : String) :
    ∃ table, (Edit.addChain chain).apply (some .empty) = some table ∧ Sole chain .fresh table :=
  ⟨_, rfl, sole_insert fun _ _ => rfl⟩

/-- A chain that is there need not be added. -/
theorem Sole.addChain (h : Sole chain c table) :
    ∃ table', (Edit.addChain chain).apply table = some table' ∧ Sole chain c table' := by
  obtain ⟨t, rfl, hget⟩ := h
  have hchain : t.get? chain = some c := (hget chain).trans (if_pos rfl)
  refine ⟨some (t.insert chain c), ?_, sole_insert fun name hname => ?_⟩
  · simp [Edit.apply, hchain]
  · rw [hget, if_neg hname]

/-- Rules are added one after the other. -/
theorem Sole.addRules (h : Sole chain c table) (rules : List Statement) :
    ∃ table', applyAll (rules.map (.addRule chain)) table = some table' ∧
      Sole chain { c with rules := c.rules ++ rules } table' := by
  induction rules generalizing c table with
  | nil => exact ⟨table, rfl, by simpa using h⟩
  | cons rule rules ih =>
    obtain ⟨t, ht, hsole⟩ :=
      h.onChain (f := fun c => some { c with rules := c.rules ++ [rule] }) rfl
    obtain ⟨t', ht', hsole'⟩ := ih hsole
    exact ⟨t', applyAll_step ht ht', by simpa using hsole'⟩

/-! ## Packets -/

/-- What a chain does with a packet. -/
inductive Fate where
  | passed
  | dropped
  /-- Left to the program that listens on the queue. -/
  | queued (num : String)
deriving DecidableEq

/-- Where the chain sends a packet, with programs listening on some queues; `none` when a rule
is of another kind. A queue without a program swallows packets, unless it is to be bypassed. -/
def fateBy (listening : String → Bool) (isNew : Bool) (policy : String) :
    List Statement → Option Fate
  | [] => some (if policy = "accept" then .passed else .dropped)
  | ["ct", "state", "new", "queue", "num", num] :: rules =>
    if !isNew then fateBy listening isNew policy rules
    else if listening num then some (.queued num) else some .dropped
  | ["ct", "state", "new", "queue", "num", num, "bypass"] :: rules =>
    if !isNew then fateBy listening isNew policy rules
    else if listening num then some (.queued num) else some .passed
  | _ => none

def Chain.fate (c : Chain) (listening : String → Bool) (isNew : Bool) : Option Fate :=
  fateBy listening isNew c.policy c.rules

end Nftables
