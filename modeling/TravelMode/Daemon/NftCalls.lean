import TravelMode.Daemon.Firewall
import TravelMode.Lib.NftText

/-!
# What nft is given (`daemon/src/firewall.rs`)

The daemon edits the ruleset by running `nft`, with a command as its arguments or with a script
on its standard input. nft joins its arguments with spaces, so that it reads a text in both
cases.

- `tableScript`, `deleteCall`, `pauseCall`, `resumeCall`: the texts.
- `parse_tableScript` and its siblings: the commands that they are.
- `Performs`: all of them name our table, and do to it what `setup`, `pause` and `resume` do to
  the `Nft` of `Daemon/Firewall`.
- `NftTool`: the program itself, which may fail.
-/

namespace TravelMode

open Nftables

/-! ## Texts -/

/-- `FAMILY` and `TABLE`. -/
def ownTable : TableId := ⟨"inet", "travelmode"⟩

/-- `table_script`. -/
def tableScript (withQueueRule : Bool) (queueNum : UInt16) : String :=
  let rule :=
    if withQueueRule then
      "\n        ct state new queue num " ++ toString queueNum.toNat ++ " bypass"
    else ""
  "table inet travelmode \x7b\n    chain output \x7b\n" ++
    "        type filter hook output priority 0; policy accept;" ++ rule ++ "\n    \x7d\n\x7d\n"

/-- The call that removes the table, in `setup` and in `teardown`. -/
def deleteCall : String := spaced ["delete", "table", "inet", "travelmode"]

namespace Firewall

/-- The call of `Firewall::pause`. -/
def pauseCall (_ : Firewall) : String :=
  spaced ["flush", "chain", "inet", "travelmode", "output"]

/-- The call of `Firewall::resume`. -/
def resumeCall (fw : Firewall) : String :=
  spaced (["add", "rule", "inet", "travelmode", "output"] ++ queueRule fw.queueNum)

/-- The call of a toggle. -/
def toggleCall (fw : Firewall) (paused : Bool) : String :=
  if paused then fw.pauseCall else fw.resumeCall

end Firewall

/-! ## Their commands -/

/-- The chain as `table_script` writes it. -/
def outputBlock (rules : List Statement) : ChainBlock :=
  ⟨"output", ["filter", "hook", "output", "priority", "0"], "accept", rules⟩

/-- The hook of the chain. -/
def outputHook : Statement := ["type", "filter", "hook", "output", "priority", "0"]

/-- The rules of the script. -/
def scriptRules (withQueueRule : Bool) (queueNum : UInt16) : List Statement :=
  if withQueueRule then [queueRule queueNum] else []

theorem isWord_number (n : UInt16) : IsWord (toString n.toNat) := by
  have hchars : (toString n.toNat).toList = Nat.toDigits 10 n.toNat := by
    simp [Nat.repr]
  refine ⟨fun hnil => ?_, List.all_eq_true.mpr fun c hc => ?_⟩
  · rw [hnil] at hchars
    exact Nat.toDigits_ne_nil hchars.symm
  · rw [hchars] at hc
    have hdigit := Nat.isDigit_of_mem_toDigits (by decide) (by decide) hc
    simp [isWordChar, Char.isAlphanum, hdigit]

theorem isWord_queueRule (n : UInt16) : ∀ w ∈ queueRule n, IsWord w := by
  simp only [queueRule, List.forall_mem_cons]
  have hfixed : ∀ w ∈ ["ct", "state", "new", "queue", "num", "bypass"], IsWord w := by
    decide +kernel
  simp only [List.forall_mem_cons] at hfixed
  obtain ⟨hct, hstate, hnew, hqueue, hnum, hbypass, -⟩ := hfixed
  exact ⟨hct, hstate, hnew, hqueue, hnum, isWord_number n, hbypass, List.forall_mem_nil _⟩

theorem outputBlock_ok (withQueueRule : Bool) (queueNum : UInt16) :
    (outputBlock (scriptRules withQueueRule queueNum)).Ok where
  words := show ∀ w ∈ ["output", "accept", "filter", "hook", "output", "priority", "0"], IsWord w by
    decide +kernel
  rules rule hrule := by
    cases withQueueRule with
    | false => cases hrule
    | true =>
      rw [List.mem_singleton.mp hrule]
      exact ⟨List.cons_ne_nil _ _, by simp [queueRule], by simp [queueRule],
        isWord_queueRule queueNum⟩

theorem spaced_queueRule (n : UInt16) :
    spaced (queueRule n) = "ct state new queue num " ++ toString n.toNat ++ " bypass" := by
  have hwords : "ct state new queue num " =
      "ct" ++ " " ++ "state" ++ " " ++ "new" ++ " " ++ "queue" ++ " " ++ "num" ++ " " := by
    decide +kernel
  have hlast : " bypass" = " " ++ "bypass" := by decide +kernel
  rw [hwords, hlast, ← String.append_assoc]
  rfl

/-- The text of the chain, around its rules. -/
theorem text_outputBlock (rules : List Statement) :
    (outputBlock rules).text =
      "    chain output \x7b\n        type filter hook output priority 0; policy accept;" ++
        String.join (rules.map fun rule => "\n        " ++ spaced rule) ++ "\n    \x7d\n" := by
  have hhead : "    chain output \x7b\n        type filter hook output priority 0; policy accept;" =
      "    " ++ spaced ["chain", "output"] ++ " \x7b\n        " ++ spaced outputHook ++ "; " ++
        spaced ["policy", "accept"] ++ ";" := by
    decide +kernel
  rw [hhead]
  rfl

theorem append_around {s t t' u u' v : String} (hs : s = t ++ t') (hv : v = u ++ u')
    (rule : String) : s ++ rule ++ v = t ++ (t' ++ rule ++ u) ++ u' := by
  rw [hs, hv]
  simp only [String.append_assoc]

/-- The script is a table that is written out. -/
theorem tableScript_eq (withQueueRule : Bool) (queueNum : UInt16) :
    tableScript withQueueRule queueNum =
      tableText ownTable [outputBlock (scriptRules withQueueRule queueNum)] := by
  have hline : "\n        ct state new queue num " = "\n        " ++ "ct state new queue num " := by
    decide +kernel
  have hrule : (if withQueueRule then
        "\n        ct state new queue num " ++ toString queueNum.toNat ++ " bypass" else "") =
      String.join ((scriptRules withQueueRule queueNum).map fun rule =>
        "\n        " ++ spaced rule) := by
    cases withQueueRule with
    | false => rfl
    | true =>
      rw [if_pos rfl, scriptRules, if_pos rfl, List.map_singleton, String.join_cons,
        String.join_nil, String.append_empty, spaced_queueRule, hline]
      simp only [String.append_assoc]
  have htable : "table inet travelmode \x7b\n    chain output \x7b\n" ++
      "        type filter hook output priority 0; policy accept;" =
      spaced ["table", "inet", "travelmode"] ++ " \x7b\n" ++
        "    chain output \x7b\n        type filter hook output priority 0; policy accept;" := by
    decide +kernel
  have htail : "\n    \x7d\n\x7d\n" = "\n    \x7d\n" ++ "\x7d\n" := by decide +kernel
  rw [tableText, List.map_singleton, String.join_cons, String.join_nil, String.append_empty,
    text_outputBlock, ← hrule]
  exact append_around htable htail _

theorem parse_tableScript (withQueueRule : Bool) (queueNum : UInt16) :
    parse (tableScript withQueueRule queueNum) =
      some (tableCmds ownTable [outputBlock (scriptRules withQueueRule queueNum)]) := by
  rw [tableScript_eq]
  refine parse_text (by decide +kernel) (by decide +kernel) fun b hb => ?_
  rw [List.mem_singleton.mp hb]
  exact outputBlock_ok withQueueRule queueNum

theorem parse_deleteCall : parse deleteCall = some [⟨ownTable, .deleteTable⟩] :=
  parse_spaced (by decide +kernel) rfl

theorem parse_pauseCall (fw : Firewall) :
    parse fw.pauseCall = some [⟨ownTable, .flushChain "output"⟩] :=
  parse_spaced (by decide +kernel) rfl

theorem parse_resumeCall (fw : Firewall) :
    parse fw.resumeCall = some [⟨ownTable, .addRule "output" (queueRule fw.queueNum)⟩] := by
  refine parse_spaced (fun w hw => ?_) rfl
  rcases List.mem_append.mp hw with hw | hw
  · have hfixed : ∀ w ∈ ["add", "rule", "inet", "travelmode", "output"], IsWord w := by
      decide +kernel
    exact hfixed w hw
  · exact isWord_queueRule fw.queueNum w hw

/-! ## What the commands do -/

/-- The ruleset has of our table what the `Nft` says. -/
def Shows (table : Option Table) : Nft → Prop
  | none => table = none
  | some rules => Sole "output" ⟨outputHook, "accept", rules⟩ table

/-- The text is about our table alone, and edits it as `f` does the `Nft`. -/
def Performs (text : String) (f : Nft → Option Nft) : Prop :=
  ∃ cmds, parse text = some cmds ∧ (∀ cmd ∈ cmds, cmd.table = ownTable) ∧
    ∀ table k, Shows table k →
      match f k with
      | some k' => ∃ table', applyAll (cmds.map Cmd.edit) table = some table' ∧ Shows table' k'
      | none => applyAll (cmds.map Cmd.edit) table = none

/-- The script, in a kernel that may have our table. -/
def addTableScript (withQueueRule : Bool) (queueNum : UInt16) (k : Nft) : Option Nft :=
  some (some (k.getD [] ++ scriptRules withQueueRule queueNum))

theorem performs_tableScript (withQueueRule : Bool) (queueNum : UInt16) :
    Performs (tableScript withQueueRule queueNum) (addTableScript withQueueRule queueNum) := by
  refine ⟨_, parse_tableScript withQueueRule queueNum, fun cmd => tableCmds_table, ?_⟩
  rintro table (- | rules) hshows
  · subst hshows
    exact applyAll_new ownTable (outputBlock (scriptRules withQueueRule queueNum))
  · exact applyAll_again (b := outputBlock (scriptRules withQueueRule queueNum)) ownTable hshows rfl

theorem performs_deleteCall :
    Performs deleteCall (nft ["delete", "table", "inet", "travelmode"]) := by
  refine ⟨_, parse_deleteCall, by simp, ?_⟩
  rintro table (- | rules) hshows
  · subst hshows
    rfl
  · obtain ⟨t, rfl, -⟩ := hshows
    exact ⟨none, rfl, rfl⟩

/-- A command on the chain, which the table has to have. -/
theorem performs_onChain {text : String} {e : Edit} {f : Chain → Chain} {g : Nft → Option Nft}
    (hparse : parse text = some [⟨ownTable, e⟩])
    (he : ∀ table, e.apply table = onChain "output" (fun c => some (f c)) table)
    (hf : ∀ rules, g (some rules) = some (some (f ⟨outputHook, "accept", rules⟩).rules) ∧
      f ⟨outputHook, "accept", rules⟩ =
        ⟨outputHook, "accept", (f ⟨outputHook, "accept", rules⟩).rules⟩)
    (hg : g none = none) : Performs text g := by
  refine ⟨_, hparse, by simp, ?_⟩
  rintro table (- | rules) hshows
  · subst hshows
    rw [hg]
    simp [he, onChain]
  · obtain ⟨hgrules, hchain⟩ := hf rules
    obtain ⟨table', htable, hsole⟩ := Sole.onChain hshows (f := fun c => some (f c)) rfl
    rw [hgrules]
    refine ⟨table', applyAll_step ((he table).trans htable) rfl, ?_⟩
    rw [hchain] at hsole
    exact hsole

theorem performs_pauseCall (fw : Firewall) : Performs fw.pauseCall fw.pause :=
  performs_onChain (parse_pauseCall fw) (fun _ => rfl) (fun _ => ⟨rfl, rfl⟩) rfl

theorem performs_resumeCall (fw : Firewall) : Performs fw.resumeCall fw.resume :=
  performs_onChain (parse_resumeCall fw) (fun _ => rfl) (fun _ => ⟨rfl, rfl⟩) rfl

/-! ## The program -/

/-- nft: what it makes of a text and the ruleset, `none` when it exits with an error. -/
abbrev NftTool := String → Ruleset → Option Ruleset

/-- nft does what the text says, or nothing. It may fail for reasons of its own. -/
def Documented (tool : NftTool) : Prop :=
  ∀ text cmds k k', parse text = some cmds → tool text k = some k' → runAll k cmds = some k'

/-- And has no such reason. -/
def Exact (tool : NftTool) : Prop :=
  ∀ text cmds k, parse text = some cmds → tool text k = runAll k cmds

theorem Exact.documented {tool : NftTool} (h : Exact tool) : Documented tool :=
  fun text cmds k _ hparse hrun => (h text cmds k hparse).symm.trans hrun

/-- nft as far as `parse` reads its texts. -/
def plainNft : NftTool := fun text k => (parse text).bind fun cmds => runAll k cmds

theorem plainNft_exact : Exact plainNft := by
  intro text cmds k hparse
  simp [plainNft, hparse]

variable {tool : NftTool} {text : String} {f : Nft → Option Nft} {k k' : Ruleset}

/-- What a run of nft does for us leaves the other tables alone. -/
theorem Performs.frame (h : Performs text f) (htool : Documented tool)
    (hrun : tool text k = some k') : AgreeOff ownTable k' k := by
  obtain ⟨cmds, hparse, hown, -⟩ := h
  exact runAll_frame hown (htool text cmds k k' hparse hrun)

/-- And does to ours what it should. -/
theorem Performs.shows (h : Performs text f) (htool : Documented tool) {v : Nft}
    (hshows : Shows (k.get? ownTable) v) (hrun : tool text k = some k') :
    ∃ v', f v = some v' ∧ Shows (k'.get? ownTable) v' := by
  obtain ⟨cmds, hparse, hown, hf⟩ := h
  obtain ⟨happly, -⟩ := runAll_eq_some hown (htool text cmds k k' hparse hrun)
  have hspec := hf _ v hshows
  cases hv : f v with
  | none =>
    rw [hv, happly] at hspec
    cases hspec
  | some v' =>
    rw [hv] at hspec
    obtain ⟨table', happly', hshows'⟩ := hspec
    cases happly.symm.trans happly'
    exact ⟨v', rfl, hshows'⟩

/-- A run of nft that has no reason to fail fails where it should. -/
theorem Performs.exact (h : Performs text f) (htool : Exact tool) {v : Nft}
    (hshows : Shows (k.get? ownTable) v) : (tool text k).isSome = (f v).isSome := by
  obtain ⟨cmds, hparse, hown, hf⟩ := h
  rw [htool text cmds k hparse]
  have hspec := hf _ v hshows
  cases hv : f v with
  | none =>
    rw [hv] at hspec
    cases hrun : runAll k cmds with
    | none => rfl
    | some _ =>
      obtain ⟨happly, -⟩ := runAll_eq_some hown hrun
      rw [hspec] at happly
      cases happly
  | some v' =>
    rw [hv] at hspec
    obtain ⟨table', happly, -⟩ := hspec
    obtain ⟨k', hrun, -⟩ := runAll_of_applyAll hown happly
    rw [hrun]
    rfl

end TravelMode
