import TravelMode.Lib.Nftables
import TravelMode.Lib.TextScan

/-!
# The text of commands

What nft reads is text: one command on a line, as its arguments are, or a script in which
tables are written out as blocks. `parse` reads both, as far as the commands of `Nftables` go;
of other texts it says nothing.

- `lex`: words, braces and the ends of statements.
- `Reading.take`: one token further, with the blocks that are open.
- `parse_line`: a command that is written as its words is read back.
- `parse_text`: so is a table that is written out.
-/

namespace Nftables

/-! ## Tokens -/

inductive Token where
  | word (w : String)
  | opening
  | closing
  /-- A semicolon, or the end of a line. -/
  | separator
deriving DecidableEq

/-- Characters of words. -/
def isWordChar (c : Char) : Bool := c.isAlphanum || c = '_'

/-- What ends a word, with the token that it is itself. -/
def delimiter (c : Char) : Option (List Token) :=
  if c = ' ' then some []
  else if c = '\n' ∨ c = ';' then some [.separator]
  else if c = '\x7b' then some [.opening]
  else if c = '\x7d' then some [.closing]
  else none

/-- The word that has been read so far, if any. -/
def flush (acc : List Char) : List Token := if acc = [] then [] else [.word (.ofList acc)]

/-- Split a text into tokens, in the middle of a word; `none` for texts with other characters. -/
def lexFrom (acc : List Char) : List Char → Option (List Token)
  | [] => some (flush acc)
  | c :: cs =>
    match delimiter c with
    | some tokens => (lexFrom [] cs).map fun rest => flush acc ++ (tokens ++ rest)
    | none => if isWordChar c then lexFrom (acc ++ [c]) cs else none

def lex (text : String) : Option (List Token) := lexFrom [] text.toList

/-! ## Commands -/

/-- The block that is open. -/
inductive Scope where
  | top
  | table (id : TableId)
  | chain (id : TableId) (name : String)
deriving DecidableEq

/-- The open block, the words of the statement so far, and the commands read. -/
structure Reading where
  scope : Scope
  words : Statement
  cmds : List Cmd
deriving DecidableEq

/-- A command on a line of its own. -/
def command : Statement → Option Cmd
  | ["delete", "table", family, name] => some ⟨⟨family, name⟩, .deleteTable⟩
  | ["flush", "chain", family, name, chain] => some ⟨⟨family, name⟩, .flushChain chain⟩
  | "add" :: "rule" :: family :: name :: chain :: word :: rule =>
    some ⟨⟨family, name⟩, .addRule chain (word :: rule)⟩
  | _ => none

/-- A statement in the block of a chain. -/
def inChain (chain : String) : Statement → Edit
  | "type" :: hook => .setHook chain ("type" :: hook)
  | ["policy", policy] => .setPolicy chain policy
  | rule => .addRule chain rule

namespace Reading

/-- The statement ends. -/
def finish (r : Reading) : Option Reading :=
  if r.words = [] then some r
  else
    match r.scope with
    | .top => (command r.words).map fun cmd => { r with words := [], cmds := r.cmds ++ [cmd] }
    | .table _ => none
    | .chain id name => some { r with words := [], cmds := r.cmds ++ [⟨id, inChain name r.words⟩] }

/-- A block opens. -/
def enter (r : Reading) : Option Reading :=
  match r.scope, r.words with
  | .top, ["table", family, name] =>
    some ⟨.table ⟨family, name⟩, [], r.cmds ++ [⟨⟨family, name⟩, .addTable⟩]⟩
  | .table id, ["chain", name] => some ⟨.chain id name, [], r.cmds ++ [⟨id, .addChain name⟩]⟩
  | _, _ => none

/-- A block closes. -/
def leave (r : Reading) : Option Reading :=
  match r.scope with
  | .top => none
  | .table _ => some { r with scope := .top }
  | .chain id _ => some { r with scope := .table id }

/-- One token further. -/
def take (r : Reading) : Token → Option Reading
  | .word w => some { r with words := r.words ++ [w] }
  | .opening => r.enter
  | .closing => r.finish.bind leave
  | .separator => r.finish

end Reading

/-- The commands of a text. -/
def parse (text : String) : Option (List Cmd) := do
  let tokens ← lex text
  let r ← tokens.foldlM Reading.take ⟨.top, [], []⟩
  let r ← r.finish
  if r.scope = .top then some r.cmds else none

/-! ## Written text -/

/-- A word that is read as one. -/
def IsWord (w : String) : Prop := w ≠ "" ∧ w.toList.all isWordChar = true

instance (w : String) : Decidable (IsWord w) := inferInstanceAs (Decidable (_ ∧ _))

/-- A statement with spaces between its words. -/
def spaced (ws : Statement) : String := " ".intercalate ws

/-- A chain as it is written in its table. -/
structure ChainBlock where
  name : String
  hook : Statement
  policy : String
  rules : List Statement

namespace ChainBlock

/-- A line for its name, one for hook and policy, and one for each rule. -/
def text (b : ChainBlock) : String :=
  "    " ++ spaced ["chain", b.name] ++ " \x7b\n        " ++ spaced ("type" :: b.hook) ++ "; " ++
    spaced ["policy", b.policy] ++ ";" ++
    String.join (b.rules.map fun rule => "\n        " ++ spaced rule) ++ "\n    \x7d\n"

def edits (b : ChainBlock) : List Edit :=
  [.addChain b.name, .setHook b.name ("type" :: b.hook), .setPolicy b.name b.policy] ++
    b.rules.map (.addRule b.name)

/-- All words are words, and rules are no settings of the chain. -/
structure Ok (b : ChainBlock) : Prop where
  words : ∀ w ∈ b.name :: b.policy :: b.hook, IsWord w
  rules : ∀ rule ∈ b.rules, rule ≠ [] ∧ rule.head? ≠ some "type" ∧ rule.head? ≠ some "policy" ∧
    ∀ w ∈ rule, IsWord w

end ChainBlock

/-- A table as it is written. -/
def tableText (id : TableId) (chains : List ChainBlock) : String :=
  spaced ["table", id.family, id.name] ++ " \x7b\n" ++ String.join (chains.map ChainBlock.text) ++
    "\x7d\n"

/-! ## Written text is split into its tokens -/

theorem delimiter_of_isWordChar {c : Char} (h : isWordChar c = true) : delimiter c = none := by
  unfold delimiter
  split_ifs with hspace hline hopen hclose
  · subst hspace
    cases h
  · rcases hline with rfl | rfl <;> cases h
  · subst hopen
    cases h
  · subst hclose
    cases h
  · rfl

/-- Further characters of a word. -/
theorem lexFrom_word {w : List Char} (hw : ∀ c ∈ w, isWordChar c = true) (acc rest : List Char) :
    lexFrom acc (w ++ rest) = lexFrom (acc ++ w) rest := by
  induction w generalizing acc with
  | nil => rw [List.nil_append, List.append_nil]
  | cons c w ih =>
    have hc : isWordChar c = true := hw c List.mem_cons_self
    rw [List.cons_append, lexFrom, delimiter_of_isWordChar hc]
    simp only [hc, if_true]
    rw [ih fun d hd => hw d (List.mem_cons_of_mem _ hd), List.append_assoc]
    rfl

/-- The characters are split into these tokens, whatever comes after them. -/
def Lexes (cs : List Char) (tokens : List Token) : Prop :=
  ∀ rest, lexFrom [] (cs ++ rest) = (lexFrom [] rest).map fun ts => tokens ++ ts

theorem lexes_nil : Lexes [] [] := by
  intro rest
  simp

theorem Lexes.append {cs cs' : List Char} {tokens tokens' : List Token} (h : Lexes cs tokens)
    (h' : Lexes cs' tokens') : Lexes (cs ++ cs') (tokens ++ tokens') := by
  intro rest
  rw [List.append_assoc, h, h', Option.map_map]
  simp [Function.comp_def]

theorem lexes_delimiter {d : Char} {tokens : List Token} (h : delimiter d = some tokens) :
    Lexes [d] tokens := by
  intro rest
  simp [lexFrom, h, flush]

/-- A word, with what ends it. -/
theorem lexes_word {w : String} (hw : IsWord w) {d : Char} {tokens : List Token}
    (h : delimiter d = some tokens) : Lexes (w.toList ++ [d]) (.word w :: tokens) := by
  intro rest
  have hne : w.toList ≠ [] := fun hnil => hw.1 (String.toList_eq_nil_iff.mp hnil)
  rw [List.append_assoc, lexFrom_word (List.all_eq_true.mp hw.2)]
  simp [lexFrom, h, flush, hne]

theorem delimiter_blank : delimiter ' ' = some [] := rfl

theorem delimiter_line : delimiter '\n' = some [.separator] := rfl

theorem delimiter_semicolon : delimiter ';' = some [.separator] := rfl

theorem lexes_flatMap {α : Type} {as : List α} {f : α → List Char} {g : α → List Token}
    (h : ∀ a ∈ as, Lexes (f a) (g a)) : Lexes (as.flatMap f) (as.flatMap g) := by
  induction as with
  | nil => exact lexes_nil
  | cons a as ih =>
    rw [List.flatMap_cons, List.flatMap_cons]
    exact (h a List.mem_cons_self).append (ih fun b hb => h b (List.mem_cons_of_mem _ hb))

theorem toList_spaced_cons (w w' : String) (ws : Statement) :
    (spaced (w :: w' :: ws)).toList = w.toList ++ ' ' :: (spaced (w' :: ws)).toList := by
  simp [spaced, String.toList_intercalate, List.intercalate]

/-- A statement, with what ends it. -/
theorem lexes_spaced {ws : Statement} (hws : ∀ w ∈ ws, IsWord w) {d : Char} {tokens : List Token}
    (h : delimiter d = some tokens) :
    Lexes ((spaced ws).toList ++ [d]) (ws.map .word ++ tokens) := by
  induction ws with
  | nil => exact lexes_delimiter h
  | cons w ws ih =>
    have hw : IsWord w := hws w List.mem_cons_self
    cases ws with
    | nil => exact lexes_word hw h
    | cons w' ws =>
      have hfirst := lexes_word hw delimiter_blank
      have hrest := ih fun v hv => hws v (List.mem_cons_of_mem _ hv)
      rw [toList_spaced_cons, List.append_assoc, List.cons_append]
      have hboth := hfirst.append hrest
      rwa [List.append_assoc] at hboth

/-- A blank at the end makes no difference. -/
theorem lexFrom_blank (acc cs : List Char) : lexFrom acc (cs ++ [' ']) = lexFrom acc cs := by
  induction cs generalizing acc with
  | nil => simp [lexFrom, delimiter, flush]
  | cons c cs ih =>
    rw [List.cons_append, lexFrom, lexFrom, ih]
    cases delimiter c with
    | none => rw [ih]
    | some tokens => rfl

theorem lex_spaced {ws : Statement} (hws : ∀ w ∈ ws, IsWord w) :
    lex (spaced ws) = some (ws.map .word) := by
  have h := lexes_spaced hws delimiter_blank []
  rw [List.append_nil, lexFrom_blank] at h
  rw [lex, h]
  simp [lexFrom, flush]

/-! ## And its tokens are read as its commands -/

namespace Reading

/-- Read some tokens. -/
def takeAll (r : Reading) (tokens : List Token) : Option Reading := tokens.foldlM take r

theorem takeAll_append (r : Reading) (ts ts' : List Token) :
    r.takeAll (ts ++ ts') = (r.takeAll ts).bind fun m => m.takeAll ts' :=
  List.foldlM_append

theorem takeAll_words (r : Reading) (ws : Statement) :
    r.takeAll (ws.map .word) = some { r with words := r.words ++ ws } := by
  induction ws generalizing r with
  | nil => simp [takeAll]
  | cons w ws ih =>
    have hrest := ih { r with words := r.words ++ [w] }
    rw [List.append_assoc] at hrest
    exact hrest

/-- A statement in the block of a chain, with its end. -/
theorem takeAll_statement (id : TableId) (chain : String) (cmds : List Cmd) {ws : Statement}
    (hne : ws ≠ []) :
    takeAll ⟨.chain id chain, [], cmds⟩ (ws.map .word ++ [.separator]) =
      some ⟨.chain id chain, [], cmds ++ [⟨id, inChain chain ws⟩]⟩ := by
  rw [takeAll_append, takeAll_words]
  simp [takeAll, take, finish, hne]

theorem inChain_rule (chain : String) {rule : Statement} (htype : rule.head? ≠ some "type")
    (hpolicy : rule.head? ≠ some "policy") : inChain chain rule = .addRule chain rule := by
  unfold inChain
  split
  · exact absurd rfl htype
  · exact absurd rfl hpolicy
  · rfl

theorem takeAll_rules (id : TableId) {b : ChainBlock} (hb : b.Ok) {rules : List Statement}
    (hsub : ∀ rule ∈ rules, rule ∈ b.rules) (cmds : List Cmd) :
    takeAll ⟨.chain id b.name, [], cmds⟩
        (rules.flatMap fun rule => rule.map .word ++ [.separator]) =
      some ⟨.chain id b.name, [],
        cmds ++ rules.map fun rule => ⟨id, .addRule b.name rule⟩⟩ := by
  induction rules generalizing cmds with
  | nil => simp [takeAll]
  | cons rule rules ih =>
    obtain ⟨hne, htype, hpolicy, -⟩ := hb.rules rule (hsub rule List.mem_cons_self)
    rw [List.flatMap_cons, takeAll_append, takeAll_statement id b.name cmds hne,
      inChain_rule b.name htype hpolicy, Option.bind_some,
      ih fun r hr => hsub r (List.mem_cons_of_mem _ hr)]
    simp

end Reading

/-! ## Tables that are written out -/

/-- Indentation. -/
theorem lexes_blanks (n : Nat) : Lexes (List.replicate n ' ') [] := by
  induction n with
  | zero => exact lexes_nil
  | succ n ih => exact (lexes_delimiter delimiter_blank).append ih

/-- What every item starts with, and once more, is what every item ends with, and once before. -/
theorem flatMap_concat_comm {α β : Type} (as : List α) (f : α → List β) (d : β) :
    as.flatMap (fun a => d :: f a) ++ [d] = d :: as.flatMap fun a => f a ++ [d] := by
  induction as with
  | nil => rfl
  | cons a as ih => simp [List.flatMap_cons, ih]

namespace ChainBlock

/-- The tokens of its text. -/
def tokens (b : ChainBlock) : List Token :=
  ["chain", b.name].map .word ++ [.opening] ++ [.separator] ++
    (("type" :: b.hook).map .word ++ [.separator]) ++
    (["policy", b.policy].map .word ++ [.separator]) ++ [.separator] ++
    (b.rules.flatMap fun rule => rule.map .word ++ [.separator]) ++ [.closing] ++ [.separator]

theorem toList_text (b : ChainBlock) :
    b.text.toList = List.replicate 4 ' ' ++ ((spaced ["chain", b.name]).toList ++ [' ']) ++
      ['\x7b'] ++ ['\n'] ++ List.replicate 8 ' ' ++ ((spaced ("type" :: b.hook)).toList ++ [';']) ++
      [' '] ++ ((spaced ["policy", b.policy]).toList ++ [';']) ++ ['\n'] ++
      (b.rules.flatMap fun rule => List.replicate 8 ' ' ++ ((spaced rule).toList ++ ['\n'])) ++
      List.replicate 4 ' ' ++ ['\x7d'] ++ ['\n'] := by
  have hlines := flatMap_concat_comm b.rules
    (fun rule => List.replicate 8 ' ' ++ (spaced rule).toList) '\n'
  simp only [text, String.toList_append, String.toList_join, List.flatMap_map]
  simpa using congrArg (fun cs => cs ++ "    \x7d\n".toList) hlines

theorem Ok.lexes_text {b : ChainBlock} (hb : b.Ok) : Lexes b.text.toList b.tokens := by
  have hname : IsWord b.name := hb.words _ List.mem_cons_self
  have hpolicy : IsWord b.policy := hb.words _ (List.mem_cons_of_mem _ List.mem_cons_self)
  have hchain : ∀ w ∈ ["chain", b.name], IsWord w := by
    simp [hname, show IsWord "chain" by decide +kernel]
  have hhook : ∀ w ∈ "type" :: b.hook, IsWord w := by
    intro w hw
    rcases List.mem_cons.mp hw with rfl | hw
    · decide +kernel
    · exact hb.words w (List.mem_cons_of_mem _ (List.mem_cons_of_mem _ hw))
  have hpol : ∀ w ∈ ["policy", b.policy], IsWord w := by
    simp [hpolicy, show IsWord "policy" by decide +kernel]
  have hrules : ∀ rule ∈ b.rules,
      Lexes (List.replicate 8 ' ' ++ ((spaced rule).toList ++ ['\n']))
        (rule.map .word ++ [.separator]) := fun rule hrule =>
    (lexes_blanks 8).append (lexes_spaced (hb.rules rule hrule).2.2.2 delimiter_line)
  rw [toList_text, tokens]
  have hline := lexes_delimiter delimiter_line
  have htext := lexes_blanks 4
    |>.append (lexes_spaced hchain delimiter_blank)
    |>.append (lexes_delimiter (d := '\x7b') rfl)
    |>.append hline
    |>.append (lexes_blanks 8)
    |>.append (lexes_spaced hhook delimiter_semicolon)
    |>.append (lexes_delimiter delimiter_blank)
    |>.append (lexes_spaced hpol delimiter_semicolon)
    |>.append hline
    |>.append (lexes_flatMap hrules)
    |>.append (lexes_blanks 4)
    |>.append (lexes_delimiter (d := '\x7d') rfl)
    |>.append hline
  simpa using htext

/-- The block of a chain is read in the block of its table. -/
theorem takeAll_tokens (id : TableId) {b : ChainBlock} (hb : b.Ok) (cmds : List Cmd) :
    Reading.takeAll ⟨.table id, [], cmds⟩ b.tokens =
      some ⟨.table id, [], cmds ++ b.edits.map fun e => ⟨id, e⟩⟩ := by
  have hopen : Reading.takeAll ⟨.table id, [], cmds⟩
      (["chain", b.name].map .word ++ [.opening] ++ [.separator]) =
      some ⟨.chain id b.name, [], cmds ++ [⟨id, .addChain b.name⟩]⟩ := rfl
  have hhook : ∀ cmds, Reading.takeAll ⟨.chain id b.name, [], cmds⟩
      (("type" :: b.hook).map .word ++ [.separator]) =
      some ⟨.chain id b.name, [], cmds ++ [⟨id, .setHook b.name ("type" :: b.hook)⟩]⟩ :=
    fun cmds => Reading.takeAll_statement id b.name cmds (List.cons_ne_nil _ _)
  have hpolicy : ∀ cmds, Reading.takeAll ⟨.chain id b.name, [], cmds⟩
      (["policy", b.policy].map .word ++ [.separator]) =
      some ⟨.chain id b.name, [], cmds ++ [⟨id, .setPolicy b.name b.policy⟩]⟩ := fun _ => rfl
  have hsep : ∀ cmds, Reading.takeAll ⟨.chain id b.name, [], cmds⟩ [.separator] =
      some ⟨.chain id b.name, [], cmds⟩ := fun _ => rfl
  have hclose : ∀ cmds, Reading.takeAll ⟨.chain id b.name, [], cmds⟩ [.closing] =
      some ⟨.table id, [], cmds⟩ := fun _ => rfl
  have hend : ∀ cmds, Reading.takeAll ⟨.table id, [], cmds⟩ [.separator] =
      some ⟨.table id, [], cmds⟩ := fun _ => rfl
  rw [tokens]
  iterate 6 rw [Reading.takeAll_append]
  rw [hopen, Option.bind_some, hhook, Option.bind_some, hpolicy, Option.bind_some, hsep,
    Option.bind_some, Reading.takeAll_rules id hb fun rule h => h, Option.bind_some, hclose,
    Option.bind_some, hend]
  simp [edits]

end ChainBlock

/-- The commands of a table that is written out. -/
def tableCmds (id : TableId) (chains : List ChainBlock) : List Cmd :=
  ⟨id, .addTable⟩ :: chains.flatMap fun b => b.edits.map fun e => ⟨id, e⟩

theorem tableCmds_table {id : TableId} {chains : List ChainBlock} {cmd : Cmd}
    (h : cmd ∈ tableCmds id chains) : cmd.table = id := by
  rcases List.mem_cons.mp h with rfl | h
  · rfl
  · obtain ⟨b, -, hb⟩ := List.mem_flatMap.mp h
    obtain ⟨e, -, rfl⟩ := List.mem_map.mp hb
    rfl

theorem takeAll_chains (id : TableId) {chains : List ChainBlock} (hchains : ∀ b ∈ chains, b.Ok)
    (cmds : List Cmd) :
    Reading.takeAll ⟨.table id, [], cmds⟩ (chains.flatMap ChainBlock.tokens) =
      some ⟨.table id, [], cmds ++ chains.flatMap fun b => b.edits.map fun e => ⟨id, e⟩⟩ := by
  induction chains generalizing cmds with
  | nil => simp [Reading.takeAll]
  | cons b chains ih =>
    rw [List.flatMap_cons, Reading.takeAll_append,
      ChainBlock.takeAll_tokens id (hchains b List.mem_cons_self) cmds, Option.bind_some,
      ih fun b' hb' => hchains b' (List.mem_cons_of_mem _ hb')]
    simp

theorem parse_eq {text : String} {tokens : List Token} (hlex : lex text = some tokens) :
    parse text = ((Reading.takeAll ⟨.top, [], []⟩ tokens).bind Reading.finish).bind
      fun r => if r.scope = .top then some r.cmds else none := by
  rw [parse, hlex, Option.bind_assoc]
  rfl

/-- **A table that is written out is read back** as the commands that make it. -/
theorem parse_text {id : TableId} {chains : List ChainBlock} (hfamily : IsWord id.family)
    (hname : IsWord id.name) (hchains : ∀ b ∈ chains, b.Ok) :
    parse (tableText id chains) = some (tableCmds id chains) := by
  have hwords : ∀ w ∈ ["table", id.family, id.name], IsWord w := by
    simp [hfamily, hname, show IsWord "table" by decide +kernel]
  have hline := lexes_delimiter delimiter_line
  have htext := lexes_spaced hwords delimiter_blank
    |>.append (lexes_delimiter (d := '\x7b') rfl)
    |>.append hline
    |>.append (lexes_flatMap fun b hb => (hchains b hb).lexes_text)
    |>.append (lexes_delimiter (d := '\x7d') rfl)
    |>.append hline
  have hlex := htext []
  rw [show lexFrom [] [] = some [] from rfl, Option.map_some, List.append_nil, List.append_nil]
    at hlex
  have hopen : Reading.takeAll ⟨.top, [], []⟩
      (["table", id.family, id.name].map .word ++ [] ++ [.opening] ++ [.separator]) =
      some ⟨.table id, [], [⟨id, .addTable⟩]⟩ := rfl
  rw [parse_eq ((congrArg (lexFrom []) ?_).trans hlex)]
  · iterate 2 rw [Reading.takeAll_append]
    rw [Reading.takeAll_append, hopen, Option.bind_some, takeAll_chains id hchains]
    rfl
  · simp [tableText, List.flatMap_map]

/-- **So is a command** that is written as its words. -/
theorem parse_spaced {ws : Statement} (hws : ∀ w ∈ ws, IsWord w) {cmd : Cmd}
    (hcmd : command ws = some cmd) : parse (spaced ws) = some [cmd] := by
  have hne : ws ≠ [] := by
    rintro rfl
    cases hcmd
  rw [parse_eq (lex_spaced hws), Reading.takeAll_words]
  simp [Reading.finish, hne, hcmd]

/-! ## What a written table makes -/

namespace ChainBlock

/-- The chain of a block. -/
def chain (b : ChainBlock) : Chain := ⟨"type" :: b.hook, b.policy, b.rules⟩

variable {b : ChainBlock} {c : Chain} {table : Option Table}

/-- The block of a chain, after the chain has been added, or was there for the same hook. -/
theorem applyAll_edits {table' : Option Table}
    (hadd : (Edit.addChain b.name).apply table = some table') (h : Sole b.name c table')
    (hhook : c.hook = [] ∨ c.hook = "type" :: b.hook) :
    ∃ t, applyAll b.edits table = some t ∧
      Sole b.name { b.chain with rules := c.rules ++ b.rules } t := by
  obtain ⟨t₁, ht₁, h₁⟩ := h.onChain (f := fun c =>
    if c.hook = [] ∨ c.hook = "type" :: b.hook then some { c with hook := "type" :: b.hook }
    else none) (if_pos hhook)
  obtain ⟨t₂, ht₂, h₂⟩ := h₁.onChain (f := fun c => some { c with policy := b.policy }) rfl
  obtain ⟨t₃, ht₃, h₃⟩ := h₂.addRules b.rules
  exact ⟨t₃, applyAll_step hadd (applyAll_step ht₁ (applyAll_step ht₂ ht₃)), h₃⟩

end ChainBlock

theorem edits_tableCmds (id : TableId) (b : ChainBlock) :
    (tableCmds id [b]).map Cmd.edit = .addTable :: b.edits := by
  simp [tableCmds, Function.comp_def]

/-- A table with one chain is made as it is written; -/
theorem applyAll_new (id : TableId) (b : ChainBlock) :
    ∃ t, applyAll ((tableCmds id [b]).map Cmd.edit) none = some t ∧ Sole b.name b.chain t := by
  obtain ⟨t', hadd, hsole⟩ := sole_addChain b.name
  obtain ⟨t, ht, hchain⟩ := b.applyAll_edits hadd hsole (.inl rfl)
  rw [edits_tableCmds]
  exact ⟨t, applyAll_step rfl ht, hchain⟩

/-- and if it is there, the rules are added. -/
theorem applyAll_again (id : TableId) {b : ChainBlock} {c : Chain} {table : Option Table}
    (h : Sole b.name c table) (hhook : c.hook = "type" :: b.hook) :
    ∃ t, applyAll ((tableCmds id [b]).map Cmd.edit) table = some t ∧
      Sole b.name { b.chain with rules := c.rules ++ b.rules } t := by
  have htable : Edit.addTable.apply table = some table := by
    obtain ⟨t, rfl, -⟩ := h
    rfl
  obtain ⟨t', hadd, hsole⟩ := h.addChain
  obtain ⟨t, ht, hchain⟩ := b.applyAll_edits hadd hsole (.inr hhook)
  rw [edits_tableCmds]
  exact ⟨t, applyAll_step htable ht, hchain⟩

end Nftables
