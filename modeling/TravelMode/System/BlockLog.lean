import Mathlib.Algebra.GroupWithZero.Nat
import TravelMode.Daemon.Firewall
import TravelMode.Lib.Sharded

/-!
# The log of blocked connections

A blocked browser retries many times a second, so `decide` asks `LogThrottle` before it
logs a block. The throttle is one small machine per key (`judge`), which is what `Sharded`
is about.

- `judge_conserves`, `judge_spaced`: one key. Every block is in a line of the log or still
  pending, and lines are at least a window apart.
- `blocks_accounted`: any keys, interleaved at any times.
-/

namespace TravelMode

namespace LogThrottle

universe u

variable {κ : Type u}

/-- The blocks that a line of the log stands for. -/
def weight : LogAction → Nat
  | .first => 1
  | .suppress => 0
  | .summary n => n

/-! ## One key -/

/-- `should_log` for the entry of one key. -/
def judge (window : Nat) (entry : Option ThrottleEntry) (now : Nat) : LogAction × ThrottleEntry :=
  match entry with
  | none => (.first, ⟨now, 0⟩)
  | some entry =>
    if now - entry.windowStart < window then
      (.suppress, { entry with suppressed := entry.suppressed + 1 })
    else (.summary (entry.suppressed + 1), ⟨now, 0⟩)

/-- The blocks counted since the last line. -/
def suppressed (entry : Option ThrottleEntry) : Nat := (entry.map ThrottleEntry.suppressed).getD 0

/-- Every call is counted once: in the line it writes, or as pending. -/
theorem judge_weight (window : Nat) (entry : Option ThrottleEntry) (now : Nat) :
    suppressed entry + 1 =
      weight (judge window entry now).1 + suppressed (some (judge window entry now).2) := by
  cases entry with
  | none => rfl
  | some entry =>
    by_cases hwithin : now - entry.windowStart < window
    · rw [judge, if_pos hwithin]
      exact (Nat.zero_add _).symm
    · rw [judge, if_neg hwithin]
      rfl

/-- **Conservation** at one key. -/
theorem judge_conserves (window : Nat) (entry : Option ThrottleEntry) (times : List Nat) :
    suppressed entry + times.length =
      ((Sharded.localTrace (judge window) entry times).map fun e => weight e.2).sum +
        suppressed (Sharded.localFinal (judge window) entry times) := by
  induction times generalizing entry with
  | nil => exact (Nat.zero_add _).symm
  | cons now times ih =>
    have hstep := judge_weight window entry now
    have hrest := ih (some (judge window entry now).2)
    rw [Sharded.localTrace, Sharded.localFinal_cons, List.map_cons, List.sum_cons,
      List.length_cons]
    dsimp only
    omega

/-- The instants at which lines were written. -/
def written (outputs : List (Nat × LogAction)) : List Nat :=
  (outputs.filter fun e => e.2 ≠ .suppress).map Prod.fst

/-- **Spacing** at one key: while the clock does not go back, the next line is written a
window after the one that started the present window, or later. -/
theorem judge_spaced {window : Nat} (entry : ThrottleEntry) {times : List Nat}
    (htimes : (entry.windowStart :: times).Pairwise (· ≤ ·)) :
    (entry.windowStart ::
      written (Sharded.localTrace (judge window) (some entry) times)).IsChain
        fun t t' => t + window ≤ t' := by
  induction times generalizing entry with
  | nil => exact List.IsChain.singleton _
  | cons now times ih =>
    obtain ⟨hstart, hrest⟩ := List.pairwise_cons.mp htimes
    rw [Sharded.localTrace]
    by_cases hwithin : now - entry.windowStart < window
    · -- counted: the window that is open stays open
      have hlater : (entry.windowStart :: times).Pairwise (· ≤ ·) :=
        List.pairwise_cons.mpr ⟨fun t ht => hstart t (List.mem_cons_of_mem _ ht),
          (List.pairwise_cons.mp hrest).2⟩
      rw [judge, if_pos hwithin]
      exact ih { entry with suppressed := entry.suppressed + 1 } hlater
    · -- the window is over, and a new one starts with this line
      have hnow := hstart now List.mem_cons_self
      rw [judge, if_neg hwithin]
      refine List.isChain_cons_cons.mpr ⟨by omega, ?_⟩
      exact ih ⟨now, 0⟩ hrest

/-- The same from the first block of a key on. -/
theorem judge_spaced_new (window : Nat) {times : List Nat} (htimes : times.Pairwise (· ≤ ·)) :
    (written (Sharded.localTrace (judge window) none times)).IsChain
      fun t t' => t + window ≤ t' := by
  cases times with
  | nil => exact List.IsChain.nil
  | cons now times => exact judge_spaced ⟨now, 0⟩ htimes

/-! ## All keys -/

variable [DecidableEq κ]

/-- The decisions of `should_log` on a sequence of calls, each with its call. -/
def decisions : LogThrottle κ → List (κ × Nat) → List ((κ × Nat) × LogAction)
  | _, [] => []
  | t, call :: calls =>
    (call, (t.shouldLog call.1 call.2).1) :: decisions (t.shouldLog call.1 call.2).2 calls

/-- The limiter that the calls leave. -/
def after (t : LogThrottle κ) (calls : List (κ × Nat)) : LogThrottle κ :=
  calls.foldl (fun t call => (t.shouldLog call.1 call.2).2) t

/-- One more call. -/
theorem decisions_snoc (t : LogThrottle κ) (calls : List (κ × Nat)) (call : κ × Nat) :
    t.decisions (calls ++ [call]) =
      t.decisions calls ++ [(call, ((t.after calls).shouldLog call.1 call.2).1)] := by
  induction calls generalizing t with
  | nil => rfl
  | cons c calls ih =>
    rw [List.cons_append, decisions, ih]
    rfl

theorem after_snoc (t : LogThrottle κ) (calls : List (κ × Nat)) (call : κ × Nat) :
    t.after (calls ++ [call]) = ((t.after calls).shouldLog call.1 call.2).2 := by
  rw [after, List.foldl_append]
  rfl

/-- The blocks of a key that no line stands for yet. -/
def pending (t : LogThrottle κ) (key : κ) : Nat := suppressed (t.entries.get? key)

/-- A call is a step of its key's machine. -/
theorem shouldLog_eq (t : LogThrottle κ) (key : κ) (now : Nat) :
    t.shouldLog key now =
      ((Sharded.step (judge t.window) t.entries key now).1,
        ⟨t.window, (Sharded.step (judge t.window) t.entries key now).2⟩) := by
  unfold shouldLog Sharded.step judge
  cases t.entries.get? key with
  | none => rfl
  | some entry =>
    by_cases hwithin : now - entry.windowStart < t.window
    · simp only [if_pos hwithin]
    · simp only [if_neg hwithin]

theorem decisions_eq (t : LogThrottle κ) (calls : List (κ × Nat)) :
    t.decisions calls = Sharded.trace (judge t.window) t.entries calls := by
  induction calls generalizing t with
  | nil => rfl
  | cons call calls ih => rw [decisions, Sharded.trace, ih, shouldLog_eq]

theorem after_eq (t : LogThrottle κ) (calls : List (κ × Nat)) :
    t.after calls = ⟨t.window, Sharded.final (judge t.window) t.entries calls⟩ := by
  induction calls generalizing t with
  | nil => rfl
  | cons call calls ih =>
    refine (ih (t.shouldLog call.1 call.2).2).trans ?_
    rw [shouldLog_eq]
    rfl

/-- At one key, the decisions are those of the key's own machine. -/
theorem decisions_at (window : Nat) (calls : List (κ × Nat)) (key : κ) :
    Sharded.outputsAt key ((LogThrottle.new window).decisions calls) =
      Sharded.localTrace (judge window) none (Sharded.inputsAt key calls) := by
  rw [decisions_eq]
  exact Sharded.trace_at (judge window) .empty calls key

/-- So are the blocks that are pending. -/
theorem pending_at (window : Nat) (calls : List (κ × Nat)) (key : κ) :
    ((LogThrottle.new window).after calls).pending key =
      suppressed (Sharded.localFinal (judge window) none (Sharded.inputsAt key calls)) := by
  rw [pending, after_eq]
  exact congrArg suppressed (Sharded.final_at (judge window) .empty calls key)

/-- **Conservation**: the calls for a key are those its lines stand for and those pending. -/
theorem calls_conserved (window : Nat) (calls : List (κ × Nat)) (key : κ) :
    (calls.filter fun call => call.1 = key).length =
      ((((LogThrottle.new window).decisions calls).filter fun e => e.1.1 = key).map
          fun e => weight e.2).sum +
        ((LogThrottle.new window).after calls).pending key := by
  have hkey := judge_conserves window none (Sharded.inputsAt key calls)
  rw [← decisions_at, ← pending_at, Sharded.map_outputsAt, Sharded.length_inputsAt] at hkey
  exact (Nat.zero_add _).symm.trans hkey

/-- **Spacing**: two lines in a row for a key are at least the window apart. -/
theorem lines_spaced {window : Nat} {calls : List (κ × Nat)}
    (htimes : (calls.map Prod.snd).Pairwise (· ≤ ·)) (key : κ) :
    ((((LogThrottle.new window).decisions calls).filter fun e =>
      e.1.1 = key ∧ e.2 ≠ .suppress).map fun e => e.1.2).IsChain fun t t' => t + window ≤ t' := by
  have hinputs : (Sharded.inputsAt key calls).Pairwise (· ≤ ·) :=
    htimes.sublist (List.filter_sublist.map _)
  have hspaced := judge_spaced_new window hinputs
  rw [← decisions_at] at hspaced
  unfold written Sharded.outputsAt at hspaced
  rw [List.filter_map, List.map_map, List.filter_filter] at hspaced
  -- the lines for the key, picked in the other order
  have hpick : ((LogThrottle.new window).decisions calls).filter (fun e =>
      e.1.1 = key ∧ e.2 ≠ .suppress) = ((LogThrottle.new window).decisions calls).filter
        fun e => decide (e.2 ≠ .suppress) && decide (e.1.1 = key) := by
    refine List.filter_congr fun e _ => ?_
    rw [Bool.and_comm]
    exact Bool.decide_and ..
  rw [hpick]
  exact hspaced

/-- **No block is lost**: for every key, the calls are those that the lines stand for and
those pending; lines are a window apart; and other keys make no difference. -/
theorem blocks_accounted (window : Nat) (calls : List (κ × Nat))
    (htimes : (calls.map Prod.snd).Pairwise (· ≤ ·)) (key : κ) :
    let log := (LogThrottle.new window).decisions calls
    (calls.filter fun call => call.1 = key).length =
        ((log.filter fun e => e.1.1 = key).map fun e => weight e.2).sum +
          ((LogThrottle.new window).after calls).pending key ∧
      ((log.filter fun e => e.1.1 = key ∧ e.2 ≠ .suppress).map fun e => e.1.2).IsChain
        (fun t t' => t + window ≤ t') ∧
      log.filter (fun e => e.1.1 = key) =
        (LogThrottle.new window).decisions (calls.filter fun call => call.1 = key) := by
  intro log
  refine ⟨calls_conserved window calls key, lines_spaced htimes key, ?_⟩
  show List.filter _ ((LogThrottle.new window).decisions calls) = _
  rw [decisions_eq, decisions_eq]
  exact Sharded.trace_filter (judge window) key rfl calls

/-- Two keys, and the boundary of the window. -/
theorem blocks_accounted_curl :
    let calls : List (String × Nat) :=
      [("curl", 0), ("curl", 1), ("curl", 2), ("wget", 3), ("curl", 6), ("curl", 7), ("curl", 13)]
    let log := (LogThrottle.new 5).decisions calls
    log.map (fun e => e.2) =
        [.first, .suppress, .suppress, .first, .summary 3, .suppress, .summary 2] ∧
      (calls.filter fun call => call.1 = "curl").length =
        ((log.filter fun e => e.1.1 = "curl").map fun e => weight e.2).sum +
          ((LogThrottle.new 5).after calls).pending "curl" :=
  ⟨by decide, (blocks_accounted 5 _ (by decide) "curl").1⟩

end LogThrottle

end TravelMode
