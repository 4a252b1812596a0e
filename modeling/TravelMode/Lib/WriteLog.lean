import Mathlib.Data.List.Infix
import Mathlib.Logic.Function.Basic

/-!
# Logs of writes

A log of entries, each of which may write a value under a key. What a key holds after a log
is its last write; so only the order of the writes to one key matters.

- `writes`: the values that a log writes under a key, in order.
- `replay`: the contents after a log (`replay_apply`).
- `replay_snapshot`: a reader that takes the contents somewhere along the log, and then
  replays a tail of the log that starts no later, ends up with the contents after all of it.
-/

namespace WriteLog

universe u v w

variable {ε : Type u} {κ : Type v} {ν : Type w} [DecidableEq κ] (write : ε → Option (κ × ν))

/-- What an entry writes under a key. -/
def written (k : κ) (e : ε) : Option ν := (write e).bind fun (j, v) => if j = k then some v else none

/-- What a log writes under a key. -/
def writes (k : κ) (log : List ε) : List ν := log.filterMap (written write k)

/-- The contents after an entry. -/
def put (s : κ → ν) (e : ε) : κ → ν := fun k => (written write k e).getD (s k)

/-- The contents after a log. -/
def replay (s : κ → ν) (log : List ε) : κ → ν := log.foldl (put write) s

variable {write} {k : κ} {s : κ → ν} {e : ε} {log log' : List ε}

@[simp] theorem replay_nil : replay write s [] = s := rfl

theorem replay_cons : replay write s (e :: log) = replay write (put write s e) log := rfl

theorem replay_append : replay write s (log ++ log') = replay write (replay write s log) log' :=
  List.foldl_append

theorem writes_append : writes write k (log ++ log') = writes write k log ++ writes write k log' :=
  List.filterMap_append

theorem writes_cons : writes write k (e :: log) = (written write k e).toList ++ writes write k log := by
  rw [writes, List.filterMap_cons]
  cases written write k e <;> rfl

/-- Entries that write nothing under the key. -/
theorem writes_eq_nil (h : ∀ e ∈ log, written write k e = none) : writes write k log = [] :=
  List.filterMap_eq_nil_iff.mpr h

/-- **The last write counts.** -/
theorem replay_apply : replay write s log k = ((writes write k log).getLast?).getD (s k) := by
  induction log using List.reverseRecOn with
  | nil => rfl
  | append_singleton log e ih =>
    rw [replay_append, writes_append, replay_cons, replay_nil, put, ih, writes_cons]
    cases written write k e with
    | none => simp [writes]
    | some v => simp [writes]

/-- Logs that write the same under a key leave the same there. -/
theorem replay_congr (h : writes write k log = writes write k log') :
    replay write s log k = replay write s log' k := by
  rw [replay_apply, replay_apply, h]

/-- Logs that write under different keys may be swapped. -/
theorem writes_comm (h : ∀ e ∈ log, ∀ e' ∈ log', written write k e = none ∨ written write k e' = none) :
    writes write k (log ++ log') = writes write k (log' ++ log) := by
  rw [writes_append, writes_append]
  by_cases hlog : writes write k log = []
  · rw [hlog, List.nil_append, List.append_nil]
  · have hlog' : writes write k log' = [] := by
      obtain ⟨v, hv⟩ := List.exists_mem_of_ne_nil _ hlog
      obtain ⟨e, he, hwritten⟩ := List.mem_filterMap.mp hv
      refine writes_eq_nil fun e' he' => (h e he e' he').resolve_left ?_
      rw [hwritten]
      exact Option.some_ne_none v
    rw [hlog', List.nil_append, List.append_nil]

/-- An entry may move over others that write nothing under its keys. -/
theorem writes_move {pre : List ε}
    (h : ∀ e' ∈ pre, written write k e' = none ∨ written write k e = none) (post : List ε) :
    writes write k (pre ++ e :: post) = writes write k (e :: (pre ++ post)) := by
  have hswap : writes write k (pre ++ [e]) = writes write k ([e] ++ pre) := by
    refine writes_comm fun e' he' e'' he'' => ?_
    rw [List.mem_singleton.mp he'']
    exact h e' he'
  rw [← List.singleton_append, ← List.append_assoc, writes_append, hswap, ← writes_append,
    List.append_assoc]
  rfl

/-- **Snapshots**: of a log `old ++ tail`, a reader that takes the contents after `seen`,
which is no shorter than `old`, and replays `tail`, ends up with the contents of all. -/
theorem replay_snapshot {old tail seen : List ε}
    (hold : writes write k old <+: writes write k seen)
    (hseen : writes write k seen <+: writes write k (old ++ tail)) :
    replay write (replay write s seen) tail k = replay write s (old ++ tail) k := by
  rw [replay_apply, replay_append, replay_apply (s := replay write s old)]
  cases htail : (writes write k tail).getLast? with
  | some v => rfl
  | none =>
    -- nothing was written since: the snapshot has what was written before
    rw [writes_append, List.getLast?_eq_none_iff.mp htail, List.append_nil] at hseen
    exact replay_congr (hseen.eq_of_length (Nat.le_antisymm hseen.length_le hold.length_le))

end WriteLog
