import TravelMode.Lib.KeyedMap

/-!
# Machines with a state per key

Many components keep one small state machine per key in a map: a call names a key, steps
the machine of that key, and creates it if there is none. `local` is that machine; its
state before the first call is `none`.

- `trace` and `final`: the outputs of a sequence of calls, each with its call, and the map
  it leaves.
- `trace_at`, `final_at`: at one key, they are those of the key's own machine on the calls
  for this key.
- `trace_filter`: the calls for other keys might as well not have been made.
-/

namespace Sharded

universe u v w x

variable {κ : Type u} {σ : Type v} {ι : Type w} {ο : Type x}

/-! ## The machine of one key -/

/-- The outputs of one machine, each with its input. -/
def localTrace (f : Option σ → ι → ο × σ) : Option σ → List ι → List (ι × ο)
  | _, [] => []
  | s, i :: is => (i, (f s i).1) :: localTrace f (some (f s i).2) is

/-- The state that its inputs leave. -/
def localFinal (f : Option σ → ι → ο × σ) (s : Option σ) (is : List ι) : Option σ :=
  is.foldl (fun s i => some (f s i).2) s

@[simp] theorem localFinal_nil (f : Option σ → ι → ο × σ) (s : Option σ) :
    localFinal f s [] = s := rfl

@[simp] theorem localFinal_cons (f : Option σ → ι → ο × σ) (s : Option σ) (i : ι)
    (is : List ι) : localFinal f s (i :: is) = localFinal f (some (f s i).2) is := rfl

/-! ## All keys -/

variable [DecidableEq κ]

/-- Step the machine of one key. -/
def step (f : Option σ → ι → ο × σ) (m : KeyedMap κ σ) (key : κ) (i : ι) : ο × KeyedMap κ σ :=
  ((f (m.get? key) i).1, m.insert key (f (m.get? key) i).2)

/-- The outputs of a sequence of calls, each with its call. -/
def trace (f : Option σ → ι → ο × σ) : KeyedMap κ σ → List (κ × ι) → List ((κ × ι) × ο)
  | _, [] => []
  | m, call :: calls =>
    (call, (step f m call.1 call.2).1) :: trace f (step f m call.1 call.2).2 calls

/-- The machines that the calls leave. -/
def final (f : Option σ → ι → ο × σ) (m : KeyedMap κ σ) (calls : List (κ × ι)) : KeyedMap κ σ :=
  calls.foldl (fun m call => (step f m call.1 call.2).2) m

/-- The inputs for one key. -/
def inputsAt (key : κ) (calls : List (κ × ι)) : List ι :=
  (calls.filter fun call => call.1 = key).map Prod.snd

/-- The outputs for one key, each with its input. -/
def outputsAt (key : κ) (outputs : List ((κ × ι) × ο)) : List (ι × ο) :=
  (outputs.filter fun e => e.1.1 = key).map fun e => (e.1.2, e.2)

theorem inputsAt_cons (key : κ) (call : κ × ι) (calls : List (κ × ι)) :
    inputsAt key (call :: calls) =
      if call.1 = key then call.2 :: inputsAt key calls else inputsAt key calls := by
  by_cases hkey : call.1 = key
  · simp [inputsAt, hkey]
  · simp [inputsAt, hkey]

theorem outputsAt_cons (key : κ) (e : (κ × ι) × ο) (outputs : List ((κ × ι) × ο)) :
    outputsAt key (e :: outputs) =
      if e.1.1 = key then (e.1.2, e.2) :: outputsAt key outputs else outputsAt key outputs := by
  by_cases hkey : e.1.1 = key
  · simp [outputsAt, hkey]
  · simp [outputsAt, hkey]

theorem length_inputsAt (key : κ) (calls : List (κ × ι)) :
    (inputsAt key calls).length = (calls.filter fun call => call.1 = key).length :=
  List.length_map ..

theorem map_outputsAt {β : Type*} (g : ι × ο → β) (key : κ) (outputs : List ((κ × ι) × ο)) :
    (outputsAt key outputs).map g =
      (outputs.filter fun e => e.1.1 = key).map fun e => g (e.1.2, e.2) :=
  List.map_map

theorem get?_step (f : Option σ → ι → ο × σ) (m : KeyedMap κ σ) (key k : κ) (i : ι) :
    (step f m key i).2.get? k = if k = key then some (f (m.get? key) i).2 else m.get? k :=
  KeyedMap.get?_insert ..

/-- A call steps the machine of its key. -/
theorem get?_step_self {f : Option σ → ι → ο × σ} {m : KeyedMap κ σ} {key k : κ} {i : ι}
    (h : key = k) : (step f m key i).2.get? k = some (f (m.get? k) i).2 := by
  rw [get?_step, if_pos h.symm, h]

/-- It steps no other. -/
theorem get?_step_of_ne {f : Option σ → ι → ο × σ} {m : KeyedMap κ σ} {key k : κ} {i : ι}
    (h : key ≠ k) : (step f m key i).2.get? k = m.get? k := by
  rw [get?_step, if_neg fun hk => h hk.symm]

/-- **Projection**: at one key, the outputs are those of its own machine. -/
theorem trace_at (f : Option σ → ι → ο × σ) (m : KeyedMap κ σ) (calls : List (κ × ι)) (key : κ) :
    outputsAt key (trace f m calls) = localTrace f (m.get? key) (inputsAt key calls) := by
  induction calls generalizing m with
  | nil => rfl
  | cons call calls ih =>
    rw [trace, outputsAt_cons, inputsAt_cons, ih]
    by_cases hkey : call.1 = key
    · rw [if_pos hkey, if_pos hkey, get?_step_self hkey, localTrace, step, hkey]
    · rw [if_neg hkey, if_neg hkey, get?_step_of_ne hkey]

/-- **Projection** of the state that is left. -/
theorem final_at (f : Option σ → ι → ο × σ) (m : KeyedMap κ σ) (calls : List (κ × ι)) (key : κ) :
    (final f m calls).get? key = localFinal f (m.get? key) (inputsAt key calls) := by
  induction calls generalizing m with
  | nil => rfl
  | cons call calls ih =>
    refine (ih (step f m call.1 call.2).2).trans ?_
    rw [inputsAt_cons]
    by_cases hkey : call.1 = key
    · rw [if_pos hkey, get?_step_self hkey, localFinal_cons]
    · rw [if_neg hkey, get?_step_of_ne hkey]

/-- **Non-interference**: machines that agree at a key have the same outputs for it, the
one on all calls and the other on the calls for this key alone. -/
theorem trace_filter (f : Option σ → ι → ο × σ) {m m' : KeyedMap κ σ} (key : κ)
    (h : m.get? key = m'.get? key) (calls : List (κ × ι)) :
    (trace f m calls).filter (fun e => e.1.1 = key) =
      trace f m' (calls.filter fun call => call.1 = key) := by
  induction calls generalizing m m' with
  | nil => rfl
  | cons call calls ih =>
    rw [trace, List.filter_cons, List.filter_cons]
    by_cases hkey : call.1 = key
    · have hout : (step f m call.1 call.2).1 = (step f m' call.1 call.2).1 := by
        rw [step, step, hkey, h]
      have hstate : (step f m call.1 call.2).2.get? key =
          (step f m' call.1 call.2).2.get? key := by
        rw [get?_step_self hkey, get?_step_self hkey, h]
      rw [if_pos (decide_eq_true hkey), if_pos (decide_eq_true hkey), trace, hout, ih hstate]
    · have hskip : ¬decide (call.1 = key) = true := by simpa using hkey
      have hstate : (step f m call.1 call.2).2.get? key = m'.get? key := by
        rw [get?_step_of_ne hkey, h]
      rw [if_neg hskip, if_neg hskip, ih hstate]

end Sharded
