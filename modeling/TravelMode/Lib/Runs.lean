import Mathlib.Data.List.Basic
import Mathlib.Data.List.Infix

/-!
# Runs of partial step functions

A system whose actors interleave is given by one partial function
`step : σ → α → Option σ`: `none` says that the action is not enabled. A
*schedule* is a list of actions, and quantifying over every schedule that runs
is quantifying over every interleaving.

- `run`: execute a schedule, with its algebra on `++`.
- `run_invariant`: what one step preserves, a whole run preserves.
- `run_history`: the same with an invariant that also speaks about the schedule
  executed so far — this is what relates a state to a condition on the *order* of
  the steps that led to it.
- `During`: a property of the state and the next action, at some step of a run.
- `AlongRun`: the same at every step of a run;
  `run_iff_along` for what holds in the end exactly if it does, `run_forall_iff_along` for
  what holds throughout.
-/

namespace Runs

universe u v

variable {σ : Type u} {α : Type v}

/-- Execute a schedule: `none` as soon as one of its actions is not enabled. -/
def run (step : σ → α → Option σ) : σ → List α → Option σ
  | s, [] => some s
  | s, a :: as => (step s a).bind fun s' => run step s' as

variable {step : σ → α → Option σ}

@[simp] theorem run_nil (s : σ) : run step s [] = some s := rfl

theorem run_cons (s : σ) (a : α) (as : List α) :
    run step s (a :: as) = (step s a).bind fun s' => run step s' as := rfl

/-- A run of `a :: as` is a step and then a run. -/
theorem run_cons_eq_some {s s' : σ} {a : α} {as : List α} :
    run step s (a :: as) = some s' ↔ ∃ m, step s a = some m ∧ run step m as = some s' := by
  rw [run_cons, Option.bind_eq_some_iff]

/-- A run of `as ++ bs` is a run of `as` and then a run of `bs`. -/
theorem run_append (s : σ) (as bs : List α) :
    run step s (as ++ bs) = (run step s as).bind fun m => run step m bs := by
  induction as generalizing s with
  | nil => rfl
  | cons a as ih =>
    rw [List.cons_append, run_cons, run_cons]
    cases step s a with
    | none => rfl
    | some m => exact ih m

theorem run_append_eq_some {s s' : σ} {as bs : List α} :
    run step s (as ++ bs) = some s' ↔
      ∃ m, run step s as = some m ∧ run step m bs = some s' := by
  rw [run_append, Option.bind_eq_some_iff]

/-- The last step of a run. -/
theorem run_snoc {s s' : σ} {as : List α} {a : α} :
    run step s (as ++ [a]) = some s' ↔ ∃ m, run step s as = some m ∧ step m a = some s' := by
  rw [run_append_eq_some]
  refine exists_congr fun m => and_congr_right fun _ => ?_
  rw [run_cons_eq_some]
  constructor
  · rintro ⟨m', hm, he⟩
    cases he
    exact hm
  · intro h
    exact ⟨s', h, rfl⟩

/-- **Invariant rule**: what one step preserves, a run preserves. -/
theorem run_invariant {I : σ → Prop}
    (hstep : ∀ {s s' : σ} {a : α}, I s → step s a = some s' → I s')
    {s s' : σ} {as : List α} (h0 : I s) (h : run step s as = some s') : I s' := by
  induction as generalizing s with
  | nil =>
    cases h
    exact h0
  | cons a as ih =>
    obtain ⟨m, hm, hrun⟩ := run_cons_eq_some.mp h
    exact ih (hstep h0 hm) hrun

/-- **History rule**: the invariant may also mention the schedule executed so
far. The induction is on the schedule from its end, so that the step lemma sees
the past it extends. -/
theorem run_history {I : List α → σ → Prop} {s₀ : σ} (h0 : I [] s₀)
    (hstep : ∀ {tr : List α} {s s' : σ} {a : α},
      run step s₀ tr = some s → I tr s → step s a = some s' → I (tr ++ [a]) s')
    {s' : σ} {as : List α} (h : run step s₀ as = some s') : I as s' := by
  induction as using List.reverseRecOn generalizing s' with
  | nil =>
    cases h
    exact h0
  | append_singleton as a ih =>
    obtain ⟨m, hm, hs⟩ := run_snoc.mp h
    exact hstep hm (ih hm) hs

/-- `P` holds of the state and the next action at every step of the run. -/
def AlongRun (step : σ → α → Option σ) (P : σ → α → Prop) (s : σ) (as : List α) : Prop :=
  ∀ pre a post, as = pre ++ a :: post → ∀ m, run step s pre = some m → P m a

theorem alongRun_nil {P : σ → α → Prop} {s : σ} : AlongRun step P s [] := by
  intro pre a post h
  cases pre <;> cases h

theorem alongRun_of_forall {P : σ → α → Prop} {s : σ} {as : List α} (h : ∀ a ∈ as, ∀ m, P m a) :
    AlongRun step P s as := by
  intro pre a post has m _
  refine h a ?_ m
  rw [has]
  exact List.mem_append_right _ List.mem_cons_self

theorem alongRun_prefix {P : σ → α → Prop} {s : σ} {as bs : List α}
    (h : AlongRun step P s bs) (hp : as <+: bs) : AlongRun step P s as := by
  obtain ⟨cs, rfl⟩ := hp
  intro pre a post has m hm
  refine h pre a (post ++ cs) ?_ m hm
  rw [has, List.append_assoc, List.cons_append]

/-- A property along a run is the property along all but the last step, and of
the last step. -/
theorem alongRun_snoc {P : σ → α → Prop} {s m : σ} {as : List α} {a : α}
    (hm : run step s as = some m) :
    AlongRun step P s (as ++ [a]) ↔ AlongRun step P s as ∧ P m a := by
  constructor
  · intro h
    refine ⟨fun pre b post hb m' hm' => ?_, h as a [] rfl m hm⟩
    refine h pre b (post ++ [a]) ?_ m' hm'
    rw [hb, List.append_assoc, List.cons_append]
  · rintro ⟨h, hl⟩ pre b post hb m' hm'
    rcases List.eq_nil_or_concat post with rfl | ⟨post', c, rfl⟩
    · obtain ⟨rfl, hc⟩ := List.append_inj' hb rfl
      cases hc
      rw [hm] at hm'
      cases hm'
      exact hl
    · rw [List.concat_eq_append, ← List.cons_append, ← List.append_assoc] at hb
      obtain ⟨has, -⟩ := List.append_inj' hb rfl
      exact h pre b post' has m' hm'

/-- A property along a run is the property of the first step, and along what
follows it. -/
theorem alongRun_cons {P : σ → α → Prop} {s : σ} {a : α} {as : List α} :
    AlongRun step P s (a :: as) ↔ P s a ∧ ∀ m, step s a = some m → AlongRun step P m as := by
  constructor
  · intro h
    refine ⟨h [] a as rfl s rfl, fun m hm pre b post hb m' hm' => ?_⟩
    refine h (a :: pre) b post ?_ m' ?_
    · rw [hb, List.cons_append]
    · rw [run_cons, hm]
      exact hm'
  · rintro ⟨hfirst, hrest⟩ pre b post hb m' hm'
    cases pre with
    | nil =>
      cases hb
      cases hm'
      exact hfirst
    | cons c pre =>
      obtain ⟨rfl, hrem⟩ := List.cons.inj hb
      obtain ⟨m, hm, hrun⟩ := run_cons_eq_some.mp hm'
      exact hrest m hm pre b post hrem m' hrun

instance decidableAlongRun {P : σ → α → Prop} [∀ s a, Decidable (P s a)] (s : σ) :
    (as : List α) → Decidable (AlongRun step P s as)
  | [] => isTrue alongRun_nil
  | a :: as =>
    match hm : step s a with
    | none => decidable_of_iff (P s a) (by rw [alongRun_cons, hm]; simp)
    | some m =>
      haveI := decidableAlongRun (P := P) m as
      decidable_of_iff (P s a ∧ AlongRun step P m as) (by rw [alongRun_cons, hm]; simp)

/-- At some step of the run, `P` holds of the state and the action. -/
def During (step : σ → α → Option σ) (P : σ → α → Prop) (s : σ) (as : List α) : Prop :=
  ∃ pre a post m, as = pre ++ a :: post ∧ run step s pre = some m ∧ P m a

theorem During.append {P : σ → α → Prop} {s : σ} {as : List α} (h : During step P s as)
    (bs : List α) : During step P s (as ++ bs) := by
  obtain ⟨pre, a, post, m, rfl, hm, hP⟩ := h
  refine ⟨pre, a, post ++ bs, m, ?_, hm, hP⟩
  rw [List.append_assoc, List.cons_append]

/-- The last step of a run is one of its steps. -/
theorem during_last {P : σ → α → Prop} {s m : σ} {as : List α} {a : α}
    (hm : run step s as = some m) (hP : P m a) : During step P s (as ++ [a]) :=
  ⟨as, a, [], m, rfl, hm, hP⟩

/-- **Invariant rule under a condition**: what every step that meets `P` preserves,
a run along which `P` holds preserves. -/
theorem run_invariant_along {I : σ → Prop} {P : σ → α → Prop}
    (hstep : ∀ {s s' : σ} {a : α}, I s → P s a → step s a = some s' → I s')
    {s s' : σ} {as : List α} (h0 : I s) (h : run step s as = some s')
    (hP : AlongRun step P s as) : I s' := by
  induction as generalizing s with
  | nil =>
    cases h
    exact h0
  | cons a as ih =>
    obtain ⟨m, hm, hrun⟩ := run_cons_eq_some.mp h
    obtain ⟨hfirst, hrest⟩ := alongRun_cons.mp hP
    exact ih (hstep h0 hfirst hm) hrun (hrest m hm)

/-- **Simulation rule**: what one system can do, another one can that is related to it. -/
theorem run_simulates {τ : Type*} {step' : τ → α → Option τ} {R : σ → τ → Prop} {P : α → Prop}
    (hstep : ∀ {s m : σ} {t : τ} {a : α}, R s t → P a → step s a = some m →
      ∃ m', step' t a = some m' ∧ R m m')
    {s s' : σ} {t : τ} {as : List α} (h0 : R s t) (h : run step s as = some s')
    (hP : ∀ a ∈ as, P a) : ∃ t', run step' t as = some t' ∧ R s' t' := by
  induction as generalizing s t with
  | nil =>
    cases h
    exact ⟨t, rfl, h0⟩
  | cons a as ih =>
    obtain ⟨m, hm, hrun⟩ := run_cons_eq_some.mp h
    obtain ⟨m', hm', hR⟩ := hstep h0 (hP a List.mem_cons_self) hm
    obtain ⟨t', ht', hR'⟩ := ih hR hrun fun b hb => hP b (List.mem_cons_of_mem _ hb)
    exact ⟨t', run_cons_eq_some.mpr ⟨m', hm', ht'⟩, hR'⟩

/-- **Exactness rule**: where a step leaves `Q` true exactly if it was and the step meets
`P`, a run does exactly if `P` holds along it. -/
theorem run_iff_along {I Q : σ → Prop} {P : σ → α → Prop}
    (hinv : ∀ {s s' : σ} {a : α}, I s → step s a = some s' → I s')
    (hstep : ∀ {s s' : σ} {a : α}, I s → step s a = some s' → (Q s' ↔ Q s ∧ P s a))
    {s s' : σ} {as : List α} (h0 : I s) (hQ : Q s) (h : run step s as = some s') :
    Q s' ↔ AlongRun step P s as := by
  induction as using List.reverseRecOn generalizing s' with
  | nil =>
    cases h
    exact iff_of_true hQ alongRun_nil
  | append_singleton as a ih =>
    obtain ⟨m, hm, hs⟩ := run_snoc.mp h
    rw [hstep (run_invariant hinv h0 hm) hs, ih hm, alongRun_snoc hm]

/-- **Exactness rule for every state**: where a step that starts from `Q` leaves it true
exactly if it meets `P`, all states of a run have `Q` exactly if `P` holds along it. -/
theorem run_forall_iff_along {I Q : σ → Prop} {P : σ → α → Prop}
    (hinv : ∀ {s s' : σ} {a : α}, I s → step s a = some s' → I s')
    (hstep : ∀ {s s' : σ} {a : α}, I s → Q s → step s a = some s' → (Q s' ↔ P s a))
    {s s' : σ} {as : List α} (h0 : I s) (hQ : Q s) (h : run step s as = some s') :
    (∀ pre, pre <+: as → ∀ m, run step s pre = some m → Q m) ↔ AlongRun step P s as := by
  induction as using List.reverseRecOn generalizing s' with
  | nil =>
    refine iff_of_true (fun pre hpre m hm => ?_) alongRun_nil
    rw [List.prefix_nil.mp hpre] at hm
    cases hm
    exact hQ
  | append_singleton as a ih =>
    obtain ⟨m, hm, hs⟩ := run_snoc.mp h
    have hlast : Q m → (Q s' ↔ P m a) := fun hQm => hstep (run_invariant hinv h0 hm) hQm hs
    rw [alongRun_snoc hm, ← ih hm]
    constructor
    · intro hall
      have hbefore : ∀ pre, pre <+: as → ∀ m, run step s pre = some m → Q m :=
        fun pre hpre => hall pre (hpre.trans (List.prefix_append as [a]))
      have hQm := hbefore as (List.prefix_refl as) m hm
      exact ⟨hbefore, (hlast hQm).mp (hall _ (List.prefix_refl _) s' h)⟩
    · rintro ⟨hbefore, hP⟩ pre hpre m' hm'
      rcases List.prefix_concat_iff.mp hpre with rfl | hpre
      · rw [h] at hm'
        cases hm'
        exact (hlast (hbefore as (List.prefix_refl as) m hm)).mpr hP
      · exact hbefore pre hpre m' hm'

end Runs
