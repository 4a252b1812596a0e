import Mathlib.Data.List.Basic

/-!
# Loops that may end before their input does

- `search`: a search in which an item is passed over, answers, or makes the whole search give
  up. `search_eq_findSome?_iff`: it is a plain search exactly if nothing gives up before the
  first answer. `findSome?_groups`: a search of searches.
- `loop`: a loop with `break`; `drain`: the same loop over a stream whose items may be errors
  (`drain_eq_ok`, `drain_map_ok`).
-/

namespace Loops

universe u v w

variable {α : Type u} {β : Type v} {σ : Type v} {ε : Type w}

/-! ## Searches -/

/-- What a search makes of an item. -/
inductive Finding (β : Type v) where
  | pass
  | found (answer : β)
  | giveUp

/-- The answer, if there is one. -/
def Finding.answer? : Finding β → Option β
  | found answer => some answer
  | _ => none

/-- Search, item by item. -/
def search (visit : α → Finding β) : List α → Option β
  | [] => none
  | a :: as =>
    match visit a with
    | .pass => search visit as
    | .found answer => some answer
    | .giveUp => none

/-- Nothing gives up before the first answer. -/
def Patient (visit : α → Finding β) (as : List α) : Prop :=
  ∀ before a after, as = before ++ a :: after → (visit a).answer? ≠ none →
    (∀ x ∈ before, (visit x).answer? = none) → ∀ x ∈ before, visit x ≠ .giveUp

variable {visit : α → Finding β} {a : α} {as : List α}

theorem patient_cons_of_found (h : (visit a).answer? ≠ none) : Patient visit (a :: as) := by
  intro before b after has _ hnone x hx
  cases before with
  | nil => cases hx
  | cons c before =>
    obtain ⟨rfl, -⟩ := List.cons_eq_cons.mp has
    exact absurd (hnone a List.mem_cons_self) h

theorem patient_cons_of_pass (h : visit a = .pass) :
    Patient visit (a :: as) ↔ Patient visit as := by
  have hnone : (visit a).answer? = none := by rw [h]; rfl
  constructor
  · intro hpatient before b after has hb hbefore x hx
    refine hpatient (a :: before) b after (by rw [has]; rfl) hb ?_ x (List.mem_cons_of_mem _ hx)
    exact List.forall_mem_cons.mpr ⟨hnone, hbefore⟩
  · intro hpatient before b after has hb hbefore x hx
    cases before with
    | nil => cases hx
    | cons c before =>
      obtain ⟨rfl, hrest⟩ := List.cons_eq_cons.mp has
      rcases List.mem_cons.mp hx with rfl | hx
      · rw [h]
        exact fun he => nomatch he
      · exact hpatient before b after hrest hb (List.forall_mem_cons.mp hbefore).2 x hx

/-- Nothing may answer after an item that gives up. -/
theorem patient_cons_of_giveUp (h : visit a = .giveUp) :
    Patient visit (a :: as) ↔ as.findSome? (fun x => (visit x).answer?) = none := by
  have hnone : (visit a).answer? = none := by rw [h]; rfl
  constructor
  · intro hpatient
    by_contra hsome
    obtain ⟨answer, hanswer⟩ := Option.ne_none_iff_exists'.mp hsome
    obtain ⟨before, b, after, rfl, hb, hbefore⟩ := List.findSome?_eq_some_iff.mp hanswer
    refine hpatient (a :: before) b after rfl (by rw [hb]; exact Option.some_ne_none _) ?_ a
      List.mem_cons_self h
    exact List.forall_mem_cons.mpr ⟨hnone, hbefore⟩
  · intro hrest before b after has hb hbefore x hx
    cases before with
    | nil => cases hx
    | cons c before =>
      obtain ⟨rfl, rfl⟩ := List.cons_eq_cons.mp has
      refine absurd (List.findSome?_eq_none_iff.mp hrest b ?_) hb
      exact List.mem_append_right _ List.mem_cons_self

/-- **A search that may give up** finds the first answer exactly if nothing gives up before
it. -/
theorem search_eq_findSome?_iff :
    search visit as = as.findSome? (fun a => (visit a).answer?) ↔ Patient visit as := by
  induction as with
  | nil =>
    refine iff_of_true rfl fun before a after h => ?_
    exact absurd h.symm (List.append_ne_nil_of_right_ne_nil _ (List.cons_ne_nil _ _))
  | cons a as ih =>
    rw [List.findSome?_cons, search]
    cases hvisit : visit a with
    | pass => exact ih.trans (patient_cons_of_pass hvisit).symm
    | found answer =>
      refine iff_of_true rfl (patient_cons_of_found ?_)
      rw [hvisit]
      exact Option.some_ne_none _
    | giveUp => exact eq_comm.trans (patient_cons_of_giveUp hvisit).symm

/-- A search over groups of rows, each answered by its first row that qualifies, is one for
the first row of all. -/
theorem findSome?_groups {ρ : Type v} {γ : Type w} {answer : α → Option γ} {rows : α → List ρ}
    {p : ρ → Bool} {value : ρ → γ} {as : List α}
    (h : ∀ a ∈ as, answer a = ((rows a).find? p).map value) :
    as.findSome? answer = ((as.flatMap rows).find? p).map value := by
  induction as with
  | nil => rfl
  | cons a as ih =>
    rw [List.findSome?_cons, h a List.mem_cons_self, List.flatMap_cons, List.find?_append]
    cases (rows a).find? p with
    | some row => rfl
    | none => exact ih fun b hb => h b (List.mem_cons_of_mem _ hb)

/-! ## Loops with `break` -/

/-- `for a in as { body }`, where the body may `break`. -/
def loop (body : σ → α → ForInStep σ) : σ → List α → σ
  | s, [] => s
  | s, a :: as =>
    match body s a with
    | .done s' => s'
    | .yield s' => loop body s' as

/-- `while let Some(a) = stream.try_next()? { body }`: an error ends the loop and what is
around it. -/
def drain (body : σ → α → ForInStep σ) : σ → List (Except ε α) → Except ε σ
  | s, [] => .ok s
  | _, .error e :: _ => .error e
  | s, .ok a :: stream =>
    match body s a with
    | .done s' => .ok s'
    | .yield s' => drain body s' stream

/-- The items of a stream. -/
def received (stream : List (Except ε α)) : List α := stream.filterMap Except.toOption

/-- What goes on after a step that may fail. -/
theorem bind_eq_ok {α β : Type u} {x : Except ε α} {f : α → Except ε β} {b : β} :
    x >>= f = .ok b ↔ ∃ a, x = .ok a ∧ f a = .ok b := by
  cases x with
  | error e => exact ⟨fun h => (nomatch h), fun ⟨_, h, _⟩ => (nomatch h)⟩
  | ok a =>
    refine ⟨fun h => ⟨a, rfl, h⟩, ?_⟩
    rintro ⟨_, h, hf⟩
    cases h
    exact hf

/-- A loop that comes to its end is the loop over the items. -/
theorem drain_eq_ok {body : σ → α → ForInStep σ} {s s' : σ} {stream : List (Except ε α)}
    (h : drain body s stream = .ok s') : s' = loop body s (received stream) := by
  induction stream generalizing s with
  | nil =>
    cases h
    rfl
  | cons item stream ih =>
    cases item with
    | error e => cases h
    | ok a =>
      rw [drain] at h
      show s' = loop body s (a :: received stream)
      rw [loop]
      cases hbody : body s a with
      | done s'' =>
        rw [hbody] at h
        exact (Except.ok.inj h).symm
      | yield s'' =>
        rw [hbody] at h
        exact ih h

/-- Without errors, a loop comes to its end. -/
theorem drain_map_ok (body : σ → α → ForInStep σ) (s : σ) (as : List α) :
    drain body s (as.map (Except.ok (ε := ε))) = .ok (loop body s as) := by
  induction as generalizing s with
  | nil => rfl
  | cons a as ih =>
    rw [List.map_cons, drain, loop]
    cases body s a with
    | done s' => rfl
    | yield s' => exact ih s'

/-- A loop that never breaks is a fold. -/
theorem loop_yield (f : σ → α → σ) (s : σ) (as : List α) :
    loop (fun s a => .yield (f s a)) s as = as.foldl f s := by
  induction as generalizing s with
  | nil => rfl
  | cons a as ih => exact ih (f s a)

end Loops
