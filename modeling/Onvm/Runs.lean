import Mathlib

/-! Runs of a partial step function over a list of events, conditions that hold
along a run, and the rules that lift a step lemma to a run lemma. -/

namespace Runs

variable {σ ε : Type*}

def run (step : σ → ε → Option σ) : σ → List ε → Option σ
  | s, [] => some s
  | s, e :: es => (step s e).bind fun t => run step t es

/-- `P` holds of every event of the run in the state in which it happens. -/
def Along (step : σ → ε → Option σ) (P : σ → ε → Prop) : σ → List ε → Prop
  | _, [] => True
  | s, e :: es => P s e ∧ ∀ t, step s e = some t → Along step P t es

instance Along.decidable (step : σ → ε → Option σ) (P : σ → ε → Prop) [∀ s e, Decidable (P s e)] :
    ∀ s es, Decidable (Along step P s es)
  | _, [] => isTrue trivial
  | s, e :: es =>
    have : DecidablePred fun t => Along step P t es := fun t => Along.decidable step P t es
    inferInstanceAs (Decidable (P s e ∧ ∀ t ∈ step s e, Along step P t es))

variable {step : σ → ε → Option σ}

theorem run_cons_eq_some {s u : σ} {e : ε} {es : List ε} (h : run step s (e :: es) = some u) :
    ∃ t, step s e = some t ∧ run step t es = some u :=
  Option.bind_eq_some_iff.mp h

theorem run_cons {s t u : σ} {e : ε} {es : List ε} (h : step s e = some t)
    (h' : run step t es = some u) : run step s (e :: es) = some u := by
  rw [run, h]
  exact h'

theorem run_append {s t u : σ} {es es' : List ε} (h : run step s es = some t)
    (h' : run step t es' = some u) : run step s (es ++ es') = some u := by
  induction es generalizing s with
  | nil =>
    cases h
    exact h'
  | cons e es ih =>
    obtain ⟨v, hv, h⟩ := run_cons_eq_some h
    rw [List.cons_append, run, hv]
    exact ih h

theorem run_of_append {s t u : σ} {es es' : List ε} (h : run step s es = some t)
    (h' : run step s (es ++ es') = some u) : run step t es' = some u := by
  induction es generalizing s with
  | nil =>
    cases h
    exact h'
  | cons e es ih =>
    obtain ⟨v, hv, h⟩ := run_cons_eq_some h
    obtain ⟨v', hv', h'⟩ := run_cons_eq_some h'
    cases hv.symm.trans hv'
    exact ih h h'

theorem exists_of_any {Q : σ → Prop} [DecidablePred Q] {o : Option σ}
    (h : (o.any fun t => Q t) = true) : ∃ t, o = some t ∧ Q t := by
  cases o with
  | none => cases h
  | some t => exact ⟨t, rfl, of_decide_eq_true h⟩

theorem invariant_run {P : σ → ε → Prop} {I : σ → Prop}
    (hstep : ∀ s e t, I s → P s e → step s e = some t → I t) {s u : σ} {es : List ε}
    (hs : I s) (ha : Along step P s es) (hr : run step s es = some u) : I u := by
  induction es generalizing s with
  | nil => cases hr; exact hs
  | cons e es ih =>
    obtain ⟨t, ht, hr⟩ := run_cons_eq_some hr
    exact ih (hstep s e t hs ha.1 ht) (ha.2 t ht) hr

theorem always_run {I : σ → Prop} (hstep : ∀ s e t, I s → step s e = some t → I t) {s u : σ}
    {es : List ε} (hs : I s) (hr : run step s es = some u) : I u := by
  induction es generalizing s with
  | nil => cases hr; exact hs
  | cons e es ih =>
    obtain ⟨t, ht, hr⟩ := run_cons_eq_some hr
    exact ih (hstep s e t hs ht) hr

/-- Some event of the run, in the state in which it happens, satisfies `P`. -/
def Sometime (step : σ → ε → Option σ) (P : σ → ε → Prop) (s : σ) (es : List ε) : Prop :=
  ∃ front e back t, es = front ++ e :: back ∧ run step s front = some t ∧ P t e

theorem Sometime.cons {P : σ → ε → Prop} {s t : σ} {e : ε} {es : List ε} (ht : step s e = some t)
    (h : Sometime step P t es) : Sometime step P s (e :: es) := by
  obtain ⟨front, e', back, u, rfl, hu, he'⟩ := h
  refine ⟨e :: front, e', back, u, rfl, ?_, he'⟩
  rw [run, ht]
  exact hu

theorem origin_run {P : σ → ε → Prop} {I : σ → Prop}
    (hstep : ∀ s e t, step s e = some t → I t → I s ∨ P s e) {s u : σ} {es : List ε}
    (hr : run step s es = some u) (hu : I u) : I s ∨ Sometime step P s es := by
  induction es generalizing s with
  | nil => cases hr; exact .inl hu
  | cons e es ih =>
    obtain ⟨t, ht, hr⟩ := run_cons_eq_some hr
    rcases ih hr with hI | hsome
    · refine (hstep s e t ht hI).imp_right fun he => ?_
      exact ⟨[], e, es, s, rfl, rfl, he⟩
    · exact .inr (hsome.cons ht)

theorem history_foldl {f : σ → ε → σ} {I : List ε → σ → Prop} {s : σ} (hs : I [] s)
    (hstep : ∀ es t e, I es t → I (es ++ [e]) (f t e)) (es : List ε) : I es (es.foldl f s) := by
  induction es using List.reverseRecOn with
  | nil => exact hs
  | append_singleton es e ih =>
    rw [List.foldl_append]
    exact hstep es _ e ih

def lastNews {β : Type*} (news : ε → Option β) (es : List ε) : Option β := (es.filterMap news).getLast?

theorem lastNews_concat {β : Type*} (news : ε → Option β) (es : List ε) (e : ε) :
    lastNews news (es ++ [e]) = (news e).or (lastNews news es) := by
  rw [lastNews, List.filterMap_append]
  cases h : news e with
  | none => simp [h, lastNews]
  | some b => simp [h]

theorem Along.imp {P Q : σ → ε → Prop} (hPQ : ∀ s e, P s e → Q s e) {s : σ} {es : List ε}
    (h : Along step P s es) : Along step Q s es := by
  induction es generalizing s with
  | nil => trivial
  | cons e es ih => exact ⟨hPQ s e h.1, fun t ht => ih (h.2 t ht)⟩

theorem along_of_forall {P : ε → Prop} {s : σ} {es : List ε} (h : ∀ e ∈ es, P e) :
    Along step (fun _ e => P e) s es := by
  induction es generalizing s with
  | nil => trivial
  | cons e es ih => exact ⟨h e (by simp), fun t _ => ih fun e he => h e (by simp [he])⟩

theorem Along.append {P : σ → ε → Prop} {s t : σ} {es es' : List ε} (h : Along step P s (es ++ es'))
    (hr : run step s es = some t) : Along step P s es ∧ Along step P t es' := by
  induction es generalizing s with
  | nil => cases hr; exact ⟨trivial, h⟩
  | cons e es ih =>
    obtain ⟨u, hu, hr⟩ := run_cons_eq_some hr
    obtain ⟨h1, h2⟩ := ih (h.2 u hu) hr
    refine ⟨⟨h.1, fun v hv => ?_⟩, h2⟩
    rw [hu] at hv
    cases hv
    exact h1

theorem Along.and {P Q : σ → ε → Prop} {s : σ} {es : List ε} (hp : Along step P s es)
    (hq : Along step Q s es) : Along step (fun s e => P s e ∧ Q s e) s es := by
  induction es generalizing s with
  | nil => trivial
  | cons e es ih => exact ⟨⟨hp.1, hq.1⟩, fun t ht => ih (hp.2 t ht) (hq.2 t ht)⟩

end Runs
