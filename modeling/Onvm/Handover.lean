import Onvm.Runs

/-! Handing over. In each state of a machine some places hold something; a step keeps or drops it, or
one place hands it to another. What has come in once is then at one place at a time, and a final place
that has held it is the last. -/

namespace Handover

open Runs

variable {α σ ε : Type*}

/-- `S'` is what `S` becomes when at most one place hands over, and no final one. -/
inductive Passes (final : α → Prop) (S S' : Set α) : Prop
  | keep (h : S' ⊆ S)
  | hand (x y : α) (hx : x ∈ S) (hfinal : ¬ final x) (h : S' ⊆ insert y (S \ {x}))

variable {final : α → Prop} {S S' : Set α}

theorem Passes.empty (h : Passes final S S') (hS : S = ∅) : S' = ∅ := by
  cases h with
  | keep h => exact Set.subset_empty_iff.mp (hS ▸ h)
  | hand x y hx hfinal h =>
    rw [hS] at hx
    exact absurd hx (Set.notMem_empty x)

theorem Passes.single (h : Passes final S S') {a : α} (hS : S ⊆ {a}) :
    ∃ b, S' ⊆ {b} ∧ (final a → b = a) := by
  cases h with
  | keep h => exact ⟨a, h.trans hS, fun _ => rfl⟩
  | hand x y hx hfinal h =>
    have hxa : x = a := hS hx
    subst hxa
    refine ⟨y, fun z hz => ?_, fun hf => absurd hf hfinal⟩
    rcases h hz with hzy | ⟨hzS, hzx⟩
    · exact hzy
    · exact absurd (hS hzS) hzx

/-- A machine in which events `enters` bring something in and all others hand over what is there. -/
structure Conserves (step : σ → ε → Option σ) (I : σ → Prop) (P : σ → ε → Prop) (places : σ → Set α)
    (final : α → Prop) (enters : ε → Bool) : Prop where
  invariant : ∀ s e t, I s → P s e → step s e = some t → I t
  passes : ∀ s e t, I s → P s e → step s e = some t → enters e = false →
    Passes final (places s) (places t)
  enters : ∀ s e t, I s → P s e → step s e = some t → enters e = true →
    ∃ y, places t ⊆ insert y (places s)

section Runs

variable {step : σ → ε → Option σ} {I : σ → Prop} {P : σ → ε → Prop} {places : σ → Set α}
  {enters : ε → Bool} {s t u : σ} {es es' : List ε}

theorem countP_cons_eq_zero {e : ε} (h : (e :: es).countP enters = 0) :
    enters e = false ∧ es.countP enters = 0 := by
  rw [List.countP_cons] at h
  cases he : enters e with
  | false => exact ⟨rfl, by omega⟩
  | true => simp [he] at h

theorem Conserves.empty_run (h : Conserves step I P places final enters) (hs : I s)
    (ha : Along step P s es) (hnone : es.countP enters = 0) (hr : run step s es = some t)
    (hS : places s = ∅) : places t = ∅ := by
  induction es generalizing s with
  | nil => cases hr; exact hS
  | cons e es ih =>
    obtain ⟨v, hv, hr⟩ := run_cons_eq_some hr
    obtain ⟨he, hnone⟩ := countP_cons_eq_zero hnone
    exact ih (h.invariant s e v hs ha.1 hv) (ha.2 v hv) hnone hr ((h.passes s e v hs ha.1 hv he).empty hS)

theorem Conserves.single_run (h : Conserves step I P places final enters) (hs : I s)
    (ha : Along step P s es) (hnone : es.countP enters = 0) (hr : run step s es = some t) {a : α}
    (hS : places s ⊆ {a}) : ∃ b, places t ⊆ {b} ∧ (final a → b = a) := by
  induction es generalizing s a with
  | nil => cases hr; exact ⟨a, hS, fun _ => rfl⟩
  | cons e es ih =>
    obtain ⟨v, hv, hr⟩ := run_cons_eq_some hr
    obtain ⟨he, hnone⟩ := countP_cons_eq_zero hnone
    obtain ⟨b, hb, hba⟩ := (h.passes s e v hs ha.1 hv he).single hS
    obtain ⟨c, hc, hcb⟩ := ih (h.invariant s e v hs ha.1 hv) (ha.2 v hv) hnone hr hb
    refine ⟨c, hc, fun hf => ?_⟩
    have hab := hba hf
    rw [hcb (hab ▸ hf), hab]

theorem Conserves.once_run (h : Conserves step I P places final enters) (hs : I s)
    (ha : Along step P s es) (hone : es.countP enters ≤ 1) (hr : run step s es = some t)
    (hS : places s = ∅) {x : α} (hx : x ∈ places t) : places t ⊆ {x} := by
  induction es generalizing s with
  | nil =>
    cases hr
    rw [hS] at hx
    exact absurd hx (Set.notMem_empty x)
  | cons e es ih =>
    obtain ⟨v, hv, hr⟩ := run_cons_eq_some hr
    have hI := h.invariant s e v hs ha.1 hv
    rw [List.countP_cons] at hone
    cases he : enters e with
    | false =>
      rw [he] at hone
      exact ih hI (ha.2 v hv) (by simpa using hone) hr ((h.passes s e v hs ha.1 hv he).empty hS)
    | true =>
      obtain ⟨y, hy⟩ := h.enters s e v hs ha.1 hv he
      have hy' : places v ⊆ {y} := by
        rw [hS] at hy
        simpa using hy
      have hnone : es.countP enters = 0 := by
        rw [he] at hone
        simpa using hone
      obtain ⟨b, hb, -⟩ := h.single_run hI (ha.2 v hv) hnone hr hy'
      have hxb : x = b := hb hx
      exact hxb ▸ hb

theorem Conserves.final_unique (h : Conserves step I P places final enters) (hs : I s)
    (hS : places s = ∅) (ha : Along step P s (es ++ es')) (hone : (es ++ es').countP enters ≤ 1)
    (ht : run step s es = some t) (hu : run step t es' = some u) {x y : α} (hx : x ∈ places t)
    (hfinal : final x) (hy : y ∈ places u) : y = x := by
  obtain ⟨ha₁, ha₂⟩ := ha.append ht
  rw [List.countP_append] at hone
  have hit : I t := invariant_run h.invariant hs ha₁ ht
  have hsingle := h.once_run hs ha₁ (by omega) ht hS hx
  have hsome : es.countP enters ≠ 0 := by
    intro hnone
    rw [h.empty_run hs ha₁ hnone ht hS] at hx
    exact Set.notMem_empty x hx
  obtain ⟨b, hb, hbx⟩ := h.single_run hit ha₂ (by omega) hu hsingle
  rw [← hbx hfinal]
  exact hb hy

end Runs

end Handover
