import Onvm.Deployment

/-! Commitments are append-only: the heights with a stored commitment have no gap, the last one is
what the catalog calls the latest, and nothing that was stored is ever stored again. -/

namespace Onvm

open ByteString OrderedStore Runs Std

/-- The heights of `p` that have a commitment are those from 1 up to the latest. -/
def ProgramCatalog.Gapless (cat : ProgramCatalog) (p : ProgramId) : Prop :=
  ∀ height : UInt64, (cat.getStateCommitment p height).isSome ↔
    1 ≤ height.toNat ∧ height.toNat ≤ cat.committedHeight p

theorem ProgramCatalog.latest_eq_getStateCommitment (cat : ProgramCatalog) (p : ProgramId) :
    cat.latestStateCommitment p = cat.getStateCommitment p (cat.localHeight p) := by
  rw [localHeight]
  cases hl : cat.latestStateCommitment p with
  | none => exact (latestStateCommitment_eq_none hl 0).symm
  | some c => exact (latestStateCommitment_eq_some hl).2.1.symm

theorem ProgramCatalog.Gapless.congr {cat cat' : ProgramCatalog} {p : ProgramId} (h : cat.Gapless p)
    (hc : ∀ height, cat'.getStateCommitment p height = cat.getStateCommitment p height) :
    cat'.Gapless p := by
  intro height
  rw [hc, committedHeight_congr (latestStateCommitment_congr hc)]
  exact h height

section Step

variable {pf : Platform} {sign : Bytes → Bytes} {p q : ProgramId} {L L' : Ledger} {s s' : Node}

theorem Appliable.gapless_commit {b : AggregatedReceiptBundle} (h : Appliable pf p L b)
    (hL : L.catalog.Gapless p) (now : UInt64) : (L.commit p b now).catalog.Gapless p := by
  have hnext := ProgramCatalog.toNat_of_expectedHeight h.height
  have hlatest : (L.commit p b now).catalog.committedHeight p = b.receipt.receipt.height.toNat :=
    ProgramCatalog.committedHeight_of_some (h.latest_commit now)
  intro height
  rw [hlatest, Ledger.commit, ProgramCatalog.getStateCommitment_storeStateCommitment]
  by_cases he : b.receipt.receipt.height = height
  · subst he
    simp only [and_self, if_true, Option.isSome_some, true_iff]
    omega
  · have hne : b.receipt.receipt.height.toNat ≠ height.toNat := fun hh => he (UInt64.toNat_inj.mp hh)
    rw [if_neg fun hh => he hh.2, hL height]
    omega

theorem CatchUp.gapless (h : CatchUp pf p L L') (hL : ∀ q, L.catalog.Gapless q) :
    ∀ q, L'.catalog.Gapless q := by
  refine h.induction (Q := fun M => ∀ q, M.catalog.Gapless q) hL ?_ (fun M b hM _ _ => hM)
  intro M b now hM hb _ q
  by_cases hq : p = q
  · subst hq
    exact hb.gapless_commit (hM p) now
  · refine (hM q).congr fun height => ?_
    rw [Ledger.commit, ProgramCatalog.getStateCommitment_storeStateCommitment, if_neg fun h => hq h.1]

theorem LedgerChange.gapless {op : Op} (h : LedgerChange pf s op L') (hs : ∀ q, s.catalog.Gapless q) :
    ∀ q, L'.catalog.Gapless q := by
  cases h with
  | same => exact hs
  | manifest m _ _ h => exact h.gapless hs
  | bundle b _ h =>
    cases h with
    | ignored => exact hs
    | cached _ => exact hs
    | applied _ _ h => exact h.gapless hs
  | head p h => exact h.gapless hs
  | respond => exact hs
  | job => exact hs

theorem ingestLocalProgram_commitments (object : Object) (now : UInt64) :
    (ingestLocalProgram pf sign s object now).1.catalog.commitments = s.catalog.commitments := by
  rw [ingestLocalProgram]
  split <;> rfl

theorem nodeStep_gapless {e : NodeEvent} (h : nodeStep pf sign s e = some s')
    (hs : ∀ q, s.catalog.Gapless q) : ∀ q, s'.catalog.Gapless q := by
  cases e with
  | op op => exact (step_ledger h).gapless hs
  | ingest object now =>
    cases h
    refine fun q => (hs q).congr fun height => ?_
    rw [ProgramCatalog.getStateCommitment, ingestLocalProgram_commitments, ProgramCatalog.getStateCommitment]

theorem nodeStep_getStateCommitment {e : NodeEvent} (h : nodeStep pf sign s e = some s') {height : UInt64}
    {c : StateCommitment} (hc : s.catalog.getStateCommitment q height = some c) :
    s'.catalog.getStateCommitment q height = some c := by
  cases e with
  | op op => exact (step_ledger h).getStateCommitment hc
  | ingest object now =>
    cases h
    rw [ProgramCatalog.getStateCommitment, ingestLocalProgram_commitments]
    exact hc

end Step

section Run

variable {pf : Platform} {sign : Bytes → Bytes} {s₀ s s' : Node}

theorem gapless_of_run (h₀ : s₀.Fresh) {evs : List NodeEvent}
    (hrun : run (nodeStep pf sign) s₀ evs = some s) (p : ProgramId) : s.catalog.Gapless p := by
  have hinit : ∀ q, s₀.catalog.Gapless q := by
    intro q height
    have hempty : s₀.catalog = .empty := by rw [h₀]; rfl
    have hnone := ProgramCatalog.latestStateCommitment_empty (p := q)
    rw [hempty, ProgramCatalog.latestStateCommitment_eq_none hnone, ProgramCatalog.committedHeight_of_none hnone]
    simp only [Option.isSome_none, Bool.false_eq_true, false_iff]
    omega
  exact always_run (I := fun t : Node => ∀ q, t.catalog.Gapless q)
    (fun t e u ht hu => nodeStep_gapless hu ht) hinit hrun p

/-- From an empty database, after any operations: the heights of a program that have a commitment
are 1 to `n`, the latest commitment is that of height `n`, and whatever comes later a commitment
stays what it is. -/
theorem commitments_append_only (h₀ : s₀.Fresh) {evs : List NodeEvent}
    (hrun : run (nodeStep pf sign) s₀ evs = some s) (p : ProgramId) :
    (∃ n : UInt64,
      (∀ height : UInt64, (s.catalog.getStateCommitment p height).isSome ↔ 1 ≤ height ∧ height ≤ n) ∧
      s.catalog.latestStateCommitment p = s.catalog.getStateCommitment p n ∧
      (s.catalog.latestStateCommitment p = none ↔ n = 0)) ∧
    ∀ (more : List NodeEvent) (s' : Node), run (nodeStep pf sign) s more = some s' →
      ∀ height c, s.catalog.getStateCommitment p height = some c →
        s'.catalog.getStateCommitment p height = some c := by
  have hgap := gapless_of_run h₀ hrun p
  have hlatest := s.catalog.latest_eq_getStateCommitment p
  refine ⟨⟨s.catalog.localHeight p, hgap, hlatest, ?_⟩, ?_⟩
  · rw [hlatest, ← Option.not_isSome_iff_eq_none, hgap, ← UInt64.toNat_inj]
    have hh : s.catalog.committedHeight p = (s.catalog.localHeight p).toNat := rfl
    have h0 : (0 : UInt64).toNat = 0 := rfl
    omega
  · intro more s' hmore height c hc
    exact always_run (I := fun t : Node => t.catalog.getStateCommitment p height = some c)
      (fun t e u ht hu => nodeStep_getStateCommitment hu ht) hc hmore

/-- Two heights that a single member commits. -/
theorem commitments_append_only_sample :
    ∃ s, run (nodeStep sampleRuntime sampleSign) (sampleStart 1) (twoHeights.map .op) = some s ∧
      s.catalog.committedHeight sampleProgram = 2 ∧
      ∃ n : UInt64, ∀ height : UInt64,
        (s.catalog.getStateCommitment sampleProgram height).isSome ↔ 1 ≤ height ∧ height ≤ n := by
  have hrun : ((run (nodeStep sampleRuntime sampleSign) (sampleStart 1) (twoHeights.map .op)).any fun s =>
      s.catalog.committedHeight sampleProgram = 2) = true := by
    decide +kernel
  obtain ⟨s, hs, htwo⟩ := exists_of_any hrun
  obtain ⟨⟨n, hn, -⟩, -⟩ := commitments_append_only (sampleStart_fresh 1) hs sampleProgram
  exact ⟨s, hs, htwo, n, hn⟩

end Run

end Onvm
