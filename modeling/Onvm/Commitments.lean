import Onvm.Steps

/-! Commitments over a step: they are only added, and each comes from a bundle
that the ledger keeps and that verifies for the committee of the manifest. -/

namespace Onvm

open ByteString OrderedStore Std

variable {pf : Platform} {p q : ProgramId} {L L' : Ledger} {s s' : Node} {op : Op}

theorem ProgramCatalog.committee_congr {cat cat' : ProgramCatalog} (h : cat'.manifests = cat.manifests) :
    cat'.committee pf p = cat.committee pf p := by
  rw [committee, committee, getManifest_congr h]

theorem CatchUp.induction {Q : Ledger → Prop} (h : CatchUp pf p L L') (hL : Q L)
    (hcommit : ∀ M b now, Q M → Appliable pf p M b → AppliedRoot pf p M b → Q (M.commit p b now))
    (hmis : ∀ M b, Q M → Appliable pf p M b → ¬ AppliedRoot pf p M b →
      Q { M with states := M.states.applyStateWrites p b.stateWrites }) : Q L' := by
  obtain ⟨M, hpath, hend⟩ := h
  have hM : Q M := by
    clear hend
    induction hpath with
    | refl => exact hL
    | tail _ hstep ih =>
      obtain ⟨b, now, hb, hr⟩ := hstep
      exact hcommit _ b now ih hb hr
  rcases hend with rfl | ⟨b, hb, hr⟩
  · exact hM
  · exact hmis M b hM hb hr

theorem CatchUp.frame (h : CatchUp pf p L L') :
    L'.catalog.manifests = L.catalog.manifests ∧ L'.finalized = L.finalized :=
  h.induction (Q := fun M => M.catalog.manifests = L.catalog.manifests ∧ M.finalized = L.finalized)
    ⟨rfl, rfl⟩ (fun _ _ _ hM _ _ => hM) (fun _ _ hM _ _ => hM)

theorem Appliable.getStateCommitment_eq_none {b : AggregatedReceiptBundle} (h : Appliable pf p L b) :
    L.catalog.getStateCommitment p b.receipt.receipt.height = none := by
  by_contra hc
  have h1 := ProgramCatalog.toNat_le_committedHeight (Option.isSome_iff_ne_none.mpr hc)
  have h2 := ProgramCatalog.toNat_of_expectedHeight h.height
  omega

theorem Appliable.getStateCommitment_commit {b : AggregatedReceiptBundle} (h : Appliable pf p L b)
    {now height : UInt64} {c : StateCommitment} (hc : L.catalog.getStateCommitment q height = some c) :
    (L.commit p b now).catalog.getStateCommitment q height = some c := by
  rw [Ledger.commit, ProgramCatalog.getStateCommitment_storeStateCommitment, if_neg, hc]
  rintro ⟨hp, hh⟩
  dsimp only at hp hh
  subst hp hh
  rw [h.getStateCommitment_eq_none] at hc
  cases hc

theorem CatchUp.getStateCommitment (h : CatchUp pf p L L') {height : UInt64} {c : StateCommitment}
    (hc : L.catalog.getStateCommitment q height = some c) :
    L'.catalog.getStateCommitment q height = some c :=
  h.induction (Q := fun M => M.catalog.getStateCommitment q height = some c) hc
    (fun _ _ _ hM hb _ => hb.getStateCommitment_commit hM) (fun _ _ hM _ _ => hM)

theorem LedgerChange.getStateCommitment (h : LedgerChange pf s op L') {height : UInt64}
    {c : StateCommitment} (hc : s.catalog.getStateCommitment q height = some c) :
    L'.catalog.getStateCommitment q height = some c := by
  cases h with
  | same => exact hc
  | manifest m _ _ h => exact h.getStateCommitment hc
  | bundle b _ h =>
    cases h with
    | ignored => exact hc
    | cached _ => exact hc
    | applied _ _ h => exact h.getStateCommitment hc
  | head p h => exact h.getStateCommitment hc
  | respond => exact hc
  | job => exact hc

theorem LedgerChange.finalized (h : LedgerChange pf s op L') {k : Bytes} {b : AggregatedReceiptBundle}
    (hb : L'.finalized.get k = some b) :
    s.finalizedStore.get k = some b ∨ handledBundle pf s op = some b := by
  have hput : ∀ x, handledBundle pf s op = some x → (s.finalizedStore.put x).get k = some b →
      s.finalizedStore.get k = some b ∨ handledBundle pf s op = some b := by
    intro x hx hg
    rw [Keyed.get_put] at hg
    split at hg
    · cases hg
      exact .inr hx
    · exact .inl hg
  cases h with
  | same => exact .inl hb
  | manifest m _ _ h =>
    rw [h.frame.2] at hb
    exact .inl hb
  | bundle x hx h =>
    cases h with
    | ignored => exact .inl hb
    | cached _ => exact hput x hx hb
    | applied _ _ h =>
      rw [h.frame.2] at hb
      exact hput x hx hb
  | head p h =>
    rw [h.frame.2] at hb
    exact .inl hb
  | respond => exact .inl hb
  | job => exact .inl hb

end Onvm
