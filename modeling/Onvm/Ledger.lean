import Onvm.Machine

/-! The ledger of a node: program states, manifests, commitments and finalized
transitions. It is all that catching up reads and, requests apart, all it
writes; the catch-up loop is a chain of commit steps on it. -/

namespace Onvm

open ByteString OrderedStore WeightedQuorum Std

structure Ledger where
  states : StateStore
  catalog : ProgramCatalog
  finalized : Keyed bundleKey

def Node.ledger (s : Node) : Ledger := ⟨s.states, { s.catalog with receipts := ∅ }, s.finalizedStore⟩

def Node.rest (s : Node) : Node :=
  { s with states := .empty, catalog := .empty, finalizedStore := .empty, requests := [] }

namespace Ledger

def root (pf : Platform) (L : Ledger) (p : ProgramId) : StateRoot := L.states.sparseRootScoped p pf

def commit (L : Ledger) (p : ProgramId) (b : AggregatedReceiptBundle) (now : UInt64) : Ledger :=
  { L with
    states := L.states.applyStateWrites p b.stateWrites
    catalog := L.catalog.storeStateCommitment
      ⟨p, b.receipt.receipt.height, b.receipt.receipt.stateRootOut,
        some b.receipt.receipt.stateRootIn, some b.receipt.receipt.writeDigest, now⟩ }

end Ledger

/-- The checks a bundle passes before its writes are applied. -/
structure Appliable (pf : Platform) (p : ProgramId) (L : Ledger) (b : AggregatedReceiptBundle) : Prop where
  committee : L.catalog.committee pf p = .ok (some b.committee)
  height : L.catalog.expectedHeight p = .ok b.receipt.receipt.height
  stored : L.finalized.get (heightKey p b.receipt.receipt.height) = some b
  verified : verifyAggregatedReceipt pf b.receipt b.committee = .ok ()
  rootIn : b.receipt.receipt.stateRootIn = L.root pf p
  digest : stateWritesDigest pf b.stateWrites = b.receipt.receipt.writeDigest
  rootOut : computeRootAfterWrites pf L.states p b.stateWrites = b.receipt.receipt.stateRootOut

def AppliedRoot (pf : Platform) (p : ProgramId) (L : Ledger) (b : AggregatedReceiptBundle) : Prop :=
  (L.states.applyStateWrites p b.stateWrites).sparseRootScoped p pf = b.receipt.receipt.stateRootOut

inductive CommitStep (pf : Platform) (p : ProgramId) (L : Ledger) : Ledger → Prop
  | mk (b : AggregatedReceiptBundle) (now : UInt64) (h : Appliable pf p L b) (hr : AppliedRoot pf p L b) :
    CommitStep pf p L (L.commit p b now)

/-- A batch of writes whose effect is not the predicted one: the writes stay, nothing is committed. -/
inductive Misapplied (pf : Platform) (p : ProgramId) (L : Ledger) : Ledger → Prop
  | mk (b : AggregatedReceiptBundle) (h : Appliable pf p L b) (hr : ¬ AppliedRoot pf p L b) :
    Misapplied pf p L { L with states := L.states.applyStateWrites p b.stateWrites }

def CatchUp (pf : Platform) (p : ProgramId) (L L' : Ledger) : Prop :=
  ∃ M, Relation.ReflTransGen (CommitStep pf p) L M ∧ (L' = M ∨ Misapplied pf p M L')

section Turn

variable {pf : Platform} (clock : UInt64 → UInt64) {p : ProgramId} {s s' : Node}

theorem ingestAggregatedReceipt_eq_ok {a : AggregatedReceipt} {c : CommitteeCertificate}
    (h : s.ingestAggregatedReceipt pf a c = .ok s') :
    verifyAggregatedReceipt pf a c = .ok () ∧
      s' = { s with catalog := s.catalog.storeAggregatedReceipt pf a } := by
  obtain ⟨u, hu, he⟩ := map_eq_ok h
  exact ⟨hu, he.symm⟩

theorem applyTurn_of_appliable {b : AggregatedReceiptBundle} (h : Appliable pf p s.ledger b) :
    (AppliedRoot pf p s.ledger b → ∃ s', applyTurn pf clock p s = .again s' ∧ s'.rest = s.rest ∧
      s'.ledger = s.ledger.commit p b (clock b.receipt.receipt.height)) ∧
    (¬ AppliedRoot pf p s.ledger b → ∃ s', applyTurn pf clock p s = .done s' (.ok ()) ∧
      s'.rest = s.rest ∧
      s'.ledger = { s.ledger with states := s.states.applyStateWrites p b.stateWrites }) := by
  have hturn : applyTurn pf clock p s =
      applyBundle pf clock p { s with catalog := s.catalog.storeAggregatedReceipt pf b.receipt } b := by
    have hc : s.catalog.committee pf p = .ok (some b.committee) := h.committee
    have hh : s.catalog.expectedHeight p = .ok b.receipt.receipt.height := h.height
    have hl : s.loadFinalizedTransition p b.receipt.receipt.height = some b := h.stored
    simp [applyTurn, hc, hh, hl, Node.ingestAggregatedReceipt, h.verified, Except.map]
  have hin : b.receipt.receipt.stateRootIn = s.states.sparseRootScoped p pf := h.rootIn
  have hout : computeRootAfterWrites pf s.states p b.stateWrites = b.receipt.receipt.stateRootOut := h.rootOut
  constructor
  · intro hr
    have hr' : (s.states.applyStateWrites p b.stateWrites).sparseRootScoped p pf =
      b.receipt.receipt.stateRootOut := hr
    have he : applyTurn pf clock p s = .again { s with
        states := s.states.applyStateWrites p b.stateWrites
        catalog := (s.catalog.storeAggregatedReceipt pf b.receipt).storeStateCommitment
          (commitmentOf clock p b b.receipt.receipt.stateRootOut b.receipt.receipt.stateRootIn) } := by
      rw [hturn, applyBundle]
      simp only [← hin, h.digest, hout, hr', ne_eq, not_true_eq_false, if_false]
    exact ⟨_, he, rfl, rfl⟩
  · intro hr
    have hr' : ¬ (s.states.applyStateWrites p b.stateWrites).sparseRootScoped p pf =
      b.receipt.receipt.stateRootOut := hr
    have he : applyTurn pf clock p s = .done { s with
        states := s.states.applyStateWrites p b.stateWrites
        catalog := s.catalog.storeAggregatedReceipt pf b.receipt } (.ok ()) := by
      rw [hturn, applyBundle]
      simp only [hin, h.digest, hout, hr', ne_eq, not_true_eq_false, not_false_eq_true, if_false, if_true]
    exact ⟨_, he, rfl, rfl⟩

theorem applyTurn_of_not_appliable (h : ∀ b, ¬ Appliable pf p s.ledger b) :
    ∃ s' r, applyTurn pf clock p s = .done s' r ∧ s'.rest = s.rest ∧ s'.ledger = s.ledger := by
  rw [applyTurn]
  split
  · exact ⟨_, _, rfl, rfl, rfl⟩
  · exact ⟨_, _, rfl, rfl, rfl⟩
  rename_i expected hc
  split
  · exact ⟨_, _, rfl, rfl, rfl⟩
  rename_i height hh
  split
  · exact ⟨_, _, rfl, rfl, rfl⟩
  rename_i b hl
  split
  · exact ⟨_, _, rfl, rfl, rfl⟩
  rename_i hexp
  split
  · exact ⟨_, _, rfl, rfl, rfl⟩
  rename_i s' hi
  obtain ⟨hv, rfl⟩ := ingestAggregatedReceipt_eq_ok hi
  have hbh := (Node.loadFinalizedTransition_eq_some hl).2
  have habs : b.receipt.receipt.stateRootIn = s.states.sparseRootScoped p pf →
      stateWritesDigest pf b.stateWrites = b.receipt.receipt.writeDigest →
      computeRootAfterWrites pf s.states p b.stateWrites = b.receipt.receipt.stateRootOut → False := by
    intro hin hd hout
    exact h b ⟨by rw [not_not.mp hexp]; exact hc, by rw [hbh]; exact hh, by rw [hbh]; exact hl, hv,
      hin, hd, hout⟩
  rw [applyBundle]
  dsimp only
  split
  · exact ⟨_, _, rfl, rfl, rfl⟩
  split
  · exact ⟨_, _, rfl, rfl, rfl⟩
  split
  · exact ⟨_, _, rfl, rfl, rfl⟩
  rename_i hin hd hout
  exact (habs (not_not.mp hin) (not_not.mp hd) (not_not.mp hout)).elim

theorem Appliable.latest_commit {L : Ledger} {b : AggregatedReceiptBundle} (h : Appliable pf p L b)
    (now : UInt64) :
    (L.commit p b now).catalog.latestStateCommitment p = some
      ⟨p, b.receipt.receipt.height, b.receipt.receipt.stateRootOut,
        some b.receipt.receipt.stateRootIn, some b.receipt.receipt.writeDigest, now⟩ := by
  apply ProgramCatalog.latestStateCommitment_of_getStateCommitment
  · rw [Ledger.commit, ProgramCatalog.getStateCommitment_storeStateCommitment, if_pos ⟨rfl, rfl⟩]
  · intro k hk
    rw [Ledger.commit, ProgramCatalog.getStateCommitment_storeStateCommitment] at hk
    split at hk
    · rename_i he
      exact he.2 ▸ UInt64.le_refl _
    · have h1 := ProgramCatalog.toNat_le_committedHeight hk
      have h2 := ProgramCatalog.toNat_of_expectedHeight h.height
      rw [UInt64.le_iff_toNat_le]
      dsimp only
      omega

theorem CommitStep.committedHeight {L L' : Ledger} (h : CommitStep pf p L L') :
    L'.catalog.committedHeight p = L.catalog.committedHeight p + 1 := by
  obtain ⟨b, now, hb, -⟩ := h
  rw [ProgramCatalog.committedHeight_of_some (hb.latest_commit now)]
  exact ProgramCatalog.toNat_of_expectedHeight hb.height

theorem applyLoop_spec {fuel : Nat} (hfuel : 2 ^ 64 ≤ fuel + s.ledger.catalog.committedHeight p) :
    ∃ m : Node, m.rest = s.rest ∧ Relation.ReflTransGen (CommitStep pf p) s.ledger m.ledger ∧
      applyTurn pf clock p m =
        .done (applyLoop pf clock p fuel s).1 (applyLoop pf clock p fuel s).2 := by
  induction fuel generalizing s with
  | zero =>
    have hlt : s.ledger.catalog.committedHeight p < 2 ^ 64 := UInt64.toNat_lt _
    omega
  | succ fuel ih =>
    by_cases hb : ∃ b, Appliable pf p s.ledger b ∧ AppliedRoot pf p s.ledger b
    · obtain ⟨b, hb, hr⟩ := hb
      obtain ⟨s₁, ht, hrest, hled⟩ := (applyTurn_of_appliable clock hb).1 hr
      have hstep : CommitStep pf p s.ledger s₁.ledger := hled ▸ .mk b _ hb hr
      have hh := hstep.committedHeight
      obtain ⟨m, hm, hpath, hdone⟩ := ih (s := s₁) (by omega)
      refine ⟨m, hm.trans hrest, .head hstep hpath, ?_⟩
      simp only [applyLoop, ht]
      exact hdone
    · have hdone : ∃ s' r, applyTurn pf clock p s = .done s' r := by
        by_cases ha : ∃ b, Appliable pf p s.ledger b
        · obtain ⟨b, ha⟩ := ha
          obtain ⟨s', he, -⟩ := (applyTurn_of_appliable clock ha).2 fun hr => hb ⟨b, ha, hr⟩
          exact ⟨s', _, he⟩
        · push Not at ha
          obtain ⟨s', r, he, -⟩ := applyTurn_of_not_appliable clock ha
          exact ⟨s', r, he⟩
      obtain ⟨s', r, he⟩ := hdone
      refine ⟨s, rfl, .refl, ?_⟩
      simp only [applyLoop, he]

theorem applyTurn_done {r : Except String Unit} (h : applyTurn pf clock p s = .done s' r) :
    s'.rest = s.rest ∧ (s'.ledger = s.ledger ∨ Misapplied pf p s.ledger s'.ledger) := by
  by_cases ha : ∃ b, Appliable pf p s.ledger b
  · obtain ⟨b, ha⟩ := ha
    by_cases hr : AppliedRoot pf p s.ledger b
    · obtain ⟨s₁, he, -⟩ := (applyTurn_of_appliable clock ha).1 hr
      rw [he] at h
      cases h
    · obtain ⟨s₁, he, hrest, hled⟩ := (applyTurn_of_appliable clock ha).2 hr
      rw [he] at h
      cases h
      exact ⟨hrest, Or.inr (hled ▸ .mk b ha hr)⟩
  · push Not at ha
    obtain ⟨s₁, r₁, he, hrest, hled⟩ := applyTurn_of_not_appliable clock ha
    rw [he] at h
    cases h
    exact ⟨hrest, Or.inl hled⟩

theorem applyAvailable_rest (pf : Platform) (p : ProgramId) (s : Node) :
    (applyAvailableFinalizedTransitions pf clock p s).1.rest = s.rest := by
  obtain ⟨m, hm, -, hdone⟩ := @applyLoop_spec pf clock p s (2 ^ 64) (Nat.le_add_right _ _)
  exact (applyTurn_done clock hdone).1.trans hm

theorem applyAvailable_catchUp {L : Ledger} (hL : s.ledger = L) :
    CatchUp pf p L (applyAvailableFinalizedTransitions pf clock p s).1.ledger := by
  subst hL
  obtain ⟨m, -, hpath, hdone⟩ := @applyLoop_spec pf clock p s (2 ^ 64) (Nat.le_add_right _ _)
  exact ⟨m.ledger, hpath, (applyTurn_done clock hdone).2⟩

end Turn

/-- How handling a bundle changes the ledger: not at all, by keeping it for a program without a
committee, or by keeping it once verified and catching up. -/
inductive Handled (pf : Platform) (L : Ledger) (b : AggregatedReceiptBundle) : Ledger → Prop
  | ignored : Handled pf L b L
  | cached (hc : L.catalog.committee pf b.receipt.receipt.programId = .ok none) :
    Handled pf L b { L with finalized := L.finalized.put b }
  | applied (hc : L.catalog.committee pf b.receipt.receipt.programId = .ok (some b.committee))
    (hv : verifyAggregatedReceipt pf b.receipt b.committee = .ok ()) {L' : Ledger}
    (h : CatchUp pf b.receipt.receipt.programId { L with finalized := L.finalized.put b } L') :
    Handled pf L b L'

theorem CatchUp.refl (pf : Platform) (p : ProgramId) (L : Ledger) : CatchUp pf p L L :=
  ⟨L, .refl, .inl rfl⟩

section Handling

variable (pf : Platform) (clock : UInt64 → UInt64) (s : Node)

theorem handleFinalizedReceipt_spec (b : AggregatedReceiptBundle) :
    (handleFinalizedReceipt pf clock s b).1.rest = s.rest ∧
      Handled pf s.ledger b (handleFinalizedReceipt pf clock s b).1.ledger := by
  rw [handleFinalizedReceipt]
  dsimp only
  split
  · exact ⟨rfl, .ignored⟩
  · rename_i hc
    exact ⟨rfl, .cached hc⟩
  rename_i expected hc
  split
  · exact ⟨rfl, .ignored⟩
  rename_i hexp
  split
  · exact ⟨rfl, .ignored⟩
  rename_i s₁ hi
  obtain ⟨hv, rfl⟩ := ingestAggregatedReceipt_eq_ok hi
  rw [not_not.mp hexp] at hc
  split
  · exact ⟨rfl, .applied hc hv (.refl _ _ _)⟩
  rename_i height hh
  split
  · exact ⟨applyAvailable_rest .., .applied hc hv (applyAvailable_catchUp clock rfl)⟩
  · exact ⟨applyAvailable_rest .., .applied hc hv (applyAvailable_catchUp clock rfl)⟩

def Node.still (s : Node) : Node := { s.rest with pending := ∅, sent := ∅, published := [] }

theorem Node.still_of_rest {s s' : Node} (h : s'.rest = s.rest) : s'.still = s.still := by
  rw [still, still, h]

theorem Node.tasks_of_still {s s' : Node} (h : s'.still = s.still) :
    s'.nodeId = s.nodeId ∧ s'.tasks = s.tasks := by
  have hid := congrArg Node.nodeId h
  have htasks := congrArg Node.tasks h
  exact ⟨hid, htasks⟩

theorem finalizeTransition_spec (entry : PendingTransition) :
    (finalizeTransition pf clock s entry).1.still = s.still ∧
      ((finalizeTransition pf clock s entry).1.ledger = s.ledger ∨
        ∃ b, assembleBundle pf entry = .ok (some b) ∧
          Handled pf s.ledger b (finalizeTransition pf clock s entry).1.ledger) := by
  rw [finalizeTransition]
  split
  · exact ⟨rfl, .inl rfl⟩
  · exact ⟨rfl, .inl rfl⟩
  rename_i b hb
  obtain ⟨hrest, hled⟩ := handleFinalizedReceipt_spec pf clock s b
  have hstill := Node.still_of_rest hrest
  generalize handleFinalizedReceipt pf clock s b = out at hled hstill
  obtain ⟨s₁, r⟩ := out
  refine ⟨?_, .inr ⟨b, hb, ?_⟩⟩
  · rw [← hstill]
    cases r <;> cases entry.completion <;> rfl
  · cases r <;> cases entry.completion <;> exact hled

end Handling

end Onvm
