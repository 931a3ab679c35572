import Onvm.Ledger

/-! How the handlers change the ledger: the bundles and manifests that a step
brings in, and the ways in which the ledger can change. -/

namespace Onvm

open ByteString OrderedStore Std

variable {pf : Platform} {s s' : Node} {op : Op}

def dueBundle (pf : Platform) (entry : PendingTransition) : Option AggregatedReceiptBundle :=
  if (signerWeight entry.committee entry.signatures.keys).toNat < entry.committee.threshold.toNat then none
  else
    match assembleBundle pf entry with
    | .ok b => b
    | .error _ => none

def dueTransition (pf : Platform) (s : Node) : Op → Option PendingTransition
  | .deliver _ (.vote v) => s.pending[v.receiptId]?.bind fun entry => countVote pf entry v
  | .call t (.settle _) =>
    s.tasks[t]?.bind fun task =>
      match task.phase with
      | .settle r _ => s.pending[r.id pf]?
      | _ => none
  | .finishProposal world _ =>
    s.handling.bind fun task =>
      (endorse pf s world task.proposal).bind fun sig =>
        (castVote pf s task sig).pending[task.proposal.receipt.id pf]?
  | _ => none

/-- Where a transition that is due comes from: a vote was counted for it, a call has proposed and
signed it, or the node has voted for another node's proposal. -/
inductive DueFrom (pf : Platform) (s : Node) (e : PendingTransition) : Prop
  | counted (v : StateTransitionVote) (entry : PendingTransition)
    (hentry : s.pending[v.receiptId]? = some entry) (hv : countVote pf entry v = some e) : DueFrom pf s e
  | settled (id : ReceiptId) (hentry : s.pending[id]? = some e) : DueFrom pf s e
  | voted (world : Nat) (task : ProposalTask) (sig : BlsSignature) (htask : s.handling = some task)
    (hsig : endorse pf s world task.proposal = some sig)
    (hentry : (castVote pf s task sig).pending[task.proposal.receipt.id pf]? = some e) : DueFrom pf s e

theorem dueFrom_of_dueTransition {e : PendingTransition} (h : dueTransition pf s op = some e) :
    DueFrom pf s e := by
  rw [dueTransition.eq_def] at h
  split at h
  · obtain ⟨entry, hentry, hv⟩ := Option.bind_eq_some_iff.mp h
    exact .counted _ entry hentry hv
  · obtain ⟨task, -, h⟩ := Option.bind_eq_some_iff.mp h
    split at h
    · exact .settled _ h
    · cases h
  · obtain ⟨task, htask, h⟩ := Option.bind_eq_some_iff.mp h
    obtain ⟨sig, hsig, h⟩ := Option.bind_eq_some_iff.mp h
    exact .voted _ task sig htask hsig h
  · cases h

/-- The bundle that a step hands to `handle_finalized_receipt`, received or made from votes. -/
def handledBundle (pf : Platform) (s : Node) (op : Op) : Option AggregatedReceiptBundle :=
  match op with
  | .deliver _ (.aggregatedReceipt b) => some b
  | .deliver _ (.finalizedTransition r) => r.bundle
  | _ => (dueTransition pf s op).bind (dueBundle pf)

/-- The messages that bring in a program manifest. -/
inductive Supplies (pf : Platform) (m : ProgramManifest) : Op → Prop
  | announced (clock : UInt64 → UInt64) (a : ProgramAnnouncement) (ha : a.manifest = m)
    (hv : verifyManifestSignature pf m = .ok ()) : Supplies pf m (.deliver clock (.programAnnouncement a))
  | responded (clock : UInt64 → UInt64) (r : ProgramManifestResponse) (hr : r.manifest = some m) :
    Supplies pf m (.deliver clock (.programManifest r))

/-- A state response that passes the checks. -/
structure Acceptable (pf : Platform) (s : Node) (r : StateResponse) : Prop where
  expected : expectedStateRoot pf s r.programId = .ok (some r.stateRoot)
  computed : pf.sparseRoot r.stateEntries = r.stateRoot

/-- The ways in which a step changes the ledger. -/
inductive LedgerChange (pf : Platform) (s : Node) (op : Op) : Ledger → Prop
  | same : LedgerChange pf s op s.ledger
  | manifest (m : ProgramManifest) (hm : Supplies pf m op)
    (hsync : s.catalog.verifyInitialSync pf m = .ok ()) {L : Ledger}
    (h : CatchUp pf m.programId { s.ledger with catalog := s.ledger.catalog.storeManifest m } L) :
    LedgerChange pf s op L
  | bundle (b : AggregatedReceiptBundle) (hb : handledBundle pf s op = some b) {L : Ledger}
    (h : Handled pf s.ledger b L) : LedgerChange pf s op L
  | head (p : ProgramId) {L : Ledger} (h : CatchUp pf p s.ledger L) : LedgerChange pf s op L
  | respond (clock : UInt64 → UInt64) (r : StateResponse) (hop : op = .deliver clock (.stateResponse r))
    (hr : Acceptable pf s r) :
    LedgerChange pf s op { s.ledger with states := setEntries s.states r.programId r.stateEntries }
  | job (p : ProgramId) (input : Bytes) (maxFuel : UInt64) (world : Nat) (salt : Bytes32) (now : UInt64)
    (hop : op = .job p input maxFuel world salt now) (o : ExecutionOutcome)
    (ho : execute pf world maxFuel s.unified s.states p input = .ok o) (hne : o.stateWrites ≠ []) :
    LedgerChange pf s op { s.ledger with states := s.states.applyStateWrites p o.stateWrites }

theorem getElem?_insert_nat {β : Type} (m : ExtTreeMap Nat β) (t t' : Nat) (v : β) :
    (m.insert t v)[t']? = if t = t' then some v else m[t']? := by
  rw [ExtTreeMap.getElem?_insert]
  by_cases h : t = t'
  · simp [h]
  · rw [if_neg h, if_neg fun hc => h (LawfulEqOrd.eq_of_compare hc)]

theorem Node.calls_of_rest (h : s'.rest = s.rest) :
    s'.tasks = s.tasks ∧ s'.pending = s.pending ∧ s'.sent = s.sent := by
  have htasks := congrArg Node.tasks h
  have hpend := congrArg Node.pending h
  have hsent := congrArg Node.sent h
  exact ⟨htasks, hpend, hsent⟩

theorem assembleBundle_fields {entry : PendingTransition} {b : AggregatedReceiptBundle}
    (h : assembleBundle pf entry = .ok (some b)) :
    b.receipt.receipt = entry.receipt ∧ b.committee = entry.committee ∧
      b.stateWrites = entry.stateWrites := by
  simp only [assembleBundle] at h
  split at h
  · cases h
  · obtain ⟨sig, -, he⟩ := map_eq_ok h
    cases he
    exact ⟨rfl, rfl, rfl⟩

theorem countVote_eq_some {entry e : PendingTransition} {v : StateTransitionVote}
    (h : countVote pf entry v = some e) :
    e = { entry with signatures := entry.signatures.insert v.signer v.signature } ∧
      ∃ m, entry.committee.members.find? (·.node == v.signer) = some m ∧
        pf.verify v.receiptId.bytes m.blsPublicKey v.signature dstReceipt = .ok () := by
  rw [countVote] at h
  split at h
  · cases h
  split at h
  · cases h
  split at h
  · cases h
  rename_i m hm
  split at h
  · cases h
  split at h
  · cases h
  · rename_i hv
    cases h
    exact ⟨rfl, m, hm, hv⟩

section Handlers

variable (pf : Platform) (clock : UInt64 → UInt64) (s : Node)

theorem acceptManifest_rest (m : ProgramManifest) : (acceptManifest pf clock s m).rest = s.rest := by
  rw [acceptManifest]
  split
  · rfl
  · exact (applyAvailable_rest ..).trans rfl

theorem acceptManifest_ledger (m : ProgramManifest) :
    (acceptManifest pf clock s m).ledger = s.ledger ∨
      s.catalog.verifyInitialSync pf m = .ok () ∧
        CatchUp pf m.programId { s.ledger with catalog := s.ledger.catalog.storeManifest m }
          (acceptManifest pf clock s m).ledger := by
  rw [acceptManifest]
  split
  · exact .inl rfl
  · rename_i hsync
    exact .inr ⟨hsync, applyAvailable_catchUp clock rfl⟩

theorem dueBundle_of_assemble {entry : PendingTransition} {b : AggregatedReceiptBundle}
    (hw : ¬ (signerWeight entry.committee entry.signatures.keys).toNat < entry.committee.threshold.toNat)
    (hb : assembleBundle pf entry = .ok (some b)) : dueBundle pf entry = some b := by
  rw [dueBundle, if_neg hw, hb]

theorem maybeFinalize_spec (id : ReceiptId) :
    (maybeFinalizePendingTransition pf clock s id).1.still = s.still ∧
      ((maybeFinalizePendingTransition pf clock s id).1.ledger = s.ledger ∨
        ∃ b, s.pending[id]?.bind (dueBundle pf) = some b ∧
          Handled pf s.ledger b (maybeFinalizePendingTransition pf clock s id).1.ledger) := by
  rw [maybeFinalizePendingTransition]
  split
  · exact ⟨rfl, .inl rfl⟩
  rename_i entry he
  split
  · exact ⟨rfl, .inl rfl⟩
  rename_i hw
  obtain ⟨hstill, hled⟩ := finalizeTransition_spec pf clock { s with pending := s.pending.erase id } entry
  refine ⟨hstill, hled.imp_right ?_⟩
  rintro ⟨b, hb, hh⟩
  exact ⟨b, by rw [he]; exact dueBundle_of_assemble pf hw hb, hh⟩

theorem handleStateTransitionVote_spec (v : StateTransitionVote) :
    (handleStateTransitionVote pf clock s v).still = s.still ∧
      ((handleStateTransitionVote pf clock s v).ledger = s.ledger ∨
        ∃ b, handledBundle pf s (.deliver clock (.vote v)) = some b ∧
          Handled pf s.ledger b (handleStateTransitionVote pf clock s v).ledger) := by
  rw [handleStateTransitionVote]
  split
  · exact ⟨rfl, .inl rfl⟩
  rename_i entry he
  split
  · exact ⟨rfl, .inl rfl⟩
  rename_i entry' hv
  split
  · rename_i hw
    obtain ⟨hstill, hled⟩ :=
      finalizeTransition_spec pf clock { s with pending := s.pending.erase v.receiptId } entry'
    refine ⟨hstill, hled.imp_right ?_⟩
    rintro ⟨b, hb, hh⟩
    refine ⟨b, ?_, hh⟩
    simp only [handledBundle, dueTransition, he, Option.bind_some, hv]
    exact dueBundle_of_assemble pf (Nat.not_lt.mpr hw) hb
  · exact ⟨rfl, .inl rfl⟩

theorem handleStateResponse_rest (r : StateResponse) : (handleStateResponse pf s r).rest = s.rest := by
  rw [handleStateResponse]
  repeat' split
  all_goals rfl

theorem handleStateResponse_ledger (r : StateResponse) :
    (handleStateResponse pf s r).ledger = s.ledger ∨
      Acceptable pf s r ∧ (handleStateResponse pf s r).ledger =
        { s.ledger with states := setEntries s.states r.programId r.stateEntries } := by
  rw [handleStateResponse]
  split
  · exact .inl rfl
  split
  · exact .inl rfl
  split
  · exact .inl rfl
  · exact .inl rfl
  rename_i expected hexp
  split
  · exact .inl rfl
  rename_i hroot
  split
  · exact .inl rfl
  rename_i hcomp
  rw [← not_not.mp hroot] at hexp hcomp
  exact .inr ⟨⟨hexp, not_not.mp hcomp⟩, rfl⟩

theorem handleInbound_rest {m : Inbound} (hm : ∀ v, m ≠ .vote v) :
    (handleInbound pf clock s m).rest = s.rest := by
  cases m with
  | programAnnouncement a =>
    rw [handleInbound, handleProgramAnnouncement]
    split
    · rfl
    split
    · rfl
    · exact acceptManifest_rest ..
  | programManifest r =>
    rw [handleInbound, handleProgramManifestResponse]
    split
    · rfl
    · exact acceptManifest_rest ..
  | aggregatedReceipt b => exact (handleFinalizedReceipt_spec ..).1
  | finalizedTransition r =>
    rw [handleInbound, handleFinalizedTransitionResponse]
    split
    · rfl
    · exact (handleFinalizedReceipt_spec ..).1
  | vote v => exact absurd rfl (hm v)
  | programHead head =>
    rw [handleInbound, handleProgramHead]
    dsimp only
    split
    · rfl
    split
    · exact applyAvailable_rest ..
    · rfl
  | stateResponse r => exact handleStateResponse_rest ..

theorem handleInbound_still (m : Inbound) : (handleInbound pf clock s m).still = s.still := by
  by_cases hm : ∀ v, m ≠ .vote v
  · exact Node.still_of_rest (handleInbound_rest pf clock s hm)
  · push Not at hm
    obtain ⟨v, rfl⟩ := hm
    exact (handleStateTransitionVote_spec ..).1

theorem handleInbound_ledger (m : Inbound) :
    LedgerChange pf s (.deliver clock m) (handleInbound pf clock s m).ledger := by
  cases m with
  | programAnnouncement a =>
    rw [handleInbound, handleProgramAnnouncement]
    split
    · exact .same
    split
    · exact .same
    rename_i hv
    rcases acceptManifest_ledger pf clock s a.manifest with he | ⟨hsync, hc⟩
    · rw [he]; exact .same
    · exact .manifest a.manifest (.announced clock a rfl hv) hsync hc
  | programManifest r =>
    rw [handleInbound, handleProgramManifestResponse]
    split
    · exact .same
    rename_i m hr
    rcases acceptManifest_ledger pf clock s m with he | ⟨hsync, hc⟩
    · rw [he]; exact .same
    · exact .manifest m (.responded clock r hr) hsync hc
  | aggregatedReceipt b => exact .bundle b rfl (handleFinalizedReceipt_spec ..).2
  | finalizedTransition r =>
    rw [handleInbound, handleFinalizedTransitionResponse]
    split
    · exact .same
    · rename_i b hb
      exact @LedgerChange.bundle pf s (.deliver clock (.finalizedTransition r)) b hb _
        (handleFinalizedReceipt_spec ..).2
  | vote v =>
    rcases (handleStateTransitionVote_spec pf clock s v).2 with he | ⟨b, hb, hh⟩
    · rw [handleInbound, he]; exact .same
    · exact .bundle b hb hh
  | programHead head =>
    rw [handleInbound, handleProgramHead]
    dsimp only
    split
    · exact .same
    split
    · exact .head head.programId (applyAvailable_catchUp clock rfl)
    · exact .same
  | stateResponse r =>
    rcases handleStateResponse_ledger pf s r with he | ⟨hr, he⟩
    · rw [handleInbound, he]; exact .same
    · rw [handleInbound, he]; exact .respond clock r rfl hr

end Handlers

end Onvm
