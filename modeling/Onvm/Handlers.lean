import Onvm.Finalization
import Onvm.Runtime

/-! The message handlers of `network_handlers.rs`. A handler's error is only
logged, so a handler is the change it makes to the node. -/

namespace Onvm

open ByteString OrderedStore WeightedQuorum Std

section Manifests

variable (pf : Platform) (clock : UInt64 → UInt64) (s : Node)

def verifyManifestSignature (m : ProgramManifest) : Except String Unit :=
  ((pf.parseEd25519Public m.deployer.bytes).mapError ("invalid deployer public key: " ++ ·)).bind fun _ =>
  ((pf.parseEd25519Signature m.signature).mapError ("invalid manifest signature: " ++ ·)).bind fun _ =>
  (pf.verifyStrict m.deployer.bytes (m.digest pf).bytes m.signature).mapError
    ("manifest signature verification failed: " ++ ·)

def acceptManifest (m : ProgramManifest) : Node :=
  match s.catalog.verifyInitialSync pf m with
  | .error _ => s
  | .ok _ =>
    (applyAvailableFinalizedTransitions pf clock m.programId
      { s with catalog := s.catalog.storeManifest m }).1

def handleProgramAnnouncement (a : ProgramAnnouncement) : Node :=
  if a.manifest.signature.isEmpty then s
  else
    match verifyManifestSignature pf a.manifest with
    | .error _ => s
    | .ok _ => acceptManifest pf clock s a.manifest

def handleProgramManifestResponse (r : ProgramManifestResponse) : Node :=
  match r.manifest with
  | none => s
  | some m => acceptManifest pf clock s m

end Manifests

section Transitions

variable (pf : Platform) (clock : UInt64 → UInt64) (s : Node)

def handleFinalizedTransitionResponse (r : FinalizedTransitionResponse) : Node :=
  match r.bundle with
  | none => s
  | some b => (handleFinalizedReceipt pf clock s b).1

def handleProgramHead (head : ProgramHead) : Node :=
  if head.height ≤ s.catalog.localHeight head.programId then s
  else
    let next := saturatingAdd (s.catalog.localHeight head.programId) 1
    match s.loadFinalizedTransition head.programId next with
    | some _ => (applyAvailableFinalizedTransitions pf clock head.programId s).1
    | none => s.request (.finalizedTransition head.programId next)

def countVote (entry : PendingTransition) (vote : StateTransitionVote) : Option PendingTransition :=
  if vote.programId ≠ entry.receipt.programId then none
  else if vote.committeeEpoch ≠ entry.committee.epoch then none
  else
    match entry.committee.members.find? (·.node == vote.signer) with
    | none => none
    | some member =>
      if entry.signatures.contains vote.signer then none
      else
        match pf.verify vote.receiptId.bytes member.blsPublicKey vote.signature dstReceipt with
        | .error _ => none
        | .ok _ => some { entry with signatures := entry.signatures.insert vote.signer vote.signature }

def handleStateTransitionVote (vote : StateTransitionVote) : Node :=
  match s.pending[vote.receiptId]? with
  | none => s
  | some entry =>
    match countVote pf entry vote with
    | none => s
    | some entry' =>
      if entry'.committee.threshold.toNat ≤ (signerWeight entry'.committee entry'.signatures.keys).toNat then
        (finalizeTransition pf clock { s with pending := s.pending.erase vote.receiptId } entry').1
      else { s with pending := s.pending.insert vote.receiptId entry' }

end Transitions

section StateSync

variable (pf : Platform) (s : Node)

def maxStateEntries : Nat := 10000

def maxStateValueSize : Nat := 1024 * 1024

def maxTotalStateSize : Nat := 100 * 1024 * 1024

/-- The size limits on the entries of a state response, `total` bytes having been seen. -/
def stateSizesAllowed : (total : Nat) → List (Bytes × Bytes) → Bool
  | _, [] => true
  | total, (key, value) :: rest =>
    if 1024 < key.length then false
    else if maxTotalStateSize < total + (key.length + value.length) then false
    else if maxStateValueSize < value.length then false
    else stateSizesAllowed (total + (key.length + value.length)) rest

def expectedStateRoot (p : ProgramId) : Except String (Option StateRoot) :=
  match s.catalog.latestStateCommitment p with
  | some c => .ok (some c.root)
  | none => (s.catalog.getManifest pf p).map fun m => m.map (·.initialStateRoot)

def setEntries (st : StateStore) (p : ProgramId) (entries : List (Bytes × Bytes)) : StateStore :=
  entries.foldl (fun st e => st.setScoped p e.1 e.2) st

def handleStateResponse (r : StateResponse) : Node :=
  if maxStateEntries < r.stateEntries.length then s
  else if !stateSizesAllowed 0 r.stateEntries then s
  else
    match expectedStateRoot pf s r.programId with
    | .error _ => s
    | .ok none => s
    | .ok (some expected) =>
      if r.stateRoot ≠ expected then s
      else if pf.sparseRoot r.stateEntries ≠ expected then s
      else { s with states := setEntries s.states r.programId r.stateEntries }

end StateSync

section Proposals

variable (pf : Platform) (clock : UInt64 → UInt64) (s : Node)

/-- The vote guard: no vote on record at this height for another receipt, none at a later height. -/
def voteAllowed (last : Option (UInt64 × ReceiptId)) (height : UInt64) (id : ReceiptId) : Bool :=
  match last with
  | none => true
  | some (h, voted) => !(h == height && voted != id) && !(decide (height < h))

def checkProposal (m : StateTransitionProposal) : Node × Option ProposalTask :=
  let p := m.receipt.programId
  match s.catalog.committee pf p with
  | .error _ => (s, none)
  | .ok none => (s.request (.programManifest p), none)
  | .ok (some c) =>
    if m.committeeEpoch ≠ c.epoch then (s, none)
    else if leaderForHeight c m.receipt.height ≠ some m.receipt.executor then (s, none)
    else
      match c.members.find? (·.node == s.nodeId) with
      | none => (s, none)
      | some me =>
        if me.blsPublicKey ≠ s.blsPublic then (s, none)
        else if s.catalog.expectedHeight p ≠ .ok m.receipt.height then (s, none)
        else if m.receipt.stateRootIn ≠ s.states.sparseRootScoped p pf then (s, none)
        else
          let (s', last) := s.loadLastVoted p
          if !voteAllowed last m.receipt.height (m.receipt.id pf) then (s', none)
          else if pf.hashBytes m.receipt.call.calldata ≠ m.receipt.inputsHash then (s', none)
          else (s', some ⟨m, c⟩)

/-- Signing a receipt and recording the vote; a signature leaves the node only after the record. -/
def Node.recordVote (r : ExecutionReceipt) : Node :=
  { s.storeLastVoted r.programId r.height (r.id pf) with signed := r :: s.signed }

def followerEntry (m : StateTransitionProposal) (c : CommitteeCertificate) : PendingTransition :=
  match s.pending[m.receipt.id pf]? with
  | some entry => entry
  | none => ⟨c, m.receipt, m.stateWrites, ∅, none⟩

def endorse (world : Nat) (m : StateTransitionProposal) : Option BlsSignature :=
  let p := m.receipt.programId
  if !s.unified.isComplete p.toObjectId then none
  else
    match execute pf world s.maxFuel s.unified s.states p m.receipt.call.calldata with
    | .error _ => none
    | .ok o =>
      if o.stateWrites ≠ m.stateWrites then none
      else if o.stateRoot ≠ m.receipt.stateRootOut then none
      else if stateWritesDigest pf m.stateWrites ≠ m.receipt.writeDigest then none
      else if computeRootAfterWrites pf s.states p m.stateWrites ≠ m.receipt.stateRootOut then none
      else
        match pf.sign (m.receipt.id pf).bytes s.blsSecret dstReceipt with
        | .error _ => none
        | .ok sig => some sig

def castVote (task : ProposalTask) (sig : BlsSignature) : Node :=
  let m := task.proposal
  let entry := followerEntry pf s m task.committee
  let s' := { s.recordVote pf m.receipt with
    pending := s.pending.insert (m.receipt.id pf)
      { entry with signatures := entry.signatures.insert s.nodeId sig } }
  s'.publish (.vote ⟨m.receipt.programId, task.committee.epoch, m.receipt.id pf, s.nodeId, sig⟩)

/-- The rest of `handle_state_transition_proposal`: execute, compare, sign, vote, maybe finalize. -/
def finishProposal (world : Nat) (task : ProposalTask) : Node :=
  match endorse pf s world task.proposal with
  | none => s
  | some sig =>
    (maybeFinalizePendingTransition pf clock (castVote pf s task sig) (task.proposal.receipt.id pf)).1

/-- `handle_state_transition_proposal` without anything happening in between. -/
def handleStateTransitionProposal (world : Nat) (m : StateTransitionProposal) : Node :=
  match checkProposal pf s m with
  | (s', none) => s'
  | (s', some task) => finishProposal pf clock s' world task

end Proposals

end Onvm
