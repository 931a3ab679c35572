import Onvm.ProgramCatalog
import Onvm.ReceiptVerifier
import Onvm.StateStore

/-! The consensus engine's state (`engine.rs`): what survives a restart, what
does not, the calls of `submit_execution` in flight, and the two durable trees
the engine keeps itself, last votes and finalized transitions. -/

namespace Onvm

open ByteString OrderedStore WeightedQuorum Std

structure PendingTransition where
  committee : CommitteeCertificate
  receipt : ExecutionReceipt
  stateWrites : List StateWrite
  signatures : ExtTreeMap NodeId BlsSignature
  /-- The call that waits for the transition, if it is a local one. -/
  completion : Option Nat

/-- How far a call of `submit_execution` has got. -/
inductive Phase
  | resolve
  | route (committee : CommitteeCertificate)
  | lock (committee : CommitteeCertificate)
  | lead (committee : CommitteeCertificate)
  | forward (committee : CommitteeCertificate) (height : UInt64) (leader : NodeId)
  | prepare (committee : CommitteeCertificate) (height : UInt64)
  | fetch (committee : CommitteeCertificate) (height : UInt64)
  | readRoot (committee : CommitteeCertificate) (height : UInt64)
  | execute (committee : CommitteeCertificate) (height : UInt64) (stateRootIn : StateRoot)
  | propose (committee : CommitteeCertificate) (height : UInt64) (stateRootIn : StateRoot)
      (outcome : ExecutionOutcome)
  | sign (committee : CommitteeCertificate) (receipt : ExecutionReceipt) (outcome : ExecutionOutcome)
  | settle (receipt : ExecutionReceipt) (outcome : ExecutionOutcome)
  | wait (receipt : ExecutionReceipt) (outcome : ExecutionOutcome)
  /-- Answered by another node, or failed before a receipt was proposed. -/
  | returned (result : Except String ExecutionOutcome)
  /-- Returned after proposing `receipt` and waiting for it. -/
  | concluded (receipt : ExecutionReceipt) (result : Except String ExecutionOutcome)

structure SubmitTask where
  programId : ProgramId
  input : Bytes
  phase : Phase

/-- A proposal that passed the first checks and is about to be executed. -/
structure ProposalTask where
  proposal : StateTransitionProposal
  committee : CommitteeCertificate

inductive Outgoing
  | proposal (m : StateTransitionProposal)
  | vote (m : StateTransitionVote)
  | aggregatedReceipt (m : AggregatedReceiptBundle)

inductive Request
  | programManifest (p : ProgramId)
  | finalizedTransition (p : ProgramId) (height : UInt64)
deriving DecidableEq

def bundleKey (b : AggregatedReceiptBundle) : Bytes :=
  heightKey b.receipt.receipt.programId b.receipt.receipt.height

/-- A node. `signed` lists every receipt it has put a BLS signature on. -/
structure Node where
  nodeId : NodeId
  peerId : PeerId
  blsSecret : BlsSecretKey
  blsPublic : BlsPublicKey
  maxFuel : UInt64
  hasDistributor : Bool
  unified : UnifiedStore
  states : StateStore
  catalog : ProgramCatalog
  lastVotedStore : ExtTreeMap ProgramId (UInt64 × ReceiptId)
  finalizedStore : Keyed bundleKey
  lastVoted : ExtTreeMap ProgramId (UInt64 × ReceiptId)
  pending : ExtTreeMap ReceiptId PendingTransition
  tasks : ExtTreeMap Nat SubmitTask
  locks : ExtTreeMap ProgramId Nat
  sent : ExtTreeMap Nat (Except String Unit)
  handling : Option ProposalTask
  signed : List ExecutionReceipt
  published : List Outgoing
  requests : List Request

def Node.fresh (nodeId : NodeId) (peerId : PeerId) (blsSecret : BlsSecretKey)
    (blsPublic : BlsPublicKey) (maxFuel : UInt64) (hasDistributor : Bool) (unified : UnifiedStore) :
    Node where
  nodeId := nodeId
  peerId := peerId
  blsSecret := blsSecret
  blsPublic := blsPublic
  maxFuel := maxFuel
  hasDistributor := hasDistributor
  unified := unified
  states := .empty
  catalog := .empty
  lastVotedStore := ∅
  finalizedStore := .empty
  lastVoted := ∅
  pending := ∅
  tasks := ∅
  locks := ∅
  sent := ∅
  handling := none
  signed := []
  published := []
  requests := []

namespace Node

variable (s : Node)

def Fresh : Prop :=
  s = .fresh s.nodeId s.peerId s.blsSecret s.blsPublic s.maxFuel s.hasDistributor s.unified

def restart : Node :=
  { s with lastVoted := ∅, pending := ∅, tasks := ∅, locks := ∅, sent := ∅, handling := none }

def request (r : Request) : Node := { s with requests := s.requests ++ [r] }

def publish (m : Outgoing) : Node := { s with published := s.published ++ [m] }

def loadLastVoted (p : ProgramId) : Node × Option (UInt64 × ReceiptId) :=
  match s.lastVoted[p]? with
  | some found => (s, some found)
  | none =>
    match s.lastVotedStore[p]? with
    | none => (s, none)
    | some found => ({ s with lastVoted := s.lastVoted.insert p found }, some found)

def storeLastVoted (p : ProgramId) (height : UInt64) (id : ReceiptId) : Node :=
  { s with
    lastVotedStore := s.lastVotedStore.insert p (height, id)
    lastVoted := s.lastVoted.insert p (height, id) }

def storeFinalizedTransition (b : AggregatedReceiptBundle) : Node :=
  { s with finalizedStore := s.finalizedStore.put b }

def loadFinalizedTransition (p : ProgramId) (height : UInt64) : Option AggregatedReceiptBundle :=
  s.finalizedStore.get (heightKey p height)

def setPhase (t : Nat) (task : SubmitTask) (phase : Phase) : Node :=
  { s with tasks := s.tasks.insert t { task with phase := phase } }

def conclude (t : Nat) (task : SubmitTask) (phase : Phase) : Node :=
  { s.setPhase t task phase with
    locks :=
      if s.locks[task.programId]? = some t then s.locks.erase task.programId else s.locks }

theorem loadFinalizedTransition_eq_some {s : Node} {p : ProgramId} {height : UInt64}
    {b : AggregatedReceiptBundle} (h : s.loadFinalizedTransition p height = some b) :
    b.receipt.receipt.programId = p ∧ b.receipt.receipt.height = height :=
  heightKey_inj (s.finalizedStore.key_of_get h)

end Node

def leaderForHeight (c : CommitteeCertificate) (height : UInt64) : Option NodeId :=
  if c.members.isEmpty ∨ height = 0 then none
  else c.members[(height.toNat - 1) % c.members.length]?.map (·.node)

def signerWeight (c : CommitteeCertificate) (signers : List NodeId) : UInt64 :=
  saturatingSum ((signers.filterMap fun n => c.members.find? (·.node == n)).map (·.weight))

def overflowPanic : String := "attempt to add with overflow"

/-- `c.height + 1` of the latest commitment, or 1; the addition is checked. -/
def ProgramCatalog.expectedHeight (cat : ProgramCatalog) (p : ProgramId) : Except String UInt64 :=
  match cat.latestStateCommitment p with
  | none => .ok 1
  | some c => if c.height.toNat + 1 < 2 ^ 64 then .ok (c.height + 1) else .error overflowPanic

def ProgramCatalog.localHeight (cat : ProgramCatalog) (p : ProgramId) : UInt64 :=
  match cat.latestStateCommitment p with
  | none => 0
  | some c => c.height

def ProgramCatalog.committedHeight (cat : ProgramCatalog) (p : ProgramId) : Nat :=
  (cat.localHeight p).toNat

theorem ProgramCatalog.committedHeight_of_none {cat : ProgramCatalog} {p : ProgramId}
    (h : cat.latestStateCommitment p = none) : cat.committedHeight p = 0 := by
  rw [committedHeight, localHeight, h]
  rfl

theorem ProgramCatalog.committedHeight_of_some {cat : ProgramCatalog} {p : ProgramId} {c : StateCommitment}
    (h : cat.latestStateCommitment p = some c) : cat.committedHeight p = c.height.toNat := by
  rw [committedHeight, localHeight, h]

theorem ProgramCatalog.committedHeight_congr {cat cat' : ProgramCatalog} {p : ProgramId}
    (h : cat'.latestStateCommitment p = cat.latestStateCommitment p) :
    cat'.committedHeight p = cat.committedHeight p := by
  rw [committedHeight, committedHeight, localHeight, localHeight, h]

theorem ProgramCatalog.expectedHeight_cases {cat : ProgramCatalog} {p : ProgramId} {height : UInt64}
    (h : cat.expectedHeight p = .ok height) : (cat.latestStateCommitment p = none ∧ height = 1) ∨
      ∃ c, cat.latestStateCommitment p = some c ∧ c.height.toNat + 1 < 2 ^ 64 ∧ height = c.height + 1 := by
  rw [expectedHeight] at h
  cases hl : cat.latestStateCommitment p with
  | none =>
    rw [hl] at h
    exact .inl ⟨rfl, (Except.ok.inj h).symm⟩
  | some c =>
    rw [hl] at h
    dsimp only at h
    split_ifs at h with hlt
    exact .inr ⟨c, rfl, hlt, (Except.ok.inj h).symm⟩

theorem ProgramCatalog.toNat_of_expectedHeight {cat : ProgramCatalog} {p : ProgramId} {height : UInt64}
    (h : cat.expectedHeight p = .ok height) : height.toNat = cat.committedHeight p + 1 := by
  obtain ⟨hl, rfl⟩ | ⟨c, hl, hlt, rfl⟩ := expectedHeight_cases h
  · rw [committedHeight, localHeight, hl]
    rfl
  · rw [committedHeight_of_some hl, UInt64.toNat_add]
    exact Nat.mod_eq_of_lt hlt

theorem ProgramCatalog.toNat_le_committedHeight {cat : ProgramCatalog} {p : ProgramId}
    {height : UInt64} (h : (cat.getStateCommitment p height).isSome) :
    height.toNat ≤ cat.committedHeight p := by
  cases hl : cat.latestStateCommitment p with
  | none => rw [latestStateCommitment_eq_none hl] at h; cases h
  | some c =>
    rw [committedHeight_of_some hl]
    exact UInt64.le_iff_toNat_le.mp ((latestStateCommitment_eq_some hl).2.2 height h)

def ProgramCatalog.nextHeight (cat : ProgramCatalog) (p : ProgramId) : UInt64 :=
  match cat.latestStateCommitment p with
  | none => 1
  | some c => saturatingAdd c.height 1

end Onvm
