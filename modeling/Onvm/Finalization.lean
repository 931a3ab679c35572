import Onvm.Engine

/-! Applying finalized transitions (`network_handlers.rs`): the catch-up loop,
the handler of an aggregated receipt, and the making of one from votes. -/

namespace Onvm

open ByteString OrderedStore WeightedQuorum Std

/-- One turn of the catch-up loop either ends it or applies one bundle. -/
inductive Turn
  | done (s : Node) (result : Except String Unit)
  | again (s : Node)

def Node.ingestAggregatedReceipt (pf : Platform) (s : Node) (a : AggregatedReceipt)
    (c : CommitteeCertificate) : Except String Node :=
  (verifyAggregatedReceipt pf a c).map fun _ =>
    { s with catalog := s.catalog.storeAggregatedReceipt pf a }

section Apply

variable (pf : Platform) (clock : UInt64 → UInt64) (p : ProgramId)

/-- The commitment that applying `b` over a state with root `parent` stores. -/
def commitmentOf (b : AggregatedReceiptBundle) (root parent : StateRoot) : StateCommitment where
  programId := p
  height := b.receipt.receipt.height
  root := root
  parent := some parent
  stateDeltaRoot := some b.receipt.receipt.writeDigest
  timestampMs := clock b.receipt.receipt.height

/-- The part of a turn behind the checks of height and committee, `s` having ingested the receipt. -/
def applyBundle (s : Node) (b : AggregatedReceiptBundle) : Turn :=
  let currentRoot := s.states.sparseRootScoped p pf
  if b.receipt.receipt.stateRootIn ≠ currentRoot then .done s (.ok ())
  else if stateWritesDigest pf b.stateWrites ≠ b.receipt.receipt.writeDigest then .done s (.ok ())
  else if computeRootAfterWrites pf s.states p b.stateWrites ≠ b.receipt.receipt.stateRootOut then
    .done s (.ok ())
  else
    let applied := { s with states := s.states.applyStateWrites p b.stateWrites }
    let appliedRoot := applied.states.sparseRootScoped p pf
    if appliedRoot ≠ b.receipt.receipt.stateRootOut then .done applied (.ok ())
    else
      .again { applied with
        catalog := applied.catalog.storeStateCommitment (commitmentOf clock p b appliedRoot currentRoot) }

def applyTurn (s : Node) : Turn :=
  match s.catalog.committee pf p with
  | .error e => .done s (.error e)
  | .ok none => .done (s.request (.programManifest p)) (.ok ())
  | .ok (some expected) =>
    match s.catalog.expectedHeight p with
    | .error e => .done s (.error e)
    | .ok height =>
      match s.loadFinalizedTransition p height with
      | none => .done s (.ok ())
      | some b =>
        if b.committee ≠ expected then .done s (.ok ())
        else
          match s.ingestAggregatedReceipt pf b.receipt b.committee with
          | .error e => .done s (.error e)
          | .ok s' => applyBundle pf clock p s' b

/-- The loop of `apply_available_finalized_transitions`; heights bound the number of turns. -/
def applyLoop : (fuel : Nat) → Node → Node × Except String Unit
  | 0, s => (s, .ok ())
  | fuel + 1, s =>
    match applyTurn pf clock p s with
    | .done s' r => (s', r)
    | .again s' => applyLoop fuel s'

def applyAvailableFinalizedTransitions (s : Node) : Node × Except String Unit :=
  applyLoop pf clock p (2 ^ 64) s

end Apply

/-- `handle_finalized_receipt`: a bundle is kept before its writes are looked at. -/
def handleFinalizedReceipt (pf : Platform) (clock : UInt64 → UInt64) (s : Node)
    (b : AggregatedReceiptBundle) : Node × Except String Unit :=
  let p := b.receipt.receipt.programId
  match s.catalog.committee pf p with
  | .error e => (s, .error e)
  | .ok none => ((s.storeFinalizedTransition b).request (.programManifest p), .ok ())
  | .ok (some expected) =>
    if expected ≠ b.committee then (s, .ok ())
    else
      match s.ingestAggregatedReceipt pf b.receipt b.committee with
      | .error e => (s, .error e)
      | .ok s' =>
        let s' := s'.storeFinalizedTransition b
        match s'.catalog.expectedHeight p with
        | .error e => (s', .error e)
        | .ok height =>
          let s' :=
            if height < b.receipt.receipt.height then s'.request (.finalizedTransition p height) else s'
          applyAvailableFinalizedTransitions pf clock p s'

def setBit (bitmap : Bytes) (idx : Nat) : Bytes :=
  bitmap.set (idx / 8) (bitmap.getD (idx / 8) 0 ||| (1 <<< UInt8.ofNat (idx % 8)))

def collectSigners (signatures : ExtTreeMap NodeId BlsSignature) :
    (idx : Nat) → List CommitteeMember → Bytes × List BlsSignature × UInt64 →
      Bytes × List BlsSignature × UInt64
  | _, [], acc => acc
  | idx, m :: ms, (bitmap, sigs, weight) =>
    match signatures[m.node]? with
    | none => collectSigners signatures (idx + 1) ms (bitmap, sigs, weight)
    | some sig =>
      collectSigners signatures (idx + 1) ms
        (setBit bitmap idx, sigs ++ [sig], saturatingAdd weight m.weight)

/-- The bundle `finalize_transition` makes of the signatures collected so far, if they suffice. -/
def assembleBundle (pf : Platform) (entry : PendingTransition) :
    Except String (Option AggregatedReceiptBundle) :=
  let (bitmap, sigs, weight) := collectSigners entry.signatures 0 entry.committee.members
    (List.replicate (bitmapSize entry.committee) 0, [], 0)
  if weight.toNat < entry.committee.threshold.toNat then .ok none
  else
    (pf.aggregateSignatures sigs).map fun aggregate => some
      { receipt := ⟨entry.receipt, entry.committee.epoch, bitmap, aggregate,
          entry.committee.aggregatePublicKey⟩
        committee := entry.committee
        stateWrites := entry.stateWrites }

def finalizeTransition (pf : Platform) (clock : UInt64 → UInt64) (s : Node) (entry : PendingTransition) :
    Node × Except String Unit :=
  match assembleBundle pf entry with
  | .error e => (s, .error e)
  | .ok none => (s, .ok ())
  | .ok (some bundle) =>
    let (s', result) := handleFinalizedReceipt pf clock s bundle
    let s' :=
      match result with
      | .ok _ => s'.publish (.aggregatedReceipt bundle)
      | .error _ => s'
    match entry.completion with
    | none => (s', .ok ())
    | some task => ({ s' with sent := s'.sent.insert task result }, .ok ())

def maybeFinalizePendingTransition (pf : Platform) (clock : UInt64 → UInt64) (s : Node)
    (id : ReceiptId) : Node × Except String Unit :=
  match s.pending[id]? with
  | none => (s, .ok ())
  | some entry =>
    if (signerWeight entry.committee entry.signatures.keys).toNat < entry.committee.threshold.toNat then
      (s, .ok ())
    else finalizeTransition pf clock { s with pending := s.pending.erase id } entry

end Onvm
