import Onvm.Handlers

/-! `submit_execution` (`execution.rs`), cut at the points where it waits: for a
committee, for other nodes, for the program lock, for objects, for the guest and
for the votes. Each piece is one step of the call. -/

namespace Onvm

open ByteString OrderedStore WeightedQuorum Std

def maxStateWrites : Nat := 1000

def maxCaldataSize : Nat := 1024 * 1024

def maxProgramSize : Nat := 100 * 1024 * 1024

def consensusTimeoutSecs : Nat := 30

inductive LeaderReply
  | outcome (o : ExecutionOutcome)
  | redirect (leader : NodeId)
  | error (msg : String)
deriving DecidableEq

/-- What the members answer to a forwarded call; `none` is a request that failed or timed out. -/
abbrev Answers := NodeId → Option LeaderReply

section Forwarding

variable (pf : Platform) (s : Node) (answers : Answers) (p : ProgramId)

def requestLeaderExecution (target : NodeId) : Option LeaderReply :=
  match pf.peerIdOf target.bytes with
  | .error _ => none
  | .ok peer => if peer = s.peerId then some (.redirect s.nodeId) else answers target

def forwardingFailed : String :=
  "unable to forward execution for program " ++ p.toText ++ " to a leader"

/-- The loop of `forward_execution_to_leader`. -/
def forwardLoop (maxAttempts : Nat) :
    (fuel : Nat) → (queue attempted : List NodeId) → (attempts : Nat) →
      Except String (Option ExecutionOutcome)
  | 0, _, _, _ => .error (forwardingFailed p)
  | _ + 1, [], _, _ => .error (forwardingFailed p)
  | fuel + 1, target :: queue, attempted, attempts =>
    if target ∈ attempted then forwardLoop maxAttempts fuel queue attempted attempts
    else if maxAttempts < attempts + 1 then .error (forwardingFailed p)
    else if target = s.nodeId then .ok none
    else
      match requestLeaderExecution pf s answers target with
      | none => forwardLoop maxAttempts fuel queue (target :: attempted) (attempts + 1)
      | some (.outcome o) => .ok (some o)
      | some (.redirect leader) =>
        forwardLoop maxAttempts fuel (leader :: queue) (target :: attempted) (attempts + 1)
      | some (.error msg) => .error msg

def forwardQueue (c : CommitteeCertificate) (leaderHint : NodeId) : List NodeId :=
  leaderHint :: (c.members.map (·.node)).filter (· ≠ leaderHint)

def forwardExecutionToLeader (c : CommitteeCertificate) (leaderHint : NodeId) :
    Except String (Option ExecutionOutcome) :=
  let maxAttempts := c.members.length + 8
  let queue := forwardQueue c leaderHint
  forwardLoop pf s answers p maxAttempts (queue.length + maxAttempts + 1) queue [] 0

end Forwarding

section Steps

variable (pf : Platform) (s : Node) (t : Nat) (task : SubmitTask)

def submitStart (p : ProgramId) (input : Bytes) : Node :=
  let phase : Phase :=
    if maxCaldataSize < input.length then
      .returned (.error ("calldata too large: " ++ toString input.length ++ " bytes (max " ++
        toString maxCaldataSize ++ ")"))
    else .resolve
  s.setPhase t ⟨p, input, phase⟩ phase

def submitResolve (ask : Bool) : Node :=
  let s := if ask then s.request (.programManifest task.programId) else s
  match s.catalog.committee pf task.programId with
  | .error e => s.conclude t task (.returned (.error e))
  | .ok none => s
  | .ok (some c) => s.setPhase t task (.route c)

def submitResolveTimeout : Node :=
  s.conclude t task
    (.returned (.error ("timeout waiting for committee for program " ++ task.programId.toText)))

def noLeader (height : UInt64) : String := "committee has no leader for height " ++ toString height

def submitRoute (answers : Answers) (c : CommitteeCertificate) : Node :=
  let hint := s.catalog.nextHeight task.programId
  match leaderForHeight c hint with
  | none => s.conclude t task (.returned (.error (noLeader hint)))
  | some leader =>
    if leader = s.nodeId then s.setPhase t task (.lock c)
    else
      match forwardExecutionToLeader pf s answers task.programId c leader with
      | .error e => s.conclude t task (.returned (.error e))
      | .ok (some o) => s.conclude t task (.returned (.ok o))
      | .ok none => s.setPhase t task (.lock c)

def submitAcquire (c : CommitteeCertificate) : Option Node :=
  match s.locks[task.programId]? with
  | some _ => none
  | none => some { s.setPhase t task (.lead c) with locks := s.locks.insert task.programId t }

def submitLead (c : CommitteeCertificate) : Node :=
  let height := s.catalog.nextHeight task.programId
  match leaderForHeight c height with
  | none => s.conclude t task (.returned (.error (noLeader height)))
  | some leader =>
    if leader = s.nodeId then s.setPhase t task (.prepare c height)
    else s.setPhase t task (.forward c height leader)

def submitForward (answers : Answers) (c : CommitteeCertificate) (height : UInt64) (leader : NodeId) :
    Node :=
  match forwardExecutionToLeader pf s answers task.programId c leader with
  | .error e => s.conclude t task (.returned (.error e))
  | .ok (some o) => s.conclude t task (.returned (.ok o))
  | .ok none => s.setPhase t task (.prepare c height)

def submitPrepare (c : CommitteeCertificate) (height : UInt64) : Node :=
  let id := task.programId.toObjectId
  let tooLarge : Option UInt64 :=
    (s.unified.getObjectMetadata id).bind fun o =>
      if maxProgramSize < o.totalSize.toNat then some o.totalSize else none
  match tooLarge with
  | some size =>
    s.conclude t task (.returned (.error ("program too large: " ++ toString size ++ " bytes (max " ++
      toString maxProgramSize ++ ")")))
  | none =>
    if s.unified.isComplete id then s.setPhase t task (.readRoot c height)
    else if s.hasDistributor then s.setPhase t task (.fetch c height)
    else
      s.conclude t task
        (.returned (.error "program not available and chunk distributor not initialized"))

/-- After `fetch_object`, which stores what it gets as it goes. -/
def submitFetched (fetched : Except String Unit) (c : CommitteeCertificate) (height : UInt64) : Node :=
  match fetched with
  | .error e =>
    s.conclude t task
      (.returned (.error ("program not available locally and fetch from network failed: " ++ e)))
  | .ok _ =>
    if s.unified.isComplete task.programId.toObjectId then s.setPhase t task (.readRoot c height)
    else
      s.conclude t task
        (.returned (.error "program fetch completed but object is still incomplete"))

def submitReadRoot (c : CommitteeCertificate) (height : UInt64) : Node :=
  s.setPhase t task (.execute c height (s.states.sparseRootScoped task.programId pf))

def submitExecute (world : Nat) (c : CommitteeCertificate) (height : UInt64) (rootIn : StateRoot) : Node :=
  match execute pf world s.maxFuel s.unified s.states task.programId task.input with
  | .error e => s.conclude t task (.returned (.error e))
  | .ok o =>
    if maxStateWrites < o.stateWrites.length then
      s.conclude t task (.returned (.error ("too many state writes: " ++ toString o.stateWrites.length ++
        " (max " ++ toString maxStateWrites ++ ")")))
    else s.setPhase t task (.propose c height rootIn o)

def submitPropose (c : CommitteeCertificate) (height : UInt64) (rootIn : StateRoot)
    (o : ExecutionOutcome) : Node :=
  let r := buildReceipt pf s.unified s.nodeId task.programId task.input height rootIn o
  match c.members.find? (·.node == s.nodeId) with
  | none =>
    s.conclude t task
      (.returned (.error ("node is not in committee for program " ++ task.programId.toText)))
  | some me =>
    if me.blsPublicKey ≠ s.blsPublic then
      s.conclude t task (.returned (.error
        ("local BLS public key does not match committee entry for " ++ s.nodeId.toText)))
    else
      let s' := { s with pending := s.pending.insert (r.id pf) ⟨c, r, o.stateWrites, ∅, some t⟩ }
      (s'.publish (.proposal ⟨r, c.epoch, o.stateWrites⟩)).setPhase t task (.sign c r o)

def submitSign (c : CommitteeCertificate) (r : ExecutionReceipt) (o : ExecutionOutcome) : Node :=
  match pf.sign (r.id pf).bytes s.blsSecret dstReceipt with
  | .error e => s.conclude t task (.concluded r (.error e))
  | .ok sig =>
    let s' := s.recordVote pf r
    let s' :=
      match s'.pending[r.id pf]? with
      | none => s'
      | some entry =>
        { s' with
          pending := s'.pending.insert (r.id pf)
            { entry with signatures := entry.signatures.insert s.nodeId sig } }
    (s'.publish (.vote ⟨task.programId, c.epoch, r.id pf, s.nodeId, sig⟩)).setPhase t task (.settle r o)

def submitSettle (clock : UInt64 → UInt64) (r : ExecutionReceipt) (o : ExecutionOutcome) : Node :=
  (maybeFinalizePendingTransition pf clock s (r.id pf)).1.setPhase t task (.wait r o)

def Node.awaited : Bool := s.pending.toList.any fun e => e.2.completion == some t

def submitFinish (r : ExecutionReceipt) (o : ExecutionOutcome) : Option Node :=
  match s.sent[t]? with
  | some (.ok _) => some (s.conclude t task (.concluded r (.ok o)))
  | some (.error e) => some (s.conclude t task (.concluded r (.error e)))
  | none =>
    if s.awaited t then none
    else
      some (s.conclude t task
        (.concluded r (.error ("consensus completion dropped for " ++ task.programId.toText))))

def submitTimeout (r : ExecutionReceipt) : Option Node :=
  match s.sent[t]? with
  | some _ => none
  | none =>
    some ({ s with pending := s.pending.erase (r.id pf) }.conclude t task
      (.concluded r (.error ("consensus timed out for program " ++ task.programId.toText ++
        " (timeout: " ++ toString consensusTimeoutSecs ++ "s)"))))

end Steps

end Onvm
