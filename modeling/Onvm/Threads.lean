import Onvm.ApplySteps
import Onvm.CallSteps
import Onvm.Interleaving

/-! A node whose calls, event loop and jobs run side by side. A turn makes a single read or write of a
store, so the turns of others, and a stop of the node, can fall between any two of them. -/

namespace Onvm

open ByteString OrderedStore WeightedQuorum Runs Std

/-- Who runs: a call of `submit_execution`, the event loop or a job. -/
inductive Thread
  | call (t : Nat)
  | loop
  | job
deriving DecidableEq

/-- A signature on its way to the network. `writes` are those of the proposal, if it is another node's. -/
structure SignedVote where
  program : ProgramId
  receipt : ExecutionReceipt
  committee : CommitteeCertificate
  signature : BlsSignature
  writes : Option (List StateWrite)

/-- A call of `handle_finalized_receipt`. If `finalize_transition` has made it, `completion` is the call
that waits for its result, if there is one. -/
structure Handling where
  bundle : AggregatedReceiptBundle
  completion : Option (Option Nat)

/-- What a thread does next, with the local variables that it still needs. -/
inductive ThreadPoint
  | checkCommittee (m : StateTransitionProposal)
  | checkHeight (task : ProposalTask)
  | checkRoot (task : ProposalTask)
  | readVoted (task : ProposalTask)
  | readVotedStore (task : ProposalTask)
  | fillVoted (task : ProposalTask) (found : UInt64 × ReceiptId)
  | predict (task : ProposalTask)
  | record (v : SignedVote)
  | remember (v : SignedVote)
  | collect (v : SignedVote)
  | send (v : SignedVote)
  | count (v : StateTransitionVote)
  | settle (id : ReceiptId)
  | receive (h : Handling)
  | defer (h : Handling)
  | ingest (h : Handling)
  | keep (h : Handling)
  | readHeight (h : Handling)
  | apply (p : ProgramId) (h : Option Handling) (point : ApplyPoint)
  | announce (b : AggregatedReceiptBundle) (completion : Option Nat)
  | notify (t : Nat) (result : Except String Unit)
  | sync (m : ProgramManifest)
  | storeManifest (m : ProgramManifest)
  | readHead (head : ProgramHead)
  | loadHead (p : ProgramId) (next : UInt64)
  | compareState (r : StateResponse)
  | output (p : ProgramId) (o : ExecutionOutcome) (salt : Bytes32) (now : UInt64)
  | write (p : ProgramId) (rest : List StateWrite)
  | expire (r : ExecutionReceipt)
  | resume
  | done

def ThreadPoint.isDone : ThreadPoint → Bool
  | .done => true
  | _ => false

def ThreadPoint.completion : ThreadPoint → Option Nat
  | .receive h | .defer h | .ingest h | .keep h | .readHeight h | .apply _ (some h) _ => h.completion.join
  | .announce _ completion => completion
  | .notify t _ => some t
  | _ => none

def Thread.over : Thread → ThreadPoint
  | .call _ => .resume
  | _ => .done

def Phase.after : Phase → Phase
  | .sign _ r o => .settle r o
  | .settle r o => .wait r o
  | phase => phase

section Moves

variable (pf : Platform) (clock : UInt64 → UInt64) (th : Thread) (s : Node)

def acceptProposal (task : ProposalTask) (last : Option (UInt64 × ReceiptId)) : Node :=
  let r := task.proposal.receipt
  if !voteAllowed last r.height (r.id pf) then s
  else if pf.hashBytes r.call.calldata ≠ r.inputsHash then s
  else { s with handling := some task }

def SignedVote.collected (v : SignedVote) : Node :=
  let id := v.receipt.id pf
  let signed (entry : PendingTransition) : PendingTransition :=
    { entry with signatures := entry.signatures.insert s.nodeId v.signature }
  match s.pending[id]? with
  | some entry => { s with pending := s.pending.insert id (signed entry) }
  | none =>
    match v.writes with
    | some writes =>
      { s with pending := s.pending.insert id (signed ⟨v.committee, v.receipt, writes, ∅, none⟩) }
    | none => s

def notifyPoint (completion : Option Nat) (result : Except String Unit) : ThreadPoint :=
  match completion with
  | none => th.over
  | some t => .notify t result

/-- Behind `handle_finalized_receipt` or the catch-up loop. -/
def handledPoint (h : Option Handling) (result : Except String Unit) : ThreadPoint :=
  match h with
  | some ⟨b, some completion⟩ =>
    match result with
    | .ok _ => .announce b completion
    | .error _ => notifyPoint th completion result
  | _ => th.over

def finalizePoint (entry : PendingTransition) : ThreadPoint :=
  match assembleBundle pf entry with
  | .ok (some b) => .receive ⟨b, some entry.completion⟩
  | _ => th.over

def applyPoint (p : ProgramId) (h : Option Handling) : ApplyPoint → ThreadPoint
  | .done result => handledPoint th h result
  | point => .apply p h point

def move : ThreadPoint → Node × ThreadPoint
  | .checkCommittee m =>
    let p := m.receipt.programId
    match s.catalog.committee pf p with
    | .error _ => (s, .done)
    | .ok none => (s.request (.programManifest p), .done)
    | .ok (some c) =>
      if m.committeeEpoch ≠ c.epoch then (s, .done)
      else if leaderForHeight c m.receipt.height ≠ some m.receipt.executor then (s, .done)
      else
        match c.members.find? (·.node == s.nodeId) with
        | none => (s, .done)
        | some me => if me.blsPublicKey ≠ s.blsPublic then (s, .done) else (s, .checkHeight ⟨m, c⟩)
  | .checkHeight task =>
    let r := task.proposal.receipt
    if s.catalog.expectedHeight r.programId ≠ .ok r.height then (s, .done) else (s, .checkRoot task)
  | .checkRoot task =>
    let r := task.proposal.receipt
    if r.stateRootIn ≠ s.states.sparseRootScoped r.programId pf then (s, .done) else (s, .readVoted task)
  | .readVoted task =>
    match s.lastVoted[task.proposal.receipt.programId]? with
    | some found => (acceptProposal pf s task (some found), .done)
    | none => (s, .readVotedStore task)
  | .readVotedStore task =>
    match s.lastVotedStore[task.proposal.receipt.programId]? with
    | some found => (s, .fillVoted task found)
    | none => (acceptProposal pf s task none, .done)
  | .fillVoted task found =>
    let s' := { s with lastVoted := s.lastVoted.insert task.proposal.receipt.programId found }
    (acceptProposal pf s' task (some found), .done)
  | .predict task =>
    let m := task.proposal
    let r := m.receipt
    if computeRootAfterWrites pf s.states r.programId m.stateWrites ≠ r.stateRootOut then (s, .done)
    else
      match pf.sign (r.id pf).bytes s.blsSecret dstReceipt with
      | .error _ => (s, .done)
      | .ok sig =>
        ({ s with signed := r :: s.signed }, .record ⟨r.programId, r, task.committee, sig, some m.stateWrites⟩)
  | .record v =>
    ({ s with lastVotedStore :=
        s.lastVotedStore.insert v.receipt.programId (v.receipt.height, v.receipt.id pf) }, .remember v)
  | .remember v =>
    ({ s with lastVoted := s.lastVoted.insert v.receipt.programId (v.receipt.height, v.receipt.id pf) },
      .collect v)
  | .collect v => (v.collected pf s, .send v)
  | .send v =>
    (s.publish (.vote ⟨v.program, v.committee.epoch, v.receipt.id pf, s.nodeId, v.signature⟩),
      if v.writes.isSome then .settle (v.receipt.id pf) else th.over)
  | .count v =>
    match s.pending[v.receiptId]? with
    | none => (s, .done)
    | some entry =>
      match countVote pf entry v with
      | none => (s, .done)
      | some entry' =>
        if entry'.committee.threshold.toNat ≤ (signerWeight entry'.committee entry'.signatures.keys).toNat then
          ({ s with pending := s.pending.erase v.receiptId }, finalizePoint pf th entry')
        else ({ s with pending := s.pending.insert v.receiptId entry' }, .done)
  | .settle id =>
    match s.pending[id]? with
    | none => (s, th.over)
    | some entry =>
      if (signerWeight entry.committee entry.signatures.keys).toNat < entry.committee.threshold.toNat then
        (s, th.over)
      else ({ s with pending := s.pending.erase id }, finalizePoint pf th entry)
  | .receive h =>
    match s.catalog.committee pf h.bundle.receipt.receipt.programId with
    | .error e => (s, handledPoint th (some h) (.error e))
    | .ok none => (s, .defer h)
    | .ok (some expected) =>
      if expected ≠ h.bundle.committee then (s, handledPoint th (some h) (.ok ())) else (s, .ingest h)
  | .defer h =>
    ((s.storeFinalizedTransition h.bundle).request (.programManifest h.bundle.receipt.receipt.programId),
      handledPoint th (some h) (.ok ()))
  | .ingest h =>
    match s.ingestAggregatedReceipt pf h.bundle.receipt h.bundle.committee with
    | .error e => (s, handledPoint th (some h) (.error e))
    | .ok s' => (s', .keep h)
  | .keep h => (s.storeFinalizedTransition h.bundle, .readHeight h)
  | .readHeight h =>
    let r := h.bundle.receipt.receipt
    match s.catalog.expectedHeight r.programId with
    | .error e => (s, handledPoint th (some h) (.error e))
    | .ok height =>
      (if height < r.height then s.request (.finalizedTransition r.programId height) else s,
        .apply r.programId (some h) .readCommittee)
  | .apply p h point =>
    let out := applyStep pf clock p s point
    (out.1, applyPoint th p h out.2)
  | .announce b completion => (s.publish (.aggregatedReceipt b), notifyPoint th completion (.ok ()))
  | .notify t result => ({ s with sent := s.sent.insert t result }, th.over)
  | .sync m =>
    match s.catalog.verifyInitialSync pf m with
    | .error _ => (s, .done)
    | .ok _ => (s, .storeManifest m)
  | .storeManifest m =>
    ({ s with catalog := s.catalog.storeManifest m }, .apply m.programId none .readCommittee)
  | .readHead head =>
    let height := s.catalog.localHeight head.programId
    if head.height ≤ height then (s, .done) else (s, .loadHead head.programId (saturatingAdd height 1))
  | .loadHead p next =>
    match s.loadFinalizedTransition p next with
    | some _ => (s, .apply p none .readCommittee)
    | none => (s.request (.finalizedTransition p next), .done)
  | .compareState r =>
    match expectedStateRoot pf s r.programId with
    | .error _ => (s, .done)
    | .ok none => (s, .done)
    | .ok (some expected) =>
      if r.stateRoot ≠ expected then (s, .done)
      else if pf.sparseRoot r.stateEntries ≠ expected then (s, .done)
      else (s, .write r.programId (r.stateEntries.map fun e => ⟨e.1, some e.2⟩))
  | .output p o salt now =>
    match s.unified.putObject pf o.returnData (.blob (some "application/octet-stream") salt)
      ⟨.ofByte 32 0⟩ now with
    | .error _ => (s, .done)
    | .ok (u, _) => ({ s with unified := u }, .write p o.stateWrites)
  | .write _ [] => (s, .done)
  | .write p (w :: rest) => ({ s with states := s.states.applyWrite p w }, .write p rest)
  | .expire r =>
    match th with
    | .call t =>
      (((s.tasks[t]?).map fun task =>
        { s with pending := s.pending.erase (r.id pf) }.conclude t task
          (.concluded r (.error ("consensus timed out for program " ++ task.programId.toText ++
            " (timeout: " ++ toString consensusTimeoutSecs ++ "s)")))).getD s, .done)
    | _ => (s, .done)
  | .resume =>
    match th with
    | .call t => (((s.tasks[t]?).map fun task => s.setPhase t task task.phase.after).getD s, .done)
    | _ => (s, .done)
  | .done => (s, .done)

end Moves

structure Activity where
  thread : Thread
  point : ThreadPoint

abbrev NodeThreads := Interleaving.System Node Activity

namespace NodeThreads

variable (pf : Platform) (S : NodeThreads)

def idle (s : Node) : NodeThreads := ⟨s, []⟩

def free (th : Thread) : Bool := S.processes.all fun a => a.thread ≠ th || a.point.isDone

def loopFree : Bool := S.free .loop && S.shared.handling.isNone

def awaited (t : Nat) : Bool := S.processes.any fun a => a.point.completion == some t

def withNode (s : Node) : NodeThreads := { S with shared := s }

def begin (s : Node) (th : Thread) (point : ThreadPoint) : NodeThreads := (S.withNode s).spawn ⟨th, point⟩

end NodeThreads

def agrees (pf : Platform) (s : Node) (world : Nat) (m : StateTransitionProposal) : Bool :=
  let p := m.receipt.programId
  s.unified.isComplete p.toObjectId &&
    (execute pf world s.maxFuel s.unified s.states p m.receipt.call.calldata).toOption.any fun o =>
      o.stateWrites = m.stateWrites ∧ o.stateRoot = m.receipt.stateRootOut ∧
        stateWritesDigest pf m.stateWrites = m.receipt.writeDigest

def Inbound.point (pf : Platform) : Inbound → ThreadPoint
  | .programAnnouncement a =>
    if a.manifest.signature.isEmpty then .done
    else
      match verifyManifestSignature pf a.manifest with
      | .error _ => .done
      | .ok _ => .sync a.manifest
  | .programManifest r => (r.manifest.map .sync).getD .done
  | .aggregatedReceipt b => .receive ⟨b, none⟩
  | .finalizedTransition r => (r.bundle.map fun b => .receive ⟨b, none⟩).getD .done
  | .vote v => .count v
  | .programHead head => .readHead head
  | .stateResponse r =>
    if maxStateEntries < r.stateEntries.length then .done
    else if !stateSizesAllowed 0 r.stateEntries then .done
    else .compareState r

/-- A call that is not in the middle of a function goes on. Its channel is dropped once neither a pending
transition nor a thread holds the sender. -/
def startCall (pf : Platform) (S : NodeThreads) (t : Nat) (task : SubmitTask) : CallStep → Option NodeThreads
  | .sign =>
    match task.phase with
    | .sign c r _ =>
      match pf.sign (r.id pf).bytes S.shared.blsSecret dstReceipt with
      | .error e => some (S.withNode (S.shared.conclude t task (.concluded r (.error e))))
      | .ok sig =>
        some (S.begin { S.shared with signed := r :: S.shared.signed } (.call t)
          (.record ⟨task.programId, r, c, sig, none⟩))
    | _ => none
  | .settle _ =>
    match task.phase with
    | .settle r _ => some (S.begin S.shared (.call t) (.settle (r.id pf)))
    | _ => none
  | .timeout =>
    match task.phase with
    | .wait r _ => if (S.shared.sent[t]?).isSome then none else some (S.begin S.shared (.call t) (.expire r))
    | _ => none
  | .finish =>
    if (S.shared.sent[t]?).isNone && S.awaited t then none
    else (callStep pf S.shared t task .finish task.phase).map S.withNode
  | act => (callStep pf S.shared t task act task.phase).map S.withNode

def start (pf : Platform) (S : NodeThreads) : Op → Option NodeThreads
  | .submit t p input => (step pf S.shared (.submit t p input)).map S.withNode
  | .call t act =>
    if S.free (.call t) then (S.shared.tasks[t]?).bind fun task => startCall pf S t task act else none
  | .deliver _ m => if S.loopFree then some (S.begin S.shared .loop (m.point pf)) else none
  | .proposal m => if S.loopFree then some (S.begin S.shared .loop (.checkCommittee m)) else none
  | .finishProposal world _ =>
    if S.free .loop then
      S.shared.handling.map fun task =>
        let s := { S.shared with handling := none }
        if agrees pf s world task.proposal then S.begin s .loop (.predict task) else S.withNode s
    else none
  | .store e => some (S.withNode { S.shared with unified := S.shared.unified.handle pf e })
  | .job p input maxFuel world salt now =>
    match execute pf world maxFuel S.shared.unified S.shared.states p input with
    | .error _ => some S
    | .ok o => some (S.begin S.shared .job (.output p o salt now))
  | .restart => some (.idle S.shared.restart)

inductive ThreadEvent
  | start (op : Op)
  | turn (n : Nat) (clock : UInt64 → UInt64)

def Activity.act (pf : Platform) (s : Node) (a : Activity) (clock : UInt64 → UInt64) :
    Interleaving.Turn Node Activity :=
  let out := move pf clock a.thread s a.point
  ⟨out.1, ⟨a.thread, out.2⟩, []⟩

def threadStep (pf : Platform) (S : NodeThreads) : ThreadEvent → Option NodeThreads
  | .start op => start pf S op
  | .turn n clock => S.turn (Activity.act pf) n clock

/-- A step of the catch-up loop. -/
inductive ApplyMove (pf : Platform) (clock : UInt64 → UInt64) (p : ProgramId) (s : Node) :
    ApplyPoint → Node → ApplyPoint → Prop
  | stop {x : ApplyPoint} {r : Except String Unit} : ApplyMove pf clock p s x s (.done r)
  | ask : ApplyMove pf clock p s .readCommittee (s.request (.programManifest p)) (.done (.ok ()))
  | committee {C : CommitteeCertificate} (h : s.catalog.committee pf p = .ok (some C)) :
    ApplyMove pf clock p s .readCommittee s (.readHeight C)
  | height {C : CommitteeCertificate} {height : UInt64} (h : s.catalog.expectedHeight p = .ok height) :
    ApplyMove pf clock p s (.readHeight C) s (.loadBundle C height)
  | load {C : CommitteeCertificate} {height : UInt64} {b : AggregatedReceiptBundle}
    (h : s.loadFinalizedTransition p height = some b) (hC : b.committee = C) :
    ApplyMove pf clock p s (.loadBundle C height) s (.ingest b)
  | ingest {b : AggregatedReceiptBundle} (h : verifyAggregatedReceipt pf b.receipt b.committee = .ok ()) :
    ApplyMove pf clock p s (.ingest b) { s with catalog := s.catalog.storeAggregatedReceipt pf b.receipt }
      (.readRoot b)
  | root {b : AggregatedReceiptBundle} :
    ApplyMove pf clock p s (.readRoot b) s (.predict b (s.states.sparseRootScoped p pf))
  | predict {b : AggregatedReceiptBundle} {root : StateRoot} :
    ApplyMove pf clock p s (.predict b root) s (.write b root b.stateWrites)
  | written {b : AggregatedReceiptBundle} {root : StateRoot} :
    ApplyMove pf clock p s (.write b root []) s (.readApplied b root)
  | write {b : AggregatedReceiptBundle} {root : StateRoot} {w : StateWrite} {rest : List StateWrite} :
    ApplyMove pf clock p s (.write b root (w :: rest)) { s with states := s.states.applyWrite p w }
      (.write b root rest)
  | applied {b : AggregatedReceiptBundle} {root applied : StateRoot}
    (h : applied = b.receipt.receipt.stateRootOut) :
    ApplyMove pf clock p s (.readApplied b root) s (.commit b root applied)
  | commit {b : AggregatedReceiptBundle} {root applied : StateRoot} :
    ApplyMove pf clock p s (.commit b root applied)
      { s with catalog := s.catalog.storeStateCommitment (commitmentOf clock p b applied root) } .readCommittee

theorem applyStep_cases {pf : Platform} {clock : UInt64 → UInt64} {p : ProgramId} {s s' : Node} {x y : ApplyPoint}
    (h : applyStep pf clock p s x = (s', y)) : ApplyMove pf clock p s x s' y := by
  suffices hm : ApplyMove pf clock p s x (applyStep pf clock p s x).1 (applyStep pf clock p s x).2 by
    rwa [h] at hm
  rw [applyStep.eq_def]
  split
  · split
    · exact .stop
    · exact .ask
    · exact .committee (by assumption)
  · split
    · exact .stop
    · exact .height (by assumption)
  · split
    · exact .stop
    rename_i hb
    split
    · exact .stop
    · exact .load hb (not_not.mp (by assumption))
  · split
    · exact .stop
    · rename_i hi
      obtain ⟨hv, rfl⟩ := ingestAggregatedReceipt_eq_ok hi
      exact .ingest hv
  · dsimp only
    split
    · exact .stop
    split
    · exact .stop
    · exact .root
  · split
    · exact .stop
    · exact .predict
  · exact .written
  · exact .write
  · dsimp only
    split
    · exact .stop
    · exact .applied (not_not.mp (by assumption))
  · exact .commit
  · exact .stop

theorem ApplyMove.rest {pf : Platform} {clock : UInt64 → UInt64} {p : ProgramId} {s s' : Node} {x y : ApplyPoint}
    (h : ApplyMove pf clock p s x s' y) : s'.rest = s.rest := by
  cases h <;> rfl

def ThreadPoint.quiet : ThreadPoint → Bool
  | .record _ | .receive _ | .defer _ | .ingest _ | .keep _ | .readHeight _ | .apply _ _ _ | .announce _ _
  | .notify _ _ => false
  | _ => true

def Node.core (s : Node) : Node :=
  { s with lastVoted := ∅, handling := none, published := [], requests := [], unified := .empty }

def Node.Renews (s : Node) (id : ReceiptId) (entry : PendingTransition) : Prop :=
  ∀ t, entry.completion = some t → ∃ old, s.pending[id]? = some old ∧ old.completion = some t ∧
    entry.receipt = old.receipt ∧ entry.stateWrites = old.stateWrites

/-- What a turn of a thread does. -/
inductive Move (pf : Platform) (clock : UInt64 → UInt64) (th : Thread) (s : Node) :
    ThreadPoint → Node → ThreadPoint → Prop
  | aside {x y : ThreadPoint} {s' : Node} (hx : x.quiet = true) (hy : y.quiet = true) (h : s'.core = s.core) :
    Move pf clock th s x s' y
  | sign {task : ProposalTask} {v : SignedVote} :
    Move pf clock th s (.predict task) { s with signed := v.receipt :: s.signed } (.record v)
  | record {v : SignedVote} :
    Move pf clock th s (.record v)
      { s with lastVotedStore :=
          s.lastVotedStore.insert v.receipt.programId (v.receipt.height, v.receipt.id pf) } (.remember v)
  | renew {x y : ThreadPoint} {id : ReceiptId} {entry : PendingTransition} (hx : x.quiet = true) (hy : y.quiet = true)
    (h : s.Renews id entry) : Move pf clock th s x { s with pending := s.pending.insert id entry } y
  | finalize {x : ThreadPoint} {id : ReceiptId} {entry : PendingTransition} (hx : x.quiet = true)
    (h : s.Renews id entry) :
    Move pf clock th s x { s with pending := s.pending.erase id } (finalizePoint pf th entry)
  | begin {h : Handling}
    (hC : s.catalog.committee pf h.bundle.receipt.receipt.programId = .ok (some h.bundle.committee)) :
    Move pf clock th s (.receive h) s (.ingest h)
  | mismatch {h : Handling}
    (hC : s.catalog.committee pf h.bundle.receipt.receipt.programId ≠ .ok (some h.bundle.committee)) :
    Move pf clock th s (.receive h) s (handledPoint th (some h) (.ok ()))
  | unknown {h : Handling}
    (hC : s.catalog.committee pf h.bundle.receipt.receipt.programId ≠ .ok (some h.bundle.committee)) :
    Move pf clock th s (.receive h) s (.defer h)
  | fail {x : ThreadPoint} {h : Handling} {e : String} (hx : x = .receive h ∨ x = .ingest h ∨ x = .readHeight h) :
    Move pf clock th s x s (handledPoint th (some h) (.error e))
  | defer {h : Handling} :
    Move pf clock th s (.defer h)
      ((s.storeFinalizedTransition h.bundle).request (.programManifest h.bundle.receipt.receipt.programId))
      (handledPoint th (some h) (.ok ()))
  | ingest {h : Handling} (hv : verifyAggregatedReceipt pf h.bundle.receipt h.bundle.committee = .ok ()) :
    Move pf clock th s (.ingest h)
      { s with catalog := s.catalog.storeAggregatedReceipt pf h.bundle.receipt } (.keep h)
  | keep {h : Handling} : Move pf clock th s (.keep h) (s.storeFinalizedTransition h.bundle) (.readHeight h)
  | enter {h : Handling} {s' : Node} (hs : s'.core = s.core) :
    Move pf clock th s (.readHeight h) s' (.apply h.bundle.receipt.receipt.programId (some h) .readCommittee)
  | catchUp {x : ThreadPoint} {p : ProgramId} (hx : x.quiet = true) :
    Move pf clock th s x s (.apply p none .readCommittee)
  | manifest {m : ProgramManifest} :
    Move pf clock th s (.storeManifest m) { s with catalog := s.catalog.storeManifest m }
      (.apply m.programId none .readCommittee)
  | apply {p : ProgramId} {h : Option Handling} {x y : ApplyPoint} {s' : Node}
    (hs : applyStep pf clock p s x = (s', y)) : Move pf clock th s (.apply p h x) s' (applyPoint th p h y)
  | announce {b : AggregatedReceiptBundle} {completion : Option Nat} :
    Move pf clock th s (.announce b completion) (s.publish (.aggregatedReceipt b))
      (notifyPoint th completion (.ok ()))
  | notify {t : Nat} {result : Except String Unit} :
    Move pf clock th s (.notify t result) { s with sent := s.sent.insert t result } th.over
  | write {p : ProgramId} {w : StateWrite} {rest : List StateWrite} :
    Move pf clock th s (.write p (w :: rest)) { s with states := s.states.applyWrite p w } (.write p rest)
  | expire {t : Nat} {task : SubmitTask} {r : ExecutionReceipt} {e : String} (ht : s.tasks[t]? = some task) :
    Move pf clock th s (.expire r)
      ({ s with pending := s.pending.erase (r.id pf) }.conclude t task (.concluded r (.error e))) .done
  | resume {t : Nat} {task : SubmitTask} (ht : s.tasks[t]? = some task) :
    Move pf clock th s .resume (s.setPhase t task task.phase.after) .done

section Moves

variable {pf : Platform} {clock : UInt64 → UInt64} {th : Thread} {s : Node}

theorem Thread.over_quiet : th.over.quiet = true := by cases th <;> rfl

theorem acceptProposal_core (task : ProposalTask) (last : Option (UInt64 × ReceiptId)) :
    (acceptProposal pf s task last).core = s.core := by
  simp only [acceptProposal]
  split_ifs <;> rfl

theorem renews_self {id : ReceiptId} {entry : PendingTransition} (h : s.pending[id]? = some entry) :
    s.Renews id entry :=
  fun _ ht => ⟨entry, h, ht, rfl, rfl⟩

theorem renews_of_countVote {id : ReceiptId} {entry e : PendingTransition} {v : StateTransitionVote}
    (h : s.pending[id]? = some entry) (hv : countVote pf entry v = some e) : s.Renews id e := by
  obtain ⟨rfl, -⟩ := countVote_eq_some hv
  exact fun _ ht => ⟨entry, h, ht, rfl, rfl⟩

theorem SignedVote.collected_cases (v : SignedVote) :
    v.collected pf s = s ∨ ∃ entry, s.Renews (v.receipt.id pf) entry ∧
      v.collected pf s = { s with pending := s.pending.insert (v.receipt.id pf) entry } := by
  simp only [SignedVote.collected]
  split
  · rename_i entry he
    refine .inr ⟨_, ?_, rfl⟩
    exact fun _ ht => ⟨entry, he, ht, rfl, rfl⟩
  · split
    · refine .inr ⟨_, ?_, rfl⟩
      exact fun _ ht => by cases ht
    · exact .inl rfl

theorem move_cases (x : ThreadPoint) : Move pf clock th s x (move pf clock th s x).1 (move pf clock th s x).2 := by
  rw [move.eq_def]
  split
  · dsimp only
    split
    · exact .aside rfl rfl rfl
    · exact .aside rfl rfl rfl
    split_ifs
    · exact .aside rfl rfl rfl
    · exact .aside rfl rfl rfl
    · split
      · exact .aside rfl rfl rfl
      · split_ifs <;> exact .aside rfl rfl rfl
  · dsimp only
    split_ifs <;> exact .aside rfl rfl rfl
  · dsimp only
    split_ifs <;> exact .aside rfl rfl rfl
  · split
    · exact .aside rfl rfl (acceptProposal_core _ _)
    · exact .aside rfl rfl rfl
  · split
    · exact .aside rfl rfl rfl
    · exact .aside rfl rfl (acceptProposal_core _ _)
  · exact .aside rfl rfl (acceptProposal_core _ _)
  · dsimp only
    split_ifs
    · exact .aside rfl rfl rfl
    · split
      · exact .aside rfl rfl rfl
      · exact .sign (v := ⟨_, _, _, _, _⟩)
  · exact .record
  · exact .aside rfl rfl rfl
  · rename_i v
    dsimp only
    rcases @SignedVote.collected_cases pf s v with hv | ⟨entry, hentry, hv⟩ <;> rw [hv]
    · exact .aside rfl rfl rfl
    · exact .renew rfl rfl hentry
  · refine .aside rfl ?_ rfl
    dsimp only
    split_ifs
    · rfl
    · exact Thread.over_quiet
  · split
    · exact .aside rfl rfl rfl
    rename_i he
    split
    · exact .aside rfl rfl rfl
    rename_i hv
    split_ifs
    · exact .finalize rfl (renews_of_countVote he hv)
    · exact .renew rfl rfl (renews_of_countVote he hv)
  · split
    · exact .aside rfl Thread.over_quiet rfl
    rename_i he
    split_ifs
    · exact .aside rfl Thread.over_quiet rfl
    · exact .finalize rfl (renews_self he)
  · split
    · exact .fail (.inl rfl)
    · rename_i hC
      exact .unknown (by simp [hC])
    · rename_i hC
      split_ifs with hne
      · exact .mismatch (by simp [hC, hne])
      · exact .begin (by rw [hC, not_not.mp hne])
  · exact .defer
  · split
    · exact .fail (.inr (.inl rfl))
    · rename_i hi
      obtain ⟨hv, rfl⟩ := ingestAggregatedReceipt_eq_ok hi
      exact .ingest hv
  · exact .keep
  · dsimp only
    split
    · exact .fail (.inr (.inr rfl))
    · refine .enter ?_
      dsimp only
      split_ifs <;> rfl
  · exact .apply rfl
  · exact .announce
  · exact .notify
  · split
    · exact .aside rfl rfl rfl
    · exact .aside rfl rfl rfl
  · exact .manifest
  · dsimp only
    split_ifs <;> exact .aside rfl rfl rfl
  · split
    · exact .catchUp rfl
    · exact .aside rfl rfl rfl
  · split
    · exact .aside rfl rfl rfl
    · exact .aside rfl rfl rfl
    · split_ifs <;> exact .aside rfl rfl rfl
  · split <;> exact .aside rfl rfl rfl
  · exact .aside rfl rfl rfl
  · exact .write
  · split
    · rename_i t
      cases ht : s.tasks[t]? with
      | none => exact .aside rfl rfl rfl
      | some task => exact .expire ht
    · exact .aside rfl rfl rfl
  · split
    · rename_i t
      cases ht : s.tasks[t]? with
      | none => exact .aside rfl rfl rfl
      | some task => exact .resume ht
    · exact .aside rfl rfl rfl
  · exact .aside rfl rfl rfl

end Moves

/-- What a step of a call comes to where its threads begin. -/
inductive CallStart (pf : Platform) (S : NodeThreads) (t : Nat) (task : SubmitTask) : NodeThreads → Prop
  | advance {act : CallStep} {s' : Node} (hearly : task.phase.early = true)
    (h : S.shared.Advances pf t task act s') : CallStart pf S t task (S.withNode s')
  | propose {c : CommitteeCertificate} {height : UInt64} {rootIn : StateRoot} {o : ExecutionOutcome}
    (hph : task.phase = .propose c height rootIn o) :
    CallStart pf S t task (S.withNode (submitPropose pf S.shared t task c height rootIn o))
  | refused {c : CommitteeCertificate} {r : ExecutionReceipt} {o : ExecutionOutcome} {e : String}
    (hph : task.phase = .sign c r o) :
    CallStart pf S t task (S.withNode (S.shared.conclude t task (.concluded r (.error e))))
  | sign {c : CommitteeCertificate} {r : ExecutionReceipt} {o : ExecutionOutcome} {sig : BlsSignature}
    (hph : task.phase = .sign c r o) :
    CallStart pf S t task (S.begin { S.shared with signed := r :: S.shared.signed } (.call t)
      (.record ⟨task.programId, r, c, sig, none⟩))
  | settle {r : ExecutionReceipt} {o : ExecutionOutcome} (hph : task.phase = .settle r o) :
    CallStart pf S t task (S.begin S.shared (.call t) (.settle (r.id pf)))
  | expire {r : ExecutionReceipt} {o : ExecutionOutcome} (hph : task.phase = .wait r o) :
    CallStart pf S t task (S.begin S.shared (.call t) (.expire r))
  | finish {r : ExecutionReceipt} {o : ExecutionOutcome} {s' : Node} (hph : task.phase = .wait r o)
    (h : submitFinish S.shared t task r o = some s') : CallStart pf S t task (S.withNode s')

/-- What an operation comes to where its threads begin. -/
inductive Start (pf : Platform) (S : NodeThreads) : Op → NodeThreads → Prop
  | submit {t : Nat} {p : ProgramId} {input : Bytes} (hnone : S.shared.tasks[t]? = none) :
    Start pf S (.submit t p input) (S.withNode (submitStart S.shared t p input))
  | call {t : Nat} {act : CallStep} {task : SubmitTask} {S' : NodeThreads}
    (ht : S.shared.tasks[t]? = some task) (h : CallStart pf S t task S') : Start pf S (.call t act) S'
  | deliver {clock : UInt64 → UInt64} {m : Inbound} :
    Start pf S (.deliver clock m) (S.begin S.shared .loop (m.point pf))
  | proposal {m : StateTransitionProposal} :
    Start pf S (.proposal m) (S.begin S.shared .loop (.checkCommittee m))
  | endorse {world : Nat} {clock : UInt64 → UInt64} {task : ProposalTask} :
    Start pf S (.finishProposal world clock)
      (S.begin { S.shared with handling := none } .loop (.predict task))
  | decline {world : Nat} {clock : UInt64 → UInt64} :
    Start pf S (.finishProposal world clock) (S.withNode { S.shared with handling := none })
  | store {e : StoreEvent} :
    Start pf S (.store e) (S.withNode { S.shared with unified := S.shared.unified.handle pf e })
  | job {p : ProgramId} {input : Bytes} {maxFuel : UInt64} {world : Nat} {salt : Bytes32} {now : UInt64}
    {o : ExecutionOutcome} :
    Start pf S (.job p input maxFuel world salt now) (S.begin S.shared .job (.output p o salt now))
  | fail {p : ProgramId} {input : Bytes} {maxFuel : UInt64} {world : Nat} {salt : Bytes32} {now : UInt64} :
    Start pf S (.job p input maxFuel world salt now) S
  | restart : Start pf S .restart (.idle S.shared.restart)

theorem threadStep_turn {pf : Platform} {S S' : NodeThreads} {n : Nat} {clock : UInt64 → UInt64}
    (h : threadStep pf S (.turn n clock) = some S') :
    ∃ a y, S.processes[n]? = some a ∧ Move pf clock a.thread S.shared a.point S'.shared y ∧
      S.processes.Perm (a :: S.processes.eraseIdx n) ∧
      S'.processes.Perm (⟨a.thread, y⟩ :: S.processes.eraseIdx n) := by
  obtain ⟨a, ha, hs, -⟩ := Interleaving.System.turn_eq_some h
  obtain ⟨hbefore, hafter⟩ := Interleaving.System.perm_turn h ha
  refine ⟨a, _, ha, ?_, hbefore, (List.append_nil (S.processes.eraseIdx n) ▸ hafter :)⟩
  rw [hs]
  exact move_cases a.point

section Cases

variable {pf : Platform} {S S' : NodeThreads}

theorem callStart_of_startCall {t : Nat} {task : SubmitTask} {act : CallStep}
    (h : startCall pf S t task act = some S') : CallStart pf S t task S' := by
  rw [startCall.eq_def] at h
  split at h
  · split at h
    · rename_i c r o hph
      split at h
      · cases h
        exact .refused hph
      · cases h
        exact .sign hph
    · cases h
  · split at h
    · rename_i hph
      cases h
      exact .settle hph
    · cases h
  · split at h
    · rename_i hph
      split_ifs at h
      cases h
      exact .expire hph
    · cases h
  · split_ifs at h
    obtain ⟨s', hs, rfl⟩ := Option.map_eq_some_iff.mp h
    rcases callStep_cases hs with ⟨hearly, ha⟩ | hlate
    · exact .advance hearly ha
    · cases hlate with
      | finish hph h => exact .finish hph h
  · rename_i hsign hsettle htimeout hfinish
    obtain ⟨s', hs, rfl⟩ := Option.map_eq_some_iff.mp h
    rcases callStep_cases hs with ⟨hearly, ha⟩ | hlate
    · exact .advance hearly ha
    · cases hlate with
      | propose hph => exact .propose hph
      | sign => exact absurd rfl hsign
      | settle => exact absurd rfl (hsettle _)
      | finish => exact absurd rfl hfinish
      | timeout => exact absurd rfl htimeout

theorem start_cases {op : Op} (h : start pf S op = some S') : Start pf S op S' := by
  cases op with
  | submit t p input =>
    obtain ⟨s', hs, rfl⟩ := Option.map_eq_some_iff.mp h
    rw [step] at hs
    split at hs
    · cases hs
    · rename_i hnone
      cases hs
      exact .submit hnone
  | call t act =>
    rw [start] at h
    split_ifs at h
    obtain ⟨task, ht, h⟩ := Option.bind_eq_some_iff.mp h
    exact .call ht (callStart_of_startCall h)
  | deliver clock m =>
    rw [start] at h
    split_ifs at h
    cases h
    exact .deliver
  | proposal m =>
    rw [start] at h
    split_ifs at h
    cases h
    exact .proposal
  | finishProposal world clock =>
    rw [start] at h
    split_ifs at h
    obtain ⟨task, ht, h⟩ := Option.map_eq_some_iff.mp h
    dsimp only at h
    split_ifs at h <;> cases h
    · exact .endorse
    · exact .decline
  | store e =>
    cases h
    exact .store
  | job p input maxFuel world salt now =>
    rw [start] at h
    split at h <;> cases h
    · exact .fail
    · exact .job
  | restart =>
    cases h
    exact .restart

def ThreadPoint.starting : ThreadPoint → Bool
  | .record _ => true
  | .receive h => h.completion.isNone
  | x => x.quiet

theorem Inbound.point_cases (m : Inbound) :
    (m.point pf).quiet = true ∨ ∃ b, m.point pf = .receive ⟨b, none⟩ := by
  cases m with
  | programAnnouncement a =>
    simp only [Inbound.point]
    split_ifs
    · exact .inl rfl
    · split <;> exact .inl rfl
  | programManifest r =>
    rw [Inbound.point]
    cases r.manifest <;> exact .inl rfl
  | aggregatedReceipt b => exact .inr ⟨b, rfl⟩
  | finalizedTransition r =>
    rw [Inbound.point]
    cases r.bundle with
    | none => exact .inl rfl
    | some b => exact .inr ⟨b, rfl⟩
  | stateResponse r =>
    simp only [Inbound.point]
    split_ifs <;> exact .inl rfl
  | _ => exact .inl rfl

theorem ThreadPoint.starting_of_quiet {x : ThreadPoint} (h : x.quiet = true) : x.starting = true := by
  cases x <;> trivial

theorem Inbound.point_starting (m : Inbound) : (m.point pf).starting = true := by
  rcases @Inbound.point_cases pf m with h | ⟨b, h⟩
  · exact ThreadPoint.starting_of_quiet h
  · rw [h]
    rfl

theorem CallStart.ledger {t : Nat} {task : SubmitTask} (h : CallStart pf S t task S') :
    S'.shared.ledger = S.shared.ledger := by
  cases h with
  | advance _ ha => exact ha.untouched.1
  | propose => exact (submitPropose_untouched ..).1
  | finish _ hs =>
    obtain ⟨result, rfl, -⟩ := submitFinish_cases hs
    rfl
  | _ => rfl

theorem Start.ledger {op : Op} (h : Start pf S op S') : S'.shared.ledger = S.shared.ledger := by
  cases h with
  | call _ hc => exact hc.ledger
  | _ => rfl

theorem CallStart.processes {t : Nat} {task : SubmitTask} (h : CallStart pf S t task S') :
    S'.processes = S.processes ∨ ∃ th x, S'.processes = S.processes ++ [⟨th, x⟩] ∧ x.starting = true := by
  cases h with
  | sign => exact .inr ⟨_, _, rfl, rfl⟩
  | settle => exact .inr ⟨_, _, rfl, rfl⟩
  | expire => exact .inr ⟨_, _, rfl, rfl⟩
  | _ => exact .inl rfl

theorem Start.processes {op : Op} (h : Start pf S op S') {a : Activity} (ha : a ∈ S'.processes) :
    a ∈ S.processes ∨ a.point.starting = true := by
  have hcases : S'.processes = [] ∨ S'.processes = S.processes ∨
      ∃ th x, S'.processes = S.processes ++ [⟨th, x⟩] ∧ x.starting = true := by
    cases h with
    | call _ hc => exact .inr hc.processes
    | deliver => exact .inr (.inr ⟨_, _, rfl, Inbound.point_starting _⟩)
    | proposal => exact .inr (.inr ⟨_, _, rfl, rfl⟩)
    | endorse => exact .inr (.inr ⟨_, _, rfl, rfl⟩)
    | job => exact .inr (.inr ⟨_, _, rfl, rfl⟩)
    | restart => exact .inl rfl
    | _ => exact .inr (.inl rfl)
  rcases hcases with he | he | ⟨th, x, he, hx⟩ <;> rw [he] at ha
  · cases ha
  · exact .inl ha
  · rcases List.mem_append.mp ha with ha | ha
    · exact .inl ha
    · rw [List.mem_singleton.mp ha]
      exact .inr hx

end Cases

section Sample

def Op.turns : Op → Nat
  | .call _ .sign => 5
  | .call _ (.settle _) => 22
  | .call _ .timeout => 1
  | .deliver _ (.programAnnouncement _) => 5
  | .deliver _ _ => 22
  | .proposal _ => 6
  | .finishProposal _ _ => 26
  | .job .. => 4
  | _ => 0

/-- Every operation runs to its end before the next one begins; `n` threads have run before. -/
def oneByOne : Nat → List Op → List ThreadEvent
  | _, [] => []
  | n, op :: ops =>
    .start op :: (List.replicate op.turns (.turn n fun _ => 0) ++
      oneByOne (if op.turns = 0 then n else n + 1) ops)

end Sample

end Onvm
