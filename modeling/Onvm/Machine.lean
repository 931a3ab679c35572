import Onvm.Execution
import Onvm.Runs

/-! A node as a state machine. The event loop handles one message at a time;
calls of `submit_execution`, jobs and object transfers run beside it, so their
steps fall between the handlers and between the two halves of a proposal. -/

namespace Onvm

open ByteString OrderedStore Runs Std

/-- A message that the event loop handles in one go. -/
inductive Inbound
  | programAnnouncement (m : ProgramAnnouncement)
  | programManifest (m : ProgramManifestResponse)
  | aggregatedReceipt (m : AggregatedReceiptBundle)
  | finalizedTransition (m : FinalizedTransitionResponse)
  | vote (m : StateTransitionVote)
  | programHead (m : ProgramHead)
  | stateResponse (m : StateResponse)

/-- A step of the call `submit_execution` number `t`. -/
inductive CallStep
  | resolve (ask : Bool)
  | resolveTimeout
  | route (answers : Answers)
  | acquire
  | lead
  | forward (answers : Answers)
  | prepare
  | fetched (result : Except String Unit)
  | readRoot
  | execute (world : Nat)
  | propose
  | sign
  | settle (clock : UInt64 → UInt64)
  | finish
  | timeout

inductive Op
  | submit (t : Nat) (p : ProgramId) (input : Bytes)
  | call (t : Nat) (step : CallStep)
  | deliver (clock : UInt64 → UInt64) (m : Inbound)
  | proposal (m : StateTransitionProposal)
  | finishProposal (world : Nat) (clock : UInt64 → UInt64)
  | store (e : StoreEvent)
  | job (p : ProgramId) (input : Bytes) (maxFuel : UInt64) (world : Nat) (salt : Bytes32) (now : UInt64)
  | restart

/-- The success path of `execute_job_inner`; other outcomes leave the node's stores alone. -/
def runJob (pf : Platform) (s : Node) (p : ProgramId) (input : Bytes) (maxFuel : UInt64) (world : Nat)
    (salt : Bytes32) (now : UInt64) : Node :=
  match execute pf world maxFuel s.unified s.states p input with
  | .error _ => s
  | .ok o =>
    match s.unified.putObject pf o.returnData (.blob (some "application/octet-stream") salt)
      ⟨.ofByte 32 0⟩ now with
    | .error _ => s
    | .ok (u, _) =>
      { s with
        unified := u
        states := if o.stateWrites.isEmpty then s.states else s.states.applyStateWrites p o.stateWrites }

def handleInbound (pf : Platform) (clock : UInt64 → UInt64) (s : Node) : Inbound → Node
  | .programAnnouncement m => handleProgramAnnouncement pf clock s m
  | .programManifest m => handleProgramManifestResponse pf clock s m
  | .aggregatedReceipt m => (handleFinalizedReceipt pf clock s m).1
  | .finalizedTransition m => handleFinalizedTransitionResponse pf clock s m
  | .vote m => handleStateTransitionVote pf clock s m
  | .programHead m => handleProgramHead pf clock s m
  | .stateResponse m => handleStateResponse pf s m

def callStep (pf : Platform) (s : Node) (t : Nat) (task : SubmitTask) : CallStep → Phase → Option Node
  | .resolve ask, .resolve => some (submitResolve pf s t task ask)
  | .resolveTimeout, .resolve => some (submitResolveTimeout s t task)
  | .route answers, .route c => some (submitRoute pf s t task answers c)
  | .acquire, .lock c => submitAcquire s t task c
  | .lead, .lead c => some (submitLead s t task c)
  | .forward answers, .forward c height leader => some (submitForward pf s t task answers c height leader)
  | .prepare, .prepare c height => some (submitPrepare s t task c height)
  | .fetched result, .fetch c height => some (submitFetched s t task result c height)
  | .readRoot, .readRoot c height => some (submitReadRoot pf s t task c height)
  | .execute world, .execute c height rootIn => some (submitExecute pf s t task world c height rootIn)
  | .propose, .propose c height rootIn o => some (submitPropose pf s t task c height rootIn o)
  | .sign, .sign c r o => some (submitSign pf s t task c r o)
  | .settle clock, .settle r o => some (submitSettle pf s t task clock r o)
  | .finish, .wait r o => submitFinish s t task r o
  | .timeout, .wait r _ => submitTimeout pf s t task r
  | _, _ => none

def step (pf : Platform) (s : Node) : Op → Option Node
  | .submit t p input =>
    match s.tasks[t]? with
    | some _ => none
    | none => some (submitStart s t p input)
  | .call t act =>
    match s.tasks[t]? with
    | none => none
    | some task => callStep pf s t task act task.phase
  | .deliver clock m =>
    match s.handling with
    | some _ => none
    | none => some (handleInbound pf clock s m)
  | .proposal m =>
    match s.handling with
    | some _ => none
    | none =>
      let (s', task) := checkProposal pf s m
      some { s' with handling := task }
  | .finishProposal world clock =>
    match s.handling with
    | none => none
    | some task => some (finishProposal pf clock { s with handling := none } world task)
  | .store e => some { s with unified := s.unified.handle pf e }
  | .job p input maxFuel world salt now => some (runJob pf s p input maxFuel world salt now)
  | .restart => some s.restart

section Sample

def sampleWasm : Bytes := [0, 97, 115, 109, 1, 0, 0, 0]

def sampleType : ObjectType := .wasmProgram "main" none none none [] []

def sampleGuest (call : GuestCall) : Except String GuestResult :=
  .ok ⟨[1], if call.input.isEmpty then ∅ else (∅ : ByteTree (Option Bytes)).insert call.input (some [1]), 0⟩

def sampleRuntime : Platform := samplePlatform sampleGuest

def sampleStore : UnifiedStore :=
  UnifiedStore.empty.handle sampleRuntime (.putObject sampleWasm sampleType (sampleNode 9) 0)

/-- The program whose code is `sampleWasm`. -/
def sampleProgram : ProgramId := ⟨(objectIdFor sampleRuntime (sampleHash sampleWasm) sampleType).bytes⟩

def sampleManifest (c : CommitteeCertificate) : ProgramManifest :=
  let z : Bytes32 := .ofByte 32 0
  let m : ProgramManifest :=
    ⟨sampleProgram, ⟨z⟩, 1, sampleNode 9, z, none, z, [], smtEmpty, none, 0, some c, some ⟨z⟩, []⟩
  { m with signature := (m.digest sampleRuntime).bytes ++ List.replicate 32 0 }

def sampleStart (b : UInt8) : Node :=
  .fresh (sampleNode b) ⟨(sampleNode b).bytes.bytes⟩ ⟨.ofByte 32 b⟩ (samplePublicKey b) 100 false .empty

theorem sampleStart_fresh (b : UInt8) : (sampleStart b).Fresh := rfl

def sampleSetup (c : CommitteeCertificate) : List Op :=
  [.deliver (fun _ => 0) (.programAnnouncement ⟨sampleManifest c, [], []⟩),
    .store (.putObject sampleWasm sampleType (sampleNode 9) 0)]

def sampleCall (t : Nat) (input : Bytes) : List Op :=
  .submit t sampleProgram input ::
    [.resolve false, .route fun _ => none, .acquire, .lead, .prepare, .readRoot, .execute 0,
      .propose, .sign].map (.call t)

def Outgoing.relay : Outgoing → List Op
  | .proposal m => [.proposal m, .finishProposal 0 fun _ => 0]
  | .vote v => [.deliver (fun _ => 0) (.vote v)]
  | .aggregatedReceipt b => [.deliver (fun _ => 0) (.aggregatedReceipt b)]

def twoHeights : List Op :=
  sampleSetup (sampleCommittee sampleProgram [1] 1) ++ sampleCall 0 [] ++
    [.call 0 (.settle fun _ => 0), .call 0 .finish] ++ sampleCall 1 [1] ++ [.call 1 (.settle fun _ => 0)]

def publishedBundles : List AggregatedReceiptBundle :=
  ((run (step sampleRuntime) (sampleStart 1) twoHeights).map fun s =>
    s.published.filterMap fun
      | .aggregatedReceipt b => some b
      | _ => none).getD []

end Sample

end Onvm
