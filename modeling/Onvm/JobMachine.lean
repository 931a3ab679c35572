import Onvm.Interleaving
import Onvm.Runs
import Onvm.Jobs

/-! The job system of a node as processes over its stores: submissions
(`rpc/jobs.rs`), cancellations, job tasks (`job_executor.rs`), scheduler cycles
(`job_scheduler.rs`) and broadcasts of peers (`job_sync.rs`). A process is named by
the point it has come to; between two points it touches the shared state at most once. -/

namespace Onvm

open ByteString OrderedStore Interleaving Std

inductive RetryStrategy
  | exponentialBackoff
  | linearBackoff
  | fixedDelay
deriving DecidableEq

/-- The scheduler's settings, whether the build checks arithmetic, and what the `hex` and `base64`
crates say. -/
structure JobSettings where
  maxConcurrent : Nat
  retryStrategy : RetryStrategy
  baseRetryBackoffMs : UInt64
  overflowChecks : Bool
  hexError : List Char → String
  decodeBase64 : String → Except String Bytes

namespace JobSettings

variable (cfg : JobSettings)

def arith (op : Nat → Nat → Nat) (a b : UInt64) : Option UInt64 :=
  if cfg.overflowChecks ∧ 2 ^ 64 ≤ op a.toNat b.toNat then none else some (UInt64.ofNat (op a.toNat b.toNat))

/-- `retry_count.min(10) - 1` as a shift; below zero it is a panic, or the low bits of the wrapped count. -/
def backoffShift (retryCount : UInt32) : Option Nat :=
  if retryCount = 0 then if cfg.overflowChecks then none else some 63
  else some (min retryCount.toNat 10 - 1)

def calculateBackoff (retryCount : UInt32) : Option UInt64 :=
  match cfg.retryStrategy with
  | .exponentialBackoff =>
    (cfg.backoffShift retryCount).bind fun shift =>
      cfg.arith (· * ·) cfg.baseRetryBackoffMs (UInt64.ofNat (2 ^ shift))
  | .linearBackoff => cfg.arith (· * ·) cfg.baseRetryBackoffMs retryCount.toUInt64
  | .fixedDelay => some cfg.baseRetryBackoffMs

/-- Whether a pending job may be queued at `now`; `none` is a panic. -/
def isDue (now : UInt64) (job : Job) : Option Bool :=
  if 0 < job.retryCount then
    (cfg.calculateBackoff job.retryCount).bind fun backoff =>
    (cfg.arith (· + ·) job.createdAt backoff).map fun retryAfter => !(now < retryAfter)
  else some true

end JobSettings

/-- How the run of the engine ends that an attempt waits for. It runs beside everything else and sees
the stores as they are meanwhile. -/
inductive EngineRun
  | timedOut
  | joinError (error : String)
  | returned (world : Nat) (unified : UnifiedStore) (states : StateStore)

/-- What a turn takes from outside: successive clock readings, a random salt, the engine, and what the
consensus answers to a blob it is given. -/
structure Inputs where
  clock : Nat → UInt64
  salt : Bytes32
  engine : EngineRun
  ingested : Except String Unit

/-- The three lists a cycle goes through. -/
inductive Pass
  | enqueue
  | timeouts
  | expiry
deriving DecidableEq

def Pass.status : Pass → JobStatus
  | .enqueue | .expiry => .pending
  | .timeouts => .running

inductive Process
  /-- The RPC handler `submit_job`. -/
  | receive (req : SubmitJobRequest)
  | create (req : SubmitJobRequest) (program : ProgramId) (input : Option BlobId) (ttlMs : Option UInt64)
  | insert (job : Job)
  | push (job : Job)
  | answered (answer : Except (Nat × String) JobId)
  /-- A call of `cancel_job`; `seen` is the record as it was read. -/
  | cancel (id : JobId)
  | writeCancel (seen : Job)
  | retain (id : JobId)
  | cancelled (answer : Except String Unit)
  /-- A call of `handle_job_broadcast`. -/
  | broadcast (d : JobDescriptor)
  | replicate (d : JobDescriptor)
  /-- A cycle of `schedule_cycle`. -/
  | scan (pass : Pass) (cursor : Option Bytes) (found : List Job)
  | visit (pass : Pass) (now : UInt64) (jobs : List Job)
  | fill
  | pop (slots : Nat)
  | spawn (slots : Nat) (id : JobId)
  | panicked
  /-- A spawned task: `execute_job`, then the scheduler's error branch. -/
  | claim (id : JobId)
  | load (id : JobId)
  | mark (seen : Job)
  | prepare (job : Job)
  | execute (job : Job) (manifest : JobManifest) (input : Bytes)
  | storeOutput (seen job : Job) (outcome : ExecutionOutcome)
  | applyWrites (seen job : Job) (writes : List StateWrite)
  | conclude (seen job : Job)
  | release (id : JobId) (error : Option String)
  | report (id : JobId) (error : String)
  | fail (seen : Job) (error : String)
  | finish (id : JobId)
  /-- Between the two trees of `JobStore::insert`. -/
  | index (job : Job) (next : Process)
  | done

/-- Who writes a record. -/
inductive Writer
  | submission
  | replication
  | start
  | conclusion
  | schedulerError
  | forcedTimeout
  | expiry
  | cancellation
deriving DecidableEq

/-- A record written to `jobs`, and the one it was made from. -/
structure RecordWrite where
  writer : Writer
  seen : Option Job
  job : Job
deriving DecidableEq

inductive Effect
  | none
  | writeJob (w : RecordWrite)
  | writeIndex (job : Job)
  | pushSubmitted (job : Job)
  | enqueue (id : JobId)
  | popQueue
  | retain (id : JobId)
  | spawn (id : JobId)
  | finished
  | claim (id : JobId)
  | release (id : JobId)
  | storeBlob (u : UnifiedStore)
  | succeed (id : JobId)
  | writeState (p : ProgramId) (w : StateWrite)

/-- The job system's part of a node. The last five fields are history: submissions whose record was
written and those answered, replicated records, attempts begun, success branches entered. -/
structure JobNode where
  store : JobStore
  pendingQueue : List JobId
  runningCount : Nat
  activeJobs : List JobId
  unified : UnifiedStore
  states : StateStore
  manifests : ByteTree JobManifest
  submitted : List Job
  answered : List Job
  replicated : List Job
  started : List JobId
  succeeded : List JobId

namespace JobNode

def fresh (u : UnifiedStore) (st : StateStore) (ms : ByteTree JobManifest) : JobNode :=
  ⟨.empty, [], 0, [], u, st, ms, [], [], [], [], []⟩

variable (s : JobNode)

def getOrDefaultManifest (p : ProgramId) : JobManifest := (s.manifests[p.bytes.bytes]?).getD .default

def writeJob (w : RecordWrite) : JobNode :=
  { s with
    store := s.store.insertJob w.job
    submitted := if w.writer = .submission then s.submitted ++ [w.job] else s.submitted
    replicated := if w.writer = .replication then s.replicated ++ [w.job] else s.replicated
    started := if w.writer = .start then s.started ++ [w.job.id] else s.started }

def restart : JobNode := { s with pendingQueue := [], runningCount := 0, activeJobs := [] }

end JobNode

namespace Effect

def apply (s : JobNode) : Effect → JobNode
  | .none => s
  | .writeJob w => s.writeJob w
  | .writeIndex job => { s with store := s.store.insertIndex job }
  | .pushSubmitted job =>
    { s with pendingQueue := s.pendingQueue ++ [job.id], answered := s.answered ++ [job] }
  | .enqueue id =>
    { s with pendingQueue := if id ∈ s.pendingQueue then s.pendingQueue else s.pendingQueue ++ [id] }
  | .popQueue => { s with pendingQueue := s.pendingQueue.tail }
  | .retain id => { s with pendingQueue := s.pendingQueue.filter (· ≠ id) }
  | .spawn _ => { s with runningCount := s.runningCount + 1 }
  | .finished => { s with runningCount := s.runningCount - 1 }
  | .claim id => { s with activeJobs := id :: s.activeJobs }
  | .release id => { s with activeJobs := s.activeJobs.filter (· ≠ id) }
  | .storeBlob u => { s with unified := u }
  | .succeed id => { s with succeeded := s.succeeded ++ [id] }
  | .writeState p w => { s with states := s.states.applyWrite p w }

def spawned : Effect → List Process
  | .spawn id => [.claim id]
  | _ => []

end Effect

section Turns

variable (pf : Platform) (cfg : JobSettings) (s : JobNode) (i : Inputs)

def octetStream (salt : Bytes32) : ObjectType := .blob (some "application/octet-stream") salt

def badRequest (message : String) : Process := .answered (.error (400, message))

def internalError (message : String) : Process := .answered (.error (500, message))

def receiveRequest (req : SubmitJobRequest) : Effect × Process :=
  match IdText.parseProgramIdStr cfg.hexError req.programId with
  | .error e => (.none, badRequest ("invalid program_id: " ++ e))
  | .ok program =>
    match req.inputBlobId, req.inputBase64 with
    | some text, _ =>
      match IdText.parseBlobIdStr cfg.hexError text with
      | .error e => (.none, badRequest ("invalid input_blob_id: " ++ e))
      | .ok blob => (.none, .create req program (some blob) none)
    | none, none => (.none, .create req program none none)
    | none, some text =>
      match cfg.decodeBase64 text with
      | .error e => (.none, badRequest ("invalid base64: " ++ e))
      | .ok data =>
        match s.unified.putObject pf data (octetStream i.salt) ⟨.ofByte 32 0⟩ (i.clock 0) with
        | .error e => (.none, internalError e)
        | .ok (u, object) =>
          match i.ingested with
          | .error e => (.storeBlob u, internalError e)
          | .ok () => (.storeBlob u, .create req program (some ⟨object.id.bytes⟩) none)

def createJob (req : SubmitJobRequest) (program : ProgramId) (input : Option BlobId)
    (ttlMs : Option UInt64) : Job :=
  let job := { Job.new pf req.requestId program input (req.maxRetries.getD 3) (i.clock 0) with
    metadata := req.metadata }
  ttlMs.elim job job.withTtl

/-- A write to `jobs`, before the write to `jobs_by_request_id`. -/
def writeThen (writer : Writer) (seen : Option Job) (job : Job) (next : Process) : Effect × Process :=
  (.writeJob ⟨writer, seen, job⟩, .index job next)

def readCancelled (id : JobId) : Process :=
  match s.store.get id with
  | none => .cancelled (.error "job not found")
  | some job => if job.isTerminal then .cancelled (.error "job already in terminal state") else .writeCancel job

def scanEntry (pass : Pass) (cursor : Option Bytes) (found : List Job) : Process :=
  match s.store.entryAfter cursor with
  | some (key, job) => .scan pass (some key) (if job.status = pass.status then found ++ [job] else found)
  | none =>
    let listed := match pass with
      | .timeouts => found
      | .enqueue | .expiry => sortByCreatedAt found
    .visit pass (i.clock 0) listed

def afterPass : Pass → Process
  | .enqueue => .scan .timeouts none []
  | .timeouts => .scan .expiry none []
  | .expiry => .fill

def maxRuntimeMs : UInt64 := 300000

def overdue (now : UInt64) (job : Job) : Bool :=
  job.startedAt.any fun startedAt => maxRuntimeMs < saturatingSub now startedAt

def visitJob (pass : Pass) (now : UInt64) (job : Job) (rest : List Job) : Effect × Process :=
  let next := .visit pass now rest
  match pass with
  | .enqueue =>
    match cfg.isDue now job with
    | none => (.none, .panicked)
    | some true => (.enqueue job.id, next)
    | some false => (.none, next)
  | .timeouts =>
    if overdue now job then
      writeThen .forcedTimeout (some job) (job.forceTimeout now (i.clock 0)) next
    else (.none, next)
  | .expiry =>
    if job.isExpired now then writeThen .expiry (some job) (job.expire now (i.clock 0)) next
    else (.none, next)

def popJob (slots : Nat) : Effect × Process :=
  match slots, s.pendingQueue with
  | 0, _ | _ + 1, [] => (.none, .done)
  | slots + 1, id :: _ => (.popQueue, .spawn slots id)

def claimJob (id : JobId) : Effect × Process :=
  if id ∈ s.activeJobs then (.none, .report id "job already running") else (.claim id, .load id)

def loadJob (id : JobId) : Process :=
  match s.store.get id with
  | none => .release id (some "job not found")
  | some job => if job.status = .pending then .mark job else .release id (some "job not in pending state")

def loadInput (job : Job) : Except String Bytes :=
  match job.inputBlobId with
  | none => .ok []
  | some blob => (s.unified.getObject pf blob.toObjectId).mapError fun _ => "loading input blob"

def prepareJob (job : Job) : Process :=
  let manifest := s.getOrDefaultManifest job.programId
  match manifest.validate with
  | .error e => .release job.id (some e)
  | .ok () =>
    match loadInput pf s job with
    | .error e => .release job.id (some e)
    | .ok input => .execute job manifest input

/-- `execute_with_limits` under its time-out, and the arm of the match it comes to. -/
def awaitEngine (job : Job) (manifest : JobManifest) (input : Bytes) : Effect × Process :=
  let failed error := (.none, .conclude job (job.failExecution (i.clock 0) (i.clock 1) (i.clock 2) error))
  match i.engine with
  | .timedOut =>
    (.none, .conclude job
      (job.timeOutExecution (i.clock 0) (i.clock 1) (i.clock 2) manifest.timeoutMs))
  | .joinError e => failed ("execution task join error: " ++ e)
  | .returned world unified states =>
    match Onvm.execute pf world manifest.maxFuel unified states job.programId input with
    | .error e => failed e
    | .ok outcome =>
      (.succeed job.id, .storeOutput job { job with completedAt := some (i.clock 0) } outcome)

def storeOutputBlob (seen job : Job) (outcome : ExecutionOutcome) : Effect × Process :=
  match s.unified.putObject pf outcome.returnData (octetStream i.salt) ⟨.ofByte 32 0⟩ (i.clock 0) with
  | .error _ => (.none, .release seen.id (some "storing output blob"))
  | .ok (u, object) =>
    (.storeBlob u, .applyWrites seen (job.complete (i.clock 1) ⟨object.id.bytes⟩ outcome.fuelConsumed)
      outcome.stateWrites)

def Process.act : Process → Effect × Process
  | .receive req => receiveRequest pf cfg s i req
  | .create req program input ttlMs => (.none, .insert (createJob pf i req program input ttlMs))
  | .insert job => writeThen .submission none job (.push job)
  | .push job => (.pushSubmitted job, .answered (.ok job.id))
  | .cancel id => (.none, readCancelled s id)
  | .writeCancel seen =>
    writeThen .cancellation (some seen) (seen.cancel (i.clock 1) (i.clock 0)) (.retain seen.id)
  | .retain id => (.retain id, .cancelled (.ok ()))
  | .broadcast d => (.none, if (s.store.get ⟨d.id⟩).isSome then .done else .replicate d)
  | .replicate d => writeThen .replication none d.toJob .done
  | .scan pass cursor found => (.none, scanEntry s i pass cursor found)
  | .visit pass _ [] => (.none, afterPass pass)
  | .visit pass now (job :: rest) => visitJob cfg i pass now job rest
  | .fill => (.none, .pop (cfg.maxConcurrent - s.runningCount))
  | .pop slots => popJob s slots
  | .spawn slots id => (.spawn id, .pop slots)
  | .claim id => claimJob s id
  | .load id => (.none, loadJob s id)
  | .mark seen =>
    let job := seen.start (i.clock 0) (i.clock 1)
    writeThen .start (some seen) job (.prepare job)
  | .prepare job => (.none, prepareJob pf s job)
  | .execute job manifest input => awaitEngine pf i job manifest input
  | .storeOutput seen job outcome => storeOutputBlob pf s i seen job outcome
  | .applyWrites seen job (w :: ws) => (.writeState job.programId w, .applyWrites seen job ws)
  | .applyWrites seen job [] => (.none, .conclude seen job)
  | .conclude seen job => writeThen .conclusion (some seen) job (.release job.id none)
  | .release id error =>
    (.release id, match error with | none => .finish id | some e => .report id e)
  | .report id error =>
    (.none, match s.store.get id with | none => .finish id | some job => .fail job error)
  | .fail seen error =>
    writeThen .schedulerError (some seen) (seen.failSchedule (i.clock 0) error) (.finish seen.id)
  | .finish _ => (.finished, .done)
  | .index job next => (.writeIndex job, next)
  | .answered a => (.none, .answered a)
  | .cancelled a => (.none, .cancelled a)
  | .panicked => (.none, .panicked)
  | .done => (.none, .done)

def Process.turn (p : Process) : Interleaving.Turn JobNode Process :=
  let (e, q) := p.act pf cfg s i
  ⟨e.apply s, q, e.spawned⟩

end Turns

abbrev JobSystem := System JobNode Process

/-- The loop of `start` runs one cycle at a time, and none after a panic. -/
def Process.inCycle : Process → Bool
  | .scan .. | .visit .. | .fill | .pop .. | .spawn .. | .panicked => true
  | .index _ next => next.inCycle
  | _ => false

inductive JobOp
  | tick
  | submit (req : SubmitJobRequest)
  /-- `JobScheduler::submit_job` called within the process, with a job that may have a TTL. -/
  | schedule (req : SubmitJobRequest) (program : ProgramId) (input : Option BlobId) (ttlMs : Option UInt64)
  | cancel (id : JobId)
  | broadcast (d : JobDescriptor)
  | turn (n : Nat) (i : Inputs)
  | restart
  | store (e : StoreEvent)
  | storeManifest (p : ProgramId) (m : JobManifest)

def jobStep (pf : Platform) (cfg : JobSettings) (s : JobSystem) : JobOp → Option JobSystem
  | .tick => if s.processes.any Process.inCycle then none else some (s.spawn (.scan .enqueue none []))
  | .submit req => some (s.spawn (.receive req))
  | .schedule req program input ttlMs => some (s.spawn (.create req program input ttlMs))
  | .cancel id => some (s.spawn (.cancel id))
  | .broadcast d => some (s.spawn (.broadcast d))
  | .turn n i => s.turn (fun sh p i => p.turn pf cfg sh i) n i
  | .restart => some ⟨s.shared.restart, []⟩
  | .store e => some { s with shared := { s.shared with unified := s.shared.unified.handle pf e } }
  | .storeManifest p m =>
    some { s with shared := { s.shared with manifests := s.shared.manifests.insert p.bytes.bytes m } }

end Onvm
