import Onvm.HostApis

/-! The records of `job.rs`, the changes the job system makes to them, the job store,
job manifests, and the two requests that bring jobs in: submissions over RPC and
broadcasts of peers. -/

namespace Onvm

open ByteString OrderedStore Std

structure JobId where
  bytes : Bytes32
deriving DecidableEq

def JobId.new (pf : Platform) (requestId : String) (programId : ProgramId) (nonce : UInt64) : JobId :=
  ⟨pf.hashBytes (requestId.toUTF8.data.toList ++ programId.bytes.bytes ++ littleEndian 8 nonce.toNat)⟩

inductive JobStatus
  | pending
  | running
  | completed
  | failed
  | cancelled
  | timedOut
  | expired
deriving DecidableEq

inductive FailureReason
  | executionError
  | timeout
  | outOfMemory
  | outOfFuel
  | invalidProgram
  | missingDependency
  | networkError
  | insufficientResources
  | schedulerError
  | unknown
deriving DecidableEq

inductive LogLevel
  | debug
  | info
  | warn
  | error
deriving DecidableEq

structure LogEntry where
  timestamp : UInt64
  level : LogLevel
  message : String
deriving DecidableEq

structure Job where
  id : JobId
  requestId : String
  programId : ProgramId
  status : JobStatus
  inputBlobId : Option BlobId
  outputBlobId : Option BlobId
  errorMessage : Option String
  fuelConsumed : UInt64
  createdAt : UInt64
  startedAt : Option UInt64
  completedAt : Option UInt64
  retryCount : UInt32
  maxRetries : UInt32
  ttlMs : Option UInt64
  failureReason : Option FailureReason
  metadata : List (String × String)
  logs : List LogEntry
deriving DecidableEq

def saturatingSub (a b : UInt64) : UInt64 := if a ≤ b then 0 else a - b

namespace Job

def new (pf : Platform) (requestId : String) (programId : ProgramId) (inputBlobId : Option BlobId)
    (maxRetries : UInt32) (now : UInt64) : Job where
  id := JobId.new pf requestId programId now
  requestId := requestId
  programId := programId
  status := .pending
  inputBlobId := inputBlobId
  outputBlobId := none
  errorMessage := none
  fuelConsumed := 0
  createdAt := now
  startedAt := none
  completedAt := none
  retryCount := 0
  maxRetries := maxRetries
  ttlMs := none
  failureReason := none
  metadata := []
  logs := []

variable (j : Job)

def withTtl (ttlMs : UInt64) : Job := { j with ttlMs := some ttlMs }

def isExpired (nowMs : UInt64) : Bool :=
  match j.ttlMs with
  | some ttl => ttl < saturatingSub nowMs j.createdAt
  | none => false

def canRetry : Bool := (j.status = .failed || j.status = .timedOut) && j.retryCount < j.maxRetries

def isTerminal : Bool :=
  match j.status with
  | .completed | .cancelled | .failed | .timedOut | .expired => !j.canRetry
  | .pending | .running => false

def addLog (timestamp : UInt64) (level : LogLevel) (message : String) : Job :=
  { j with logs := j.logs ++ [⟨timestamp, level, message⟩] }

def setFailure (timestamp : UInt64) (reason : FailureReason) (message : String) : Job :=
  { j with
    status := .failed
    failureReason := some reason
    errorMessage := some message }.addLog timestamp .error message

end Job

def toLowercase (c : Char) : Char := if c.toNat = 0x212A then 'k' else c.toLower

def textContains (text word : String) : Bool := word.toList <:+: text.toList.map toLowercase

def classifyError (error : String) : FailureReason :=
  if textContains error "out of fuel" || textContains error "fuel" then .outOfFuel
  else if textContains error "out of memory" || textContains error "memory" then .outOfMemory
  else if textContains error "not found" || textContains error "missing" then .missingDependency
  else if textContains error "invalid" || textContains error "malformed" then .invalidProgram
  else if textContains error "network" || textContains error "connection" then .networkError
  else .executionError

namespace Job

variable (j : Job)

def start (now logged : UInt64) : Job :=
  { j with status := .running, startedAt := some now }.addLog logged .info "Job execution started"

/-- The end of both failure arms of `execute_job_inner`. -/
def retryOrKeep (logged : UInt64) : Job :=
  if j.canRetry then
    { j with retryCount := j.retryCount + 1, status := .pending }.addLog logged .info
      ("Retrying job (attempt " ++ toString (j.retryCount + 1) ++ "/" ++ toString j.maxRetries ++ ")")
  else j

def failExecution (now logged retried : UInt64) (error : String) : Job :=
  ({ j with completedAt := some now }.setFailure logged (classifyError error)
    ("Execution failed: " ++ error)).retryOrKeep retried

def timeOutExecution (now logged retried timeoutMs : UInt64) : Job :=
  ({ j with
    completedAt := some now
    status := .timedOut
    failureReason := some .timeout
    errorMessage := some ("Execution timed out after " ++ toString timeoutMs ++ "ms") }.addLog
      logged .error "Execution timed out").retryOrKeep retried

def complete (logged : UInt64) (output : BlobId) (fuelConsumed : UInt64) : Job :=
  { j with outputBlobId := some output, fuelConsumed := fuelConsumed, status := .completed }.addLog
    logged .info ("Job completed successfully. Fuel: " ++ toString fuelConsumed)

def failSchedule (logged : UInt64) (error : String) : Job :=
  j.setFailure logged .schedulerError ("Scheduler error: " ++ error)

def forceTimeout (now logged : UInt64) : Job :=
  { j with
    status := .timedOut
    completedAt := some now
    failureReason := some .timeout
    errorMessage := some "Job exceeded maximum runtime" }.addLog
      logged .error "Job force-timed out by scheduler"

def expire (now logged : UInt64) : Job :=
  { j with
    status := .expired
    completedAt := some now
    failureReason := some .timeout
    errorMessage := some ("Job expired (TTL: " ++ toString (j.ttlMs.getD 0) ++ "ms)") }.addLog
      logged .warn "Job expired before execution"

def cancel (now logged : UInt64) : Job :=
  let j' := { j with status := .cancelled }.addLog logged .info "Job cancelled by user"
  { j' with completedAt := some (j'.completedAt.getD now) }

end Job

section Store

/-- The trees `jobs` and `jobs_by_request_id`. -/
structure JobStore where
  jobs : Keyed fun j : Job => j.id.bytes.bytes
  byRequestId : ByteTree JobId

namespace JobStore

def empty : JobStore := ⟨.empty, ∅⟩

variable (st : JobStore)

/-- The first half of `insert`. -/
def insertJob (job : Job) : JobStore := { st with jobs := st.jobs.put job }

/-- The second half of `insert`. -/
def insertIndex (job : Job) : JobStore :=
  { st with byRequestId := st.byRequestId.insert job.requestId.toUTF8.data.toList job.id }

def get (id : JobId) : Option Job := st.jobs.get id.bytes.bytes

def getByRequestId (requestId : String) : Option Job :=
  (st.byRequestId[requestId.toUTF8.data.toList]?).bind st.get

/-- The entry an iterator over `jobs` comes to after `cursor`. -/
def entryAfter (cursor : Option Bytes) : Option (Bytes × Job) :=
  st.jobs.tree.toList.find? fun e => cursor.all fun c => compare c e.1 = .lt

end JobStore

/-- The stable sort at the end of `list_pending`. -/
def sortByCreatedAt (jobs : List Job) : List Job :=
  jobs.insertionSort fun a b => a.createdAt ≤ b.createdAt

end Store

section Manifests

/-- The fields of a job manifest that `validate` and the executor read. -/
structure JobManifest where
  name : String
  version : String
  maxFuel : UInt64
  maxMemoryBytes : UInt64
  timeoutMs : UInt64
deriving DecidableEq

def JobManifest.default : JobManifest := ⟨"default", "1.0.0", 50000000, 64 * 1024 * 1024, 30000⟩

def JobManifest.validate (m : JobManifest) : Except String Unit :=
  if m.name.isEmpty then .error "manifest name cannot be empty"
  else if m.version.isEmpty then .error "manifest version cannot be empty"
  else if m.maxFuel = 0 then .error "max_fuel must be > 0"
  else if m.maxMemoryBytes < 1024 * 1024 then .error "max_memory_bytes must be >= 1 MiB"
  else if m.timeoutMs = 0 then .error "timeout_ms must be > 0"
  else .ok ()

end Manifests

section Requests

structure SubmitJobRequest where
  requestId : String
  programId : String
  inputBase64 : Option String
  inputBlobId : Option String
  maxRetries : Option UInt32
  metadata : List (String × String)

/-- The descriptor a peer sends. Its enumerations are copies of the job's own, matched name by name. -/
structure JobDescriptor where
  id : Bytes32
  requestId : String
  programId : ProgramId
  inputBlobId : Option BlobId
  outputBlobId : Option BlobId
  status : JobStatus
  fuelConsumed : UInt64
  createdAt : UInt64
  startedAt : Option UInt64
  completedAt : Option UInt64
  errorMessage : Option String
  failureReason : Option FailureReason
  metadata : List (String × String)
deriving DecidableEq

/-- The record `handle_job_broadcast` inserts. -/
def JobDescriptor.toJob (d : JobDescriptor) : Job where
  id := ⟨d.id⟩
  requestId := d.requestId
  programId := d.programId
  status := d.status
  inputBlobId := d.inputBlobId
  outputBlobId := d.outputBlobId
  errorMessage := d.errorMessage
  fuelConsumed := d.fuelConsumed
  createdAt := d.createdAt
  startedAt := d.startedAt
  completedAt := d.completedAt
  retryCount := 0
  maxRetries := 3
  ttlMs := none
  failureReason := d.failureReason
  metadata := d.metadata
  logs := []

end Requests

namespace Job

structure Origin where
  id : JobId
  requestId : String
  programId : ProgramId
  createdAt : UInt64
  maxRetries : UInt32
deriving DecidableEq

def origin (j : Job) : Origin := ⟨j.id, j.requestId, j.programId, j.createdAt, j.maxRetries⟩

/-- `j` is `k` after changes that do not count a retry. -/
def Revises (j k : Job) : Prop := j.origin = k.origin ∧ j.retryCount = k.retryCount

/-- `j` is `k` sent back for another attempt. -/
def Retries (j k : Job) : Prop :=
  j.origin = k.origin ∧ k.retryCount < k.maxRetries ∧ j.retryCount = k.retryCount + 1 ∧ j.status = .pending

variable (j : Job)

@[simp] theorem addLog_status (at' : UInt64) (l : LogLevel) (m : String) :
    (j.addLog at' l m).status = j.status := rfl

@[simp] theorem setFailure_status (at' : UInt64) (r : FailureReason) (m : String) :
    (j.setFailure at' r m).status = .failed := rfl

theorem start_revises (now logged : UInt64) : (j.start now logged).Revises j := ⟨rfl, rfl⟩

theorem complete_revises (logged : UInt64) (o : BlobId) (fuel : UInt64) :
    (j.complete logged o fuel).Revises j := ⟨rfl, rfl⟩

theorem failSchedule_revises (logged : UInt64) (e : String) : (j.failSchedule logged e).Revises j :=
  ⟨rfl, rfl⟩

theorem forceTimeout_revises (now logged : UInt64) : (j.forceTimeout now logged).Revises j := ⟨rfl, rfl⟩

theorem expire_revises (now logged : UInt64) : (j.expire now logged).Revises j := ⟨rfl, rfl⟩

theorem cancel_revises (now logged : UInt64) : (j.cancel now logged).Revises j := ⟨rfl, rfl⟩

variable {j}

theorem retryOrKeep_cases (h : j.status = .failed ∨ j.status = .timedOut) (logged : UInt64) :
    (j.retryOrKeep logged).Retries j ∨ j.retryOrKeep logged = j ∧ j.isTerminal := by
  cases hc : j.canRetry with
  | true =>
    refine .inl ⟨?_, ?_, ?_, ?_⟩
    · simp only [retryOrKeep, hc, if_true]
      rfl
    · simp only [canRetry, Bool.and_eq_true, decide_eq_true_eq] at hc
      exact hc.2
    · simp only [retryOrKeep, hc, if_true]
      rfl
    · simp only [retryOrKeep, hc, if_true]
      rfl
  | false =>
    refine .inr ⟨by simp [retryOrKeep, hc], ?_⟩
    rcases h with h | h <;> simp [isTerminal, h, hc]

theorem failExecution_cases (j : Job) (now logged retried : UInt64) (e : String) :
    (j.failExecution now logged retried e).Retries j ∨
      (j.failExecution now logged retried e).Revises j ∧
        (j.failExecution now logged retried e).isTerminal := by
  refine (retryOrKeep_cases (.inl rfl) retried).imp_right ?_
  rintro ⟨he, ht⟩
  rw [failExecution, he]
  exact ⟨⟨rfl, rfl⟩, ht⟩

theorem timeOutExecution_cases (j : Job) (now logged retried ms : UInt64) :
    (j.timeOutExecution now logged retried ms).Retries j ∨
      (j.timeOutExecution now logged retried ms).Revises j ∧
        (j.timeOutExecution now logged retried ms).isTerminal := by
  refine (retryOrKeep_cases (.inr rfl) retried).imp_right ?_
  rintro ⟨he, ht⟩
  rw [timeOutExecution, he]
  exact ⟨⟨rfl, rfl⟩, ht⟩

theorem isTerminal_complete (j : Job) (logged : UInt64) (o : BlobId) (fuel : UInt64) :
    (j.complete logged o fuel).isTerminal := by
  simp [isTerminal, complete, canRetry]

theorem status_of_isTerminal (h : j.isTerminal) : j.status ≠ .pending ∧ j.status ≠ .running := by
  constructor <;> (intro hs; simp [isTerminal, hs] at h)

end Job

namespace JobStore

variable (st : JobStore) (job : Job) (id : JobId)

@[simp] theorem get_empty : empty.get id = none := by simp [get, empty]

theorem get_insertJob : (st.insertJob job).get id = if job.id = id then some job else st.get id := by
  simp only [get, insertJob, Keyed.get_put]
  refine if_congr ⟨fun h => ?_, fun h => by rw [h]⟩ rfl rfl
  cases id with
  | mk b =>
    cases hj : job.id with
    | mk b' =>
      rw [hj] at h
      exact congrArg JobId.mk (Subtype.ext h)

@[simp] theorem get_insertJob_self : (st.insertJob job).get job.id = some job := by
  rw [get_insertJob, if_pos rfl]

@[simp] theorem get_insertIndex : (st.insertIndex job).get id = st.get id := rfl

variable {st job id}

theorem id_of_get (h : st.get id = some job) : job.id = id := by
  have hk := st.jobs.key_of_get h
  cases id with
  | mk b =>
    cases hj : job.id with
    | mk b' =>
      rw [hj] at hk
      exact congrArg JobId.mk (Subtype.ext hk)

theorem get_of_entryAfter {cursor : Option Bytes} {k : Bytes} (h : st.entryAfter cursor = some (k, job)) :
    st.get job.id = some job := by
  have hm : (k, job) ∈ st.jobs.tree.toList := List.mem_of_find?_eq_some h
  have hk : st.jobs.tree[k]? = some job := ExtTreeMap.mem_toList_iff_getElem?_eq_some.mp hm
  have hkey := st.jobs.keyed hk
  rw [get, hkey]
  exact hk

end JobStore

theorem mem_sortByCreatedAt {jobs : List Job} {j : Job} : j ∈ sortByCreatedAt jobs ↔ j ∈ jobs :=
  List.mem_insertionSort _

end Onvm
