import Onvm.JobMachine

/-! What a turn of the job system can be, said once, and what holds of every record a
process carries. -/

namespace Onvm

open ByteString OrderedStore Interleaving Std

/-- The turns a process can take, by what it does and where it is after it. -/
inductive Process.Moves (pf : Platform) (s : JobNode) : Process → Effect → Process → Prop
  | refused {req e a} (he : e = .none ∨ ∃ u, e = .storeBlob u) :
    Moves pf s (.receive req) e (.answered (.error a))
  | received {req program input e} (he : e = .none ∨ ∃ u, e = .storeBlob u) :
    Moves pf s (.receive req) e (.create req program input none)
  | created {req program input ttlMs job} (hs : job.status = .pending) (hr : job.retryCount = 0)
      (hid : job.id = JobId.new pf job.requestId job.programId job.createdAt) :
    Moves pf s (.create req program input ttlMs) .none (.insert job)
  | inserted {job} :
    Moves pf s (.insert job) (.writeJob ⟨.submission, none, job⟩) (.index job (.push job))
  | pushed {job} : Moves pf s (.push job) (.pushSubmitted job) (.answered (.ok job.id))
  | notCancelled {id e} : Moves pf s (.cancel id) .none (.cancelled (.error e))
  | readCancelled {id job} (hget : s.store.get id = some job) (hterm : ¬ job.isTerminal) :
    Moves pf s (.cancel id) .none (.writeCancel job)
  | cancelled {seen job} (hs : job.status = .cancelled) (hrev : job.Revises seen) :
    Moves pf s (.writeCancel seen) (.writeJob ⟨.cancellation, some seen, job⟩) (.index job (.retain seen.id))
  | retained {id} : Moves pf s (.retain id) (.retain id) (.cancelled (.ok ()))
  | known {d} : Moves pf s (.broadcast d) .none .done
  | unknown {d} (hget : s.store.get ⟨d.id⟩ = none) : Moves pf s (.broadcast d) .none (.replicate d)
  | replicated {d} :
    Moves pf s (.replicate d) (.writeJob ⟨.replication, none, d.toJob⟩) (.index d.toJob .done)
  | scanned {pass cursor cursor' found found'}
      (h : ∀ j ∈ found', j ∈ found ∨ s.store.get j.id = some j ∧ j.status = pass.status) :
    Moves pf s (.scan pass cursor found) .none (.scan pass cursor' found')
  | listed {pass cursor found now jobs} (h : ∀ j ∈ jobs, j ∈ found) :
    Moves pf s (.scan pass cursor found) .none (.visit pass now jobs)
  | passed {pass now} : Moves pf s (.visit pass now []) .none (afterPass pass)
  | overflowed {now job rest} : Moves pf s (.visit .enqueue now (job :: rest)) .none .panicked
  | queued {now job rest} :
    Moves pf s (.visit .enqueue now (job :: rest)) (.enqueue job.id) (.visit .enqueue now rest)
  | skipped {pass now job rest} :
    Moves pf s (.visit pass now (job :: rest)) .none (.visit pass now rest)
  | forced {now job job' rest} (hs : job'.status = .timedOut) (hrev : job'.Revises job) :
    Moves pf s (.visit .timeouts now (job :: rest)) (.writeJob ⟨.forcedTimeout, some job, job'⟩)
      (.index job' (.visit .timeouts now rest))
  | expired {now job job' rest} (hs : job'.status = .expired) (hrev : job'.Revises job) :
    Moves pf s (.visit .expiry now (job :: rest)) (.writeJob ⟨.expiry, some job, job'⟩)
      (.index job' (.visit .expiry now rest))
  | filled {slots} : Moves pf s .fill .none (.pop slots)
  | idle {slots} : Moves pf s (.pop slots) .none .done
  | popped {slots id} : Moves pf s (.pop (slots + 1)) .popQueue (.spawn slots id)
  | spawned {slots id} : Moves pf s (.spawn slots id) (.spawn id) (.pop slots)
  | busy {id e} : Moves pf s (.claim id) .none (.report id e)
  | claimed {id} (h : id ∉ s.activeJobs) : Moves pf s (.claim id) (.claim id) (.load id)
  | unloaded {id e} : Moves pf s (.load id) .none (.release id (some e))
  | loaded {id job} (hget : s.store.get id = some job) (hs : job.status = .pending) :
    Moves pf s (.load id) .none (.mark job)
  | marked {seen job} (hs : job.status = .running) (hrev : job.Revises seen) :
    Moves pf s (.mark seen) (.writeJob ⟨.start, some seen, job⟩) (.index job (.prepare job))
  | unprepared {job e} : Moves pf s (.prepare job) .none (.release job.id (some e))
  | prepared {job manifest input} : Moves pf s (.prepare job) .none (.execute job manifest input)
  | ended {seen manifest input job} (h : job.Retries seen ∨ job.Revises seen ∧ job.isTerminal) :
    Moves pf s (.execute seen manifest input) .none (.conclude seen job)
  | succeeded {seen manifest input job outcome} (hrev : job.Revises seen) :
    Moves pf s (.execute seen manifest input) (.succeed seen.id) (.storeOutput seen job outcome)
  | unstored {seen job outcome e} :
    Moves pf s (.storeOutput seen job outcome) .none (.release seen.id (some e))
  | stored {seen job job' outcome u writes} (hrev : job'.Revises job) (ht : job'.isTerminal) :
    Moves pf s (.storeOutput seen job outcome) (.storeBlob u) (.applyWrites seen job' writes)
  | wrote {seen job p w ws} :
    Moves pf s (.applyWrites seen job (w :: ws)) (.writeState p w) (.applyWrites seen job ws)
  | applied {seen job} : Moves pf s (.applyWrites seen job []) .none (.conclude seen job)
  | concluded {seen job} :
    Moves pf s (.conclude seen job) (.writeJob ⟨.conclusion, some seen, job⟩)
      (.index job (.release job.id none))
  | released {id} : Moves pf s (.release id none) (.release id) (.finish id)
  | abandoned {id e} : Moves pf s (.release id (some e)) (.release id) (.report id e)
  | unreported {id e} (hget : s.store.get id = none) : Moves pf s (.report id e) .none (.finish id)
  | reported {id e job} (hget : s.store.get id = some job) : Moves pf s (.report id e) .none (.fail job e)
  | failed {seen e job} (hs : job.status = .failed) (hrev : job.Revises seen) :
    Moves pf s (.fail seen e) (.writeJob ⟨.schedulerError, some seen, job⟩) (.index job (.finish seen.id))
  | finished {id} : Moves pf s (.finish id) .finished .done
  | indexed {job next} : Moves pf s (.index job next) (.writeIndex job) next
  | answered {a} : Moves pf s (.answered a) .none (.answered a)
  | ceased {a} : Moves pf s (.cancelled a) .none (.cancelled a)
  | panicked : Moves pf s .panicked .none .panicked
  | done : Moves pf s .done .none .done

namespace Process

section Inversion

variable (pf : Platform) (cfg : JobSettings) (s : JobNode) (i : Inputs)

theorem moves_receive (req : SubmitJobRequest) :
    Moves pf s (.receive req) (receiveRequest pf cfg s i req).1 (receiveRequest pf cfg s i req).2 := by
  unfold receiveRequest
  cases IdText.parseProgramIdStr cfg.hexError req.programId with
  | error e => exact .refused (.inl rfl)
  | ok program =>
    cases req.inputBlobId with
    | some text =>
      cases hb : IdText.parseBlobIdStr cfg.hexError text with
      | error e => simpa only [hb] using .refused (.inl rfl)
      | ok blob => simpa only [hb] using .received (.inl rfl)
    | none =>
      cases req.inputBase64 with
      | none => exact .received (.inl rfl)
      | some text =>
        cases hd : cfg.decodeBase64 text with
        | error e => simpa only [hd] using .refused (.inl rfl)
        | ok data =>
          cases hp : s.unified.putObject pf data (octetStream i.salt) ⟨.ofByte 32 0⟩ (i.clock 0) with
          | error e => simpa only [hd, hp] using .refused (.inl rfl)
          | ok r =>
            cases hi : i.ingested with
            | error e => simpa only [hd, hp, hi] using .refused (.inr ⟨r.1, rfl⟩)
            | ok u => simpa only [hd, hp, hi] using .received (.inr ⟨r.1, rfl⟩)

theorem moves_cancel (id : JobId) : Moves pf s (.cancel id) .none (readCancelled s id) := by
  unfold readCancelled
  cases hget : s.store.get id with
  | none => exact .notCancelled
  | some job =>
    by_cases ht : job.isTerminal = true
    · simpa only [ht, if_true] using .notCancelled
    · simpa only [ht, if_false] using .readCancelled hget ht

theorem moves_scan (pass : Pass) (cursor : Option Bytes) (found : List Job) :
    Moves pf s (.scan pass cursor found) .none (scanEntry s i pass cursor found) := by
  unfold scanEntry
  cases he : s.store.entryAfter cursor with
  | some e =>
    refine .scanned fun j hj => ?_
    by_cases hs : e.2.status = pass.status
    · simp only [hs, if_true, List.mem_append, List.mem_singleton] at hj
      rcases hj with hj | rfl
      · exact .inl hj
      · exact .inr ⟨JobStore.get_of_entryAfter he, hs⟩
    · simp only [hs, if_false] at hj
      exact .inl hj
  | none =>
    refine .listed fun j hj => ?_
    cases pass with
    | timeouts => exact hj
    | enqueue => exact mem_sortByCreatedAt.mp hj
    | expiry => exact mem_sortByCreatedAt.mp hj

theorem moves_visit (pass : Pass) (now : UInt64) (job : Job) (rest : List Job) :
    Moves pf s (.visit pass now (job :: rest)) (visitJob cfg i pass now job rest).1
      (visitJob cfg i pass now job rest).2 := by
  unfold visitJob
  cases pass with
  | enqueue =>
    cases hd : cfg.isDue now job with
    | none => simpa only [hd] using .overflowed
    | some due =>
      cases due with
      | true => simpa only [hd] using .queued
      | false => simpa only [hd] using .skipped
  | timeouts =>
    by_cases ho : overdue now job = true
    · simpa only [ho, if_true] using .forced rfl (job.forceTimeout_revises now (i.clock 0))
    · simpa only [ho, if_false] using .skipped
  | expiry =>
    by_cases ho : job.isExpired now = true
    · simpa only [ho, if_true] using .expired rfl (job.expire_revises now (i.clock 0))
    · simpa only [ho, if_false] using .skipped

theorem moves_pop (slots : Nat) : Moves pf s (.pop slots) (popJob s slots).1 (popJob s slots).2 := by
  cases slots with
  | zero => exact .idle
  | succ slots =>
    cases hq : s.pendingQueue with
    | nil => simpa only [popJob, hq] using .idle
    | cons id rest => simpa only [popJob, hq] using .popped

theorem moves_claim (id : JobId) : Moves pf s (.claim id) (claimJob s id).1 (claimJob s id).2 := by
  unfold claimJob
  by_cases h : id ∈ s.activeJobs
  · simpa only [h, if_true] using .busy
  · simpa only [h, if_false] using .claimed h

theorem moves_load (id : JobId) : Moves pf s (.load id) .none (loadJob s id) := by
  unfold loadJob
  cases hget : s.store.get id with
  | none => exact .unloaded
  | some job =>
    by_cases hs : job.status = .pending
    · simpa only [hs, if_true] using .loaded hget hs
    · simpa only [hs, if_false] using .unloaded

theorem moves_prepare (job : Job) : Moves pf s (.prepare job) .none (prepareJob pf s job) := by
  unfold prepareJob
  cases hv : (s.getOrDefaultManifest job.programId).validate with
  | error e => simpa only [hv] using .unprepared
  | ok u =>
    cases hl : loadInput pf s job with
    | error e => simpa only [hv, hl] using .unprepared
    | ok input => simpa only [hv, hl] using .prepared

theorem moves_execute (job : Job) (manifest : JobManifest) (input : Bytes) :
    Moves pf s (.execute job manifest input) (awaitEngine pf i job manifest input).1
      (awaitEngine pf i job manifest input).2 := by
  unfold awaitEngine
  cases i.engine with
  | timedOut => exact .ended (job.timeOutExecution_cases _ _ _ _)
  | joinError e => exact .ended (job.failExecution_cases _ _ _ _)
  | returned world unified states =>
    cases he : Onvm.execute pf world manifest.maxFuel unified states job.programId input with
    | error e => simpa only [he] using .ended (job.failExecution_cases _ _ _ _)
    | ok outcome => simpa only [he] using .succeeded ⟨rfl, rfl⟩

theorem moves_storeOutput (seen job : Job) (outcome : ExecutionOutcome) :
    Moves pf s (.storeOutput seen job outcome) (storeOutputBlob pf s i seen job outcome).1
      (storeOutputBlob pf s i seen job outcome).2 := by
  unfold storeOutputBlob
  cases hp : s.unified.putObject pf outcome.returnData (octetStream i.salt) ⟨.ofByte 32 0⟩ (i.clock 0) with
  | error e => simpa only [hp] using .unstored
  | ok r =>
    simpa only [hp] using .stored (job.complete_revises _ _ _) (job.isTerminal_complete _ _ _)

theorem moves_act (p : Process) : Moves pf s p (p.act pf cfg s i).1 (p.act pf cfg s i).2 := by
  cases p with
  | receive req => exact moves_receive pf cfg s i req
  | create req program input ttlMs => cases ttlMs <;> exact .created rfl rfl rfl
  | insert job => exact .inserted
  | push job => exact .pushed
  | answered a => exact .answered
  | cancel id => exact moves_cancel pf s id
  | writeCancel seen => exact .cancelled rfl (seen.cancel_revises _ _)
  | retain id => exact .retained
  | cancelled a => exact .ceased
  | broadcast d =>
    cases hget : s.store.get ⟨d.id⟩ with
    | none => simpa only [act, hget] using .unknown hget
    | some job => simpa only [act, hget] using .known
  | replicate d => exact .replicated
  | scan pass cursor found => exact moves_scan pf s i pass cursor found
  | visit pass now jobs =>
    cases jobs with
    | nil => exact .passed
    | cons job rest => exact moves_visit pf cfg s i pass now job rest
  | fill => exact .filled
  | pop slots => exact moves_pop pf s slots
  | spawn slots id => exact .spawned
  | panicked => exact .panicked
  | claim id => exact moves_claim pf s id
  | load id => exact moves_load pf s id
  | mark seen => exact .marked rfl (seen.start_revises _ _)
  | prepare job => exact moves_prepare pf s job
  | execute job manifest input => exact moves_execute pf s i job manifest input
  | storeOutput seen job outcome => exact moves_storeOutput pf s i seen job outcome
  | applyWrites seen job writes =>
    cases writes with
    | nil => exact .applied
    | cons w ws => exact .wrote
  | conclude seen job => exact .concluded
  | release id error =>
    cases error with
    | none => exact .released
    | some e => exact .abandoned
  | report id error =>
    cases hget : s.store.get id with
    | none => simpa only [act, hget] using .unreported hget
    | some job => simpa only [act, hget] using .reported hget
  | fail seen error => exact .failed rfl (seen.failSchedule_revises _ _)
  | finish id => exact .finished
  | index job next => exact .indexed
  | done => exact .done

end Inversion

end Process

def JobOp.spawned : JobOp → Option Process
  | .tick => some (.scan .enqueue none [])
  | .submit req => some (.receive req)
  | .schedule req program input ttlMs => some (.create req program input ttlMs)
  | .cancel id => some (.cancel id)
  | .broadcast d => some (.broadcast d)
  | _ => none

/-- The steps of the job system. Objects and manifests come from outside. -/
inductive JobStep (pf : Platform) (cfg : JobSettings) (s : JobSystem) : JobOp → JobSystem → Prop
  | spawn {op : JobOp} {p : Process} (hp : op.spawned = some p) : JobStep pf cfg s op (s.spawn p)
  | turn {n : Nat} {i : Inputs} {p : Process} {t : JobSystem} (hp : s.processes[n]? = some p)
    (ht : s.turn (fun sh p i => p.turn pf cfg sh i) n i = some t) : JobStep pf cfg s (.turn n i) t
  | restart : JobStep pf cfg s .restart ⟨s.shared.restart, []⟩
  | outside {op : JobOp} {u : UnifiedStore} {ms : ByteTree JobManifest} (hop : ∀ n i, op ≠ .turn n i) :
    JobStep pf cfg s op { s with shared := { s.shared with unified := u, manifests := ms } }

theorem jobStep_inv {pf : Platform} {cfg : JobSettings} {s t : JobSystem} {op : JobOp}
    (h : jobStep pf cfg s op = some t) : JobStep pf cfg s op t := by
  cases op with
  | tick =>
    simp only [jobStep] at h
    split at h
    · cases h
    · cases h
      exact .spawn rfl
  | submit req => cases h; exact .spawn rfl
  | schedule req program input ttlMs => cases h; exact .spawn rfl
  | cancel id => cases h; exact .spawn rfl
  | broadcast d => cases h; exact .spawn rfl
  | turn n i =>
    have hturn : s.turn (fun sh p i => p.turn pf cfg sh i) n i = some t := h
    obtain ⟨p, hp, -⟩ := System.turn_eq_some hturn
    exact .turn hp hturn
  | restart => cases h; exact .restart
  | store e => cases h; exact .outside fun _ _ he => by cases he
  | storeManifest p m => cases h; exact .outside fun _ _ he => by cases he

end Onvm
