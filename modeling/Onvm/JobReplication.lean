import Onvm.JobStatuses

/-! Jobs that travel. A descriptor leaves the retry counters behind, and the node that
hears of the job sets them to its own values, so that a failure comes back to life. -/

namespace Onvm

open ByteString OrderedStore Interleaving Runs Std

/-- `From<&Job>`. -/
def JobDescriptor.ofJob (j : Job) : JobDescriptor where
  id := j.id.bytes
  requestId := j.requestId
  programId := j.programId
  inputBlobId := j.inputBlobId
  outputBlobId := j.outputBlobId
  status := j.status
  fuelConsumed := j.fuelConsumed
  createdAt := j.createdAt
  startedAt := j.startedAt
  completedAt := j.completedAt
  errorMessage := j.errorMessage
  failureReason := j.failureReason
  metadata := j.metadata

namespace Job

/-- What `k` is to tell of `j` on another node. -/
structure Tells (k j : Job) : Prop where
  id : k.id = j.id
  requestId : k.requestId = j.requestId
  programId : k.programId = j.programId
  status : k.status = j.status
  outputBlobId : k.outputBlobId = j.outputBlobId
  createdAt : k.createdAt = j.createdAt
  startedAt : k.startedAt = j.startedAt
  completedAt : k.completedAt = j.completedAt
  errorMessage : k.errorMessage = j.errorMessage
  failureReason : k.failureReason = j.failureReason

variable (j : Job)

theorem tells_toJob : (JobDescriptor.ofJob j).toJob.Tells j :=
  ⟨rfl, rfl, rfl, rfl, rfl, rfl, rfl, rfl, rfl, rfl⟩

theorem canRetry_toJob :
    (JobDescriptor.ofJob j).toJob.canRetry = true ↔ j.status = .failed ∨ j.status = .timedOut := by
  have hleft : (JobDescriptor.ofJob j).toJob.retryCount < (JobDescriptor.ofJob j).toJob.maxRetries :=
    of_decide_eq_true rfl
  have hstatus := j.tells_toJob.status
  simp [canRetry, hleft, hstatus]

theorem isTerminal_toJob {j : Job} (h : j.isTerminal) :
    (JobDescriptor.ofJob j).toJob.isTerminal = true ↔ j.status ≠ .failed ∧ j.status ≠ .timedOut := by
  have hretry := j.canRetry_toJob
  have hstatus := j.tells_toJob.status
  obtain ⟨hpending, hrunning⟩ := status_of_isTerminal h
  unfold isTerminal
  rw [hstatus]
  cases hs : j.status with
  | pending => exact absurd hs hpending
  | running => exact absurd hs hrunning
  | _ => simp_all

end Job

section Runs

variable (pf : Platform) (cfg : JobSettings)

theorem jobStep_turn (i : Inputs) {s : JobSystem} {n : Nat} {p q : Process} {e : Effect}
    (hp : s.processes[n]? = some p) (hact : p.act pf cfg s.shared i = (e, q)) :
    ∃ t, jobStep pf cfg s (.turn n i) = some t ∧ t.shared = e.apply s.shared ∧
      t.processes[n]? = some q := by
  have hn : n < s.processes.length := (List.getElem?_eq_some_iff.mp hp).1
  refine ⟨⟨e.apply s.shared, s.processes.set n q ++ e.spawned⟩, ?_, rfl, ?_⟩
  · simp [jobStep, System.turn, hp, Process.turn, hact]
  · simp [List.getElem?_append_left, hn]

theorem handleJobBroadcast_inserts {s : JobSystem} {n : Nat} {d : JobDescriptor} (i i' i'' : Inputs)
    (hp : s.processes[n]? = some (.broadcast d)) (hnew : s.shared.store.get ⟨d.id⟩ = none) :
    ∃ t, run (jobStep pf cfg) s [.turn n i, .turn n i', .turn n i''] = some t ∧
      t.processes[n]? = some .done ∧ t.shared.store.get ⟨d.id⟩ = some d.toJob := by
  have hread : (Process.broadcast d).act pf cfg s.shared i = (.none, .replicate d) := by
    simp [Process.act, hnew]
  obtain ⟨t, ht, -, hreplicate⟩ := jobStep_turn pf cfg i hp hread
  obtain ⟨u, hu, hwritten, hindex⟩ := jobStep_turn pf cfg i' hreplicate rfl
  obtain ⟨v, hv, hindexed, hdone⟩ := jobStep_turn pf cfg i'' hindex rfl
  refine ⟨v, ?_, hdone, ?_⟩
  · simp only [run, ht, hu, hv, Option.bind_some]
  · rw [hindexed, hwritten]
    exact t.shared.store.get_insertJob_self d.toJob

/-- A job that is over on the sender's node tells the same on the receiver's, where it is over too
exactly if it has not failed and not timed out. -/
theorem replicated_job_terminal {s : JobSystem} {n : Nat} {j : Job} (i i' i'' : Inputs) (hj : j.isTerminal)
    (hp : s.processes[n]? = some (.broadcast (.ofJob j))) (hnew : s.shared.store.get j.id = none) :
    ∃ t k, run (jobStep pf cfg) s [.turn n i, .turn n i', .turn n i''] = some t ∧
      t.processes[n]? = some .done ∧ t.shared.store.get j.id = some k ∧ k.Tells j ∧
      (k.isTerminal = true ↔ j.status ≠ .failed ∧ j.status ≠ .timedOut) := by
  obtain ⟨t, ht, hdone, hget⟩ := handleJobBroadcast_inserts pf cfg i i' i'' hp hnew
  exact ⟨t, _, ht, hdone, hget, j.tells_toJob, Job.isTerminal_toJob hj⟩

end Runs

section Sample

def failedForGood : List JobOp :=
  [.submit { sampleRequest "a" with maxRetries := some 0 }] ++ jobTurns 0 5 0 ++ [.tick] ++
    jobTurns 1 15 1 ++ jobTurns 2 5 2 ++
    [.turn 2 { sampleInputs 3 with engine := .joinError "panic" }] ++ jobTurns 2 4 4

/-- A node that is told of `j`. -/
def hearing (j : Job) : JobSystem := sampleJobs.spawn (.broadcast (.ofJob j))

theorem replicated_job_terminal_sample :
    ∃ s j t k, run (jobStep sampleRuntime sampleSettings) sampleJobs completedOnce = some s ∧
      s.shared.store.get (sampleJobId "a" 0) = some j ∧ j.isTerminal ∧
      run (jobStep sampleRuntime sampleSettings) (hearing j) (jobTurns 0 3 5) = some t ∧
      t.shared.store.get j.id = some k ∧ k.Tells j ∧ k.isTerminal := by
  obtain ⟨s, hs, hstored⟩ := exists_of_any
    (o := run (jobStep sampleRuntime sampleSettings) sampleJobs completedOnce)
    (Q := fun s => (s.shared.store.get (sampleJobId "a" 0)).any
      (fun j => decide (j.isTerminal ∧ j.status ≠ .failed ∧ j.status ≠ .timedOut)) = true)
    (by decide +kernel)
  obtain ⟨j, hj, hover⟩ := (Option.any_eq_true _ _).mp hstored
  obtain ⟨hterminal, hstatus⟩ := of_decide_eq_true hover
  have hnew : (hearing j).shared.store.get j.id = none := JobStore.get_empty j.id
  obtain ⟨t, k, ht, -, hk, htells, hiff⟩ := replicated_job_terminal sampleRuntime sampleSettings
    (s := hearing j) (n := 0) (sampleInputs 5) (sampleInputs 5) (sampleInputs 5) hterminal rfl hnew
  exact ⟨s, j, t, k, hs, hj, hterminal, ht, hk, htells, hiff.mpr hstatus⟩

/-- It is over where it failed, and may be retried where it was heard of. -/
theorem failed_job_revived :
    ∃ s j t k, run (jobStep sampleRuntime sampleSettings) sampleJobs failedForGood = some s ∧
      s.shared.store.get (sampleJobId "a" 0) = some j ∧ j.isTerminal ∧ j.status = .failed ∧
      run (jobStep sampleRuntime sampleSettings) (hearing j) (jobTurns 0 3 5) = some t ∧
      t.shared.store.get j.id = some k ∧ k.canRetry ∧ ¬ k.isTerminal := by
  obtain ⟨s, hs, hstored⟩ := exists_of_any
    (o := run (jobStep sampleRuntime sampleSettings) sampleJobs failedForGood)
    (Q := fun s => (s.shared.store.get (sampleJobId "a" 0)).any
      (fun j => decide (j.isTerminal ∧ j.status = .failed)) = true)
    (by decide +kernel)
  obtain ⟨j, hj, hover⟩ := (Option.any_eq_true _ _).mp hstored
  obtain ⟨hterminal, hfailed⟩ := of_decide_eq_true hover
  have hnew : (hearing j).shared.store.get ⟨j.id.bytes⟩ = none := JobStore.get_empty j.id
  obtain ⟨t, ht, -, hk⟩ := handleJobBroadcast_inserts sampleRuntime sampleSettings
    (s := hearing j) (n := 0) (sampleInputs 5) (sampleInputs 5) (sampleInputs 5) rfl hnew
  have hrevived : ¬ (JobDescriptor.ofJob j).toJob.isTerminal = true := fun h =>
    ((Job.isTerminal_toJob hterminal).mp h).1 hfailed
  exact ⟨s, j, t, _, hs, hj, hterminal, hfailed, ht, hk, j.canRetry_toJob.mpr (.inl hfailed), hrevived⟩

end Sample

end Onvm
