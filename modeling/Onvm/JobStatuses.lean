import Onvm.Machine
import Onvm.JobRecords

/-! Statuses that are over stay as they are while no write is made from a record that
has changed meanwhile, and no job that is over is inserted or reported as an error again. -/

namespace Onvm

open ByteString OrderedStore Interleaving Runs Std

section Sample

def sampleSettings : JobSettings :=
  ⟨10, .exponentialBackoff, 5000, true, fun _ => "hex", fun _ => .ok [1]⟩

def sampleJobs : JobSystem := .fresh sampleStore .empty ∅

def sampleRequest (requestId : String) : SubmitJobRequest :=
  ⟨requestId, sampleProgram.toText, none, none, none, []⟩

def sampleJobId (requestId : String) (now : UInt64) : JobId :=
  JobId.new sampleRuntime requestId sampleProgram now

def sampleInputs (now : UInt64) : Inputs :=
  ⟨fun _ => now, .ofByte 32 0, .returned 0 sampleStore .empty, .ok ()⟩

def jobTurns (n count : Nat) (now : UInt64) : List JobOp := List.replicate count (.turn n (sampleInputs now))

def JobNode.statusOf (s : JobNode) (id : JobId) : Option JobStatus := (s.store.get id).map (·.status)

end Sample

def Job.finished (j : Job) : Bool :=
  j.status = .completed || j.status = .cancelled || j.status = .expired

theorem Job.isTerminal_of_finished {j : Job} (h : j.finished) : j.isTerminal := by
  simp only [finished, Bool.or_eq_true, decide_eq_true_eq] at h
  rcases h with (h | h) | h <;> simp [isTerminal, canRetry, h]

/-- The write finds the record it was made from. An insertion replaces nothing that is over, and an
error is not reported of a job that is over. -/
def RecordWrite.Clean (s : JobNode) (w : RecordWrite) : Prop :=
  (w.writer ≠ .submission → s.store.get w.job.id = w.seen) ∧
    (w.writer = .submission ∨ w.writer = .schedulerError → ∀ j ∈ s.store.get w.job.id, ¬ j.finished)

instance (s : JobNode) (w : RecordWrite) : Decidable (w.Clean s) :=
  inferInstanceAs (Decidable (_ ∧ _))

theorem RecordWrite.Clean.not_finished {s : JobNode} {w : RecordWrite} (hc : w.Clean s) (hw : w.Sound)
    {j : Job} (hj : s.store.get w.job.id = some j) : ¬ j.finished := by
  obtain ⟨writer, seen, job⟩ := w
  have hseen : writer ≠ .submission → seen = some j := fun h => (hc.1 h).symm.trans hj
  intro hf
  have hterm : j.isTerminal := j.isTerminal_of_finished hf
  have hstatus := Job.status_of_isTerminal hterm
  cases writer with
  | submission => exact hc.2 (.inl rfl) j hj hf
  | schedulerError => exact hc.2 (.inr rfl) j hj hf
  | replication =>
    cases hseen (by simp)
    exact hw
  | start =>
    cases hseen (by simp)
    exact hstatus.1 hw.1
  | conclusion =>
    cases hseen (by simp)
    exact hstatus.2 hw.1
  | forcedTimeout =>
    cases hseen (by simp)
    exact hstatus.2 hw.1
  | expiry =>
    cases hseen (by simp)
    exact hstatus.1 hw.1
  | cancellation =>
    cases hseen (by simp)
    exact hw.1 hterm

/-- A record that is over stays, in every run in which all writes are clean. -/
theorem finished_jobs_stay {pf : Platform} {cfg : JobSettings} {u : UnifiedStore} {st : StateStore}
    {ms : ByteTree JobManifest} {front back : List JobOp} {s t : JobSystem} {id : JobId} {j : Job}
    (hs : run (jobStep pf cfg) (.fresh u st ms) front = some s)
    (ht : run (jobStep pf cfg) s back = some t)
    (hclean : Along (jobStep pf cfg) (fun s op => ∀ w ∈ op.write? pf cfg s, w.Clean s.shared) s back)
    (hj : s.shared.store.get id = some j) (hf : j.finished) : t.shared.store.get id = some j := by
  have hrec := recordKeeping_run (recordKeeping_fresh u st ms) hs
  refine (invariant_run (P := fun s op => ∀ w ∈ op.write? pf cfg s, w.Clean s.shared)
    (I := fun s => (recordKeeping pf).Holds s ∧ s.shared.store.get id = some j) ?_ ⟨hrec, hj⟩
    hclean ht).2
  rintro s op t ⟨hs, hj⟩ hclean hstep
  refine ⟨recordKeeping_step hs hstep, ?_⟩
  rcases get_jobStep hstep id with hsame | ⟨w, hw, rfl, -⟩
  · rw [hsame, hj]
  · have hsound := sound_of_write? hs hw
    exact absurd hf ((hclean w hw).not_finished hsound hj)

section Sample

def cancelledFirst : List JobOp :=
  [.submit (sampleRequest "a")] ++ jobTurns 0 5 0 ++ [.cancel (sampleJobId "a" 0)] ++ jobTurns 1 4 1

def completedNext : List JobOp :=
  [.submit (sampleRequest "b")] ++ jobTurns 2 5 2 ++ [.tick] ++ jobTurns 3 20 3 ++ jobTurns 4 12 4

theorem finished_jobs_stay_sample :
    ∃ s t j, run (jobStep sampleRuntime sampleSettings) sampleJobs cancelledFirst = some s ∧
      run (jobStep sampleRuntime sampleSettings) s completedNext = some t ∧
      s.shared.store.get (sampleJobId "a" 0) = some j ∧ j.status = .cancelled ∧
      t.shared.store.get (sampleJobId "a" 0) = some j ∧
      t.shared.statusOf (sampleJobId "b" 2) = some .completed := by
  obtain ⟨s, hs, hfront⟩ := exists_of_any
    (o := run (jobStep sampleRuntime sampleSettings) sampleJobs cancelledFirst)
    (Q := fun s => (s.shared.store.get (sampleJobId "a" 0)).any (fun j => j.status = .cancelled) = true ∧
      Along (jobStep sampleRuntime sampleSettings)
        (fun s op => ∀ w ∈ op.write? sampleRuntime sampleSettings s, w.Clean s.shared) s completedNext ∧
      ((run (jobStep sampleRuntime sampleSettings) s completedNext).any fun t =>
        decide (t.shared.statusOf (sampleJobId "b" 2) = some .completed)) = true)
    (by decide +kernel)
  obtain ⟨hstatus, hclean, hback⟩ := hfront
  obtain ⟨j, hj, hcancelled⟩ := (Option.any_eq_true _ _).mp hstatus
  obtain ⟨t, ht, hb⟩ := exists_of_any hback
  have hcancelled : j.status = .cancelled := of_decide_eq_true hcancelled
  exact ⟨s, t, j, hs, ht, hj, hcancelled,
    finished_jobs_stay hs ht hclean hj (by simp [Job.finished, hcancelled]), hb⟩

def completedOnce : List JobOp :=
  [.submit (sampleRequest "a")] ++ jobTurns 0 4 0 ++ [.tick] ++ jobTurns 1 15 1 ++ jobTurns 2 12 2

def takenUpAgain : List JobOp := jobTurns 0 1 3 ++ [.tick] ++ jobTurns 3 13 4 ++ jobTurns 4 6 5

/-- A job that was completed fails: the task for its second queue entry reports that the job is not
pending, and the scheduler writes that down as a failure. -/
theorem completed_job_fails :
    ∃ s t, run (jobStep sampleRuntime sampleSettings) sampleJobs completedOnce = some s ∧
      run (jobStep sampleRuntime sampleSettings) s takenUpAgain = some t ∧
      s.shared.statusOf (sampleJobId "a" 0) = some .completed ∧
      t.shared.statusOf (sampleJobId "a" 0) = some .failed := by
  obtain ⟨s, hs, hstatus, hback⟩ := exists_of_any
    (o := run (jobStep sampleRuntime sampleSettings) sampleJobs completedOnce)
    (Q := fun s => s.shared.statusOf (sampleJobId "a" 0) = some .completed ∧
      ((run (jobStep sampleRuntime sampleSettings) s takenUpAgain).any fun t =>
        decide (t.shared.statusOf (sampleJobId "a" 0) = some .failed)) = true)
    (by decide +kernel)
  obtain ⟨t, ht, hfailed⟩ := exists_of_any hback
  exact ⟨s, t, hs, ht, hstatus, hfailed⟩

end Sample

end Onvm
