import Onvm.JobStatuses

/-! Jobs at rest. A record says that its job is running only while some task still owes
the store another record of it; a record that failed stays without retries left as long
as only the executor's own two arms fail jobs that have some. -/

namespace Onvm

open ByteString OrderedStore Interleaving Runs Std

namespace Process

def task : Process → Option JobId
  | .claim id => some id
  | .load id => some id
  | .mark seen => some seen.id
  | .prepare job => some job.id
  | .execute job _ _ => some job.id
  | .storeOutput seen _ _ => some seen.id
  | .applyWrites seen _ _ => some seen.id
  | .conclude seen _ => some seen.id
  | .release id _ => some id
  | .report id _ => some id
  | .fail seen _ => some seen.id
  | .finish id => some id
  | .index _ next => next.task
  | _ => none

def owes : Process → Option JobId
  | .prepare job => some job.id
  | .execute job _ _ => some job.id
  | .storeOutput seen _ _ => some seen.id
  | .applyWrites seen _ _ => some seen.id
  | .conclude seen _ => some seen.id
  | .release id (some _) => some id
  | .report id _ => some id
  | .fail seen _ => some seen.id
  | .index _ next => next.owes
  | _ => none

theorem task_of_owes {p : Process} {id : JobId} (h : p.owes = some id) : p.task = some id := by
  induction p with
  | release id' error =>
    cases error with
    | none => cases h
    | some e => exact h
  | index job next ih => exact ih h
  | _ => first | exact h | cases h

variable {pf : Platform} {s : JobNode} {p q : Process} {e : Effect} {id : JobId}

theorem owes_of_moves (h : p.Moves pf s e q) (hp : p.Wf pf) (ho : p.owes = some id) :
    q.owes = some id ∨ (∃ w, e = .writeJob w ∧ w.job.id = id) ∨ s.store.get id = none := by
  cases h with
  | concluded =>
    have horigin := hp.2.elim (fun h => h.1) (fun h => h.1.1)
    exact .inr (.inl ⟨_, rfl, (congrArg Job.Origin.id horigin).trans (Option.some.inj ho)⟩)
  | failed hs hrev =>
    exact .inr (.inl ⟨_, rfl, (congrArg Job.Origin.id hrev.1).trans (Option.some.inj ho)⟩)
  | unreported hget => exact .inr (.inr (Option.some.inj ho ▸ hget))
  | reported hget => exact .inl (congrArg some ((JobStore.id_of_get hget).trans (Option.some.inj ho)))
  | unprepared => exact .inl ho
  | prepared => exact .inl ho
  | ended => exact .inl ho
  | succeeded => exact .inl ho
  | unstored => exact .inl ho
  | stored => exact .inl ho
  | wrote => exact .inl ho
  | applied => exact .inl ho
  | abandoned => exact .inl ho
  | indexed => exact .inl ho
  | _ => cases ho

end Process

/-- A write that fails a job outside the executor's own arms finds no retries left, and a peer's record
is pending or over. -/
def RecordWrite.Settles (w : RecordWrite) : Prop :=
  (w.writer = .schedulerError ∨ w.writer = .forcedTimeout → ¬ w.job.retryCount < w.job.maxRetries) ∧
    (w.writer = .replication → w.job.status = .pending ∨ w.job.isTerminal)

instance (w : RecordWrite) : Decidable w.Settles := inferInstanceAs (Decidable (_ ∧ _))

def JobOp.isRestart : JobOp → Bool
  | .restart => true
  | _ => false

def JobOp.Retrying (pf : Platform) (cfg : JobSettings) (s : JobSystem) (op : JobOp) : Prop :=
  (∀ w ∈ op.write? pf cfg s, w.Settles) ∧
    (op.isRestart → ∀ e ∈ s.shared.store.jobs.tree.toList, e.2.status ≠ .running)

instance (pf : Platform) (cfg : JobSettings) (s : JobSystem) (op : JobOp) :
    Decidable (op.Retrying pf cfg s) :=
  inferInstanceAs (Decidable (_ ∧ _))

def JobSystem.AtRest (s : JobSystem) : Prop :=
  ∀ id j, s.shared.store.get id = some j →
    j.status = .pending ∨ j.isTerminal ∨ j.status = .running ∧ ∃ p ∈ s.processes, p.owes = some id

theorem Job.isTerminal_of_failed {j : Job} (hs : j.status = .failed ∨ j.status = .timedOut)
    (hr : ¬ j.retryCount < j.maxRetries) : j.isTerminal := by
  rcases hs with hs | hs <;> simp [isTerminal, canRetry, hs, hr]

theorem Process.rest_of_write {pf : Platform} {s : JobNode} {p q : Process} {w : RecordWrite}
    (h : p.Moves pf s (.writeJob w) q) (hp : p.Wf pf) (hw : w.Settles) :
    w.job.status = .pending ∨ w.job.isTerminal ∨ w.job.status = .running ∧ q.owes = some w.job.id := by
  cases h with
  | inserted => exact .inl hp.1
  | cancelled hs => exact .inr (.inl (by simp [Job.isTerminal, Job.canRetry, hs]))
  | replicated => exact (hw.2 rfl).imp_right .inl
  | forced hs => exact .inr (.inl (Job.isTerminal_of_failed (.inr hs) (hw.1 (.inr rfl))))
  | expired hs => exact .inr (.inl (by simp [Job.isTerminal, Job.canRetry, hs]))
  | marked hs => exact .inr (.inr ⟨hs, rfl⟩)
  | concluded =>
    rcases hp.2 with hr | ⟨-, ht⟩
    · exact .inl hr.2.2.2
    · exact .inr (.inl ht)
  | failed hs => exact .inr (.inl (Job.isTerminal_of_failed (.inl hs) (hw.1 (.inl rfl))))
  | refused he => simp at he
  | received he => simp at he

section Runs

variable {pf : Platform} {cfg : JobSettings}

theorem atRest_step {s t : JobSystem} {op : JobOp} (hrec : (recordKeeping pf).Holds s) (h : s.AtRest)
    (hop : op.Retrying pf cfg s) (ht : jobStep pf cfg s op = some t) : t.AtRest := by
  rcases jobStep_cases ht with ⟨n, i, p, e, q, rfl, hp, hact, hm, hshared, hturn⟩ | ⟨-, hstore, hprocs⟩
  · have hwf := (hrec.own p (List.mem_of_getElem? hp)).wf
    have hq : q ∈ t.processes := by
      have hnext := System.next_mem_turn hturn hp
      rwa [Process.turn, ← hact] at hnext
    have hwrite : ∀ w, e = .writeJob w → (JobOp.turn n i).write? pf cfg s = some w := by
      rintro w rfl
      simp only [JobOp.write?, hp, Option.bind_some, ← hact]
    have hold : ∀ id j, (∀ w, e = .writeJob w → w.job.id ≠ id) → t.shared.store.get id = some j →
        s.shared.store.get id = some j := by
      intro id j hne hj
      rcases get_jobStep ht id with hsame | ⟨w, hw, hid, -⟩
      · exact hsame ▸ hj
      · obtain ⟨p', hp', hw⟩ := Option.bind_eq_some_iff.mp hw
        obtain rfl : p = p' := Option.some.inj (hp.symm.trans hp')
        rw [← hact] at hw
        cases e with
        | writeJob w' =>
          cases hw
          exact absurd hid (hne _ rfl)
        | _ => cases hw
    intro id j hj
    by_cases hw : ∃ w, e = .writeJob w ∧ w.job.id = id
    · obtain ⟨w, rfl, rfl⟩ := hw
      have hget : t.shared.store.get w.job.id = some w.job := by
        rw [hshared]
        exact s.shared.store.get_insertJob_self w.job
      rw [← Option.some.inj (hget.symm.trans hj)]
      rcases Process.rest_of_write hm hwf (hop.1 w (hwrite w rfl)) with hs | hs | ⟨hs, howes⟩
      · exact .inl hs
      · exact .inr (.inl hs)
      · exact .inr (.inr ⟨hs, q, hq, howes⟩)
    · have hj' := hold id j (fun w he hid => hw ⟨w, he, hid⟩) hj
      rcases h id j hj' with hs | hs | ⟨hs, r, hr, howes⟩
      · exact .inl hs
      · exact .inr (.inl hs)
      · refine .inr (.inr ⟨hs, ?_⟩)
        rcases System.mem_turn hturn hp hr with hr | rfl
        · exact ⟨r, hr, howes⟩
        · rcases Process.owes_of_moves hm hwf howes with hq' | hpaid | hnone
          · exact ⟨q, hq, hq'⟩
          · exact absurd hpaid hw
          · rw [hnone] at hj'
            cases hj'
  · intro id j hj
    rw [hstore] at hj
    rcases h id j hj with hs | hs | ⟨hs, r, hr, howes⟩
    · exact .inl hs
    · exact .inr (.inl hs)
    · rcases hprocs with ⟨rfl, -⟩ | hprocs
      · have hmem : (id.bytes.bytes, j) ∈ s.shared.store.jobs.tree.toList :=
          ExtTreeMap.mem_toList_iff_getElem?_eq_some.mpr hj
        exact absurd hs (hop.2 rfl _ hmem)
      · exact .inr (.inr ⟨hs, r, hprocs r hr, howes⟩)

/-- A job without a live task is pending or over. -/
theorem idle_jobs_settled {u : UnifiedStore} {st : StateStore} {ms : ByteTree JobManifest}
    {ops : List JobOp} {s : JobSystem} {id : JobId} {j : Job}
    (hops : Along (jobStep pf cfg) (JobOp.Retrying pf cfg) (.fresh u st ms) ops)
    (hr : run (jobStep pf cfg) (.fresh u st ms) ops = some s) (hj : s.shared.store.get id = some j)
    (hidle : ∀ p ∈ s.processes, p.task ≠ some id) : j.status = .pending ∨ j.isTerminal := by
  have hfresh : (JobSystem.fresh u st ms).AtRest := fun id j hj => by
    simp [JobSystem.fresh, JobNode.fresh] at hj
  obtain ⟨-, hrest⟩ := invariant_run (I := fun s : JobSystem => (recordKeeping pf).Holds s ∧ s.AtRest)
    (fun _ _ _ hs hop ht => ⟨recordKeeping_step hs.1 ht, atRest_step hs.1 hs.2 hop ht⟩)
    ⟨recordKeeping_fresh u st ms, hfresh⟩ hops hr
  rcases hrest id j hj with hs | hs | ⟨-, p, hp, howes⟩
  · exact .inl hs
  · exact .inr hs
  · exact absurd (Process.task_of_owes howes) (hidle p hp)

end Runs

section Sample

theorem idle_jobs_settled_sample :
    ∃ s j, run (jobStep sampleRuntime sampleSettings) sampleJobs (cancelledFirst ++ completedNext) = some s ∧
      s.shared.store.get (sampleJobId "b" 2) = some j ∧
      (∀ p ∈ s.processes, p.task ≠ some (sampleJobId "b" 2)) ∧ (j.status = .pending ∨ j.isTerminal) := by
  have hops : Along (jobStep sampleRuntime sampleSettings)
      (JobOp.Retrying sampleRuntime sampleSettings) sampleJobs (cancelledFirst ++ completedNext) := by
    decide +kernel
  obtain ⟨s, hs, hstored, hidle⟩ := exists_of_any
    (o := run (jobStep sampleRuntime sampleSettings) sampleJobs (cancelledFirst ++ completedNext))
    (Q := fun s => (s.shared.store.get (sampleJobId "b" 2)).isSome ∧
      ∀ p ∈ s.processes, p.task ≠ some (sampleJobId "b" 2))
    (by decide +kernel)
  obtain ⟨j, hj⟩ := Option.isSome_iff_exists.mp hstored
  exact ⟨s, j, hs, hj, hidle, idle_jobs_settled hops hs hj hidle⟩

def inputMissing : List JobOp :=
  [.submit { sampleRequest "a" with inputBlobId := some (hexEncode (List.replicate 32 0)) }] ++
    jobTurns 0 5 0 ++ [.tick] ++ jobTurns 1 15 1 ++ jobTurns 2 10 2

/-- The job has failed with all its retries left, and nothing will retry it. -/
theorem failed_job_abandoned :
    ∃ s j, run (jobStep sampleRuntime sampleSettings) sampleJobs inputMissing = some s ∧
      s.shared.store.get (sampleJobId "a" 0) = some j ∧
      (∀ p ∈ s.processes, p.task ≠ some (sampleJobId "a" 0)) ∧
      j.status = .failed ∧ j.canRetry ∧ ¬ j.isTerminal := by
  obtain ⟨s, hs, hstored, hidle⟩ := exists_of_any
    (o := run (jobStep sampleRuntime sampleSettings) sampleJobs inputMissing)
    (Q := fun s => (s.shared.store.get (sampleJobId "a" 0)).any
        (fun j => decide (j.status = .failed ∧ j.canRetry ∧ ¬ j.isTerminal)) = true ∧
      ∀ p ∈ s.processes, p.task ≠ some (sampleJobId "a" 0))
    (by decide +kernel)
  obtain ⟨j, hj, hfailed⟩ := (Option.any_eq_true _ _).mp hstored
  exact ⟨s, j, hs, hj, hidle, of_decide_eq_true hfailed⟩

end Sample

end Onvm
