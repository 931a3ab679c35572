import Onvm.JobStatuses

/-! How often a job is run. The set of active jobs lets one task at a time past its
claim, and of all writers only the conclusion of an attempt makes a record pending
again; so the retries of a pending record count the attempts before it. -/

namespace Onvm

open ByteString OrderedStore Interleaving Runs Std

namespace Process

def critical : Process → Option JobId
  | .load id => some id
  | .mark seen => some seen.id
  | .prepare job => some job.id
  | .execute job _ _ => some job.id
  | .storeOutput seen _ _ => some seen.id
  | .applyWrites seen _ _ => some seen.id
  | .conclude seen _ => some seen.id
  | .release id _ => some id
  | .index _ next => next.critical
  | _ => none

def fromPeer : Process → Bool
  | .broadcast _ | .replicate _ => true
  | .index _ next => next.fromPeer
  | _ => false

end Process

namespace JobNode

variable (s t : JobNode) (id : JobId)

def attempts : Nat := s.started.count id

def successes : Nat := s.succeeded.count id

def NotPending : Prop := ∀ j, s.store.get id = some j → j.status ≠ .pending

/-- The attempts and successes of a job, as its stored record and its submission tell them. -/
structure Counted : Prop where
  noReplica : s.replicated = []
  unique : ∀ k ∈ s.submitted, ∀ k' ∈ s.submitted, k.id = id → k'.id = id → k = k'
  pending : ∀ j, s.store.get id = some j → j.status = .pending →
    j.retryCount.toNat = s.attempts id ∧ s.successes id = 0
  bound : ∀ k ∈ s.submitted, k.id = id → s.attempts id ≤ k.maxRetries.toNat + 1
  single : s.successes id ≤ 1
  begun : 0 < s.attempts id ∨ 0 < s.successes id → ∃ k ∈ s.submitted, k.id = id

/-- A change that does not concern the job. -/
structure LeavesJob : Prop where
  get : t.store.get id = s.store.get id
  active : id ∈ s.activeJobs → id ∈ t.activeJobs
  attempts : t.attempts id = s.attempts id
  successes : t.successes id = s.successes id
  submitted : ∀ k, k.id = id → (k ∈ t.submitted ↔ k ∈ s.submitted)

variable {s t id}

theorem Counted.leave (h : s.Counted id) (hl : s.LeavesJob t id) (hr : t.replicated = s.replicated) :
    t.Counted id := by
  refine ⟨hr.trans h.noReplica, ?_, ?_, ?_, ?_, ?_⟩
  · intro k hk k' hk' hid hid'
    exact h.unique k ((hl.submitted k hid).mp hk) k' ((hl.submitted k' hid').mp hk') hid hid'
  · intro j hj hs
    rw [hl.attempts, hl.successes]
    exact h.pending j (hl.get ▸ hj) hs
  · intro k hk hid
    rw [hl.attempts]
    exact h.bound k ((hl.submitted k hid).mp hk) hid
  · rw [hl.successes]
    exact h.single
  · rw [hl.attempts, hl.successes]
    intro hb
    obtain ⟨k, hk, hid⟩ := h.begun hb
    exact ⟨k, (hl.submitted k hid).mpr hk, hid⟩

theorem Known.submitted {j : Job} (h : s.Known j) (hc : s.Counted id) (hid : j.id = id) :
    ∃ k ∈ s.submitted, k.id = id ∧ k.maxRetries = j.maxRetries := by
  obtain ⟨⟨k, hk, hkj⟩, -⟩ := h
  rcases hk with hk | hk
  · exact ⟨k, hk, (congrArg Job.Origin.id hkj).trans hid, congrArg Job.Origin.maxRetries hkj⟩
  · rw [hc.noReplica] at hk
    cases hk

end JobNode

namespace Process

def Stage (id : JobId) (s : JobNode) : Process → Prop
  | .mark seen => seen.retryCount.toNat = s.attempts id ∧ s.successes id = 0
  | .prepare job =>
    (job.retryCount.toNat + 1 = s.attempts id ∧ s.successes id = 0) ∧ s.NotPending id
  | .execute job _ _ =>
    (job.retryCount.toNat + 1 = s.attempts id ∧ s.successes id = 0) ∧ s.NotPending id
  | .storeOutput _ _ _ => s.NotPending id
  | .applyWrites _ _ _ => s.NotPending id
  | .conclude _ job =>
    (job.status = .pending → job.retryCount.toNat = s.attempts id ∧ s.successes id = 0) ∧ s.NotPending id
  | .index _ next => next.Stage id s
  | _ => True

variable {pf : Platform} {s t : JobNode} {p q : Process} {e : Effect} {id : JobId}

theorem Stage.transfer (h : p.Stage id s) (ha : t.attempts id = s.attempts id)
    (hs : t.successes id = s.successes id) (hp : s.NotPending id → t.NotPending id) : p.Stage id t := by
  induction p with
  | mark seen =>
    simp only [Stage, ha, hs]
    exact h
  | prepare job =>
    simp only [Stage, ha, hs]
    exact ⟨h.1, hp h.2⟩
  | execute job manifest input =>
    simp only [Stage, ha, hs]
    exact ⟨h.1, hp h.2⟩
  | storeOutput seen job outcome => exact hp h
  | applyWrites seen job writes => exact hp h
  | conclude seen job =>
    simp only [Stage, ha, hs]
    exact ⟨h.1, hp h.2⟩
  | index job next ih => exact ih h
  | _ => trivial

theorem Stage.leave (h : p.Stage id s) (hl : s.LeavesJob t id) : p.Stage id t :=
  h.transfer hl.attempts hl.successes fun hn j hj => hn j (hl.get ▸ hj)

theorem stage_of_no_record (hc : p.critical = some id) (h : ∀ j ∈ p.held, j.id ≠ id) : p.Stage id s := by
  induction p with
  | mark seen => exact absurd (Option.some.inj hc) (h seen (by simp [held]))
  | prepare job => exact absurd (Option.some.inj hc) (h job (by simp [held]))
  | execute job manifest input => exact absurd (Option.some.inj hc) (h job (by simp [held]))
  | storeOutput seen job outcome => exact absurd (Option.some.inj hc) (h seen (by simp [held]))
  | applyWrites seen job writes => exact absurd (Option.some.inj hc) (h seen (by simp [held]))
  | conclude seen job => exact absurd (Option.some.inj hc) (h seen (by simp [held]))
  | index job next ih => exact ih hc fun j hj => h j (List.mem_cons_of_mem _ hj)
  | _ => trivial

theorem critical_of_moves (h : p.Moves pf s e q) (hp : p.Wf pf) (hq : q.critical = some id) :
    p.critical = some id ∨ p = .claim id ∧ e = .claim id ∧ id ∉ s.activeJobs := by
  cases h with
  | @passed pass => cases pass <;> cases hq
  | claimed hfree =>
    cases hq
    exact .inr ⟨rfl, rfl, hfree⟩
  | loaded hget =>
    rw [← hq]
    exact .inl (congrArg some (JobStore.id_of_get hget).symm)
  | marked hs hrev =>
    rw [← hq]
    exact .inl (congrArg some (congrArg Job.Origin.id hrev.1).symm)
  | concluded =>
    rw [← hq]
    have hid := hp.2.elim (fun h => h.1) (fun h => h.1.1)
    exact .inl (congrArg some (congrArg Job.Origin.id hid).symm)
  | unloaded => exact .inl hq
  | unprepared => exact .inl hq
  | prepared => exact .inl hq
  | ended => exact .inl hq
  | succeeded => exact .inl hq
  | unstored => exact .inl hq
  | stored => exact .inl hq
  | wrote => exact .inl hq
  | applied => exact .inl hq
  | indexed => exact .inl hq
  | _ => cases hq

theorem fromPeer_of_moves (h : p.Moves pf s e q) (hp : p.fromPeer = false) : q.fromPeer = false := by
  cases h with
  | @passed pass => cases pass <;> rfl
  | indexed => exact hp
  | unknown => cases hp
  | _ => rfl

theorem replicated_of_moves (h : p.Moves pf s e q) (hp : p.fromPeer = false) :
    (e.apply s).replicated = s.replicated := by
  cases h with
  | replicated => cases hp
  | refused he => rcases he with rfl | ⟨u, rfl⟩ <;> rfl
  | received he => rcases he with rfl | ⟨u, rfl⟩ <;> rfl
  | _ => rfl

end Process

def Effect.Touches (id : JobId) : Effect → Prop
  | .writeJob w => w.job.id = id
  | .release id' => id' = id
  | .succeed id' => id' = id
  | _ => False

theorem Effect.leaves_apply {e : Effect} {id : JobId} (s : JobNode) (h : ¬ e.Touches id) :
    s.LeavesJob (e.apply s) id := by
  cases e with
  | writeJob w =>
    have hid : w.job.id ≠ id := h
    refine ⟨?_, fun ha => ha, ?_, rfl, fun k hk => ?_⟩
    · exact (s.store.get_insertJob w.job id).trans (if_neg hid)
    · simp only [apply, JobNode.writeJob, JobNode.attempts]
      split
      · rw [List.count_append, List.count_singleton]
        simp [hid]
      · rfl
    · simp only [apply, JobNode.writeJob]
      split
      · have hne : k ≠ w.job := fun he => hid (he ▸ hk)
        simp [hne]
      · rfl
  | claim id' => exact ⟨rfl, fun ha => List.mem_cons_of_mem _ ha, rfl, rfl, fun _ _ => Iff.rfl⟩
  | release id' =>
    have hid : id' ≠ id := h
    refine ⟨rfl, fun ha => ?_, rfl, rfl, fun _ _ => Iff.rfl⟩
    exact List.mem_filter.mpr ⟨ha, by simp [Ne.symm hid]⟩
  | succeed id' =>
    have hid : id' ≠ id := h
    refine ⟨rfl, fun ha => ha, rfl, ?_, fun _ _ => Iff.rfl⟩
    simp only [apply, JobNode.successes]
    rw [List.count_append, List.count_singleton]
    simp [hid]
  | _ => exact ⟨rfl, fun ha => ha, rfl, rfl, fun _ _ => Iff.rfl⟩

namespace Process

variable {pf : Platform} {s : JobNode} {p q : Process} {e : Effect} {id : JobId}

theorem stage_of_moves (h : p.Moves pf s e q) (hw : p.Wf pf) (hc : s.Counted id)
    (hcrit : q.critical = some id) (hp : p.critical = some id → p.Stage id s) (ht : ¬ e.Touches id) :
    q.Stage id s := by
  cases h with
  | @passed pass => cases pass <;> trivial
  | loaded hget hs =>
    have hid := Option.some.inj hcrit
    have hget' := JobStore.id_of_get hget
    rw [← hget', hid] at hget
    exact hc.pending _ hget hs
  | prepared => exact hp hcrit
  | ended hcase =>
    obtain ⟨⟨ha, hsucc⟩, hn⟩ := hp hcrit
    refine ⟨fun hpend => ?_, hn⟩
    rcases hcase with hr | ⟨-, hterm⟩
    · refine ⟨?_, hsucc⟩
      rw [hr.2.2.1, JobNode.toNat_succ_of_lt hr.2.1]
      exact ha
    · exact absurd hpend (Job.status_of_isTerminal hterm).1
  | succeeded => exact absurd (Option.some.inj hcrit) ht
  | stored => exact hp hcrit
  | wrote => exact hp hcrit
  | applied => exact ⟨fun hpend => absurd hpend (Job.status_of_isTerminal hw.2.2).1, hp hcrit⟩
  | marked => exact absurd (Option.some.inj hcrit) ht
  | indexed => exact hp hcrit
  | _ => trivial

/-- What holds of a process beside the counts of a job. -/
structure Claims (pf : Platform) (id : JobId) (s : JobNode) (p : Process) : Prop where
  sound : p.Sound pf s
  noPeer : p.fromPeer = false
  active : p.critical = some id → id ∈ s.activeJobs
  stage : p.critical = some id → p.Stage id s

theorem Claims.other {r : Process} (hr : r.Claims pf id s) (hc : s.Counted id) (h : p.Moves pf s e q)
    (hp : p.Claims pf id s) (hpair : ¬ (p.critical = some id ∧ r.critical = some id))
    (hnew : ∀ w, e = .writeJob w → w.writer = .submission → ∀ k ∈ s.submitted, k.id ≠ w.job.id) :
    r.Claims pf id (e.apply s) := by
  have hg : s.Grows (e.apply s) := JobNode.grows_apply e s
  by_cases ht : e.Touches id
  swap
  · have hl := e.leaves_apply s ht
    exact ⟨hr.sound.grow hg, hr.noPeer, fun hcrit => hl.active (hr.active hcrit),
      fun hcrit => (hr.stage hcrit).leave hl⟩
  have hwrite : ∀ w : RecordWrite, e = .writeJob w → w.writer ≠ .start → w.job.status ≠ .pending →
      w.job.id = id → r.critical = some id → r.Stage id (e.apply s) := by
    rintro w rfl hstart hstatus hid hcrit
    refine (hr.stage hcrit).transfer ?_ rfl fun _ j hj => ?_
    · simp only [Effect.apply, JobNode.writeJob, JobNode.attempts, if_neg hstart]
    · have hget : (s.store.insertJob w.job).get id = some w.job := by
        rw [JobStore.get_insertJob, if_pos hid]
      rw [← Option.some.inj (hget.symm.trans hj)]
      exact hstatus
  refine ⟨hr.sound.grow hg, hr.noPeer, fun hcrit => ?_, fun hcrit => ?_⟩
  · have ha := hr.active hcrit
    have hpc : p.critical ≠ some id := fun hpc => hpair ⟨hpc, hcrit⟩
    cases h with
    | released => exact absurd (congrArg some ht) hpc
    | abandoned => exact absurd (congrArg some ht) hpc
    | refused he => rcases he with rfl | ⟨u, rfl⟩ <;> exact ht.elim
    | received he => rcases he with rfl | ⟨u, rfl⟩ <;> exact ht.elim
    | _ => first | exact ha | exact ht.elim
  · have hpc : p.critical ≠ some id := fun hpc => hpair ⟨hpc, hcrit⟩
    cases h with
    | @inserted job =>
      have hid : job.id = id := ht
      refine stage_of_no_record hcrit fun j hj hjid => ?_
      obtain ⟨k, hk, hkid, -⟩ := (hr.sound.held j hj).submitted hc hjid
      exact hnew _ rfl rfl k hk (hkid.trans hid.symm)
    | replicated => cases hp.noPeer
    | cancelled hs => exact hwrite _ rfl (by simp) (by simp [hs]) ht hcrit
    | forced hs => exact hwrite _ rfl (by simp) (by simp [hs]) ht hcrit
    | expired hs => exact hwrite _ rfl (by simp) (by simp [hs]) ht hcrit
    | failed hs => exact hwrite _ rfl (by simp) (by simp [hs]) ht hcrit
    | marked hs hrev =>
      have hid := (congrArg Job.Origin.id hrev.1).symm.trans ht
      exact absurd (congrArg some hid) hpc
    | concluded =>
      have ho := hp.sound.wf.2.elim (fun h => h.1) (fun h => h.1.1)
      have hid := (congrArg Job.Origin.id ho).symm.trans ht
      exact absurd (congrArg some hid) hpc
    | released => exact absurd (congrArg some ht) hpc
    | abandoned => exact absurd (congrArg some ht) hpc
    | succeeded => exact absurd (congrArg some ht) hpc
    | refused he => rcases he with rfl | ⟨u, rfl⟩ <;> exact ht.elim
    | received he => rcases he with rfl | ⟨u, rfl⟩ <;> exact ht.elim
    | _ => exact ht.elim

theorem Claims.next (hp : p.Claims pf id s) (hrec : s.Recorded pf) (hc : s.Counted id)
    (h : p.Moves pf s e q) : q.Claims pf id (e.apply s) := by
  refine ⟨hp.sound.next hrec h, fromPeer_of_moves h hp.noPeer, fun hcrit => ?_, fun hcrit => ?_⟩
  · rcases critical_of_moves h hp.sound.wf hcrit with hpc | ⟨-, rfl, -⟩
    · have ha := hp.active hpc
      cases h with
      | claimed => exact List.mem_cons_of_mem _ ha
      | released => cases hcrit
      | abandoned => cases hcrit
      | refused he => rcases he with rfl | ⟨u, rfl⟩ <;> exact ha
      | received he => rcases he with rfl | ⟨u, rfl⟩ <;> exact ha
      | _ => exact ha
    · exact List.mem_cons_self
  · by_cases ht : e.Touches id
    · cases h with
      | @marked seen job hs hrev =>
        have hid : job.id = id := ht
        have hpc : (Process.mark seen).critical = some id :=
          congrArg some ((congrArg Job.Origin.id hrev.1).symm.trans ht)
        obtain ⟨ha, hsucc⟩ := hp.stage hpc
        have hatt : (s.writeJob ⟨.start, some seen, job⟩).attempts id = s.attempts id + 1 := by
          simp [JobNode.writeJob, JobNode.attempts, hid]
        refine ⟨⟨?_, hsucc⟩, fun j hj => ?_⟩
        · rw [Effect.apply, hatt, hrev.2, ha]
        · have hget : (s.store.insertJob job).get id = some job := by
            rw [JobStore.get_insertJob, if_pos hid]
          rw [← Option.some.inj (hget.symm.trans hj), hs]
          simp
      | succeeded => exact (hp.stage hcrit).2
      | concluded => trivial
      | refused he => rcases he with rfl | ⟨u, rfl⟩ <;> exact ht.elim
      | received he => rcases he with rfl | ⟨u, rfl⟩ <;> exact ht.elim
      | _ => first | exact ht.elim | cases hcrit
    · have hstage := stage_of_moves h hp.sound.wf hc hcrit hp.stage ht
      exact hstage.leave (e.leaves_apply s ht)

end Process

namespace JobNode

variable {pf : Platform} {s : JobNode} {id : JobId}

theorem Counted.write {w : RecordWrite} (h : s.Counted id) (hid : w.job.id = id)
    (hstart : w.writer ≠ .start) (hsub : w.writer ≠ .submission) (hrep : w.writer ≠ .replication)
    (hpend : w.job.status = .pending → w.job.retryCount.toNat = s.attempts id ∧ s.successes id = 0) :
    (s.writeJob w).Counted id := by
  have ha : (s.writeJob w).attempts id = s.attempts id := by
    simp only [writeJob, attempts, if_neg hstart]
  have hsubmitted : (s.writeJob w).submitted = s.submitted := by simp only [writeJob, if_neg hsub]
  refine ⟨?_, ?_, ?_, ?_, h.single, ?_⟩
  · simp only [writeJob, if_neg hrep]
    exact h.noReplica
  · rw [hsubmitted]
    exact h.unique
  · intro j hj hs
    have hget : (s.writeJob w).store.get id = some w.job := by
      rw [← hid]
      exact s.store.get_insertJob_self w.job
    rw [ha]
    rw [← Option.some.inj (hget.symm.trans hj)] at hs ⊢
    exact hpend hs
  · rw [hsubmitted, ha]
    exact h.bound
  · rw [hsubmitted, ha]
    exact h.begun

theorem Counted.insert {job : Job} (h : s.Counted id) (hid : job.id = id) (hr : job.retryCount = 0)
    (hnew : ∀ k ∈ s.submitted, k.id ≠ id) : (s.writeJob ⟨.submission, none, job⟩).Counted id := by
  have hzero : s.attempts id = 0 ∧ s.successes id = 0 := by
    by_contra hc
    obtain ⟨k, hk, hkid⟩ := h.begun (by omega)
    exact hnew k hk hkid
  have hmem : ∀ k ∈ (s.writeJob ⟨.submission, none, job⟩).submitted, k.id = id → k = job := by
    intro k hk hkid
    rcases List.mem_append.mp hk with hk | hk
    · exact absurd hkid (hnew k hk)
    · exact List.mem_singleton.mp hk
  refine ⟨h.noReplica, ?_, ?_, ?_, h.single, ?_⟩
  · intro k hk k' hk' hkid hkid'
    rw [hmem k hk hkid, hmem k' hk' hkid']
  · intro j hj _
    have hget : (s.writeJob ⟨.submission, none, job⟩).store.get id = some job := by
      rw [← hid]
      exact s.store.get_insertJob_self job
    rw [← Option.some.inj (hget.symm.trans hj), hr]
    exact ⟨hzero.1.symm, hzero.2⟩
  · intro k _ _
    show s.attempts id ≤ _
    omega
  · exact fun _ => ⟨job, List.mem_append_right _ (List.mem_singleton_self job), hid⟩

theorem Counted.start {seen job : Job} (h : s.Counted id) (hk : s.Known seen) (hid : seen.id = id)
    (hstage : seen.retryCount.toNat = s.attempts id ∧ s.successes id = 0) (hrun : job.status = .running)
    (hrev : job.Revises seen) : (s.writeJob ⟨.start, some seen, job⟩).Counted id := by
  have hjid : job.id = id := (congrArg Job.Origin.id hrev.1).trans hid
  have ha : (s.writeJob ⟨.start, some seen, job⟩).attempts id = s.attempts id + 1 := by
    simp [writeJob, attempts, hjid]
  obtain ⟨k₀, hk₀, hk₀id, hmax⟩ := hk.submitted h hid
  refine ⟨h.noReplica, h.unique, ?_, ?_, h.single, fun _ => ⟨k₀, hk₀, hk₀id⟩⟩
  · intro j hj hs
    have hget : (s.writeJob ⟨.start, some seen, job⟩).store.get id = some job := by
      rw [← hjid]
      exact s.store.get_insertJob_self job
    rw [← Option.some.inj (hget.symm.trans hj), hrun] at hs
    cases hs
  · intro k hk' hkid
    have hle : seen.retryCount.toNat ≤ seen.maxRetries.toNat := hk.retries
    rw [h.unique k hk' k₀ hk₀ hkid hk₀id, hmax, ha]
    omega

theorem Counted.succeed {seen : Job} (h : s.Counted id) (hk : s.Known seen) (hid : seen.id = id)
    (hzero : s.successes id = 0) (hn : s.NotPending id) :
    (Effect.apply s (.succeed id)).Counted id := by
  have hone : (Effect.apply s (.succeed id)).successes id = 1 := by
    have hcount : s.succeeded.count id = 0 := hzero
    simp [Effect.apply, successes, hcount]
  obtain ⟨k₀, hk₀, hk₀id, -⟩ := hk.submitted h hid
  exact ⟨h.noReplica, h.unique, fun j hj hs => absurd hs (hn j hj), h.bound, hone.le,
    fun _ => ⟨k₀, hk₀, hk₀id⟩⟩

theorem Counted.moves {p q : Process} {e : Effect} (h : s.Counted id) (hp : p.Claims pf id s)
    (hm : p.Moves pf s e q)
    (hnew : ∀ w, e = .writeJob w → w.writer = .submission → ∀ k ∈ s.submitted, k.id ≠ w.job.id) :
    (e.apply s).Counted id := by
  by_cases ht : e.Touches id
  swap
  · exact h.leave (e.leaves_apply s ht) (Process.replicated_of_moves hm hp.noPeer)
  cases hm with
  | inserted =>
    have hid := ht
    exact h.insert hid hp.sound.wf.2.1 fun k hk hkid => hnew _ rfl rfl k hk (hkid.trans (Eq.symm hid))
  | replicated => cases hp.noPeer
  | cancelled hs => exact h.write ht (by simp) (by simp) (by simp) (by simp [hs])
  | forced hs => exact h.write ht (by simp) (by simp) (by simp) (by simp [hs])
  | expired hs => exact h.write ht (by simp) (by simp) (by simp) (by simp [hs])
  | failed hs => exact h.write ht (by simp) (by simp) (by simp) (by simp [hs])
  | @marked seen job hs hrev =>
    have hid : seen.id = id := (congrArg Job.Origin.id hrev.1).symm.trans ht
    exact h.start (hp.sound.held seen (by simp [Process.held])) hid (hp.stage (congrArg some hid)) hs hrev
  | @concluded seen job =>
    have ho := hp.sound.wf.2.elim (fun h => h.1) (fun h => h.1.1)
    have hid : seen.id = id := (congrArg Job.Origin.id ho).symm.trans ht
    exact h.write ht (by simp) (by simp) (by simp) (hp.stage (congrArg some hid)).1
  | @succeeded seen =>
    have hid : seen.id = id := ht
    obtain ⟨⟨-, hzero⟩, hn⟩ := hp.stage (congrArg some hid)
    rw [hid]
    exact h.succeed (hp.sound.held seen (by simp [Process.held])) hid hzero hn
  | released => exact ⟨h.noReplica, h.unique, h.pending, h.bound, h.single, h.begun⟩
  | abandoned => exact ⟨h.noReplica, h.unique, h.pending, h.bound, h.single, h.begun⟩
  | refused he => rcases he with rfl | ⟨u, rfl⟩ <;> exact ht.elim
  | received he => rcases he with rfl | ⟨u, rfl⟩ <;> exact ht.elim
  | _ => exact ht.elim

end JobNode

def attemptCounting (pf : Platform) (id : JobId) : Annotation JobNode Process where
  shared s := s.Recorded pf ∧ s.Counted id
  own s p := p.Claims pf id s
  pair p q := ¬ (p.critical = some id ∧ q.critical = some id)
  symm h := fun hc => h hc.symm

def JobOp.isBroadcast : JobOp → Bool
  | .broadcast _ => true
  | _ => false

def JobOp.LocalOnce (pf : Platform) (cfg : JobSettings) (s : JobSystem) (op : JobOp) : Prop :=
  op.isBroadcast = false ∧
    ∀ w ∈ op.write? pf cfg s, w.writer = .submission → ∀ k ∈ s.shared.submitted, k.id ≠ w.job.id

instance (pf : Platform) (cfg : JobSettings) (s : JobSystem) (op : JobOp) :
    Decidable (op.LocalOnce pf cfg s) :=
  inferInstanceAs (Decidable (_ ∧ _))

section Runs

variable {pf : Platform} {cfg : JobSettings} {id : JobId}

theorem Process.Claims.of_new {s : JobNode} {p : Process} (hs : p.Sound pf s) (hp : p.fromPeer = false)
    (hc : p.critical = none) : p.Claims pf id s :=
  ⟨hs, hp, fun h => by simp [hc] at h, fun h => by simp [hc] at h⟩

theorem attemptCounting_turn {s t : JobSystem} {n : Nat} {i : Inputs}
    (h : (attemptCounting pf id).Holds s) (hop : (JobOp.turn n i).LocalOnce pf cfg s)
    (ht : s.turn (fun sh p i => p.turn pf cfg sh i) n i = some t) : (attemptCounting pf id).Holds t := by
  obtain ⟨p₀, hp₀, -⟩ := System.turn_eq_some ht
  refine h.turn ht hp₀ fun hp => ?_
  have hm := p₀.moves_act pf cfg s.shared i
  have hnew : ∀ w, (p₀.act pf cfg s.shared i).1 = .writeJob w → w.writer = .submission →
      ∀ k ∈ s.shared.submitted, k.id ≠ w.job.id := by
    intro w hw
    refine hop.2 w ?_
    simp only [JobOp.write?, hp₀, Option.bind_some, hw]
    rfl
  refine ⟨⟨Process.recorded_of_moves h.shared.1 hm hp.sound, h.shared.2.moves hp hm hnew⟩,
    hp.next h.shared.1 h.shared.2 hm, ?_, fun q hq hpair => hq.other h.shared.2 hm hp hpair hnew, ?_⟩
  · intro r hr
    obtain ⟨id', rfl⟩ := Effect.mem_spawned hr
    exact ⟨.of_new (.of_empty trivial rfl trivial) rfl rfl, fun q hc => by cases hc.1⟩
  · rintro q hq hpair ⟨hnext, hqc⟩
    rcases Process.critical_of_moves hm hp.sound.wf hnext with hpc | ⟨-, -, hfree⟩
    · exact hpair ⟨hpc, hqc⟩
    · exact hfree (hq.active hqc)

theorem JobOp.spawned_idle {op : JobOp} {p : Process} (hp : op.spawned = some p) : p.critical = none := by
  cases op <;> cases hp <;> rfl

theorem JobOp.spawned_local {op : JobOp} {p : Process} (hp : op.spawned = some p)
    (hop : op.isBroadcast = false) : p.fromPeer = false := by
  cases op with
  | broadcast d => cases hop
  | _ => cases hp <;> rfl

theorem attemptCounting_step {s t : JobSystem} {op : JobOp} (h : (attemptCounting pf id).Holds s)
    (hop : op.LocalOnce pf cfg s) (ht : jobStep pf cfg s op = some t) : (attemptCounting pf id).Holds t := by
  obtain ⟨hrec, hc⟩ := h.shared
  cases jobStep_inv ht with
  | spawn hp =>
    have hidle := JobOp.spawned_idle hp
    refine h.spawn (.of_new (.of_spawned hp) (JobOp.spawned_local hp hop.1) hidle) fun q hq => ?_
    simp [hidle] at hq
  | turn hp hturn => exact attemptCounting_turn h hop hturn
  | restart =>
    exact ⟨⟨hrec.congr rfl rfl rfl rfl, ⟨hc.noReplica, hc.unique, hc.pending, hc.bound, hc.single, hc.begun⟩⟩,
      fun p hp => absurd hp (by simp), .nil⟩
  | outside _ =>
    refine h.outside ⟨hrec.congr rfl rfl rfl rfl,
      ⟨hc.noReplica, hc.unique, hc.pending, hc.bound, hc.single, hc.begun⟩⟩ fun p hp => ?_
    exact ⟨hp.sound.grow ⟨fun k hk => hk, fun k hk => hk, fun r hr => hr⟩, hp.noPeer, hp.active,
      fun hcrit => (hp.stage hcrit).transfer rfl rfl fun hn => hn⟩

theorem attemptCounting_fresh (u : UnifiedStore) (st : StateStore) (ms : ByteTree JobManifest) :
    (attemptCounting pf id).Holds (JobSystem.fresh u st ms) := by
  refine ⟨⟨(recordKeeping_fresh u st ms).shared, ⟨rfl, ?_, ?_, ?_, ?_, ?_⟩⟩,
    fun p hp => absurd hp (by simp [JobSystem.fresh]), .nil⟩
  · exact fun k hk => absurd hk (by simp [JobSystem.fresh, JobNode.fresh])
  · exact fun j hj => absurd hj (by simp [JobSystem.fresh, JobNode.fresh])
  · exact fun k hk => absurd hk (by simp [JobSystem.fresh, JobNode.fresh])
  · simp [JobSystem.fresh, JobNode.fresh, JobNode.successes]
  · simp [JobSystem.fresh, JobNode.fresh, JobNode.attempts, JobNode.successes]

/-- A job is begun at most once more often than it may be retried, its retries stay within their bound,
and it succeeds at most once. -/
theorem job_attempts_bounded {u : UnifiedStore} {st : StateStore} {ms : ByteTree JobManifest}
    {ops : List JobOp} {s : JobSystem} {j : Job}
    (hops : Along (jobStep pf cfg) (JobOp.LocalOnce pf cfg) (.fresh u st ms) ops)
    (hr : run (jobStep pf cfg) (.fresh u st ms) ops = some s) (hj : s.shared.store.get id = some j) :
    s.shared.started.count id ≤ j.maxRetries.toNat + 1 ∧ j.retryCount ≤ j.maxRetries ∧
      s.shared.succeeded.count id ≤ 1 := by
  have h : (attemptCounting pf id).Holds s :=
    invariant_run (fun _ _ _ hs hop => attemptCounting_step hs hop) (attemptCounting_fresh u st ms) hops hr
  obtain ⟨hrec, hc⟩ := h.shared
  have hk := hrec.stored hj
  obtain ⟨k, hk', hkid, hmax⟩ := hk.submitted hc (JobStore.id_of_get hj)
  exact ⟨hmax ▸ hc.bound k hk' hkid, hk.retries, hc.single⟩

end Runs

section Sample

def retriedOnce : List JobOp :=
  [.submit (sampleRequest "a")] ++ jobTurns 0 5 0 ++ [.tick] ++ jobTurns 1 15 1 ++ jobTurns 2 5 2 ++
    [.turn 2 { sampleInputs 3 with engine := .joinError "panic" }] ++ jobTurns 2 4 4 ++
    [.restart, .tick] ++ jobTurns 0 15 6000 ++ jobTurns 1 12 6001

theorem job_attempts_bounded_sample :
    ∃ s j, run (jobStep sampleRuntime sampleSettings) sampleJobs retriedOnce = some s ∧
      s.shared.store.get (sampleJobId "a" 0) = some j ∧ j.status = .completed ∧
      s.shared.started.count (sampleJobId "a" 0) = 2 ∧
      s.shared.started.count (sampleJobId "a" 0) ≤ j.maxRetries.toNat + 1 ∧
      j.retryCount ≤ j.maxRetries ∧ s.shared.succeeded.count (sampleJobId "a" 0) ≤ 1 := by
  have hops : Along (jobStep sampleRuntime sampleSettings)
      (JobOp.LocalOnce sampleRuntime sampleSettings) sampleJobs retriedOnce := by decide +kernel
  obtain ⟨s, hs, hstored, hcount⟩ := exists_of_any
    (o := run (jobStep sampleRuntime sampleSettings) sampleJobs retriedOnce)
    (Q := fun s =>
      (s.shared.store.get (sampleJobId "a" 0)).any (fun j => decide (j.status = .completed)) = true ∧
        s.shared.started.count (sampleJobId "a" 0) = 2)
    (by decide +kernel)
  obtain ⟨j, hj, hcompleted⟩ := (Option.any_eq_true _ _).mp hstored
  exact ⟨s, j, hs, hj, of_decide_eq_true hcompleted, hcount, job_attempts_bounded hops hs hj⟩

end Sample

end Onvm
