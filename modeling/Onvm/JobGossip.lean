import Onvm.JobRequests

/-! Broadcasts of peers. As long as no replicated record is pending and none shares an
id or a request id with a local job, replicated jobs are never begun and the index
returns local jobs for local request ids. -/

namespace Onvm

open ByteString OrderedStore Interleaving Runs Std

def RecordWrite.Apart (s : JobNode) (w : RecordWrite) : Prop :=
  (w.writer = .replication → w.job.status ≠ .pending ∧
    ∀ k ∈ s.submitted, k.id ≠ w.job.id ∧ k.requestId ≠ w.job.requestId) ∧
  (w.writer = .submission → ∀ k ∈ s.replicated, w.job.id ≠ k.id ∧ w.job.requestId ≠ k.requestId)

instance (s : JobNode) (w : RecordWrite) : Decidable (w.Apart s) := inferInstanceAs (Decidable (_ ∧ _))

namespace JobNode

variable (s t : JobNode)

def IsLocal (j : Job) : Prop := ∃ k ∈ s.submitted, k.origin = j.origin

structure Separate : Prop where
  apart : ∀ k ∈ s.submitted, ∀ k' ∈ s.replicated, k.id ≠ k'.id ∧ k.requestId ≠ k'.requestId
  pending : ∀ {id j}, s.store.get id = some j → j.status = .pending → s.IsLocal j
  started : ∀ id ∈ s.started, ∃ k ∈ s.submitted, k.id = id

variable {s t} {j k : Job}

theorem IsLocal.grow (h : s.IsLocal j) (hg : s.Grows t) : t.IsLocal j := by
  obtain ⟨k, hk, hkj⟩ := h
  exact ⟨k, hg.submitted k hk, hkj⟩

theorem IsLocal.of_origin (h : s.IsLocal k) (ho : j.origin = k.origin) : s.IsLocal j := by
  obtain ⟨o, hmem, hok⟩ := h
  exact ⟨o, hmem, hok.trans ho.symm⟩

theorem Separate.congr (h : s.Separate) (hst : t.store = s.store) (hsub : t.submitted = s.submitted)
    (hrep : t.replicated = s.replicated) (hstarted : t.started = s.started) : t.Separate := by
  refine ⟨?_, ?_, ?_⟩
  · rw [hsub, hrep]
    exact h.apart
  · intro id j hj hs
    rw [IsLocal, hsub]
    exact h.pending (hst ▸ hj) hs
  · rw [hsub, hstarted]
    exact h.started

theorem Separate.write {w : RecordWrite} (h : s.Separate) (hw : w.Apart s)
    (hpend : w.job.status = .pending → (s.writeJob w).IsLocal w.job)
    (hstart : w.writer = .start → ∃ k ∈ s.submitted, k.id = w.job.id) : (s.writeJob w).Separate := by
  have hg : s.Grows (s.writeJob w) := grows_apply (.writeJob w) s
  refine ⟨?_, ?_, ?_⟩
  · intro k hk k' hk'
    by_cases hsub : w.writer = .submission
    · simp only [writeJob, hsub, if_true, List.mem_append, List.mem_singleton] at hk
      simp only [writeJob, hsub, if_neg (show Writer.submission ≠ .replication by simp)] at hk'
      rcases hk with hk | rfl
      · exact h.apart k hk k' hk'
      · exact hw.2 hsub k' hk'
    · simp only [writeJob, if_neg hsub] at hk
      by_cases hrep : w.writer = .replication
      · simp only [writeJob, hrep, if_true, List.mem_append, List.mem_singleton] at hk'
        rcases hk' with hk' | rfl
        · exact h.apart k hk k' hk'
        · exact (hw.1 hrep).2 k hk
      · simp only [writeJob, if_neg hrep] at hk'
        exact h.apart k hk k' hk'
  · intro id j hj hs
    by_cases hid : w.job.id = id
    · have hget : (s.writeJob w).store.get id = some w.job := by
        rw [← hid]
        exact s.store.get_insertJob_self w.job
      rw [← Option.some.inj (hget.symm.trans hj)] at hs ⊢
      exact hpend hs
    · have hget : (s.writeJob w).store.get id = s.store.get id :=
        (s.store.get_insertJob w.job id).trans (if_neg hid)
      exact (h.pending (hget ▸ hj) hs).grow hg
  · intro id hid
    simp only [writeJob] at hid
    split at hid
    · rename_i hw'
      rcases List.mem_append.mp hid with hid | hid
      · obtain ⟨k, hk, hkid⟩ := h.started id hid
        exact ⟨k, hg.submitted k hk, hkid⟩
      · obtain ⟨k, hk, hkid⟩ := hstart hw'
        exact ⟨k, hg.submitted k hk, hkid.trans (List.mem_singleton.mp hid).symm⟩
    · obtain ⟨k, hk, hkid⟩ := h.started id hid
      exact ⟨k, hg.submitted k hk, hkid⟩

theorem Separate.isLocal (h : s.Separate) (hj : s.Known j) (hk : k ∈ s.submitted) (hid : j.id = k.id) :
    s.IsLocal j := by
  obtain ⟨o, ho, hoj⟩ := hj.origin
  rcases ho with ho | ho
  · exact ⟨o, ho, hoj⟩
  · exact absurd (hid.symm.trans (Job.origin_id hoj).symm) (h.apart k hk o ho).1

end JobNode

namespace Process

def attempting : Process → List Job
  | .mark seen => [seen]
  | .prepare job => [job]
  | .execute job _ _ => [job]
  | .storeOutput seen _ _ => [seen]
  | .applyWrites seen _ _ => [seen]
  | .conclude seen _ => [seen]
  | .index _ next => next.attempting
  | _ => []

variable {pf : Platform} {s : JobNode} {p q : Process} {e : Effect}

theorem attempting_of_moves (hs : s.Separate) (h : p.Moves pf s e q)
    (hp : ∀ j ∈ p.attempting, s.IsLocal j) : ∀ j ∈ q.attempting, s.IsLocal j := by
  intro j hj
  cases h with
  | @passed pass => cases pass <;> cases hj
  | loaded hget hst =>
    rw [List.mem_singleton.mp hj]
    exact hs.pending hget hst
  | marked hst hrev =>
    rw [List.mem_singleton.mp hj]
    exact (hp _ List.mem_cons_self).of_origin hrev.1
  | prepared => exact hp j hj
  | ended => exact hp j hj
  | succeeded => exact hp j hj
  | stored => exact hp j hj
  | wrote => exact hp j hj
  | applied => exact hp j hj
  | indexed => exact hp j hj
  | _ => cases hj

theorem separate_of_moves (hs : s.Separate) (h : p.Moves pf s e q) (hwf : p.Wf pf)
    (hp : ∀ j ∈ p.attempting, s.IsLocal j) (hw : ∀ w, e = .writeJob w → w.Apart s) :
    (e.apply s).Separate := by
  have hg : s.Grows (e.apply s) := JobNode.grows_apply e s
  cases h with
  | @inserted job =>
    refine hs.write (hw _ rfl) (fun _ => ⟨job, ?_, rfl⟩) fun h => by cases h
    simp [JobNode.writeJob]
  | replicated =>
    exact hs.write (hw _ rfl) (fun hpend => absurd hpend ((hw _ rfl).1 rfl).1) fun h => by cases h
  | cancelled hst => exact hs.write (hw _ rfl) (fun hpend => by simp [hst] at hpend) fun h => by cases h
  | forced hst => exact hs.write (hw _ rfl) (fun hpend => by simp [hst] at hpend) fun h => by cases h
  | expired hst => exact hs.write (hw _ rfl) (fun hpend => by simp [hst] at hpend) fun h => by cases h
  | failed hst => exact hs.write (hw _ rfl) (fun hpend => by simp [hst] at hpend) fun h => by cases h
  | @marked seen job hst hrev =>
    refine hs.write (hw _ rfl) (fun hpend => by simp [hst] at hpend) fun _ => ?_
    obtain ⟨k, hk, hkj⟩ := hp seen (by simp [attempting])
    exact ⟨k, hk, (Job.origin_id hkj).trans (Job.origin_id hrev.1).symm⟩
  | @concluded seen job =>
    refine hs.write (hw _ rfl) (fun _ => ?_) fun h => by cases h
    have ho := hwf.2.elim (fun h => h.1) (fun h => h.1.1)
    exact ((hp seen (by simp [attempting])).of_origin ho).grow hg
  | refused he => rcases he with rfl | ⟨u, rfl⟩ <;> exact hs.congr rfl rfl rfl rfl
  | received he => rcases he with rfl | ⟨u, rfl⟩ <;> exact hs.congr rfl rfl rfl rfl
  | indexed => exact ⟨hs.apart, hs.pending, hs.started⟩
  | _ => exact hs.congr rfl rfl rfl rfl

end Process

def localRuns (pf : Platform) : Annotation JobNode Process where
  shared s := s.Recorded pf ∧ s.Separate
  own s p := p.Sound pf s ∧ ∀ j ∈ p.attempting, s.IsLocal j
  pair _ _ := True
  symm _ := trivial

section Runs

variable {pf : Platform} {cfg : JobSettings}

theorem JobOp.attempting_of_spawned {op : JobOp} {p : Process} (hp : op.spawned = some p) :
    p.attempting = [] := by
  cases op <;> cases hp <;> rfl

theorem localRuns_step {s t : JobSystem} {op : JobOp} (h : (localRuns pf).Holds s)
    (hop : ∀ w ∈ op.write? pf cfg s, w.Apart s.shared) (ht : jobStep pf cfg s op = some t) :
    (localRuns pf).Holds t := by
  obtain ⟨hrec, hsep⟩ := h.shared
  cases jobStep_inv ht with
  | spawn hp => exact h.spawn ⟨.of_spawned hp, by simp [JobOp.attempting_of_spawned hp]⟩ fun _ => trivial
  | @turn n i p _ hp hturn =>
    refine h.turn hturn hp fun hown => ?_
    obtain ⟨hsound, hlocal⟩ := hown
    have hm := p.moves_act pf cfg s.shared i
    have hg := JobNode.grows_apply (p.act pf cfg s.shared i).1 s.shared
    have hw : ∀ w, (p.act pf cfg s.shared i).1 = .writeJob w → w.Apart s.shared := by
      intro w hw
      refine hop w ?_
      simp only [JobOp.write?, hp, Option.bind_some, hw]
      rfl
    refine ⟨⟨Process.recorded_of_moves hrec hm hsound, Process.separate_of_moves hsep hm hsound.wf hlocal hw⟩,
      ⟨hsound.next hrec hm, fun j hj => (Process.attempting_of_moves hsep hm hlocal j hj).grow hg⟩, ?_,
      fun q hq _ => ⟨hq.1.grow hg, fun j hj => (hq.2 j hj).grow hg⟩, fun _ _ _ => trivial⟩
    intro r hr
    obtain ⟨id, rfl⟩ := Effect.mem_spawned hr
    exact ⟨⟨.of_empty trivial rfl trivial, by simp [Process.attempting]⟩, fun _ => trivial⟩
  | restart =>
    exact ⟨⟨hrec.congr rfl rfl rfl rfl, hsep.congr rfl rfl rfl rfl⟩, fun p hp => absurd hp (by simp), .nil⟩
  | outside _ =>
    refine h.outside ⟨hrec.congr rfl rfl rfl rfl, hsep.congr rfl rfl rfl rfl⟩ fun p hp => ?_
    exact ⟨hp.1.grow ⟨fun k hk => hk, fun k hk => hk, fun r hr => hr⟩, hp.2⟩

/-- Only local jobs are begun, and the request id of an answered submission leads to a local job. -/
theorem job_gossip_inert {u : UnifiedStore} {st : StateStore} {ms : ByteTree JobManifest}
    {ops : List JobOp} {s : JobSystem}
    (hops : Along (jobStep pf cfg) (fun s op => ∀ w ∈ op.write? pf cfg s, w.Apart s.shared)
      (.fresh u st ms) ops)
    (hr : run (jobStep pf cfg) (.fresh u st ms) ops = some s) :
    (∀ id ∈ s.shared.started, ∃ k ∈ s.shared.submitted, k.id = id) ∧
      ∀ a ∈ s.shared.answered,
        ∃ j, s.shared.store.getByRequestId a.requestId = some j ∧ s.shared.IsLocal j := by
  have hfresh : (localRuns pf).Holds (JobSystem.fresh u st ms) := by
    refine ⟨⟨(recordKeeping_fresh u st ms).shared, ⟨?_, ?_, ?_⟩⟩,
      fun p hp => absurd hp (by simp [JobSystem.fresh]), .nil⟩
    · exact fun k hk => absurd hk (by simp [JobSystem.fresh, JobNode.fresh])
    · exact fun hj => absurd hj (by simp [JobSystem.fresh, JobNode.fresh])
    · exact fun id hid => absurd hid (by simp [JobSystem.fresh, JobNode.fresh])
  have hend : (localRuns pf).Holds s :=
    invariant_run (fun _ _ _ hs hop ht => localRuns_step hs hop ht) hfresh hops hr
  obtain ⟨hrec, hsep⟩ := hend.shared
  refine ⟨hsep.started, fun a ha => ?_⟩
  obtain ⟨hsub, hsome⟩ := hrec.answered a ha
  obtain ⟨id, hid⟩ := Option.isSome_iff_exists.mp hsome
  obtain ⟨k, hk, hkr, rfl⟩ := hrec.indexed hid
  rcases hk with hk | hk
  · obtain ⟨j, hj⟩ := Option.isSome_iff_exists.mp (hrec.kept k (.inl hk))
    refine ⟨j, ?_, hsep.isLocal (hrec.stored hj) hk (JobStore.id_of_get hj)⟩
    rw [JobStore.getByRequestId]
    exact Option.bind_eq_some_iff.mpr ⟨k.id, hid, hj⟩
  · exact absurd (Job.requestId_of_requestBytes hkr).symm (hsep.apart a hsub k hk).2

end Runs

section Sample

def sampleDescriptor (requestId : String) (status : JobStatus) : JobDescriptor :=
  ⟨.ofByte 32 5, requestId, sampleProgram, none, none, status, 0, 0, none, none, none, none, []⟩

def gossipedBefore : List JobOp :=
  [.broadcast (sampleDescriptor "b" .completed)] ++ jobTurns 0 3 0 ++ [.submit (sampleRequest "a")] ++
    jobTurns 1 5 1 ++ [.tick] ++ jobTurns 2 18 2 ++ jobTurns 3 12 3

theorem job_gossip_inert_sample :
    ∃ s, run (jobStep sampleRuntime sampleSettings) sampleJobs gossipedBefore = some s ∧
      s.shared.replicated.length = 1 ∧ s.shared.started = [sampleJobId "a" 1] ∧
      (∃ k ∈ s.shared.submitted, k.id = sampleJobId "a" 1) ∧
      ∀ a ∈ s.shared.answered,
        ∃ j, s.shared.store.getByRequestId a.requestId = some j ∧ s.shared.IsLocal j := by
  have hops : Along (jobStep sampleRuntime sampleSettings)
      (fun s op => ∀ w ∈ op.write? sampleRuntime sampleSettings s, w.Apart s.shared)
      sampleJobs gossipedBefore := by decide +kernel
  obtain ⟨s, hs, hrep, hstarted⟩ := exists_of_any
    (o := run (jobStep sampleRuntime sampleSettings) sampleJobs gossipedBefore)
    (Q := fun s => s.shared.replicated.length = 1 ∧ s.shared.started = [sampleJobId "a" 1])
    (by decide +kernel)
  obtain ⟨hlocal, hindex⟩ := job_gossip_inert hops hs
  exact ⟨s, hs, hrep, hstarted, hlocal _ (by simp [hstarted]), hindex⟩

def pendingGossip : List JobOp :=
  [.broadcast (sampleDescriptor "b" .pending)] ++ jobTurns 0 3 0 ++ [.tick] ++ jobTurns 1 15 1 ++ jobTurns 2 12 2

def borrowedRequestId : List JobOp :=
  [.submit (sampleRequest "a")] ++ jobTurns 0 5 0 ++ [.broadcast (sampleDescriptor "a" .completed)] ++
    jobTurns 1 3 1

/-- The node runs a job that was never submitted to it, and returns a peer's job for a request id of
its own. -/
theorem job_gossip_not_inert :
    (∃ s, run (jobStep sampleRuntime sampleSettings) sampleJobs pendingGossip = some s ∧
      s.shared.submitted = [] ∧ s.shared.started = [⟨.ofByte 32 5⟩] ∧
      s.shared.succeeded = [⟨.ofByte 32 5⟩]) ∧
    ∃ s, run (jobStep sampleRuntime sampleSettings) sampleJobs borrowedRequestId = some s ∧
      s.shared.answered.map (·.requestId) = ["a"] ∧ s.shared.submitted.map (·.id) = [sampleJobId "a" 0] ∧
      (s.shared.store.getByRequestId "a").map (·.id) = some ⟨.ofByte 32 5⟩ ∧
      sampleJobId "a" 0 ≠ ⟨.ofByte 32 5⟩ := by
  refine ⟨?_, ?_⟩
  · exact exists_of_any
      (o := run (jobStep sampleRuntime sampleSettings) sampleJobs pendingGossip)
      (Q := fun s => s.shared.submitted = [] ∧ s.shared.started = [⟨.ofByte 32 5⟩] ∧
        s.shared.succeeded = [⟨.ofByte 32 5⟩])
      (by decide +kernel)
  · exact exists_of_any
      (o := run (jobStep sampleRuntime sampleSettings) sampleJobs borrowedRequestId)
      (Q := fun s => s.shared.answered.map (·.requestId) = ["a"] ∧
        s.shared.submitted.map (·.id) = [sampleJobId "a" 0] ∧
        (s.shared.store.getByRequestId "a").map (·.id) = some ⟨.ofByte 32 5⟩ ∧
        sampleJobId "a" 0 ≠ ⟨.ofByte 32 5⟩)
      (by decide +kernel)

end Sample

end Onvm
