import Onvm.JobAttempts

/-! Request ids. The id of a job mixes the request id with the program and the
millisecond of the submission, so a request id names one job exactly as long as its
submissions agree in both. Broadcasts share store and index with local jobs. -/

namespace Onvm

open ByteString OrderedStore Interleaving Runs Std

namespace Job

def idInput (j : Job) : Bytes :=
  j.requestBytes ++ j.programId.bytes.bytes ++ littleEndian 8 j.createdAt.toNat

variable {a b : Job}

theorem requestId_of_requestBytes (h : a.requestBytes = b.requestBytes) : a.requestId = b.requestId := by
  have hu : a.requestId.toUTF8 = b.requestId.toUTF8 := ByteArray.ext (Array.toList_inj.mp h)
  exact String.toByteArray_inj.mp hu

theorem idInput_injective (h : a.idInput = b.idInput) :
    a.requestId = b.requestId ∧ a.programId = b.programId ∧ a.createdAt = b.createdAt := by
  obtain ⟨h, htime⟩ := List.append_inj' h (by rw [length_littleEndian, length_littleEndian])
  have hlen : a.programId.bytes.bytes.length = b.programId.bytes.bytes.length := by
    rw [FixedBytes.length_bytes, FixedBytes.length_bytes]
  obtain ⟨hreq, hprog⟩ := List.append_inj' h hlen
  have hpid : a.programId = b.programId := congrArg ProgramId.mk (Subtype.ext hprog)
  have hnat : a.createdAt.toNat = b.createdAt.toNat :=
    littleEndian_injective a.createdAt.toNat_lt b.createdAt.toNat_lt htime
  exact ⟨requestId_of_requestBytes hreq, hpid, UInt64.toNat_inj.mp hnat⟩

theorem origin_requestId (h : a.origin = b.origin) : a.requestId = b.requestId :=
  congrArg Origin.requestId h

theorem origin_id (h : a.origin = b.origin) : a.id = b.id := congrArg Origin.id h

end Job

namespace JobNode

variable {pf : Platform} {s : JobNode}

def Stored (s : JobNode) (j : Job) : Prop := s.store.get j.id = some j

theorem stored_of_get {id : JobId} {j : Job} (h : s.store.get id = some j) : s.Stored j := by
  rw [Stored, JobStore.id_of_get h]
  exact h

def CollisionFree (pf : Platform) (s : JobNode) : Prop :=
  Set.InjOn pf.hashBytes { x | ∃ k ∈ s.submitted, k.idInput = x }

theorem Recorded.eq_of_id (h : s.Recorded pf) (hinj : s.CollisionFree pf) {a b : Job}
    (ha : a ∈ s.submitted) (hb : b ∈ s.submitted) (hid : a.id = b.id) :
    a.requestId = b.requestId ∧ a.programId = b.programId ∧ a.createdAt = b.createdAt := by
  rw [h.named a ha, h.named b hb] at hid
  have hhash : pf.hashBytes a.idInput = pf.hashBytes b.idInput := congrArg JobId.bytes hid
  exact Job.idInput_injective (hinj ⟨a, ha, rfl⟩ ⟨b, hb, rfl⟩ hhash)

theorem Recorded.id_eq (h : s.Recorded pf) {a b : Job} (ha : a ∈ s.submitted) (hb : b ∈ s.submitted)
    (hreq : a.requestId = b.requestId) (hprog : a.programId = b.programId)
    (htime : a.createdAt = b.createdAt) : a.id = b.id := by
  rw [h.named a ha, h.named b hb, hreq, hprog, htime]

theorem Known.exists_submitted {j : Job} (h : s.Known j) (hnone : s.replicated = []) :
    ∃ k ∈ s.submitted, k.origin = j.origin := by
  obtain ⟨k, hk, hkj⟩ := h.origin
  rcases hk with hk | hk
  · exact ⟨k, hk, hkj⟩
  · rw [hnone] at hk
    cases hk

theorem Recorded.exists_stored (h : s.Recorded pf) (hnone : s.replicated = [])
    (hinj : s.CollisionFree pf) {a : Job} (ha : a ∈ s.submitted) :
    ∃ j, s.store.get a.id = some j ∧ s.Stored j ∧ j.id = a.id ∧ j.requestId = a.requestId := by
  obtain ⟨j, hj⟩ := Option.isSome_iff_exists.mp (h.kept a (.inl ha))
  have hid : j.id = a.id := JobStore.id_of_get hj
  obtain ⟨k, hk, hkj⟩ := (h.stored hj).exists_submitted hnone
  have hka : k.id = a.id := (Job.origin_id hkj).trans hid
  exact ⟨j, hj, stored_of_get hj, hid,
    (Job.origin_requestId hkj).symm.trans (h.eq_of_id hinj hk ha hka).1⟩

end JobNode

section Runs

variable {pf : Platform} {cfg : JobSettings}

def homegrown : Annotation JobNode Process where
  shared s := s.replicated = []
  own _ p := p.fromPeer = false
  pair _ _ := True
  symm _ := trivial

theorem homegrown_step {s t : JobSystem} {op : JobOp} (h : homegrown.Holds s)
    (hop : op.isBroadcast = false) (ht : jobStep pf cfg s op = some t) : homegrown.Holds t := by
  cases jobStep_inv ht with
  | spawn hp => exact h.spawn (JobOp.spawned_local hp hop) fun _ => trivial
  | @turn n i p _ hp hturn =>
    refine h.turn hturn hp fun hpeer => ?_
    have hm := p.moves_act pf cfg s.shared i
    refine ⟨(Process.replicated_of_moves hm hpeer).trans h.shared, Process.fromPeer_of_moves hm hpeer, ?_,
      fun q hq _ => hq, fun _ _ _ => trivial⟩
    intro r hr
    obtain ⟨id, rfl⟩ := Effect.mem_spawned hr
    exact ⟨rfl, fun _ => trivial⟩
  | restart => exact ⟨h.shared, fun p hp => absurd hp (by simp), .nil⟩
  | outside _ => exact h.outside h.shared fun _ hp => hp

theorem no_replicas_of_run {u : UnifiedStore} {st : StateStore} {ms : ByteTree JobManifest}
    {ops : List JobOp} {s : JobSystem} (hlocal : ∀ op ∈ ops, op.isBroadcast = false)
    (hr : run (jobStep pf cfg) (.fresh u st ms) ops = some s) : s.shared.replicated = [] := by
  have hfresh : homegrown.Holds (JobSystem.fresh u st ms) :=
    ⟨rfl, fun p hp => absurd hp (by simp [JobSystem.fresh]), .nil⟩
  have hstep : ∀ s op t, homegrown.Holds s → JobOp.isBroadcast op = false → jobStep pf cfg s op = some t →
      homegrown.Holds t := fun _ _ _ => homegrown_step
  exact (invariant_run (P := fun _ op => JobOp.isBroadcast op = false) hstep hfresh
    (along_of_forall hlocal) hr).shared

/-- All submissions with a request id make one job, which the index returns to whoever was answered,
exactly if they are for one program and of one millisecond. -/
theorem request_id_unique_iff {u : UnifiedStore} {st : StateStore} {ms : ByteTree JobManifest}
    {ops : List JobOp} {s : JobSystem} (hlocal : ∀ op ∈ ops, op.isBroadcast = false)
    (hr : run (jobStep pf cfg) (.fresh u st ms) ops = some s) (hinj : s.shared.CollisionFree pf)
    (r : String) :
    ((∀ j k, s.shared.Stored j → s.shared.Stored k → j.requestId = r → k.requestId = r → j = k) ∧
      ∀ a ∈ s.shared.answered, a.requestId = r →
        ∃ j, s.shared.store.getByRequestId r = some j ∧ j.id = a.id ∧ j.requestId = r) ↔
    ∀ a ∈ s.shared.submitted, ∀ b ∈ s.shared.submitted, a.requestId = r → b.requestId = r →
      a.programId = b.programId ∧ a.createdAt = b.createdAt := by
  have hrec : s.shared.Recorded pf := (recordKeeping_run (recordKeeping_fresh u st ms) hr).shared
  have hnone := no_replicas_of_run hlocal hr
  constructor
  · rintro ⟨hone, -⟩ a ha b hb har hbr
    obtain ⟨j, -, hj, hja, hjr⟩ := hrec.exists_stored hnone hinj ha
    obtain ⟨k, -, hk, hkb, hkr⟩ := hrec.exists_stored hnone hinj hb
    have hjk := hone j k hj hk (hjr.trans har) (hkr.trans hbr)
    have hid : a.id = b.id := by rw [← hja, hjk, hkb]
    exact (hrec.eq_of_id hinj ha hb hid).2
  · intro hsame
    have hids : ∀ a ∈ s.shared.submitted, ∀ b ∈ s.shared.submitted, a.requestId = r → b.requestId = r →
        a.id = b.id := by
      intro a ha b hb har hbr
      obtain ⟨hprog, htime⟩ := hsame a ha b hb har hbr
      exact hrec.id_eq ha hb (har.trans hbr.symm) hprog htime
    refine ⟨?_, ?_⟩
    · intro j k hj hk hjr hkr
      obtain ⟨a, ha, haj⟩ := (hrec.stored hj).exists_submitted hnone
      obtain ⟨b, hb, hbk⟩ := (hrec.stored hk).exists_submitted hnone
      have hid := hids a ha b hb ((Job.origin_requestId haj).trans hjr)
        ((Job.origin_requestId hbk).trans hkr)
      rw [Job.origin_id haj, Job.origin_id hbk] at hid
      have hj' : s.shared.store.get j.id = some j := hj
      rw [hid, hk] at hj'
      exact (Option.some.inj hj').symm
    · intro a ha har
      obtain ⟨hsub, hsome⟩ := hrec.answered a ha
      obtain ⟨id, hid⟩ := Option.isSome_iff_exists.mp hsome
      obtain ⟨k, hk, hkr, rfl⟩ := hrec.indexed hid
      rcases hk with hk | hk
      swap
      · rw [hnone] at hk
        cases hk
      have hkr : k.requestId = r := (Job.requestId_of_requestBytes hkr).trans har
      obtain ⟨j, hget, -, hjk, hjr⟩ := hrec.exists_stored hnone hinj hk
      refine ⟨j, ?_, hjk.trans (hids k hk a hsub hkr har), hjr.trans hkr⟩
      have hindex : s.shared.store.byRequestId[r.toUTF8.data.toList]? = some k.id := by
        rw [← har]
        exact hid
      rw [JobStore.getByRequestId, hindex]
      exact hget

end Runs

section Sample

/-- One request id, submitted twice; the second time at `now`. -/
def submittedTwice (now : UInt64) : List JobOp :=
  [.submit (sampleRequest "a")] ++ jobTurns 0 5 0 ++ [.submit (sampleRequest "a")] ++ jobTurns 1 5 now

theorem request_id_unique_sample :
    ∃ s j, run (jobStep sampleRuntime sampleSettings) sampleJobs (submittedTwice 0) = some s ∧
      s.shared.submitted.length = 2 ∧ s.shared.answered.length = 2 ∧
      s.shared.store.getByRequestId "a" = some j ∧ s.shared.Stored j ∧
      ∀ k, s.shared.Stored k → k.requestId = "a" → j = k := by
  have hlocal : ∀ op ∈ submittedTwice 0, op.isBroadcast = false := by decide +kernel
  obtain ⟨s, hs, hsub, hanswered, hsame, hfound⟩ := exists_of_any
    (o := run (jobStep sampleRuntime sampleSettings) sampleJobs (submittedTwice 0))
    (Q := fun s => s.shared.submitted.length = 2 ∧ s.shared.answered.length = 2 ∧
      (∀ k ∈ s.shared.submitted, k.requestId = "a" ∧ k.programId = sampleProgram ∧ k.createdAt = 0) ∧
      (s.shared.store.getByRequestId "a").any (fun j => decide (s.shared.store.get j.id = some j ∧
        j.requestId = "a")) = true)
    (by decide +kernel)
  have hinj : s.shared.CollisionFree sampleRuntime := by
    rintro x ⟨a, ha, rfl⟩ y ⟨b, hb, rfl⟩ -
    obtain ⟨hra, hpa, hta⟩ := hsame a ha
    obtain ⟨hrb, hpb, htb⟩ := hsame b hb
    simp only [Job.idInput, Job.requestBytes, hra, hpa, hta, hrb, hpb, htb]
  have hone := (request_id_unique_iff hlocal hs hinj "a").mpr fun a ha b hb _ _ =>
    ⟨(hsame a ha).2.1.trans (hsame b hb).2.1.symm, (hsame a ha).2.2.trans (hsame b hb).2.2.symm⟩
  obtain ⟨j, hj, hfacts⟩ := (Option.any_eq_true _ _).mp hfound
  obtain ⟨hstored, hreq⟩ := of_decide_eq_true hfacts
  exact ⟨s, j, hs, hsub, hanswered, hj, hstored, fun k hk hkr => hone.1 j k hstored hk hreq hkr⟩

/-- Both submissions make a job, and the index returns only the second. -/
theorem request_id_makes_two_jobs :
    ∃ s j k, run (jobStep sampleRuntime sampleSettings) sampleJobs (submittedTwice 1) = some s ∧
      s.shared.Stored j ∧ s.shared.Stored k ∧ j.requestId = "a" ∧ k.requestId = "a" ∧ j.id ≠ k.id ∧
      s.shared.store.getByRequestId "a" = some k := by
  obtain ⟨s, hs, hboth⟩ := exists_of_any
    (o := run (jobStep sampleRuntime sampleSettings) sampleJobs (submittedTwice 1))
    (Q := fun s => (s.shared.store.get (sampleJobId "a" 0)).any (fun j =>
      (s.shared.store.get (sampleJobId "a" 1)).any fun k =>
        decide (j.requestId = "a" ∧ k.requestId = "a" ∧ j.id ≠ k.id ∧
          s.shared.store.getByRequestId "a" = some k)) = true)
    (by decide +kernel)
  obtain ⟨j, hj, hk⟩ := (Option.any_eq_true _ _).mp hboth
  obtain ⟨k, hk, hfacts⟩ := (Option.any_eq_true _ _).mp hk
  exact ⟨s, j, k, hs, JobNode.stored_of_get hj, JobNode.stored_of_get hk, of_decide_eq_true hfacts⟩

end Sample

end Onvm
