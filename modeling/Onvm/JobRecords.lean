import Onvm.JobMoves

/-! What holds of the job system in every run: each process carries records in the
status its point of the code implies, each record goes back to a submission or a
broadcast, and the index by request id leads to a record. -/

namespace Onvm

open ByteString OrderedStore Interleaving Runs Std

namespace Process

def Wf (pf : Platform) : Process → Prop
  | .insert job =>
    job.status = .pending ∧ job.retryCount = 0 ∧
      job.id = JobId.new pf job.requestId job.programId job.createdAt
  | .writeCancel seen => ¬ seen.isTerminal
  | .scan pass _ found => ∀ j ∈ found, j.status = pass.status
  | .visit pass _ jobs => ∀ j ∈ jobs, j.status = pass.status
  | .mark seen => seen.status = .pending
  | .prepare job => job.status = .running
  | .execute job _ _ => job.status = .running
  | .storeOutput seen job _ => seen.status = .running ∧ job.Revises seen
  | .applyWrites seen job _ => seen.status = .running ∧ job.Revises seen ∧ job.isTerminal
  | .conclude seen job =>
    seen.status = .running ∧ (job.Retries seen ∨ job.Revises seen ∧ job.isTerminal)
  | .index job next => next.Wf pf ∧ ∀ k, next = .push k → k = job
  | _ => True

def held : Process → List Job
  | .push job => [job]
  | .writeCancel seen => [seen]
  | .scan _ _ found => found
  | .visit _ _ jobs => jobs
  | .mark seen => [seen]
  | .prepare job => [job]
  | .execute job _ _ => [job]
  | .storeOutput seen job _ => [seen, job]
  | .applyWrites seen job _ => [seen, job]
  | .conclude seen job => [seen, job]
  | .fail seen _ => [seen]
  | .index job next => job :: next.held
  | _ => []

def submits : Process → List Job
  | .push job => [job]
  | .index _ next => next.submits
  | _ => []

variable {pf : Platform} {s : JobNode} {p q : Process} {e : Effect}

theorem wf_of_moves (h : p.Moves pf s e q) (hp : p.Wf pf) : q.Wf pf := by
  cases h with
  | created hs hr hid => exact ⟨hs, hr, hid⟩
  | inserted => exact ⟨trivial, fun k hk => by cases hk; rfl⟩
  | readCancelled hget hterm => exact hterm
  | cancelled => exact ⟨trivial, fun k hk => by cases hk⟩
  | replicated => exact ⟨trivial, fun k hk => by cases hk⟩
  | scanned hfound =>
    intro j hj
    rcases hfound j hj with hj | ⟨-, hj⟩
    · exact hp j hj
    · exact hj
  | listed hjobs => exact fun j hj => hp j (hjobs j hj)
  | @passed pass =>
    cases pass with
    | enqueue => exact fun j hj => absurd hj (by simp)
    | timeouts => exact fun j hj => absurd hj (by simp)
    | expiry => trivial
  | queued => exact fun j hj => hp j (by simp [hj])
  | skipped => exact fun j hj => hp j (by simp [hj])
  | forced => exact ⟨fun j hj => hp j (by simp [hj]), fun k hk => by cases hk⟩
  | expired => exact ⟨fun j hj => hp j (by simp [hj]), fun k hk => by cases hk⟩
  | loaded hget hs => exact hs
  | marked hs hrev => exact ⟨hs, fun k hk => by cases hk⟩
  | prepared => exact hp
  | ended h => exact ⟨hp, h⟩
  | succeeded hrev => exact ⟨hp, hrev⟩
  | stored hrev ht => exact ⟨hp.1, ⟨hrev.1.trans hp.2.1, hrev.2.trans hp.2.2⟩, ht⟩
  | wrote => exact hp
  | applied => exact ⟨hp.1, .inr hp.2⟩
  | concluded => exact ⟨trivial, fun k hk => by cases hk⟩
  | failed => exact ⟨trivial, fun k hk => by cases hk⟩
  | indexed => exact hp.1
  | _ => trivial

end Process

def RecordWrite.Sound (w : RecordWrite) : Prop :=
  match w.writer, w.seen with
  | .submission, none => w.job.status = .pending
  | .replication, none => True
  | .start, some seen => seen.status = .pending ∧ w.job.status = .running ∧ w.job.Revises seen
  | .conclusion, some seen =>
    seen.status = .running ∧ (w.job.Retries seen ∨ w.job.Revises seen ∧ w.job.isTerminal)
  | .schedulerError, some seen => w.job.status = .failed ∧ w.job.Revises seen
  | .forcedTimeout, some seen => seen.status = .running ∧ w.job.status = .timedOut ∧ w.job.Revises seen
  | .expiry, some seen => seen.status = .pending ∧ w.job.status = .expired ∧ w.job.Revises seen
  | .cancellation, some seen => ¬ seen.isTerminal ∧ w.job.status = .cancelled ∧ w.job.Revises seen
  | _, _ => False

theorem Process.sound_of_moves {pf : Platform} {s : JobNode} {p q : Process} {w : RecordWrite}
    (h : p.Moves pf s (.writeJob w) q) (hp : p.Wf pf) : w.Sound := by
  cases h with
  | inserted => exact hp.1
  | cancelled hs hrev => exact ⟨hp, hs, hrev⟩
  | replicated => trivial
  | forced hs hrev => exact ⟨hp _ (by simp), hs, hrev⟩
  | expired hs hrev => exact ⟨hp _ (by simp), hs, hrev⟩
  | marked hs hrev => exact ⟨hp, hs, hrev⟩
  | concluded => exact hp
  | failed hs hrev => exact ⟨hs, hrev⟩
  | refused he => simp at he
  | received he => simp at he

def Job.requestBytes (j : Job) : Bytes := j.requestId.toUTF8.data.toList

namespace JobNode

variable (s t : JobNode)

def Inserted (k : Job) : Prop := k ∈ s.submitted ∨ k ∈ s.replicated

/-- The record of an inserted job, after changes. -/
structure Known (j : Job) : Prop where
  origin : ∃ k, s.Inserted k ∧ k.origin = j.origin
  retries : j.retryCount ≤ j.maxRetries

/-- History and index only grow. -/
structure Grows : Prop where
  submitted : ∀ k ∈ s.submitted, k ∈ t.submitted
  replicated : ∀ k ∈ s.replicated, k ∈ t.replicated
  indexed : ∀ r : Bytes, (s.store.byRequestId[r]?).isSome → (t.store.byRequestId[r]?).isSome

structure Recorded (pf : Platform) : Prop where
  stored : ∀ {id j}, s.store.get id = some j → s.Known j
  kept : ∀ k, s.Inserted k → (s.store.get k.id).isSome
  indexed : ∀ {r : Bytes} {id}, s.store.byRequestId[r]? = some id →
    ∃ k, s.Inserted k ∧ k.requestBytes = r ∧ k.id = id
  answered : ∀ k ∈ s.answered, k ∈ s.submitted ∧ (s.store.byRequestId[k.requestBytes]?).isSome
  named : ∀ k ∈ s.submitted, k.id = JobId.new pf k.requestId k.programId k.createdAt

variable {s t} {j k : Job}

theorem Known.revise (h : s.Known k) (hr : j.Revises k) : s.Known j := by
  obtain ⟨⟨o, ho, hok⟩, hle⟩ := h
  refine ⟨⟨o, ho, hok.trans hr.1.symm⟩, ?_⟩
  rw [hr.2, show j.maxRetries = k.maxRetries from congrArg Job.Origin.maxRetries hr.1]
  exact hle

theorem toNat_succ_of_lt {a b : UInt32} (h : a < b) : (a + 1).toNat = a.toNat + 1 := by
  have hlt : a.toNat < b.toNat := h
  have hb : b.toNat < 2 ^ 32 := b.toNat_lt
  rw [UInt32.toNat_add, show (1 : UInt32).toNat = 1 from rfl]
  omega

theorem Known.retry (h : s.Known k) (hr : j.Retries k) : s.Known j := by
  obtain ⟨⟨o, ho, hok⟩, -⟩ := h
  obtain ⟨horigin, hlt, hcount, -⟩ := hr
  refine ⟨⟨o, ho, hok.trans horigin.symm⟩, ?_⟩
  have hmax : j.maxRetries = k.maxRetries := congrArg Job.Origin.maxRetries horigin
  have hsucc : j.retryCount.toNat = k.retryCount.toNat + 1 := by rw [hcount, toNat_succ_of_lt hlt]
  have hlt' : k.retryCount.toNat < k.maxRetries.toNat := hlt
  show j.retryCount.toNat ≤ j.maxRetries.toNat
  rw [hmax]
  omega

theorem Known.grow (h : s.Known j) (hg : s.Grows t) : t.Known j := by
  obtain ⟨⟨o, ho, hoj⟩, hle⟩ := h
  exact ⟨⟨o, ho.imp (hg.submitted o) (hg.replicated o), hoj⟩, hle⟩

theorem grows_apply (e : Effect) (s : JobNode) : s.Grows (e.apply s) := by
  cases e with
  | writeJob w =>
    refine ⟨fun k hk => ?_, fun k hk => ?_, fun r hr => hr⟩
    · simp only [Effect.apply, writeJob]
      split
      · exact List.mem_append_left _ hk
      · exact hk
    · simp only [Effect.apply, writeJob]
      split
      · exact List.mem_append_left _ hk
      · exact hk
  | writeIndex job =>
    refine ⟨fun k hk => hk, fun k hk => hk, fun r hr => ?_⟩
    simp only [Effect.apply, JobStore.insertIndex, ExtTreeMap.getElem?_insert]
    split
    · rfl
    · exact hr
  | _ => exact ⟨fun k hk => hk, fun k hk => hk, fun r hr => hr⟩

theorem known_write {w : RecordWrite} (hw : w.Sound) (hseen : ∀ j, w.seen = some j → s.Known j)
    (hnew : w.seen = none → w.job.retryCount = 0) : (s.writeJob w).Known w.job := by
  have hg : s.Grows (s.writeJob w) := grows_apply (.writeJob w) s
  obtain ⟨writer, seen, job⟩ := w
  cases seen with
  | none =>
    have hr : job.retryCount = 0 := hnew rfl
    refine ⟨⟨job, ?_, rfl⟩, ?_⟩
    · cases writer with
      | submission => exact .inl (by simp [writeJob])
      | replication => exact .inr (by simp [writeJob])
      | _ => exact hw.elim
    · show job.retryCount ≤ job.maxRetries
      rw [hr]
      exact UInt32.zero_le
  | some old =>
    have hold : s.Known old := hseen old rfl
    refine Known.grow ?_ hg
    cases writer with
    | submission => exact hw.elim
    | replication => exact hw.elim
    | start => exact hold.revise hw.2.2
    | conclusion => exact hw.2.elim hold.retry fun h => hold.revise h.1
    | schedulerError => exact hold.revise hw.2
    | forcedTimeout => exact hold.revise hw.2.2
    | expiry => exact hold.revise hw.2.2
    | cancellation => exact hold.revise hw.2.2

theorem inserted_writeJob {w : RecordWrite} : (s.writeJob w).Inserted k → s.Inserted k ∨ k = w.job := by
  rintro (h | h)
  all_goals
    simp only [writeJob] at h
    split at h
    · rcases List.mem_append.mp h with h | h
      · first | exact .inl (.inl h) | exact .inl (.inr h)
      · exact .inr (List.mem_singleton.mp h)
    · first | exact .inl (.inl h) | exact .inl (.inr h)

theorem Inserted.grow (h : s.Inserted k) (hg : s.Grows t) : t.Inserted k :=
  h.imp (hg.submitted k) (hg.replicated k)

theorem requestBytes_of_origin (h : j.origin = k.origin) : j.requestBytes = k.requestBytes := by
  have hr : j.requestId = k.requestId := congrArg Job.Origin.requestId h
  rw [Job.requestBytes, hr, Job.requestBytes]

namespace Recorded

variable {pf : Platform}

theorem congr (h : s.Recorded pf) (hst : t.store = s.store) (hsub : t.submitted = s.submitted)
    (hrep : t.replicated = s.replicated) (hans : t.answered = s.answered) : t.Recorded pf := by
  have hg : s.Grows t := ⟨fun k hk => hsub ▸ hk, fun k hk => hrep ▸ hk, fun r hr => hst ▸ hr⟩
  have hback : ∀ k, t.Inserted k → s.Inserted k := fun k hk => hk.imp (hsub ▸ ·) (hrep ▸ ·)
  refine ⟨fun hj => (h.stored (hst ▸ hj)).grow hg, fun k hk => hst ▸ h.kept k (hback k hk), ?_, ?_, ?_⟩
  · intro r id hr
    obtain ⟨k, hk, hkr⟩ := h.indexed (hst ▸ hr)
    exact ⟨k, hk.grow hg, hkr⟩
  · intro k hk
    obtain ⟨hmem, hsome⟩ := h.answered k (hans ▸ hk)
    exact ⟨hg.submitted k hmem, hst ▸ hsome⟩
  · exact fun k hk => h.named k (hsub ▸ hk)

theorem write {w : RecordWrite} (h : s.Recorded pf) (hk : (s.writeJob w).Known w.job)
    (hid : w.writer = .submission → w.job.id = JobId.new pf w.job.requestId w.job.programId w.job.createdAt) :
    (s.writeJob w).Recorded pf := by
  have hg : s.Grows (s.writeJob w) := grows_apply (.writeJob w) s
  have hget : ∀ id, (s.writeJob w).store.get id = if w.job.id = id then some w.job else s.store.get id :=
    s.store.get_insertJob w.job
  refine ⟨?_, ?_, ?_, fun k hk => (h.answered k hk).imp_left (hg.submitted k), ?_⟩
  · intro id j hj
    rw [hget] at hj
    by_cases he : w.job.id = id
    · rw [if_pos he] at hj
      exact Option.some.inj hj ▸ hk
    · rw [if_neg he] at hj
      exact (h.stored hj).grow hg
  · intro k hkin
    rw [hget]
    by_cases he : w.job.id = k.id
    · rw [if_pos he]
      rfl
    · rw [if_neg he]
      rcases inserted_writeJob hkin with hin | rfl
      · exact h.kept k hin
      · exact absurd rfl he
  · intro r id hr
    obtain ⟨k, hkin, hkr⟩ := h.indexed hr
    exact ⟨k, hkin.grow hg, hkr⟩
  · intro k hkin
    by_cases hw : w.writer = .submission
    · simp only [writeJob, hw, if_true, List.mem_append, List.mem_singleton] at hkin
      rcases hkin with hkin | rfl
      · exact h.named k hkin
      · exact hid hw
    · simp only [writeJob, hw, if_false] at hkin
      exact h.named k hkin

theorem index (h : s.Recorded pf) (hj : s.Known j) :
    ({ s with store := s.store.insertIndex j } : JobNode).Recorded pf := by
  have hg : s.Grows { s with store := s.store.insertIndex j } := grows_apply (.writeIndex j) s
  refine ⟨fun hget => (h.stored hget).grow hg, h.kept, ?_,
    fun k hk => (h.answered k hk).imp (hg.submitted k) (hg.indexed _), h.named⟩
  intro r id hr
  simp only [JobStore.insertIndex, ExtTreeMap.getElem?_insert] at hr
  by_cases hc : compare j.requestId.toUTF8.data.toList r = .eq
  · rw [if_pos hc] at hr
    obtain ⟨k, hk, hkj⟩ := hj.origin
    refine ⟨k, hk.grow hg, ?_, ?_⟩
    · rw [requestBytes_of_origin hkj]
      exact Std.LawfulEqOrd.eq_of_compare hc
    · exact (congrArg Job.Origin.id hkj).trans (Option.some.inj hr)
  · rw [if_neg hc] at hr
    obtain ⟨k, hk, hkr⟩ := h.indexed hr
    exact ⟨k, hk.grow hg, hkr⟩

theorem push (h : s.Recorded pf) (hk : j ∈ s.submitted) (hj : (s.store.byRequestId[j.requestBytes]?).isSome) :
    (Effect.apply s (.pushSubmitted j)).Recorded pf := by
  have hg : s.Grows (Effect.apply s (.pushSubmitted j)) := grows_apply (.pushSubmitted j) s
  refine ⟨fun hget => (h.stored hget).grow hg, h.kept, ?_, ?_, h.named⟩
  · intro r id hr
    obtain ⟨k, hk, hkr⟩ := h.indexed hr
    exact ⟨k, hk.grow hg, hkr⟩
  · intro k hmem
    rcases List.mem_append.mp hmem with hmem | hmem
    · exact h.answered k hmem
    · rw [List.mem_singleton.mp hmem]
      exact ⟨hk, hj⟩

end Recorded

end JobNode

namespace Process

def Indexed (s : JobNode) : Process → Prop
  | .push job => (s.store.byRequestId[job.requestBytes]?).isSome
  | _ => True

/-- What holds of a process beside the shared state. -/
structure Sound (pf : Platform) (s : JobNode) (p : Process) : Prop where
  wf : p.Wf pf
  held : ∀ j ∈ p.held, s.Known j
  submits : ∀ k ∈ p.submits, k ∈ s.submitted
  indexed : p.Indexed s

variable {pf : Platform} {s t : JobNode} {p q : Process} {e : Effect}

theorem Sound.grow (h : p.Sound pf s) (hg : s.Grows t) : p.Sound pf t := by
  refine ⟨h.wf, fun j hj => (h.held j hj).grow hg, fun k hk => hg.submitted k (h.submits k hk), ?_⟩
  have hi := h.indexed
  cases p with
  | push job => exact hg.indexed _ hi
  | _ => trivial

theorem known_of_moves {w : RecordWrite} (h : p.Moves pf s (.writeJob w) q) (hp : p.Sound pf s) :
    (s.writeJob w).Known w.job := by
  refine JobNode.known_write (sound_of_moves h hp.wf) ?_ ?_
  · intro j hj
    cases h with
    | refused he => simp at he
    | received he => simp at he
    | inserted => cases hj
    | replicated => cases hj
    | _ => cases hj; exact hp.held _ (by simp [Process.held])
  · intro hnone
    cases h with
    | refused he => simp at he
    | received he => simp at he
    | inserted => exact hp.wf.2.1
    | replicated => rfl
    | _ => cases hnone

theorem held_of_moves (hs : s.Recorded pf) (h : p.Moves pf s e q) (hp : p.Sound pf s) :
    ∀ j ∈ q.held, (e.apply s).Known j := by
  have hg : s.Grows (e.apply s) := JobNode.grows_apply e s
  have hold : ∀ j ∈ p.held, (e.apply s).Known j := fun j hj => (hp.held j hj).grow hg
  intro j hj
  cases h with
  | inserted =>
    have hk := known_of_moves .inserted hp
    simp only [held, List.mem_cons, List.not_mem_nil, or_false, or_self] at hj
    exact hj ▸ hk
  | readCancelled hget =>
    simp only [held, List.mem_singleton] at hj
    exact hj ▸ hs.stored hget
  | cancelled hst hrev =>
    have hk := known_of_moves (.cancelled hst hrev) hp
    simp only [held, List.mem_singleton] at hj
    exact hj ▸ hk
  | replicated =>
    have hk := known_of_moves .replicated hp
    simp only [held, List.mem_singleton] at hj
    exact hj ▸ hk
  | scanned hfound =>
    rcases hfound j hj with hj | ⟨hget, -⟩
    · exact hold j hj
    · exact hs.stored hget
  | listed hjobs => exact hold j (hjobs j hj)
  | @passed pass => cases pass <;> simp [afterPass, held] at hj
  | queued => exact hold j (List.mem_cons_of_mem _ hj)
  | skipped => exact hold j (List.mem_cons_of_mem _ hj)
  | forced hst hrev =>
    have hk := known_of_moves (.forced hst hrev) hp
    rcases List.mem_cons.mp hj with rfl | hj
    · exact hk
    · exact hold j (List.mem_cons_of_mem _ hj)
  | expired hst hrev =>
    have hk := known_of_moves (.expired hst hrev) hp
    rcases List.mem_cons.mp hj with rfl | hj
    · exact hk
    · exact hold j (List.mem_cons_of_mem _ hj)
  | loaded hget =>
    simp only [held, List.mem_singleton] at hj
    exact hj ▸ hs.stored hget
  | marked hst hrev =>
    have hk := known_of_moves (.marked hst hrev) hp
    simp only [held, List.mem_cons, List.not_mem_nil, or_false, or_self] at hj
    exact hj ▸ hk
  | prepared => exact hold j hj
  | @ended seen _ _ job hcase =>
    have hseen := hold seen (by simp [held])
    simp only [held, List.mem_cons, List.not_mem_nil, or_false] at hj
    rcases hj with rfl | rfl
    · exact hseen
    · exact hcase.elim hseen.retry fun hc => hseen.revise hc.1
  | @succeeded seen _ _ job _ hrev =>
    have hseen := hold seen (by simp [held])
    simp only [held, List.mem_cons, List.not_mem_nil, or_false] at hj
    rcases hj with rfl | rfl
    · exact hseen
    · exact hseen.revise hrev
  | @stored seen job job' _ _ _ hrev =>
    simp only [held, List.mem_cons, List.not_mem_nil, or_false] at hj
    rcases hj with rfl | rfl
    · exact hold j (by simp [held])
    · exact (hold job (by simp [held])).revise hrev
  | wrote => exact hold j hj
  | applied => exact hold j hj
  | @concluded seen job =>
    have hk := known_of_moves .concluded hp
    simp only [held, List.mem_singleton] at hj
    exact hj ▸ hk
  | reported hget =>
    simp only [held, List.mem_singleton] at hj
    exact hj ▸ hs.stored hget
  | failed hst hrev =>
    have hk := known_of_moves (.failed hst hrev) hp
    simp only [held, List.mem_singleton] at hj
    exact hj ▸ hk
  | indexed => exact hold j (List.mem_cons_of_mem _ hj)
  | _ => simp [held] at hj

theorem submits_of_moves (h : p.Moves pf s e q) (hp : ∀ k ∈ p.submits, k ∈ s.submitted) :
    ∀ k ∈ q.submits, k ∈ (e.apply s).submitted := by
  intro k hk
  cases h with
  | inserted => exact List.mem_append_right _ hk
  | indexed => exact hp k hk
  | @passed pass => cases pass <;> cases hk
  | _ => cases hk

theorem indexed_of_moves (h : p.Moves pf s e q) (hp : p.Wf pf) : q.Indexed (e.apply s) := by
  cases h with
  | @indexed job =>
    cases q with
    | push k =>
      have hk : k = job := hp.2 k rfl
      simp [Indexed, Effect.apply, JobStore.insertIndex, hk, Job.requestBytes]
    | _ => trivial
  | @passed pass => cases pass <;> trivial
  | _ => trivial

theorem Sound.next (hp : p.Sound pf s) (hs : s.Recorded pf) (h : p.Moves pf s e q) :
    q.Sound pf (e.apply s) :=
  ⟨wf_of_moves h hp.wf, held_of_moves hs h hp, submits_of_moves h hp.submits, indexed_of_moves h hp.wf⟩

theorem recorded_of_moves (hs : s.Recorded pf) (h : p.Moves pf s e q) (hp : p.Sound pf s) :
    (e.apply s).Recorded pf := by
  cases e with
  | writeJob w =>
    refine hs.write (known_of_moves h hp) fun hw => ?_
    cases h with
    | inserted => exact hp.wf.2.2
    | refused he => simp at he
    | received he => simp at he
    | _ => cases hw
  | writeIndex job =>
    refine hs.index (hp.held job ?_)
    cases h with
    | refused he => simp at he
    | received he => simp at he
    | indexed => exact List.mem_cons_self
  | pushSubmitted job =>
    cases h with
    | refused he => simp at he
    | received he => simp at he
    | pushed => exact hs.push (hp.submits job (by simp [submits])) hp.indexed
  | _ => exact hs.congr rfl rfl rfl rfl

end Process

theorem Effect.mem_spawned {e : Effect} {r : Process} (h : r ∈ e.spawned) : ∃ id, r = .claim id := by
  cases e with
  | spawn id => exact ⟨id, List.mem_singleton.mp h⟩
  | _ => cases h

def recordKeeping (pf : Platform) : Annotation JobNode Process where
  shared s := s.Recorded pf
  own s p := p.Sound pf s
  pair _ _ := True
  symm _ := trivial

theorem Process.Sound.of_empty {pf : Platform} {s : JobNode} {p : Process} (hwf : p.Wf pf) (hheld : p.held = [])
    (hi : p.Indexed s) : p.Sound pf s := by
  refine ⟨hwf, by simp [hheld], fun k hk => ?_, hi⟩
  cases p with
  | push job => cases hheld
  | index job next => cases hheld
  | _ => cases hk

section Runs

variable {pf : Platform} {cfg : JobSettings}

theorem Process.Sound.of_spawned {s : JobNode} {op : JobOp} {p : Process} (hp : op.spawned = some p) :
    p.Sound pf s := by
  cases op with
  | tick => cases hp; exact .of_empty (fun j hj => absurd hj (by simp)) rfl trivial
  | submit req => cases hp; exact .of_empty trivial rfl trivial
  | schedule req program input ttlMs => cases hp; exact .of_empty trivial rfl trivial
  | cancel id => cases hp; exact .of_empty trivial rfl trivial
  | broadcast d => cases hp; exact .of_empty trivial rfl trivial
  | _ => cases hp

theorem recordKeeping_step {s t : JobSystem} {op : JobOp} (h : (recordKeeping pf).Holds s)
    (ht : jobStep pf cfg s op = some t) : (recordKeeping pf).Holds t := by
  cases jobStep_inv ht with
  | spawn hp => exact h.spawn (.of_spawned hp) fun _ => trivial
  | @turn n i p _ hmem hturn =>
    refine h.turn hturn hmem fun hp => ?_
    have hm := p.moves_act pf cfg s.shared i
    have hg := JobNode.grows_apply (p.act pf cfg s.shared i).1 s.shared
    refine ⟨Process.recorded_of_moves h.shared hm hp, hp.next h.shared hm, ?_,
      fun q hq _ => hq.grow hg, fun _ _ _ => trivial⟩
    intro r hr
    obtain ⟨id, rfl⟩ := Effect.mem_spawned hr
    exact ⟨.of_empty trivial rfl trivial, fun _ => trivial⟩
  | restart => exact ⟨h.shared.congr rfl rfl rfl rfl, fun p hp => absurd hp (by simp), .nil⟩
  | outside hop =>
    refine h.outside (h.shared.congr rfl rfl rfl rfl) fun p hp => ?_
    exact hp.grow ⟨fun k hk => hk, fun k hk => hk, fun r hr => hr⟩

def JobSystem.fresh (u : UnifiedStore) (st : StateStore) (ms : ByteTree JobManifest) : JobSystem :=
  ⟨.fresh u st ms, []⟩

theorem recordKeeping_fresh (u : UnifiedStore) (st : StateStore) (ms : ByteTree JobManifest) :
    (recordKeeping pf).Holds (JobSystem.fresh u st ms) := by
  refine ⟨⟨fun hj => ?_, fun k hk => ?_, fun hr => ?_, fun k hk => ?_, fun k hk => ?_⟩,
    fun p hp => absurd hp (by simp [JobSystem.fresh]), .nil⟩
  · simp [JobSystem.fresh, JobNode.fresh] at hj
  · simp [JobSystem.fresh, JobNode.fresh, JobNode.Inserted] at hk
  · simp [JobSystem.fresh, JobNode.fresh, JobStore.empty] at hr
  · simp [JobSystem.fresh, JobNode.fresh] at hk
  · simp [JobSystem.fresh, JobNode.fresh] at hk

theorem recordKeeping_run {s t : JobSystem} {ops : List JobOp} (h : (recordKeeping pf).Holds s)
    (hr : run (jobStep pf cfg) s ops = some t) : (recordKeeping pf).Holds t :=
  always_run (fun _ _ _ => recordKeeping_step) h hr

def JobOp.write? (pf : Platform) (cfg : JobSettings) (s : JobSystem) : JobOp → Option RecordWrite
  | .turn n i =>
    (s.processes[n]?).bind fun p =>
      match (p.act pf cfg s.shared i).1 with
      | .writeJob w => some w
      | _ => none
  | _ => none

theorem jobStep_cases {s t : JobSystem} {op : JobOp} (h : jobStep pf cfg s op = some t) :
    (∃ n i p e q, op = .turn n i ∧ s.processes[n]? = some p ∧ (e, q) = p.act pf cfg s.shared i ∧
      p.Moves pf s.shared e q ∧ t.shared = e.apply s.shared ∧
      s.turn (fun sh p i => p.turn pf cfg sh i) n i = some t) ∨
    op.write? pf cfg s = none ∧ t.shared.store = s.shared.store ∧
      (op = .restart ∧ t.processes = [] ∨ ∀ p ∈ s.processes, p ∈ t.processes) := by
  have hnone : (∀ n i, op ≠ .turn n i) → op.write? pf cfg s = none := by
    intro hop
    cases op with
    | turn n i => exact absurd rfl (hop n i)
    | _ => rfl
  cases jobStep_inv h with
  | @turn n i p _ hp hturn =>
    obtain ⟨p', hp', hshared, -⟩ := System.turn_eq_some hturn
    cases hp.symm.trans hp'
    exact .inl ⟨n, i, p, _, _, rfl, hp, rfl, p.moves_act pf cfg s.shared i, hshared, hturn⟩
  | spawn hp =>
    refine .inr ⟨hnone fun n i he => ?_, rfl, .inr fun p hp => List.mem_append_left _ hp⟩
    rw [he] at hp
    cases hp
  | restart => exact .inr ⟨rfl, rfl, .inl ⟨rfl, rfl⟩⟩
  | outside hop => exact .inr ⟨hnone hop, rfl, .inr fun p hp => hp⟩

theorem get_jobStep {s t : JobSystem} {op : JobOp} (h : jobStep pf cfg s op = some t) (id : JobId) :
    t.shared.store.get id = s.shared.store.get id ∨
      ∃ w, op.write? pf cfg s = some w ∧ w.job.id = id ∧ t.shared.store.get id = some w.job := by
  rcases jobStep_cases h with ⟨n, i, p, e, q, rfl, hp, hact, -, ht, -⟩ | ⟨-, ht, -⟩
  · cases e with
    | writeJob w =>
      by_cases hid : w.job.id = id
      · refine .inr ⟨w, ?_, hid, ?_⟩
        · simp only [JobOp.write?, hp, Option.bind_some, ← hact]
        · rw [ht, ← hid]
          exact s.shared.store.get_insertJob_self w.job
      · rw [ht]
        refine .inl ((s.shared.store.get_insertJob w.job id).trans ?_)
        rw [if_neg hid]
    | writeIndex job => rw [ht]; exact .inl rfl
    | _ => rw [ht]; exact .inl rfl
  · rw [ht]
    exact .inl rfl

theorem moves_of_write? {s : JobSystem} {op : JobOp} {w : RecordWrite} (h : op.write? pf cfg s = some w) :
    ∃ p ∈ s.processes, ∃ q, p.Moves pf s.shared (.writeJob w) q := by
  cases op with
  | turn n i =>
    obtain ⟨p, hp, hw⟩ := Option.bind_eq_some_iff.mp h
    refine ⟨p, List.mem_of_getElem? hp, (p.act pf cfg s.shared i).2, ?_⟩
    have hm := p.moves_act pf cfg s.shared i
    cases he : (p.act pf cfg s.shared i).1 with
    | writeJob w' =>
      rw [he] at hw hm
      cases hw
      exact hm
    | _ => rw [he] at hw; cases hw
  | _ => cases h

theorem sound_of_write? {s : JobSystem} {op : JobOp} {w : RecordWrite} (hs : (recordKeeping pf).Holds s)
    (h : op.write? pf cfg s = some w) : w.Sound := by
  obtain ⟨p, hp, q, hm⟩ := moves_of_write? h
  exact Process.sound_of_moves hm (hs.own p hp).wf

end Runs

end Onvm
