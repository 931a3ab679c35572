import Onvm.JobRest

/-! When retries begin. A cycle counts the backoff from the creation of a job, not from
the failure, and looks at it once: what is in the queue, or on its way there, begins as
soon as a slot is free. What a job must have waited for when it is queued, it has waited
for when it begins. -/

namespace Onvm

open ByteString OrderedStore Interleaving Runs Std

def Job.awaitsRetry (j : Job) : Bool := j.status = .pending && 0 < j.retryCount

/-- The job system with a clock that does not go back, and the retries so far: when each became
pending, and its record. -/
structure ClockedSystem where
  jobs : JobSystem
  now : UInt64
  retries : List (UInt64 × Job)

namespace JobOp

def time (now : UInt64) : JobOp → UInt64
  | .turn _ i => i.clock 0
  | _ => now

def clocked (now : UInt64) : JobOp → Option UInt64
  | .turn _ i =>
    if now ≤ i.clock 0 ∧ i.clock 0 ≤ i.clock 1 ∧ i.clock 1 ≤ i.clock 2 then some (i.clock 2) else none
  | _ => some now

def retryOf (pf : Platform) (cfg : JobSettings) (s : JobSystem) (op : JobOp) : Option Job :=
  ((op.write? pf cfg s).map (·.job)).filter Job.awaitsRetry

end JobOp

def clockedStep (pf : Platform) (cfg : JobSettings) (s : ClockedSystem) (op : JobOp) :
    Option ClockedSystem :=
  (op.clocked s.now).bind fun now =>
    (jobStep pf cfg s.jobs op).map fun jobs =>
      ⟨jobs, now, s.retries ++ (op.retryOf pf cfg s.jobs).toList.map (op.time s.now, ·)⟩

namespace JobSettings

variable (cfg : JobSettings)

def Fits (j : Job) : Prop :=
  cfg.overflowChecks = true ∨
    (cfg.calculateBackoff j.retryCount).all fun backoff => j.createdAt.toNat + backoff.toNat < 2 ^ 64

def DueBy (now : UInt64) (j : Job) : Prop :=
  0 < j.retryCount → ∃ backoff, cfg.calculateBackoff j.retryCount = some backoff ∧
    j.createdAt.toNat + backoff.toNat ≤ now.toNat

def RestedBy (now : UInt64) (retries : List (UInt64 × Job)) (j : Job) : Prop :=
  ∀ r ∈ retries, r.2.id = j.id → r.2.createdAt = j.createdAt → r.2.retryCount = j.retryCount →
    0 < j.retryCount → (cfg.calculateBackoff j.retryCount).all fun backoff => r.1.toNat + backoff.toNat ≤ now.toNat

instance (now : UInt64) (retries : List (UInt64 × Job)) (j : Job) : Decidable (cfg.RestedBy now retries j) :=
  inferInstanceAs (Decidable (∀ r ∈ retries, _ → _ → _ → _ → _))

variable {cfg} {now now' : UInt64} {j : Job}

theorem DueBy.later (h : cfg.DueBy now j) (hle : now ≤ now') : cfg.DueBy now' j := by
  intro hpos
  obtain ⟨backoff, hb, hdue⟩ := h hpos
  exact ⟨backoff, hb, hdue.trans (UInt64.le_iff_toNat_le.mp hle)⟩

theorem dueBy_of_isDue (hfits : cfg.Fits j) (h : cfg.isDue now j = some true) : cfg.DueBy now j := by
  intro hpos
  simp only [isDue, if_pos hpos] at h
  obtain ⟨backoff, hb, h⟩ := Option.bind_eq_some_iff.mp h
  obtain ⟨retryAfter, hsum, hnow⟩ := Option.map_eq_some_iff.mp h
  refine ⟨backoff, hb, ?_⟩
  unfold arith at hsum
  split at hsum
  · cases hsum
  · rename_i hchecked
    have hlt : j.createdAt.toNat + backoff.toNat < 2 ^ 64 := by
      rcases hfits with hchecks | hfits
      · exact Nat.lt_of_not_le fun hle => hchecked ⟨hchecks, hle⟩
      · simpa [hb] using hfits
    have hafter : retryAfter.toNat = j.createdAt.toNat + backoff.toNat := by
      cases hsum
      exact UInt64.toNat_ofNat_of_lt' hlt
    have hle : retryAfter ≤ now := by simpa using hnow
    rw [← hafter]
    exact UInt64.le_iff_toNat_le.mp hle

theorem RestedBy.later {retries : List (UInt64 × Job)} (h : cfg.RestedBy now retries j) (hle : now ≤ now') :
    cfg.RestedBy now' retries j := by
  intro r hr hid hcreated hcount hpos
  have hrest := h r hr hid hcreated hcount hpos
  rw [UInt64.le_iff_toNat_le] at hle
  cases hb : cfg.calculateBackoff j.retryCount with
  | none => rfl
  | some backoff =>
    simp only [hb, Option.all_some, decide_eq_true_eq] at hrest ⊢
    omega

end JobSettings

/-- Something that a job has to wait for before a retry. It does not depend on retries of other jobs. -/
structure Readiness where
  Ready : (now : UInt64) → (retries : List (UInt64 × Job)) → Job → Prop
  first {now : UInt64} {retries : List (UInt64 × Job)} {j : Job} : ¬ 0 < j.retryCount → Ready now retries j
  later {now now' : UInt64} {retries : List (UInt64 × Job)} {j : Job} :
    Ready now retries j → now ≤ now' → Ready now' retries j
  same {now : UInt64} {retries : List (UInt64 × Job)} {j k : Job} : Ready now retries j → k.id = j.id →
    k.retryCount = j.retryCount → k.createdAt = j.createdAt → Ready now retries k
  sent {now : UInt64} {retries : List (UInt64 × Job)} {j : Job} {r : UInt64 × Job} :
    Ready now retries j → r.2.id ≠ j.id → Ready now (retries ++ [r]) j

def sinceCreation (cfg : JobSettings) : Readiness where
  Ready now _ j := cfg.Fits j → cfg.DueBy now j
  first h _ hpos := absurd hpos h
  later h hle hfits := (h hfits).later hle
  same h _ hcount hcreated hfits := by
    rw [JobSettings.Fits, hcount, hcreated] at hfits
    rw [JobSettings.DueBy, hcount, hcreated]
    exact h hfits
  sent h _ := h

def sinceFailure (cfg : JobSettings) : Readiness where
  Ready := cfg.RestedBy
  first h _ _ _ _ _ hpos := absurd hpos h
  later h hle := h.later hle
  same h hid hcount hcreated := by
    rw [JobSettings.RestedBy, hid, hcount, hcreated]
    exact h
  sent h hid r hr hr' := by
    rcases List.mem_append.mp hr with hr | hr
    · exact h r hr hr'
    · rw [List.mem_singleton.mp hr] at hr'
      exact absurd hr' hid

theorem Readiness.Ready.sentAll {R : Readiness} {now : UInt64} {retries : List (UInt64 × Job)} {j : Job}
    {t : UInt64} {sent : Option Job} (h : R.Ready now retries j) (hsent : ∀ r ∈ sent, r.id ≠ j.id) :
    R.Ready now (retries ++ sent.toList.map (t, ·)) j := by
  cases sent with
  | none => simpa using h
  | some r => exact R.sent h (hsent r rfl)

namespace JobNode

variable (R : Readiness) (now : UInt64) (retries : List (UInt64 × Job)) (s : JobNode)

def Waited (id : JobId) : Prop :=
  ∀ r, s.store.get id = some r → r.status = .pending → R.Ready now retries r

def Listed (j : Job) : Prop :=
  ∀ r, s.store.get j.id = some r → r.awaitsRetry → r.retryCount = j.retryCount ∧ r.createdAt = j.createdAt

end JobNode

namespace Process

/-- The jobs that a process may put into the queue or begin without asking for their backoff again. -/
def awaits : Process → List JobId
  | .push job => [job.id]
  | .scan .enqueue _ found => found.map (·.id)
  | .visit .enqueue _ jobs => jobs.map (·.id)
  | .spawn _ id => [id]
  | .claim id => [id]
  | .load id => [id]
  | .mark seen => [seen.id]
  | .index _ next => next.awaits
  | _ => []

def Patient (R : Readiness) (now : UInt64) (retries : List (UInt64 × Job)) (s : JobNode) : Process → Prop
  | .push job => s.Waited R now retries job.id
  | .scan .enqueue _ found => ∀ j ∈ found, s.Listed j
  | .visit .enqueue listed jobs => listed ≤ now ∧ ∀ j ∈ jobs, s.Listed j
  | .spawn _ id => s.Waited R now retries id
  | .claim id => s.Waited R now retries id
  | .load id => s.Waited R now retries id
  | .mark seen => R.Ready now retries seen
  | .index _ next => next.Patient R now retries s
  | _ => True

end Process

def Effect.retryOf : Effect → Option Job
  | .writeJob w => if w.job.awaitsRetry then some w.job else .none
  | _ => .none

/-- Of the jobs that wait for a retry in `t`, at most the given one has not waited for it in `s`. -/
def JobNode.Gains (s t : JobNode) (sent : Option Job) : Prop :=
  ∀ id r, t.store.get id = some r → r.awaitsRetry → s.store.get id = some r ∨ sent = some r ∧ r.id = id

section Effects

variable {R : Readiness} {now now' time : UInt64} {retries : List (UInt64 × Job)} {s t : JobNode}
  {sent : Option Job}

theorem gains_apply (s : JobNode) (e : Effect) : s.Gains (e.apply s) e.retryOf := by
  intro id r hr hretry
  cases e with
  | writeJob w =>
    have hget := s.store.get_insertJob w.job id
    have hr' : (s.store.insertJob w.job).get id = some r := hr
    rw [hr'] at hget
    by_cases hid : w.job.id = id
    · rw [if_pos hid] at hget
      cases hget
      exact .inr ⟨if_pos hretry, hid⟩
    · rw [if_neg hid] at hget
      exact .inl hget.symm
  | _ => exact .inl hr

theorem JobNode.Waited.gain {id : JobId} (h : s.Waited R now retries id) (hg : s.Gains t sent) (hle : now ≤ now')
    (hsent : ∀ r ∈ sent, r.id ≠ id) : t.Waited R now' (retries ++ sent.toList.map (time, ·)) id := by
  intro r hr hs
  by_cases hpos : 0 < r.retryCount
  · have hretry : r.awaitsRetry := by simp [Job.awaitsRetry, hs, hpos]
    rcases hg id r hr hretry with hr | ⟨hr, hid⟩
    · refine (R.later (h r hr hs) hle).sentAll fun k hk => ?_
      rw [JobStore.id_of_get hr]
      exact hsent k hk
    · exact absurd hid (hsent r hr)
  · exact R.first hpos

theorem JobNode.Listed.gain {j : Job} (h : s.Listed j) (hg : s.Gains t sent)
    (hsent : ∀ r ∈ sent, r.id ≠ j.id) : t.Listed j := by
  intro r hr hretry
  rcases hg j.id r hr hretry with hr | ⟨hr, hid⟩
  · exact h r hr hretry
  · exact absurd hid (hsent r hr)

theorem Process.Patient.gain {p : Process} (h : p.Patient R now retries s) (hg : s.Gains t sent) (hle : now ≤ now')
    (hsent : ∀ r ∈ sent, r.id ∉ p.awaits) : p.Patient R now' (retries ++ sent.toList.map (time, ·)) t := by
  have hone : ∀ id, p.awaits = [id] → ∀ r ∈ sent, r.id ≠ id := by
    intro id hp r hr hid
    exact hsent r hr (by simp [hp, hid])
  have hall : ∀ jobs : List Job, p.awaits = jobs.map (·.id) → (∀ j ∈ jobs, s.Listed j) →
      ∀ j ∈ jobs, t.Listed j := by
    intro jobs hp hlisted j hj
    refine (hlisted j hj).gain hg fun r hr hid => hsent r hr ?_
    rw [hp]
    exact List.mem_map.mpr ⟨j, hj, hid.symm⟩
  induction p with
  | push job => exact JobNode.Waited.gain h hg hle (hone _ rfl)
  | scan pass cursor found =>
    cases pass with
    | enqueue => exact hall found rfl h
    | _ => trivial
  | visit pass listed jobs =>
    cases pass with
    | enqueue => exact ⟨UInt64.le_trans h.1 hle, hall jobs rfl h.2⟩
    | _ => trivial
  | spawn slots id => exact JobNode.Waited.gain h hg hle (hone _ rfl)
  | claim id => exact JobNode.Waited.gain h hg hle (hone _ rfl)
  | load id => exact JobNode.Waited.gain h hg hle (hone _ rfl)
  | mark seen => exact (R.later h hle).sentAll (hone _ rfl)
  | index job next ih => exact ih h hsent hone hall
  | _ => trivial

theorem Process.Patient.keep {p : Process} (h : p.Patient R now retries s) (hg : s.Gains t none) (hle : now ≤ now') :
    p.Patient R now' retries t := by
  have hsame : p.Patient R now' (retries ++ (none : Option Job).toList.map (now, ·)) t :=
    h.gain hg hle fun r hr => by cases hr
  rwa [Option.toList_none, List.map_nil, List.append_nil] at hsame

end Effects

section Turns

variable {pf : Platform} {cfg : JobSettings} {R : Readiness} {now now' : UInt64} {retries : List (UInt64 × Job)}
  {s : JobNode} {i : Inputs} {p : Process}

theorem JobNode.Waited.later {id : JobId} (h : s.Waited R now retries id) (hle : now ≤ now') :
    s.Waited R now' retries id :=
  fun r hr hs => R.later (h r hr hs) hle

theorem JobNode.listed_of_get {j : Job} (h : s.store.get j.id = some j) : s.Listed j := by
  intro r hr _
  cases h.symm.trans hr
  exact ⟨rfl, rfl⟩

theorem JobNode.Listed.waited {j : Job} (h : s.Listed j) (hready : R.Ready now retries j) :
    s.Waited R now retries j.id := by
  intro r hr hs
  by_cases hpos : 0 < r.retryCount
  · have hretry : r.awaitsRetry := by simp [Job.awaitsRetry, hs, hpos]
    obtain ⟨hcount, hcreated⟩ := h r hr hretry
    exact R.same hready (JobStore.id_of_get hr) hcount hcreated
  · exact R.first hpos

theorem Process.Patient.scan {pass : Pass} {cursor : Option Bytes} {found : List Job}
    (h : (Process.scan pass cursor found).Patient R now retries s) (hle : i.clock 0 ≤ now') :
    (scanEntry s i pass cursor found).Patient R now' retries s := by
  cases pass with
  | enqueue =>
    have hfound : ∀ j ∈ found, s.Listed j := h
    unfold scanEntry
    cases he : s.store.entryAfter cursor with
    | some entry =>
      obtain ⟨key, job⟩ := entry
      intro j hj
      by_cases hs : job.status = .pending
      · simp only [Pass.status, hs, if_true, List.mem_append, List.mem_singleton] at hj
        rcases hj with hj | rfl
        · exact hfound j hj
        · exact JobNode.listed_of_get (JobStore.get_of_entryAfter he)
      · simp only [Pass.status, hs, if_false] at hj
        exact hfound j hj
    | none => exact ⟨hle, fun j hj => hfound j (mem_sortByCreatedAt.mp hj)⟩
  | timeouts => unfold scanEntry; cases s.store.entryAfter cursor <;> trivial
  | expiry => unfold scanEntry; cases s.store.entryAfter cursor <;> trivial

theorem Process.Patient.visit {pass : Pass} {listed : UInt64} {job : Job} {rest : List Job}
    (h : (Process.visit pass listed (job :: rest)).Patient R now retries s) (hle : now ≤ now') :
    (visitJob cfg i pass listed job rest).2.Patient R now' retries ((visitJob cfg i pass listed job rest).1.apply s) := by
  cases pass with
  | enqueue =>
    have hrest : (Process.visit .enqueue listed rest).Patient R now' retries s :=
      ⟨UInt64.le_trans h.1 hle, fun j hj => h.2 j (List.mem_cons_of_mem job hj)⟩
    unfold visitJob
    cases hd : cfg.isDue listed job with
    | none => simp only; trivial
    | some due => cases due <;> exact hrest
  | timeouts =>
    simp only [visitJob]
    split <;> trivial
  | expiry =>
    simp only [visitJob]
    split <;> trivial

def Process.looksUp : Process → Bool
  | .insert _ | .scan .. | .visit .. | .pop _ | .claim _ | .load _ | .index .. => true
  | _ => false

theorem Process.patient_of_moves {q : Process} {e : Effect} {t : JobNode} (h : p.Moves pf s e q)
    (hp : p.looksUp = false) : q.Patient R now retries t := by
  cases h <;> trivial

theorem Process.Patient.next (h : p.Patient R now retries s) (hwf : p.Wf pf)
    (hqueue : ∀ id ∈ s.pendingQueue, s.Waited R now retries id) (h0 : now ≤ i.clock 0) (h1 : i.clock 0 ≤ now') :
    (p.act pf cfg s i).2.Patient R now' retries ((p.act pf cfg s i).1.apply s) := by
  have hle : now ≤ now' := UInt64.le_trans h0 h1
  have hm := p.moves_act pf cfg s i
  cases p with
  | receive req =>
    generalize Process.act pf cfg s i (.receive req) = r at hm
    exact patient_of_moves hm rfl
  | insert job =>
    intro r hr hs
    have hself : (s.store.insertJob job).get job.id = some r := hr
    rw [s.store.get_insertJob_self job] at hself
    cases hself
    refine R.first ?_
    rw [hwf.2.1]
    decide
  | scan pass cursor found => exact h.scan h1
  | visit pass listed jobs =>
    cases jobs with
    | nil => cases pass <;> trivial
    | cons job rest => exact h.visit hle
  | pop slots =>
    cases slots with
    | zero => trivial
    | succ slots =>
      cases hq : s.pendingQueue with
      | nil => simp only [act, popJob, hq]; trivial
      | cons id rest =>
        simp only [act, popJob, hq]
        exact (hqueue id (by simp [hq])).later hle
  | claim id =>
    simp only [act, claimJob]
    split
    · trivial
    · exact JobNode.Waited.later h hle
  | load id =>
    have hw : s.Waited R now retries id := h
    simp only [act, loadJob]
    split
    · trivial
    · rename_i job hget
      split
      · exact R.later (hw job hget ‹_›) hle
      · trivial
  | index job next => exact Process.Patient.keep h (gains_apply s (.writeIndex job)) hle
  | _ => exact patient_of_moves hm rfl

theorem Process.patient_of_sent {q : Process} {e : Effect} {r : Job} {t : JobNode} (h : p.Moves pf s e q)
    (hwf : p.Wf pf) (he : e.retryOf = some r) : q.Patient R now retries t := by
  cases h with
  | inserted => simp [Effect.retryOf, Job.awaitsRetry, hwf.2.1] at he
  | _ => first | cases he | trivial

theorem mem_queue_apply {e : Effect} {id : JobId} (h : id ∈ (e.apply s).pendingQueue) :
    id ∈ s.pendingQueue ∨ (∃ job, e = .pushSubmitted job ∧ job.id = id) ∨ e = .enqueue id := by
  cases e with
  | pushSubmitted job =>
    rcases List.mem_append.mp h with h | h
    · exact .inl h
    · exact .inr (.inl ⟨job, rfl, (List.mem_singleton.mp h).symm⟩)
  | enqueue id' =>
    simp only [Effect.apply] at h
    split at h
    · exact .inl h
    · rcases List.mem_append.mp h with h | h
      · exact .inl h
      · rw [List.mem_singleton.mp h]
        exact .inr (.inr rfl)
  | popQueue => exact .inl (List.mem_of_mem_tail h)
  | retain id' => exact .inl (List.mem_filter.mp h).1
  | _ => exact .inl h

theorem Process.push_of_moves {q : Process} {job : Job} (h : p.Moves pf s (.pushSubmitted job) q) :
    p = .push job := by
  cases h with
  | pushed => rfl
  | refused he => rcases he with he | ⟨u, he⟩ <;> cases he
  | received he => rcases he with he | ⟨u, he⟩ <;> cases he

theorem Process.visit_of_moves {q : Process} {id : JobId} (h : p.Moves pf s (.enqueue id) q) :
    ∃ listed job rest, p = .visit .enqueue listed (job :: rest) ∧ job.id = id := by
  cases h with
  | @queued listed job rest => exact ⟨listed, job, rest, rfl, rfl⟩
  | refused he => rcases he with he | ⟨u, he⟩ <;> cases he
  | received he => rcases he with he | ⟨u, he⟩ <;> cases he

theorem Process.task_of_moves {q r : Process} {e : Effect} (h : p.Moves pf s e q) (hr : r ∈ e.spawned) :
    ∃ slots id, p = .spawn slots id ∧ r = .claim id ∧ e = .spawn id := by
  cases h with
  | @spawned slots id => exact ⟨slots, id, rfl, List.mem_singleton.mp hr, rfl⟩
  | refused he => rcases he with rfl | ⟨u, rfl⟩ <;> cases hr
  | received he => rcases he with rfl | ⟨u, rfl⟩ <;> cases hr
  | _ => cases hr

theorem isDue_of_visitJob {listed : UInt64} {job : Job} {rest : List Job} {id : JobId}
    (h : (visitJob cfg i .enqueue listed job rest).1 = .enqueue id) : cfg.isDue listed job = some true := by
  unfold visitJob at h
  cases hd : cfg.isDue listed job with
  | none => simp [hd] at h
  | some due =>
    cases due with
    | true => rfl
    | false => simp [hd] at h

theorem Process.Patient.queue {id : JobId} (h : p.Patient R now retries s) (hle : now ≤ now')
    (hready : ∀ listed job rest, p = .visit .enqueue listed (job :: rest) → cfg.isDue listed job = some true →
      listed ≤ now → R.Ready now' retries job)
    (hid : id ∈ ((p.act pf cfg s i).1.apply s).pendingQueue) :
    id ∈ s.pendingQueue ∨
      (p.act pf cfg s i).1.retryOf = none ∧ s.Waited R now' retries id := by
  have hm := p.moves_act pf cfg s i
  rcases mem_queue_apply hid with hid | ⟨job, he, rfl⟩ | he
  · exact .inl hid
  · refine .inr ⟨by rw [he]; rfl, ?_⟩
    rw [he] at hm
    obtain rfl := push_of_moves hm
    exact JobNode.Waited.later h hle
  · refine .inr ⟨by rw [he]; rfl, ?_⟩
    rw [he] at hm
    obtain ⟨listed, job, rest, rfl, rfl⟩ := visit_of_moves hm
    exact (h.2 job List.mem_cons_self).waited
      (hready listed job rest rfl (isDue_of_visitJob (i := i) he) h.1)

theorem Process.Patient.spawned {q : Process} (h : p.Patient R now retries s) (hle : now ≤ now')
    (hq : q ∈ (p.act pf cfg s i).1.spawned) :
    (p.act pf cfg s i).1.retryOf = none ∧ q.Patient R now' retries ((p.act pf cfg s i).1.apply s) := by
  obtain ⟨slots, id, rfl, rfl, -⟩ := task_of_moves (p.moves_act pf cfg s i) hq
  exact ⟨rfl, JobNode.Waited.later h hle⟩

end Turns

def JobOp.SentAlone (pf : Platform) (cfg : JobSettings) (s : ClockedSystem) (op : JobOp) : Prop :=
  ∀ r ∈ op.retryOf pf cfg s.jobs, r.id ∉ s.jobs.shared.pendingQueue ∧ ∀ p ∈ s.jobs.processes, r.id ∉ p.awaits

instance (pf : Platform) (cfg : JobSettings) (s : ClockedSystem) (op : JobOp) :
    Decidable (op.SentAlone pf cfg s) :=
  inferInstanceAs (Decidable (∀ r ∈ op.retryOf pf cfg s.jobs, _ ∧ _))

def JobOp.queued? (cfg : JobSettings) (s : JobSystem) : JobOp → Option Job
  | .turn n _ =>
    match s.processes[n]? with
    | some (.visit .enqueue listed (job :: _)) => if cfg.isDue listed job = some true then some job else none
    | _ => none
  | _ => none

def JobOp.QueuedLate (cfg : JobSettings) (s : ClockedSystem) (op : JobOp) : Prop :=
  ∀ job ∈ op.queued? cfg s.jobs, cfg.RestedBy (op.time s.now) s.retries job

instance (cfg : JobSettings) (s : ClockedSystem) (op : JobOp) : Decidable (op.QueuedLate cfg s) :=
  inferInstanceAs (Decidable (∀ job ∈ op.queued? cfg s.jobs, _))

def Readiness.Queues (R : Readiness) (cfg : JobSettings) (s : ClockedSystem) (op : JobOp) : Prop :=
  ∀ n i listed job rest, op = .turn n i → s.jobs.processes[n]? = some (.visit .enqueue listed (job :: rest)) →
    cfg.isDue listed job = some true → listed ≤ i.clock 0 → R.Ready (i.clock 0) s.retries job

theorem queues_sinceCreation (cfg : JobSettings) (s : ClockedSystem) (op : JobOp) :
    (sinceCreation cfg).Queues cfg s op :=
  fun _ _ _ _ _ _ _ hdue hle hfits => (JobSettings.dueBy_of_isDue hfits hdue).later hle

theorem JobOp.QueuedLate.queues {cfg : JobSettings} {s : ClockedSystem} {op : JobOp}
    (h : op.QueuedLate cfg s) : (sinceFailure cfg).Queues cfg s op := by
  rintro n i listed job rest rfl hp hdue -
  refine h job ?_
  simp only [JobOp.queued?, hp, if_pos hdue, Option.mem_some_iff]

/-- What may begin has waited. -/
structure ClockedSystem.Patient (pf : Platform) (R : Readiness) (s : ClockedSystem) : Prop where
  records : (recordKeeping pf).Holds s.jobs
  queue : ∀ id ∈ s.jobs.shared.pendingQueue, s.jobs.shared.Waited R s.now s.retries id
  own : ∀ p ∈ s.jobs.processes, p.Patient R s.now s.retries s.jobs.shared

section Steps

variable {pf : Platform} {cfg : JobSettings} {R : Readiness} {s t : ClockedSystem}

theorem retryOf_turn {s : JobSystem} {n : Nat} {i : Inputs} {p : Process} (hp : s.processes[n]? = some p) :
    (JobOp.turn n i).retryOf pf cfg s = (p.act pf cfg s.shared i).1.retryOf := by
  simp only [JobOp.retryOf, JobOp.write?, hp, Option.bind_some]
  cases (p.act pf cfg s.shared i).1 with
  | writeJob w => simp [Effect.retryOf, Option.filter]
  | _ => rfl

theorem ClockedSystem.Patient.turn {n : Nat} {i : Inputs} {p : Process} {u : JobSystem} {now' : UInt64}
    (h : s.Patient pf R) (hop : (JobOp.turn n i).SentAlone pf cfg s) (hqueue : R.Queues cfg s (.turn n i))
    (h0 : s.now ≤ i.clock 0) (h1 : i.clock 0 ≤ now') (hp : s.jobs.processes[n]? = some p)
    (hu : s.jobs.turn (fun sh p i => p.turn pf cfg sh i) n i = some u) :
    (⟨u, now', s.retries ++ ((JobOp.turn n i).retryOf pf cfg s.jobs).toList.map (i.clock 0, ·)⟩ :
      ClockedSystem).Patient pf R := by
  obtain ⟨p', hp', hshared, hprocs⟩ := System.turn_eq_some hu
  cases hp.symm.trans hp'
  have hmem : p ∈ s.jobs.processes := List.mem_of_getElem? hp
  have hle : s.now ≤ now' := UInt64.le_trans h0 h1
  have hshared' : u.shared = (p.act pf cfg s.jobs.shared i).1.apply s.jobs.shared := hshared
  unfold JobOp.SentAlone at hop
  rw [retryOf_turn hp] at hop ⊢
  have hgains := gains_apply s.jobs.shared (p.act pf cfg s.jobs.shared i).1
  have hstep : jobStep pf cfg s.jobs (.turn n i) = some u := hu
  have hready : ∀ listed job rest, p = .visit .enqueue listed (job :: rest) → cfg.isDue listed job = some true →
      listed ≤ s.now → R.Ready now' s.retries job := fun listed job rest he hdue hlisted =>
    R.later (hqueue n i listed job rest rfl (he ▸ hp) hdue (UInt64.le_trans hlisted h0)) h1
  refine ⟨recordKeeping_step h.records hstep, ?_, ?_⟩
  · intro id hid
    rw [hshared'] at hid ⊢
    rcases (h.own p hmem).queue hle hready hid with hid | ⟨hnone, hwaited⟩
    · exact (h.queue id hid).gain hgains hle fun r hr hrid => (hop r hr).1 (hrid ▸ hid)
    · exact hwaited.gain hgains (UInt64.le_refl _) fun r hr => by rw [hnone] at hr; cases hr
  · intro q hq
    rw [hshared']
    rcases List.mem_append.mp (hprocs ▸ hq) with hq | hq
    · rcases List.mem_or_eq_of_mem_set hq with hq | rfl
      · exact (h.own q hq).gain hgains hle fun r hr => (hop r hr).2 q hq
      · have hm := p.moves_act pf cfg s.jobs.shared i
        have hwf := (h.records.own p hmem).wf
        change (p.act pf cfg s.jobs.shared i).2.Patient R now' _ _
        cases hsent : (p.act pf cfg s.jobs.shared i).1.retryOf with
        | none =>
          rw [Option.toList_none, List.map_nil, List.append_nil]
          exact (h.own p hmem).next hwf h.queue h0 h1
        | some r => exact Process.patient_of_sent hm hwf hsent
    · obtain ⟨hnone, hpatient⟩ := (h.own p hmem).spawned hle hq
      rwa [hnone, Option.toList_none, List.map_nil, List.append_nil]

variable (pf cfg) in
theorem clocked_of_ne_turn {op : JobOp} (h : ∀ n i, op ≠ .turn n i) (now : UInt64) (s : JobSystem) :
    op.clocked now = some now ∧ op.retryOf pf cfg s = none := by
  cases op with
  | turn n i => exact absurd rfl (h n i)
  | _ => exact ⟨rfl, rfl⟩

theorem JobOp.spawned_patient {op : JobOp} {p : Process} {now : UInt64} {retries : List (UInt64 × Job)}
    {s : JobNode} (h : op.spawned = some p) : p.Patient R now retries s := by
  cases op with
  | tick => cases h; exact fun j hj => by cases hj
  | _ => cases h <;> trivial

theorem ClockedSystem.Patient.step {op : JobOp} (h : s.Patient pf R) (hop : op.SentAlone pf cfg s)
    (hqueue : R.Queues cfg s op) (ht : clockedStep pf cfg s op = some t) : t.Patient pf R := by
  obtain ⟨now', hnow, ht⟩ := Option.bind_eq_some_iff.mp ht
  obtain ⟨u, hu, rfl⟩ := Option.map_eq_some_iff.mp ht
  have hrecords := recordKeeping_step h.records hu
  have hquiet : (∀ n i, op ≠ .turn n i) → now' = s.now ∧
      s.retries ++ (op.retryOf pf cfg s.jobs).toList.map (op.time s.now, ·) = s.retries := by
    intro hne
    obtain ⟨hclock, hretry⟩ := clocked_of_ne_turn pf cfg hne s.now s.jobs
    rw [hclock] at hnow
    cases hnow
    simp [hretry]
  cases jobStep_inv hu with
  | @turn n i p _ hp hturn =>
    simp only [JobOp.clocked] at hnow
    split at hnow
    · rename_i hclock
      cases hnow
      exact h.turn hop hqueue hclock.1 (UInt64.le_trans hclock.2.1 hclock.2.2) hp hturn
    · cases hnow
  | @spawn _ p hp =>
    obtain ⟨rfl, hretries⟩ := hquiet fun n i he => by rw [he] at hp; cases hp
    rw [hretries]
    refine ⟨hrecords, h.queue, ?_⟩
    intro q hq
    rcases List.mem_append.mp hq with hq | hq
    · exact h.own q hq
    · rw [List.mem_singleton.mp hq]
      exact JobOp.spawned_patient hp
  | restart =>
    obtain ⟨rfl, hretries⟩ := hquiet fun n i he => by cases he
    rw [hretries]
    refine ⟨hrecords, ?_, ?_⟩
    · intro id hid
      cases hid
    · intro q hq
      cases hq
  | outside hne =>
    obtain ⟨rfl, hretries⟩ := hquiet hne
    rw [hretries]
    refine ⟨hrecords, h.queue, ?_⟩
    intro q hq
    exact (h.own q hq).keep (fun id r hr _ => .inl hr) (UInt64.le_refl _)

theorem mark_of_start {s : JobSystem} {n : Nat} {i : Inputs} {w : RecordWrite}
    (h : (JobOp.turn n i).write? pf cfg s = some w) (hw : w.writer = .start) :
    ∃ seen, .mark seen ∈ s.processes ∧ w.job.Revises seen := by
  obtain ⟨p, hp, q, hm⟩ := moves_of_write? h
  cases hm with
  | marked hs hrev => exact ⟨_, hp, hrev⟩
  | refused he => rcases he with he | ⟨u, he⟩ <;> cases he
  | received he => rcases he with he | ⟨u, he⟩ <;> cases he
  | _ => cases hw

theorem ClockedSystem.Patient.start {n : Nat} {i : Inputs} {w : RecordWrite} (h : s.Patient pf R)
    (hnow : s.now ≤ i.clock 0) (hw : (JobOp.turn n i).write? pf cfg s.jobs = some w)
    (hstart : w.writer = .start) : R.Ready (i.clock 0) s.retries w.job := by
  obtain ⟨seen, hseen, horigin, hcount⟩ := mark_of_start hw hstart
  have hready : R.Ready s.now s.retries seen := h.own _ hseen
  exact R.same (R.later hready hnow) (congrArg Job.Origin.id horigin) hcount
    (congrArg Job.Origin.createdAt horigin)

end Steps

def ClockedSystem.fresh (u : UnifiedStore) (st : StateStore) (ms : ByteTree JobManifest) : ClockedSystem :=
  ⟨.fresh u st ms, 0, []⟩

theorem starts_ready {pf : Platform} {cfg : JobSettings} {R : Readiness} {u : UnifiedStore} {st : StateStore}
    {ms : ByteTree JobManifest} {ops : List JobOp} {op : JobOp} {s t : ClockedSystem}
    (hops : Along (clockedStep pf cfg) (fun s op => op.SentAlone pf cfg s ∧ R.Queues cfg s op) (.fresh u st ms) ops)
    (hr : run (clockedStep pf cfg) (.fresh u st ms) ops = some s)
    (ht : clockedStep pf cfg s op = some t) (w : RecordWrite) (hw : w ∈ op.write? pf cfg s.jobs)
    (hstart : w.writer = .start) : R.Ready (op.time s.now) s.retries w.job := by
  have hfresh : (ClockedSystem.fresh u st ms).Patient pf R := by
    refine ⟨recordKeeping_fresh u st ms, ?_, ?_⟩
    · intro id hid
      cases hid
    · intro p hp
      cases hp
  have hs : s.Patient pf R := invariant_run (I := fun s : ClockedSystem => s.Patient pf R)
    (fun _ _ _ h hop ht => h.step hop.1 hop.2 ht) hfresh hops hr
  cases op with
  | turn n i =>
    have hnow : s.now ≤ i.clock 0 := by
      obtain ⟨now', hnow, -⟩ := Option.bind_eq_some_iff.mp ht
      simp only [JobOp.clocked] at hnow
      split at hnow
      · exact (‹_ ∧ _›).1
      · cases hnow
    exact hs.start hnow hw hstart
  | _ => cases hw

/-- If nothing of a job is left in the scheduler when it is sent back, every retry begins at the earliest
a backoff after the job was created; if cycles queue no retry before its backoff has passed since the
failure, it begins no sooner than that either. -/
theorem retry_after_backoff {pf : Platform} {cfg : JobSettings} {u : UnifiedStore} {st : StateStore}
    {ms : ByteTree JobManifest} {ops : List JobOp} {op : JobOp} {s t : ClockedSystem}
    (hops : Along (clockedStep pf cfg) (JobOp.SentAlone pf cfg) (.fresh u st ms) ops)
    (hr : run (clockedStep pf cfg) (.fresh u st ms) ops = some s)
    (ht : clockedStep pf cfg s op = some t) (w : RecordWrite) (hw : w ∈ op.write? pf cfg s.jobs)
    (hstart : w.writer = .start) :
    (cfg.Fits w.job → cfg.DueBy (op.time s.now) w.job) ∧
      (Along (clockedStep pf cfg) (JobOp.QueuedLate cfg) (.fresh u st ms) ops →
        cfg.RestedBy (op.time s.now) s.retries w.job) := by
  constructor
  · refine @starts_ready pf cfg (sinceCreation cfg) u st ms ops op s t ?_ hr ht w hw hstart
    exact hops.imp fun s op h => ⟨h, queues_sinceCreation cfg s op⟩
  · intro hlate
    refine @starts_ready pf cfg (sinceFailure cfg) u st ms ops op s t ?_ hr ht w hw hstart
    exact (hops.and hlate).imp fun s op h => ⟨h.1, h.2.queues⟩

section Sample

def sampleClock : ClockedSystem := .fresh sampleStore .empty ∅

def queuedAttempt : List JobOp := [.submit (sampleRequest "a")] ++ jobTurns 0 5 0 ++ [.tick] ++ jobTurns 1 15 0

def failsAt (task : Nat) (start stop : UInt64) : List JobOp :=
  jobTurns task 5 start ++ [.turn task { sampleInputs stop with engine := .joinError "panic" }] ++
    jobTurns task 4 stop

/-- The cycle that takes the job up again, and its task before the write that begins the attempt. -/
def takenUpAt (cycle task : Nat) (now : UInt64) : List JobOp :=
  [.tick] ++ jobTurns cycle 15 now ++ jobTurns task 2 now

def retriedTwice : List JobOp :=
  queuedAttempt ++ failsAt 2 0 100 ++ [.tick] ++ jobTurns 3 15 6000 ++ failsAt 4 6000 6500 ++ takenUpAt 5 6 17000

theorem retry_after_backoff_sample :
    ∃ s t w, run (clockedStep sampleRuntime sampleSettings) sampleClock retriedTwice = some s ∧
      clockedStep sampleRuntime sampleSettings s (.turn 6 (sampleInputs 17000)) = some t ∧
      s.retries.map (fun r => (r.1, r.2.retryCount)) = [(100, 1), (6500, 2)] ∧
      w ∈ (JobOp.turn 6 (sampleInputs 17000)).write? sampleRuntime sampleSettings s.jobs ∧
      w.writer = .start ∧ w.job.retryCount = 2 ∧ sampleSettings.RestedBy 17000 s.retries w.job := by
  have hops : Along (clockedStep sampleRuntime sampleSettings)
      (JobOp.SentAlone sampleRuntime sampleSettings) sampleClock retriedTwice := by decide +kernel
  have hlate : Along (clockedStep sampleRuntime sampleSettings)
      (JobOp.QueuedLate sampleSettings) sampleClock retriedTwice := by decide +kernel
  obtain ⟨s, hs, hretries, hnext, hstart⟩ := exists_of_any
    (o := run (clockedStep sampleRuntime sampleSettings) sampleClock retriedTwice)
    (Q := fun s => s.retries.map (fun r => (r.1, r.2.retryCount)) = [(100, 1), (6500, 2)] ∧
      (clockedStep sampleRuntime sampleSettings s (.turn 6 (sampleInputs 17000))).isSome ∧
      (((JobOp.turn 6 (sampleInputs 17000)).write? sampleRuntime sampleSettings s.jobs).any fun w =>
        decide (w.writer = .start ∧ w.job.retryCount = 2)) = true)
    (by decide +kernel)
  obtain ⟨t, ht⟩ := Option.isSome_iff_exists.mp hnext
  obtain ⟨w, hw, hwriter, hcount⟩ := exists_of_any hstart
  exact ⟨s, t, w, hs, ht, hretries, hw, hwriter, hcount,
    (retry_after_backoff hops hs ht w hw hwriter).2 hlate⟩

def JobOp.BeginsEarly (pf : Platform) (cfg : JobSettings) (s : ClockedSystem) (op : JobOp) : Prop :=
  ∃ w ∈ op.write? pf cfg s.jobs, w.writer = .start ∧ ¬ cfg.RestedBy (op.time s.now) s.retries w.job

instance (pf : Platform) (cfg : JobSettings) (s : ClockedSystem) (op : JobOp) : Decidable (op.BeginsEarly pf cfg s) :=
  inferInstanceAs (Decidable (∃ w ∈ op.write? pf cfg s.jobs, _))

/-- The submission queues its job only after a cycle has done so, and after the attempt has failed. -/
def queuedTwice : List JobOp :=
  [.submit (sampleRequest "a")] ++ jobTurns 0 4 0 ++ [.tick] ++ jobTurns 1 15 0 ++ failsAt 2 0 0 ++
    jobTurns 0 1 0 ++ takenUpAt 3 4 1

/-- A job that fails ten seconds after its creation is begun again a millisecond later; one that has a
second entry in the queue is begun again from there. The backoff is five seconds. -/
theorem retry_begins_early :
    (∃ s t, run (clockedStep sampleRuntime sampleSettings) sampleClock
        (queuedAttempt ++ failsAt 2 0 10000 ++ takenUpAt 3 4 10001) = some s ∧
      clockedStep sampleRuntime sampleSettings s (.turn 4 (sampleInputs 10001)) = some t ∧
      s.retries.map (·.1) = [10000] ∧
      (JobOp.turn 4 (sampleInputs 10001)).BeginsEarly sampleRuntime sampleSettings s) ∧
    ∃ s t, run (clockedStep sampleRuntime sampleSettings) sampleClock queuedTwice = some s ∧
      clockedStep sampleRuntime sampleSettings s (.turn 4 (sampleInputs 1)) = some t ∧
      s.retries.map (·.1) = [0] ∧
      (JobOp.turn 4 (sampleInputs 1)).BeginsEarly sampleRuntime sampleSettings s := by
  refine ⟨?_, ?_⟩
  · obtain ⟨s, hs, hretries, hearly, hnext⟩ := exists_of_any
      (o := run (clockedStep sampleRuntime sampleSettings) sampleClock
        (queuedAttempt ++ failsAt 2 0 10000 ++ takenUpAt 3 4 10001))
      (Q := fun s => s.retries.map (·.1) = [10000] ∧
        (JobOp.turn 4 (sampleInputs 10001)).BeginsEarly sampleRuntime sampleSettings s ∧
        (clockedStep sampleRuntime sampleSettings s (.turn 4 (sampleInputs 10001))).isSome)
      (by decide +kernel)
    obtain ⟨t, ht⟩ := Option.isSome_iff_exists.mp hnext
    exact ⟨s, t, hs, ht, hretries, hearly⟩
  · obtain ⟨s, hs, hretries, hearly, hnext⟩ := exists_of_any
      (o := run (clockedStep sampleRuntime sampleSettings) sampleClock queuedTwice)
      (Q := fun s => s.retries.map (·.1) = [0] ∧
        (JobOp.turn 4 (sampleInputs 1)).BeginsEarly sampleRuntime sampleSettings s ∧
        (clockedStep sampleRuntime sampleSettings s (.turn 4 (sampleInputs 1))).isSome)
      (by decide +kernel)
    obtain ⟨t, ht⟩ := Option.isSome_iff_exists.mp hnext
    exact ⟨s, t, hs, ht, hretries, hearly⟩

end Sample

end Onvm
