import Onvm.CallSteps

/-! What a step of the machine can do, said once, and how it changes the ledger. -/

namespace Onvm

open ByteString OrderedStore Std

variable {pf : Platform} {s s' : Node} {op : Op}

theorem finishProposal_ledger (pf : Platform) (clock : UInt64 → UInt64) (s : Node) (world : Nat)
    (task : ProposalTask) :
    (finishProposal pf clock s world task).ledger = s.ledger ∨
      ∃ b, ((endorse pf s world task.proposal).bind fun sig =>
          (castVote pf s task sig).pending[task.proposal.receipt.id pf]?.bind (dueBundle pf)) = some b ∧
        Handled pf s.ledger b (finishProposal pf clock s world task).ledger := by
  rw [finishProposal]
  cases he : endorse pf s world task.proposal with
  | none => exact .inl rfl
  | some sig => exact (maybeFinalize_spec pf clock (castVote pf s task sig) (task.proposal.receipt.id pf)).2

theorem runJob_ledger (p : ProgramId) (input : Bytes) (maxFuel : UInt64) (world : Nat) (salt : Bytes32)
    (now : UInt64) :
    LedgerChange pf s (.job p input maxFuel world salt now)
      (runJob pf s p input maxFuel world salt now).ledger := by
  rw [runJob]
  split
  · exact .same
  rename_i o ho
  split
  · exact .same
  rename_i u _ _
  cases hw : o.stateWrites with
  | nil => exact .same
  | cons w ws =>
    have hj := LedgerChange.job p input maxFuel world salt now rfl o ho (by rw [hw]; simp)
    rw [hw] at hj
    exact hj

theorem checkProposal_state (pf : Platform) (s : Node) (m : StateTransitionProposal) :
    (checkProposal pf s m).1 = s ∨
    (checkProposal pf s m).1 = s.request (.programManifest m.receipt.programId) ∨
    (checkProposal pf s m).1 = (s.loadLastVoted m.receipt.programId).1 := by
  rw [checkProposal]
  dsimp only
  split
  · exact .inl rfl
  · exact .inr (.inl rfl)
  split
  · exact .inl rfl
  split
  · exact .inl rfl
  split
  · exact .inl rfl
  split
  · exact .inl rfl
  split
  · exact .inl rfl
  split
  · exact .inl rfl
  split
  · exact .inr (.inr rfl)
  split <;> exact .inr (.inr rfl)

theorem Node.loadLastVoted_eq (s : Node) (p : ProgramId) :
    ∃ cache, (s.loadLastVoted p).1 = { s with lastVoted := cache } := by
  rw [loadLastVoted]
  split
  · exact ⟨_, rfl⟩
  split
  · exact ⟨_, rfl⟩
  · exact ⟨_, rfl⟩

theorem checkProposal_frame (pf : Platform) (s : Node) (m : StateTransitionProposal) :
    ∃ cache requests, (checkProposal pf s m).1 = { s with lastVoted := cache, requests := requests } := by
  rcases checkProposal_state pf s m with hc | hc | hc
  · exact ⟨s.lastVoted, s.requests, hc⟩
  · exact ⟨s.lastVoted, _, hc⟩
  · obtain ⟨cache, hcache⟩ := s.loadLastVoted_eq m.receipt.programId
    exact ⟨cache, s.requests, hc.trans hcache⟩

theorem runJob_frame (pf : Platform) (s : Node) (p : ProgramId) (input : Bytes) (maxFuel : UInt64)
    (world : Nat) (salt : Bytes32) (now : UInt64) :
    ∃ unified states, runJob pf s p input maxFuel world salt now =
      { s with unified := unified, states := states } := by
  rw [runJob]
  split
  · exact ⟨s.unified, s.states, rfl⟩
  split
  · exact ⟨s.unified, s.states, rfl⟩
  · exact ⟨_, _, rfl⟩

/-- The steps of the machine with what each needs and leaves alone. -/
inductive NodeStep (pf : Platform) (s : Node) : Op → Node → Prop
  | submit {t : Nat} {p : ProgramId} {input : Bytes} (ht : s.tasks[t]? = none) :
    NodeStep pf s (.submit t p input) (submitStart s t p input)
  | call {t : Nat} {act : CallStep} {task : SubmitTask} {s' : Node} (ht : s.tasks[t]? = some task)
    (h : callStep pf s t task act task.phase = some s') : NodeStep pf s (.call t act) s'
  | vote {clock : UInt64 → UInt64} {v : StateTransitionVote} :
    NodeStep pf s (.deliver clock (.vote v)) (handleStateTransitionVote pf clock s v)
  | deliver {clock : UInt64 → UInt64} {m : Inbound} (hm : ∀ v, m ≠ .vote v) :
    NodeStep pf s (.deliver clock m) (handleInbound pf clock s m)
  | proposal {m : StateTransitionProposal} {cache : ExtTreeMap ProgramId (UInt64 × ReceiptId)}
    {requests : List Request}
    (hc : (checkProposal pf s m).1 = { s with lastVoted := cache, requests := requests }) :
    NodeStep pf s (.proposal m)
      { s with lastVoted := cache, requests := requests, handling := (checkProposal pf s m).2 }
  | finishProposal {world : Nat} {clock : UInt64 → UInt64} {task : ProposalTask}
    (ht : s.handling = some task) :
    NodeStep pf s (.finishProposal world clock) (finishProposal pf clock { s with handling := none } world task)
  | store {e : StoreEvent} : NodeStep pf s (.store e) { s with unified := s.unified.handle pf e }
  | job {p : ProgramId} {input : Bytes} {maxFuel : UInt64} {world : Nat} {salt : Bytes32} {now : UInt64}
    {unified : UnifiedStore} {states : StateStore}
    (hj : runJob pf s p input maxFuel world salt now = { s with unified := unified, states := states }) :
    NodeStep pf s (.job p input maxFuel world salt now) { s with unified := unified, states := states }
  | restart : NodeStep pf s .restart s.restart

theorem step_cases (h : step pf s op = some s') : NodeStep pf s op s' := by
  cases op with
  | submit t p input =>
    simp only [step] at h
    split at h
    · cases h
    · rename_i ht
      cases h
      exact .submit ht
  | call t act =>
    simp only [step] at h
    split at h
    · cases h
    · rename_i task ht
      exact .call ht h
  | deliver clock m =>
    simp only [step] at h
    split at h
    · cases h
    cases h
    by_cases hm : ∀ v, m ≠ .vote v
    · exact .deliver hm
    · push Not at hm
      obtain ⟨v, rfl⟩ := hm
      exact .vote
  | proposal m =>
    simp only [step] at h
    split at h
    · cases h
    obtain ⟨cache, requests, hc⟩ := checkProposal_frame pf s m
    rw [hc] at h
    cases h
    exact .proposal hc
  | finishProposal world clock =>
    simp only [step] at h
    split at h
    · cases h
    · rename_i task ht
      cases h
      exact .finishProposal ht
  | store e =>
    cases h
    exact .store
  | job p input maxFuel world salt now =>
    obtain ⟨unified, states, hj⟩ := runJob_frame pf s p input maxFuel world salt now
    simp only [step, hj] at h
    cases h
    exact .job hj
  | restart =>
    cases h
    exact .restart

theorem step_ledger (h : step pf s op = some s') : LedgerChange pf s op s'.ledger := by
  cases step_cases h with
  | submit ht => exact .same
  | @call t act task _ ht hs =>
    rcases callStep_untouched hs with hu | ⟨c, r, o, -, -, rfl⟩ | ⟨clock, r, o, rfl, hph, rfl⟩
    · rw [hu.1]
      exact .same
    · rw [submitSign_ledger c r o]
      exact .same
    · have hled : (submitSettle pf s t task clock r o).ledger =
          (maybeFinalizePendingTransition pf clock s (r.id pf)).1.ledger := rfl
      rcases (maybeFinalize_spec pf clock s (r.id pf)).2 with he | ⟨b, hb, hh⟩
      · rw [hled, he]
        exact .same
      · rw [hled]
        exact .bundle b (by simp only [handledBundle, dueTransition, ht, Option.bind_some, hph]; exact hb) hh
  | @vote clock v => exact handleInbound_ledger pf clock s (.vote v)
  | @deliver clock m hm => exact handleInbound_ledger pf clock s m
  | proposal hc => exact .same
  | @finishProposal world clock task ht =>
    rcases finishProposal_ledger pf clock { s with handling := none } world task with he | ⟨b, hb, hh⟩
    · rw [he]
      exact .same
    · refine .bundle b ?_ hh
      simp only [handledBundle, dueTransition, ht, Option.bind_some, Option.bind_assoc]
      exact hb
  | store => exact .same
  | @job p input maxFuel world salt now _ _ hj =>
    rw [← hj]
    exact runJob_ledger p input maxFuel world salt now
  | restart => exact .same

end Onvm
