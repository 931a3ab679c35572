import Onvm.CommittedChain
import Onvm.Leadership
import Onvm.VotedReceipts

/-! Where the receipts that a node holds come from: from itself when a call proposes, from a message,
or from what it held before. A call proposes once. -/

namespace Onvm

open ByteString OrderedStore Std

def Node.LiveCall (s : Node) (p : ProgramId) (input : Bytes) (t : Nat) : Prop :=
  ∃ task, s.tasks[t]? = some task ∧ task.programId = p ∧ task.input = input ∧ task.phase.live = true

def Outgoing.receipt : Outgoing → Option ExecutionReceipt
  | .proposal m => some m.receipt
  | .vote _ => none
  | .aggregatedReceipt b => some b.receipt.receipt

def Op.carried : Op → Option ExecutionReceipt
  | .proposal m => some m.receipt
  | .deliver _ (.aggregatedReceipt b) => some b.receipt.receipt
  | .deliver _ (.finalizedTransition r) => r.bundle.map (·.receipt.receipt)
  | _ => none

inductive Node.Holds (s : Node) (r : ExecutionReceipt) : Prop
  | published (m : Outgoing) (hm : m ∈ s.published) (hr : m.receipt = some r)
  | pending (id : ReceiptId) (e : PendingTransition) (he : s.pending[id]? = some e) (hr : e.receipt = r)
  | handling (task : ProposalTask) (ht : s.handling = some task) (hr : task.proposal.receipt = r)
  | stored (k : Bytes) (b : AggregatedReceiptBundle) (hb : s.finalizedStore.get k = some b)
    (hr : b.receipt.receipt = r)

/-- What the node sends, collects and handles in `s'` it did in `s`, receipts in `X` apart. -/
structure Node.Gains (s s' : Node) (X : ExecutionReceipt → Prop) : Prop where
  published : ∀ m ∈ s'.published, m ∈ s.published ∨ ∀ r, m.receipt = some r → X r
  pending : ∀ (id : ReceiptId) e, s'.pending[id]? = some e →
    (∃ (id' : ReceiptId) (e' : PendingTransition), s.pending[id']? = some e' ∧ e'.receipt = e.receipt) ∨
      X e.receipt
  handling : ∀ task, s'.handling = some task → s.handling = some task ∨ X task.proposal.receipt

section Gains

variable {pf : Platform} {s s' s'' : Node} {X Y : ExecutionReceipt → Prop}

theorem Node.gains_of_same (hpub : s'.published = s.published) (hpend : s'.pending = s.pending)
    (hhand : s'.handling = s.handling) : s.Gains s' X :=
  ⟨fun _ hm => .inl (hpub ▸ hm), fun id e he => .inl ⟨id, e, hpend ▸ he, rfl⟩, fun _ ht => .inl (hhand ▸ ht)⟩

theorem Node.Gains.mono (h : s.Gains s' X) (hXY : ∀ r, X r → Y r) : s.Gains s' Y :=
  ⟨fun m hm => (h.published m hm).imp_right fun hx r hr => hXY r (hx r hr),
    fun id e he => (h.pending id e he).imp_right (hXY _),
    fun t ht => (h.handling t ht).imp_right (hXY _)⟩

theorem Node.Gains.trans (h : s.Gains s' X) (h' : s'.Gains s'' X) : s.Gains s'' X := by
  constructor
  case published =>
    intro m hm
    rcases h'.published m hm with hm | hx
    · exact h.published m hm
    · exact .inr hx
  case pending =>
    intro id e he
    rcases h'.pending id e he with ⟨id', e', he', hr⟩ | hx
    · rw [← hr]
      exact h.pending id' e' he'
    · exact .inr hx
  case handling =>
    intro t ht
    rcases h'.handling t ht with ht | hx
    · exact h.handling t ht
    · exact .inr hx

theorem Node.Gains.holds (h : s.Gains s' X) (hst : ∀ k b, s'.finalizedStore.get k = some b →
    s.finalizedStore.get k = some b ∨ X b.receipt.receipt) {r : ExecutionReceipt} (hr : s'.Holds r) :
    s.Holds r ∨ X r := by
  cases hr with
  | published m hm hr => exact (h.published m hm).imp (fun hm => .published m hm hr) fun hx => hx r hr
  | pending id e he hr =>
    subst hr
    refine (h.pending id e he).imp_left ?_
    rintro ⟨id', e', he', hr⟩
    exact .pending id' e' he' hr
  | handling task ht hr =>
    subst hr
    exact (h.handling task ht).imp_left fun ht => .handling task ht rfl
  | stored k b hb hr =>
    subst hr
    exact (hst k b hb).imp_left fun hb => .stored k b hb rfl

theorem Node.gains_of_rest (h : s'.rest = s.rest) : s.Gains s' X := by
  have hpub := congrArg Node.published h
  have hpend := congrArg Node.pending h
  have hhand := congrArg Node.handling h
  exact Node.gains_of_same hpub hpend hhand

theorem Node.gains_of_erase {id : ReceiptId} : s.Gains { s with pending := s.pending.erase id } X := by
  refine ⟨fun m hm => .inl hm, fun id' e he => .inl ?_, fun t ht => .inl ht⟩
  rw [ExtTreeMap.getElem?_erase] at he
  split at he
  · cases he
  · exact ⟨id', e, he, rfl⟩

theorem Node.gains_of_insert {id : ReceiptId} {e : PendingTransition} (he : s.Holds e.receipt ∨ X e.receipt) :
    s.Gains { s with pending := s.pending.insert id e } fun r => s.Holds r ∨ X r := by
  refine ⟨fun m hm => .inl hm, fun id' e' he' => ?_, fun t ht => .inl ht⟩
  rw [ExtTreeMap.getElem?_insert] at he'
  split at he'
  · cases he'
    exact .inr he
  · exact .inl ⟨id', e', he', rfl⟩

theorem Node.gains_of_publish {m : Outgoing} (hm : ∀ r, m.receipt = some r → X r) :
    s.Gains (s.publish m) X := by
  refine ⟨fun m' hm' => ?_, fun id e he => .inl ⟨id, e, he, rfl⟩, fun t ht => .inl ht⟩
  rcases List.mem_append.mp hm' with hm' | hm'
  · exact .inl hm'
  · rw [List.mem_singleton.mp hm']
    exact .inr hm

theorem finalizeTransition_gains (pf : Platform) (clock : UInt64 → UInt64) (s : Node)
    (entry : PendingTransition) :
    s.Gains (finalizeTransition pf clock s entry).1 fun r => r = entry.receipt := by
  rw [finalizeTransition]
  split
  · exact Node.gains_of_same rfl rfl rfl
  · exact Node.gains_of_same rfl rfl rfl
  rename_i b hb
  have hr : ∀ r, (Outgoing.aggregatedReceipt b).receipt = some r → r = entry.receipt :=
    fun r h => (Option.some.inj h).symm.trans (assembleBundle_fields hb).1
  have hrest := (handleFinalizedReceipt_spec pf clock s b).1
  cases hout : handleFinalizedReceipt pf clock s b with
  | mk s₁ r =>
    rw [hout] at hrest
    have h₁ : s.Gains s₁ fun r => r = entry.receipt := Node.gains_of_rest hrest
    have hpub := h₁.trans (Node.gains_of_publish hr)
    cases r <;> cases entry.completion
    · exact h₁
    · exact ⟨h₁.published, h₁.pending, h₁.handling⟩
    · exact hpub
    · exact ⟨hpub.published, hpub.pending, hpub.handling⟩

theorem maybeFinalize_gains (pf : Platform) (clock : UInt64 → UInt64) (s : Node) (id : ReceiptId) :
    s.Gains (maybeFinalizePendingTransition pf clock s id).1 s.Holds := by
  rw [maybeFinalizePendingTransition]
  split
  · exact Node.gains_of_same rfl rfl rfl
  rename_i entry he
  split
  · exact Node.gains_of_same rfl rfl rfl
  refine Node.gains_of_erase.trans ((finalizeTransition_gains pf clock _ entry).mono ?_)
  rintro r rfl
  exact .pending id entry he rfl

theorem handleStateTransitionVote_gains (pf : Platform) (clock : UInt64 → UInt64) (s : Node)
    (v : StateTransitionVote) : s.Gains (handleStateTransitionVote pf clock s v) s.Holds := by
  rw [handleStateTransitionVote]
  split
  · exact Node.gains_of_same rfl rfl rfl
  rename_i entry he
  split
  · exact Node.gains_of_same rfl rfl rfl
  rename_i entry' hv
  have hheld : s.Holds entry'.receipt := by
    obtain ⟨rfl, -⟩ := countVote_eq_some hv
    exact .pending v.receiptId entry he rfl
  split
  · refine Node.gains_of_erase.trans ((finalizeTransition_gains pf clock _ entry').mono ?_)
    rintro r rfl
    exact hheld
  · exact (Node.gains_of_insert (X := s.Holds) (.inl hheld)).mono fun r hr => hr.elim id id

theorem followerEntry_receipt (m : StateTransitionProposal) (c : CommitteeCertificate) :
    s.Holds (followerEntry pf s m c).receipt ∨ (followerEntry pf s m c).receipt = m.receipt := by
  rw [followerEntry]
  split
  · rename_i entry he
    exact .inl (.pending _ entry he rfl)
  · exact .inr rfl

theorem castVote_gains (pf : Platform) (s : Node) (task : ProposalTask) (sig : BlsSignature) :
    s.Gains (castVote pf s task sig) fun r => s.Holds r ∨ r = task.proposal.receipt := by
  have hins := @Node.gains_of_insert s (fun r => r = task.proposal.receipt)
    (task.proposal.receipt.id pf) { followerEntry pf s task.proposal task.committee with
      signatures := (followerEntry pf s task.proposal task.committee).signatures.insert s.nodeId sig }
    (followerEntry_receipt task.proposal task.committee)
  refine hins.trans ⟨fun m hm => ?_, fun id e he => .inl ⟨id, e, he, rfl⟩, fun t ht => .inl ht⟩
  rcases List.mem_append.mp hm with hm | hm
  · exact .inl hm
  · rw [List.mem_singleton.mp hm]
    exact .inr fun r hr => by cases hr

theorem finishProposal_gains (pf : Platform) (clock : UInt64 → UInt64) (s : Node) (world : Nat)
    (task : ProposalTask) :
    s.Gains (finishProposal pf clock s world task) fun r => s.Holds r ∨ r = task.proposal.receipt := by
  rw [finishProposal]
  split
  · exact Node.gains_of_same rfl rfl rfl
  rename_i sig _
  refine (castVote_gains pf s task sig).trans ((maybeFinalize_gains pf clock _ _).mono fun r hr => ?_)
  rcases (castVote_gains pf s task sig).holds (fun k b hb => .inl hb) hr with hs | hx
  · exact .inl hs
  · exact hx

theorem submitPropose_gains (t : Nat) (task : SubmitTask) (c : CommitteeCertificate) (height : UInt64)
    (rootIn : StateRoot) (o : ExecutionOutcome) :
    s.Gains (submitPropose pf s t task c height rootIn o) fun r => s.Holds r ∨
      r = buildReceipt pf s.unified s.nodeId task.programId task.input height rootIn o := by
  obtain ⟨e, hs⟩ | ⟨-, hs⟩ := @submitPropose_cases pf s t task c height rootIn o
  · rw [hs]
    exact Node.gains_of_same rfl rfl rfl
  rw [hs]
  let r := buildReceipt pf s.unified s.nodeId task.programId task.input height rootIn o
  have hins := @Node.gains_of_insert s (fun r' => r' = r) (r.id pf) ⟨c, r, o.stateWrites, ∅, some t⟩ (.inr rfl)
  refine hins.trans ⟨fun m hm => ?_, fun id e he => .inl ⟨id, e, he, rfl⟩, fun t ht => .inl ht⟩
  rcases List.mem_append.mp hm with hm | hm
  · exact .inl hm
  · rw [List.mem_singleton.mp hm]
    exact .inr fun r' hr' => .inr (Option.some.inj hr').symm

theorem submitSign_gains (t : Nat) (task : SubmitTask) (c : CommitteeCertificate) (r : ExecutionReceipt)
    (o : ExecutionOutcome) : s.Gains (submitSign pf s t task c r o) s.Holds := by
  obtain ⟨e, hs⟩ | ⟨sig, pending, -, hpending, hs⟩ := @submitSign_cases pf s t task c r o
  · rw [hs]
    exact Node.gains_of_same rfl rfl rfl
  rw [hs]
  have hins : s.Gains { s with pending := pending } s.Holds := by
    rcases hpending with rfl | ⟨entry, he, rfl⟩
    · exact Node.gains_of_same rfl rfl rfl
    · have hg := @Node.gains_of_insert s s.Holds (r.id pf)
        { entry with signatures := entry.signatures.insert s.nodeId sig } (.inl (.pending _ entry he rfl))
      exact hg.mono fun r hr => hr.elim id id
  have hv := hins.trans (@Node.gains_of_publish { s with pending := pending } s.Holds
    (.vote ⟨task.programId, c.epoch, r.id pf, s.nodeId, sig⟩) fun r hr => by cases hr)
  exact ⟨hv.published, hv.pending, hv.handling⟩

end Gains

/-- The step is that of a call which is about to propose `r`. -/
def Node.Proposes (pf : Platform) (s : Node) (op : Op) (r : ExecutionReceipt) : Prop :=
  ∃ t task c height rootIn o, op = .call t .propose ∧ s.tasks[t]? = some task ∧
    task.phase = .propose c height rootIn o ∧
    r = buildReceipt pf s.unified s.nodeId task.programId task.input height rootIn o

section Steps

variable {pf : Platform} {s s' : Node} {op : Op} {t : Nat} {task : SubmitTask} {act : CallStep}

theorem callStep_gains (ht : s.tasks[t]? = some task)
    (h : callStep pf s t task act task.phase = some s') :
    s.Gains s' fun r => s.Holds r ∨ s.Proposes pf (.call t act) r := by
  have hhand := (callStep_frame h).1
  rcases callStep_cases h with ⟨-, ha⟩ | hlate
  · exact Node.gains_of_same ha.published ha.pending hhand
  cases hlate with
  | @propose c height rootIn o hph =>
    refine (submitPropose_gains t task c height rootIn o).mono fun r hr => hr.imp_right ?_
    rintro rfl
    exact ⟨t, task, c, height, rootIn, o, rfl, ht, hph, rfl⟩
  | sign hph => exact (submitSign_gains ..).mono fun r hr => .inl hr
  | @settle clock r o hph =>
    have hg := maybeFinalize_gains pf clock s (r.id pf)
    have hsettle : s.Gains (submitSettle pf s t task clock r o) s.Holds :=
      ⟨hg.published, hg.pending, hg.handling⟩
    exact hsettle.mono fun r' hr => .inl hr
  | finish hph h =>
    obtain ⟨result, rfl, -⟩ := submitFinish_cases h
    exact Node.gains_of_same rfl rfl rfl
  | @timeout r o _ hph h =>
    obtain ⟨e, rfl⟩ := submitTimeout_cases h
    have hg := @Node.gains_of_erase s (fun r' => s.Holds r' ∨ s.Proposes pf (.call t .timeout) r') (r.id pf)
    exact ⟨hg.published, hg.pending, hg.handling⟩

theorem gains_step (h : step pf s op = some s') :
    s.Gains s' fun r => s.Holds r ∨ op.carried = some r ∨ s.Proposes pf op r := by
  cases step_cases h with
  | submit ht => exact Node.gains_of_same rfl rfl rfl
  | call ht hcall => exact (callStep_gains ht hcall).mono fun r hr => hr.imp_right .inr
  | @vote clock v => exact (handleStateTransitionVote_gains pf clock s v).mono fun r hr => .inl hr
  | @deliver clock m hm => exact Node.gains_of_rest (handleInbound_rest pf clock s hm)
  | @proposal m _ _ hc =>
    refine ⟨fun m' hm' => .inl hm', fun id e he => .inl ⟨id, e, he, rfl⟩, fun task ht => .inr (.inr ?_)⟩
    have hp : task.proposal = m := (checkProposal_passed ht).proposal
    exact .inl (congrArg (fun m : StateTransitionProposal => some m.receipt) hp.symm)
  | @finishProposal world clock task ht =>
    have hg := finishProposal_gains pf clock { s with handling := none } world task
    have hclear : s.Gains { s with handling := none } fun r => s.Holds r ∨ r = task.proposal.receipt :=
      ⟨fun m hm => .inl hm, fun id e he => .inl ⟨id, e, he, rfl⟩, fun t ht => by cases ht⟩
    refine (hclear.trans (hg.mono fun r hr => ?_)).mono fun r hr => .inl ?_
    · rcases hr with hr | hr
      · exact hclear.holds (fun k b hb => .inl hb) hr |>.elim .inl id
      · exact .inr hr
    · rcases hr with hr | rfl
      · exact hr
      · exact .handling task ht rfl
  | store => exact Node.gains_of_same rfl rfl rfl
  | job hj => exact Node.gains_of_same rfl rfl rfl
  | restart =>
    refine ⟨fun m hm => .inl hm, fun id e he => ?_, fun t ht => by cases ht⟩
    simp [Node.restart] at he

theorem dueBundle_receipt {entry : PendingTransition} {b : AggregatedReceiptBundle}
    (h : dueBundle pf entry = some b) : b.receipt.receipt = entry.receipt := by
  rw [dueBundle] at h
  split at h
  · cases h
  split at h
  · rename_i b' hb
    subst h
    exact (assembleBundle_fields hb).1
  · cases h

theorem holds_of_dueTransition {e : PendingTransition} (h : dueTransition pf s op = some e) :
    s.Holds e.receipt := by
  cases dueFrom_of_dueTransition h with
  | counted v entry hentry hv =>
    obtain ⟨rfl, -⟩ := countVote_eq_some hv
    exact .pending _ entry hentry rfl
  | settled id hentry => exact .pending id e hentry rfl
  | voted world task sig htask _ hentry =>
    have hgains := castVote_gains pf s task sig
    rcases hgains.holds (fun k b hb => .inl hb) (.pending _ e hentry rfl) with hs | hs | hr
    · exact hs
    · exact hs
    · exact .handling task htask hr.symm

theorem holds_of_handledBundle {b : AggregatedReceiptBundle} (h : handledBundle pf s op = some b) :
    s.Holds b.receipt.receipt ∨ op.carried = some b.receipt.receipt := by
  rw [handledBundle.eq_def] at h
  split at h
  · cases h
    exact .inr rfl
  · rename_i r
    exact .inr (by rw [Op.carried, h]; rfl)
  · obtain ⟨e, he, hb⟩ := Option.bind_eq_some_iff.mp h
    rw [dueBundle_receipt hb]
    exact .inl (holds_of_dueTransition he)

theorem holds_step (h : step pf s op = some s') {r : ExecutionReceipt} (hr : s'.Holds r) :
    s.Holds r ∨ op.carried = some r ∨ s.Proposes pf op r := by
  refine ((gains_step h).holds (fun k b hb => ?_) hr).elim .inl id
  refine ((step_ledger h).finalized hb).imp_right fun hb' => ?_
  exact (holds_of_handledBundle hb').imp_right .inl

end Steps

section Live

variable {pf : Platform} {s s' : Node} {op : Op} {t t' : Nat} {task : SubmitTask} {act : CallStep}
  {p : ProgramId} {input : Bytes}

theorem Node.liveCall_of_insert {task' : SubmitTask} (htasks : s'.tasks = s.tasks.insert t task')
    (h : s'.LiveCall p input t') : s.LiveCall p input t' ∨
      t' = t ∧ task'.programId = p ∧ task'.input = input ∧ task'.phase.live = true := by
  obtain ⟨x, hx, hp, hi, hl⟩ := h
  rw [htasks, getElem?_insert_nat] at hx
  split at hx
  · rename_i he
    cases hx
    exact .inr ⟨he.symm, hp, hi, hl⟩
  · exact .inl ⟨x, hx, hp, hi, hl⟩

theorem callStep_live (h : callStep pf s t task act task.phase = some s') (he : task.phase.early = true) :
    task.phase.live = true := by
  cases hph : task.phase with
  | returned result =>
    rw [hph] at h
    cases act <;> cases h
  | _ => first | rfl | (rw [hph] at he; cases he)

theorem callStep_liveCall (ht : s.tasks[t]? = some task)
    (h : callStep pf s t task act task.phase = some s') (hl : s'.LiveCall p input t') :
    s.LiveCall p input t' := by
  rcases callStep_cases h with ⟨he, ha⟩ | hlate
  · rcases ha.tasks with htasks | ⟨phase, -, htasks⟩
    · obtain ⟨x, hx, hrest⟩ := hl
      exact ⟨x, htasks ▸ hx, hrest⟩
    · rcases Node.liveCall_of_insert htasks hl with hl | ⟨rfl, hp, hi, -⟩
      · exact hl
      · exact ⟨task, ht, hp, hi, callStep_live h he⟩
  · obtain ⟨phase, htasks, hdead, -⟩ := hlate.tasks
    rcases Node.liveCall_of_insert htasks hl with hl | ⟨-, -, -, hlive⟩
    · exact hl
    · rw [hdead] at hlive
      cases hlive

theorem liveCall_step (h : step pf s op = some s') (hsub : ∀ t p input, op ≠ .submit t p input)
    (hl : s'.LiveCall p input t') : s.LiveCall p input t' := by
  rcases (step_tasks h).2 with htasks | ⟨-, htasks⟩ | ⟨t, q, input', rfl, -⟩ | ⟨t, act, task, rfl, ht, hs⟩
  · obtain ⟨x, hx, hrest⟩ := hl
    exact ⟨x, htasks ▸ hx, hrest⟩
  · obtain ⟨x, hx, -⟩ := hl
    rw [htasks] at hx
    simp at hx
  · exact absurd rfl (hsub t q input')
  · exact callStep_liveCall ht hs hl

theorem step_task (h : step pf s op = some s') (hrestart : op ≠ .restart) (hcall : ∀ act, op ≠ .call t act)
    (ht : s.tasks[t]? = some task) : s'.tasks[t]? = some task := by
  rcases (step_tasks h).2 with htasks | ⟨he, -⟩ | ⟨t', p, input, rfl, hnone, rfl⟩ | ⟨t', act, _, rfl, -, hs⟩
  · rw [htasks]
    exact ht
  · exact absurd he hrestart
  · have hne : t' ≠ t := by
      rintro rfl
      rw [hnone] at ht
      cases ht
    rw [submitStart, Node.setPhase]
    dsimp only
    rw [getElem?_insert_nat, if_neg hne]
    exact ht
  · have hne : t ≠ t' := fun he => hcall act (by rw [he])
    exact ((callStep_tasks hs).2 t hne).trans ht

theorem liveCall_submit {p' : ProgramId} {input' : Bytes} (h : step pf s (.submit t p' input') = some s')
    (hl : s'.LiveCall p input t') : s.LiveCall p input t' ∨ t' = t ∧ p' = p ∧ input' = input := by
  cases step_cases h with
  | submit ht =>
    refine (Node.liveCall_of_insert rfl hl).imp_right ?_
    rintro ⟨rfl, rfl, rfl, -⟩
    exact ⟨rfl, rfl, rfl⟩

theorem Node.Proposes.unique {r r' : ExecutionReceipt} (hr : s.Proposes pf op r)
    (hr' : s.Proposes pf op r') : r' = r := by
  obtain ⟨t, task, c, height, rootIn, o, rfl, ht, hph, rfl⟩ := hr
  obtain ⟨t', task', c', height', rootIn', o', he, ht', hph', rfl⟩ := hr'
  cases he
  cases ht.symm.trans ht'
  cases hph.symm.trans hph'
  rfl

theorem Node.Proposes.liveCall {r : ExecutionReceipt} (hr : s.Proposes pf op r) (h : step pf s op = some s') :
    ∃ t, op = .call t .propose ∧ s.LiveCall r.programId r.call.calldata t ∧
      ¬ s'.LiveCall r.programId r.call.calldata t ∧
      ∃ task c height rootIn o, s.tasks[t]? = some task ∧ task.phase = .propose c height rootIn o := by
  obtain ⟨t, task, c, height, rootIn, o, rfl, ht, hph, rfl⟩ := hr
  refine ⟨t, rfl, ⟨task, ht, rfl, rfl, by rw [hph]; rfl⟩, ?_, task, c, height, rootIn, o, ht, hph⟩
  simp only [step, ht] at h
  rw [hph] at h
  cases h
  rintro ⟨x, hx, -, -, hlive⟩
  obtain ⟨phase, htasks, hdead, -⟩ := (@LateStep.propose pf s t task c height rootIn o hph).tasks
  rw [htasks, getElem?_insert_nat, if_pos rfl] at hx
  cases hx
  rw [hdead] at hlive
  cases hlive

end Live

end Onvm
