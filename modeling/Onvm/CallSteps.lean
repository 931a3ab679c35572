import Onvm.LedgerChange

/-! The steps of a call of `submit_execution`: before it proposes nothing but
the call itself moves, and from then on there are five kinds of steps. -/

namespace Onvm

open ByteString OrderedStore Std

variable {pf : Platform} {s s' : Node}

def Node.votes (s : Node) :
    List ExecutionReceipt × ExtTreeMap ProgramId (UInt64 × ReceiptId) ×
      ExtTreeMap ProgramId (UInt64 × ReceiptId) :=
  (s.signed, s.lastVotedStore, s.lastVoted)

theorem Node.votes_of_still (h : s'.still = s.still) : s'.votes = s.votes := by
  have hv := congrArg Node.votes h
  exact hv

def Node.identity (s : Node) : NodeId × BlsSecretKey × BlsPublicKey := (s.nodeId, s.blsSecret, s.blsPublic)

theorem Node.identity_of_still (h : s'.still = s.still) : s'.identity = s.identity := by
  have hi := congrArg Node.identity h
  exact hi

def Node.Untouched (s s' : Node) : Prop := s'.ledger = s.ledger ∧ s'.votes = s.votes

def Phase.early : Phase → Bool
  | .sign .. | .settle .. | .wait .. | .concluded .. => false
  | _ => true

def Phase.turn : Phase → Option (CommitteeCertificate × UInt64)
  | .prepare c height | .fetch c height | .readRoot c height | .execute c height _
  | .propose c height _ _ => some (c, height)
  | .sign c r _ => some (c, r.height)
  | _ => none

/-- A phase to which step `act` takes a call that has not proposed: it has not proposed there either,
and it has a turn only if it had it, if the node leads, or if forwarding gave the call back. -/
structure Phase.Follows (pf : Platform) (s : Node) (task : SubmitTask) (act : CallStep) (phase : Phase) :
    Prop where
  early : phase.early = true
  turn : ∀ c height, phase.turn = some (c, height) →
    task.phase.turn = some (c, height) ∨ leaderForHeight c height = some s.nodeId ∨
    ∃ answers leader, act = .forward answers ∧ task.phase = .forward c height leader ∧
      forwardExecutionToLeader pf s answers task.programId c leader = .ok none

/-- A step of a call that has not proposed yet: nothing but the call moves. -/
structure Node.Advances (pf : Platform) (s : Node) (t : Nat) (task : SubmitTask) (act : CallStep)
    (s' : Node) : Prop where
  untouched : s.Untouched s'
  nodeId : s'.nodeId = s.nodeId
  published : s'.published = s.published
  pending : s'.pending = s.pending
  sent : s'.sent = s.sent
  tasks : s'.tasks = s.tasks ∨
    ∃ phase : Phase, phase.Follows pf s task act ∧ s'.tasks = s.tasks.insert t { task with phase := phase }

variable {t : Nat} {task : SubmitTask} {act : CallStep} {phase : Phase}

theorem Phase.follows_of_none (he : phase.early = true) (ht : phase.turn = none) :
    phase.Follows pf s task act := by
  refine ⟨he, fun c height hturn => ?_⟩
  rw [ht] at hturn
  cases hturn

theorem Phase.follows_of_turn (he : phase.early = true) (ht : phase.turn = task.phase.turn) :
    phase.Follows pf s task act :=
  ⟨he, fun _ _ hturn => .inl (ht ▸ hturn)⟩

theorem setPhase_advances (h : phase.Follows pf s task act) :
    s.Advances pf t task act (s.setPhase t task phase) :=
  ⟨⟨rfl, rfl⟩, rfl, rfl, rfl, rfl, .inr ⟨phase, h, rfl⟩⟩

theorem return_advances (result : Except String ExecutionOutcome) :
    s.Advances pf t task act (s.conclude t task (.returned result)) :=
  ⟨⟨rfl, rfl⟩, rfl, rfl, rfl, rfl, .inr ⟨_, Phase.follows_of_none rfl rfl, rfl⟩⟩

theorem submitResolve_advances (ask : Bool) :
    s.Advances pf t task act (submitResolve pf s t task ask) := by
  cases ask <;>
  · rw [submitResolve]
    split
    · exact ⟨⟨rfl, rfl⟩, rfl, rfl, rfl, rfl, .inr ⟨_, Phase.follows_of_none rfl rfl, rfl⟩⟩
    · exact ⟨⟨rfl, rfl⟩, rfl, rfl, rfl, rfl, .inl rfl⟩
    · exact ⟨⟨rfl, rfl⟩, rfl, rfl, rfl, rfl, .inr ⟨_, Phase.follows_of_none rfl rfl, rfl⟩⟩

theorem submitRoute_advances (answers : Answers) (c : CommitteeCertificate) :
    s.Advances pf t task act (submitRoute pf s t task answers c) := by
  rw [submitRoute]
  split
  · exact return_advances _
  split
  · exact setPhase_advances (Phase.follows_of_none rfl rfl)
  split
  · exact return_advances _
  · exact return_advances _
  · exact setPhase_advances (Phase.follows_of_none rfl rfl)

theorem submitAcquire_advances {c : CommitteeCertificate} (h : submitAcquire s t task c = some s') :
    s.Advances pf t task act s' := by
  rw [submitAcquire] at h
  split at h
  · cases h
  · cases h
    exact ⟨⟨rfl, rfl⟩, rfl, rfl, rfl, rfl, .inr ⟨_, Phase.follows_of_none rfl rfl, rfl⟩⟩

theorem submitLead_advances (c : CommitteeCertificate) :
    s.Advances pf t task act (submitLead s t task c) := by
  rw [submitLead]
  split
  · exact return_advances _
  rename_i leader hleader
  split
  · rename_i hself
    refine setPhase_advances ⟨rfl, fun c' height hturn => .inr (.inl ?_)⟩
    cases hturn
    rw [hleader, hself]
  · exact setPhase_advances (Phase.follows_of_none rfl rfl)

theorem submitForward_advances {answers : Answers} {c : CommitteeCertificate} {height : UInt64}
    {leader : NodeId} (hph : task.phase = .forward c height leader) :
    s.Advances pf t task (.forward answers) (submitForward pf s t task answers c height leader) := by
  rw [submitForward]
  split
  · exact return_advances _
  · exact return_advances _
  · rename_i hnone
    refine setPhase_advances ⟨rfl, fun c' height' hturn => .inr (.inr ?_)⟩
    cases hturn
    exact ⟨answers, leader, rfl, hph, hnone⟩

theorem submitPrepare_advances {c : CommitteeCertificate} {height : UInt64}
    (hph : task.phase = .prepare c height) :
    s.Advances pf t task act (submitPrepare s t task c height) := by
  rw [submitPrepare]
  split
  · exact return_advances _
  split
  · exact setPhase_advances (Phase.follows_of_turn rfl (by rw [hph]; rfl))
  split
  · exact setPhase_advances (Phase.follows_of_turn rfl (by rw [hph]; rfl))
  · exact return_advances _

theorem submitFetched_advances (fetched : Except String Unit) {c : CommitteeCertificate}
    {height : UInt64} (hph : task.phase = .fetch c height) :
    s.Advances pf t task act (submitFetched s t task fetched c height) := by
  unfold submitFetched
  split
  · exact return_advances _
  split
  · exact setPhase_advances (Phase.follows_of_turn rfl (by rw [hph]; rfl))
  · exact return_advances _

theorem submitExecute_advances (world : Nat) {c : CommitteeCertificate} {height : UInt64}
    {rootIn : StateRoot} (hph : task.phase = .execute c height rootIn) :
    s.Advances pf t task act (submitExecute pf s t task world c height rootIn) := by
  rw [submitExecute]
  split
  · exact return_advances _
  split
  · exact return_advances _
  · exact setPhase_advances (Phase.follows_of_turn rfl (by rw [hph]; rfl))

theorem submitPropose_cases (c : CommitteeCertificate) (height : UInt64) (rootIn : StateRoot)
    (o : ExecutionOutcome) :
    let r := buildReceipt pf s.unified s.nodeId task.programId task.input height rootIn o
    (∃ e, submitPropose pf s t task c height rootIn o = s.conclude t task (.returned (.error e))) ∨
    (c.members.find? (·.node == s.nodeId)).map (·.blsPublicKey) = some s.blsPublic ∧
      submitPropose pf s t task c height rootIn o =
        { s with
          pending := s.pending.insert (r.id pf) ⟨c, r, o.stateWrites, ∅, some t⟩
          published := s.published ++ [.proposal ⟨r, c.epoch, o.stateWrites⟩]
          tasks := s.tasks.insert t { task with phase := .sign c r o } } := by
  intro r
  rw [submitPropose]
  split
  · exact .inl ⟨_, rfl⟩
  rename_i me hme
  split
  · exact .inl ⟨_, rfl⟩
  rename_i hkey
  rw [hme, Option.map_some, not_not.mp hkey]
  exact .inr ⟨rfl, rfl⟩

theorem submitSign_cases (c : CommitteeCertificate) (r : ExecutionReceipt) (o : ExecutionOutcome) :
    (∃ e, submitSign pf s t task c r o = s.conclude t task (.concluded r (.error e))) ∨
    ∃ sig pending, pf.sign (r.id pf).bytes s.blsSecret dstReceipt = .ok sig ∧
      (pending = s.pending ∨ ∃ entry, s.pending[r.id pf]? = some entry ∧
        pending = s.pending.insert (r.id pf)
          { entry with signatures := entry.signatures.insert s.nodeId sig }) ∧
      submitSign pf s t task c r o =
        { s with
          lastVotedStore := s.lastVotedStore.insert r.programId (r.height, r.id pf)
          lastVoted := s.lastVoted.insert r.programId (r.height, r.id pf)
          signed := r :: s.signed
          pending := pending
          published := s.published ++ [.vote ⟨task.programId, c.epoch, r.id pf, s.nodeId, sig⟩]
          tasks := s.tasks.insert t { task with phase := .settle r o } } := by
  rw [submitSign]
  split
  · exact .inl ⟨_, rfl⟩
  rename_i sig hs
  refine .inr ⟨sig, ?_⟩
  dsimp only
  split
  · exact ⟨s.pending, hs, .inl rfl, rfl⟩
  · rename_i entry he
    exact ⟨_, hs, .inr ⟨entry, he, rfl⟩, rfl⟩

theorem submitFinish_cases {r : ExecutionReceipt} {o : ExecutionOutcome}
    (h : submitFinish s t task r o = some s') :
    ∃ result, s' = s.conclude t task (.concluded r result) ∧
      ∀ o', result = .ok o' → o' = o ∧ s.sent[t]? = some (.ok ()) := by
  rw [submitFinish] at h
  split at h
  · rename_i hsent
    cases h
    refine ⟨.ok o, rfl, fun o' ho => ?_⟩
    cases ho
    exact ⟨rfl, hsent⟩
  · cases h
    exact ⟨_, rfl, fun o' ho => by cases ho⟩
  split at h
  · cases h
  · cases h
    exact ⟨_, rfl, fun o' ho => by cases ho⟩

theorem submitTimeout_cases {r : ExecutionReceipt} (h : submitTimeout pf s t task r = some s') :
    ∃ e, s' = { s with pending := s.pending.erase (r.id pf) }.conclude t task (.concluded r (.error e)) := by
  rw [submitTimeout] at h
  split at h
  · cases h
  · cases h
    exact ⟨_, rfl⟩

theorem submitPropose_untouched (c : CommitteeCertificate) (height : UInt64) (rootIn : StateRoot)
    (o : ExecutionOutcome) : s.Untouched (submitPropose pf s t task c height rootIn o) := by
  obtain ⟨e, hs⟩ | ⟨-, hs⟩ := @submitPropose_cases pf s t task c height rootIn o
  · rw [hs]
    exact ⟨rfl, rfl⟩
  · rw [hs]
    exact ⟨rfl, rfl⟩

theorem submitSign_ledger (c : CommitteeCertificate) (r : ExecutionReceipt) (o : ExecutionOutcome) :
    (submitSign pf s t task c r o).ledger = s.ledger := by
  obtain ⟨e, hs⟩ | ⟨sig, pending, -, -, hs⟩ := @submitSign_cases pf s t task c r o <;> rw [hs] <;> rfl

/-- The steps of a call from its proposal on. -/
inductive LateStep (pf : Platform) (s : Node) (t : Nat) (task : SubmitTask) : CallStep → Node → Prop
  | propose {c : CommitteeCertificate} {height : UInt64} {rootIn : StateRoot} {o : ExecutionOutcome}
    (hph : task.phase = .propose c height rootIn o) :
    LateStep pf s t task .propose (submitPropose pf s t task c height rootIn o)
  | sign {c : CommitteeCertificate} {r : ExecutionReceipt} {o : ExecutionOutcome}
    (hph : task.phase = .sign c r o) : LateStep pf s t task .sign (submitSign pf s t task c r o)
  | settle {clock : UInt64 → UInt64} {r : ExecutionReceipt} {o : ExecutionOutcome}
    (hph : task.phase = .settle r o) :
    LateStep pf s t task (.settle clock) (submitSettle pf s t task clock r o)
  | finish {r : ExecutionReceipt} {o : ExecutionOutcome} {s' : Node} (hph : task.phase = .wait r o)
    (h : submitFinish s t task r o = some s') : LateStep pf s t task .finish s'
  | timeout {r : ExecutionReceipt} {o : ExecutionOutcome} {s' : Node} (hph : task.phase = .wait r o)
    (h : submitTimeout pf s t task r = some s') : LateStep pf s t task .timeout s'

theorem callStep_cases (h : callStep pf s t task act task.phase = some s') :
    task.phase.early = true ∧ s.Advances pf t task act s' ∨ LateStep pf s t task act s' := by
  generalize hph : task.phase = phase at h
  rw [callStep.eq_def] at h
  split at h
  · cases h; exact .inl ⟨rfl, submitResolve_advances _⟩
  · cases h; exact .inl ⟨rfl, return_advances _⟩
  · cases h; exact .inl ⟨rfl, submitRoute_advances _ _⟩
  · exact .inl ⟨rfl, submitAcquire_advances h⟩
  · cases h; exact .inl ⟨rfl, submitLead_advances _⟩
  · cases h; exact .inl ⟨rfl, submitForward_advances hph⟩
  · cases h; exact .inl ⟨rfl, submitPrepare_advances hph⟩
  · cases h; exact .inl ⟨rfl, submitFetched_advances _ hph⟩
  · cases h; exact .inl ⟨rfl, setPhase_advances (Phase.follows_of_turn rfl (by rw [hph]; rfl))⟩
  · cases h; exact .inl ⟨rfl, submitExecute_advances _ hph⟩
  · cases h; exact .inr (.propose hph)
  · cases h; exact .inr (.sign hph)
  · cases h; exact .inr (.settle hph)
  · exact .inr (.finish hph h)
  · exact .inr (.timeout hph h)
  · cases h

theorem callStep_untouched (h : callStep pf s t task act task.phase = some s') :
    s.Untouched s' ∨
    (∃ c r o, act = .sign ∧ task.phase = .sign c r o ∧ s' = submitSign pf s t task c r o) ∨
    ∃ clock r o, act = .settle clock ∧ task.phase = .settle r o ∧
      s' = submitSettle pf s t task clock r o := by
  rcases callStep_cases h with ⟨-, ha⟩ | hlate
  · exact .inl ha.untouched
  cases hlate with
  | propose hph => exact .inl (submitPropose_untouched ..)
  | sign hph => exact .inr (.inl ⟨_, _, _, rfl, hph, rfl⟩)
  | settle hph => exact .inr (.inr ⟨_, _, _, rfl, hph, rfl⟩)
  | finish hph h =>
    obtain ⟨result, rfl, -⟩ := submitFinish_cases h
    exact .inl ⟨rfl, rfl⟩
  | timeout hph h =>
    obtain ⟨e, rfl⟩ := submitTimeout_cases h
    exact .inl ⟨rfl, rfl⟩

theorem callStep_frame (h : callStep pf s t task act task.phase = some s') :
    s'.handling = s.handling ∧ s'.identity = s.identity := by
  generalize task.phase = phase at h
  rw [callStep.eq_def] at h
  split at h
  case h_4 =>
    rw [submitAcquire] at h
    split at h <;> cases h
    exact ⟨rfl, rfl⟩
  case h_11 =>
    rename_i c height rootIn o
    cases h
    obtain ⟨e, hs⟩ | ⟨-, hs⟩ := @submitPropose_cases pf s t task c height rootIn o
    · rw [hs]
      exact ⟨rfl, rfl⟩
    · rw [hs]
      exact ⟨rfl, rfl⟩
  case h_12 =>
    rename_i c r o
    cases h
    obtain ⟨e, hs⟩ | ⟨sig, pending, -, -, hs⟩ := @submitSign_cases pf s t task c r o
    · rw [hs]
      exact ⟨rfl, rfl⟩
    · rw [hs]
      exact ⟨rfl, rfl⟩
  case h_13 =>
    rename_i clock r o
    cases h
    have hstill := (maybeFinalize_spec pf clock s (r.id pf)).1
    have hhandling := congrArg Node.handling hstill
    have hidentity := congrArg Node.identity hstill
    exact ⟨hhandling, hidentity⟩
  case h_14 =>
    obtain ⟨result, rfl, -⟩ := submitFinish_cases h
    exact ⟨rfl, rfl⟩
  case h_15 =>
    obtain ⟨e, rfl⟩ := submitTimeout_cases h
    exact ⟨rfl, rfl⟩
  case h_16 => cases h
  all_goals
    cases h
    simp only [submitResolve, submitResolveTimeout, submitRoute, submitLead, submitForward, submitPrepare,
      submitFetched, submitReadRoot, submitExecute]
    repeat' split
    all_goals exact ⟨rfl, rfl⟩

def Phase.live : Phase → Bool
  | .sign .. | .settle .. | .wait .. | .concluded .. | .returned .. => false
  | _ => true

theorem LateStep.tasks (h : LateStep pf s t task act s') :
    ∃ phase : Phase, s'.tasks = s.tasks.insert t { task with phase := phase } ∧ phase.live = false ∧
      (phase.turn = none ∨ phase.turn = task.phase.turn) := by
  cases h with
  | @propose c height rootIn o hph =>
    rw [hph]
    obtain ⟨e, hs⟩ | ⟨-, hs⟩ := @submitPropose_cases pf s t task c height rootIn o
    · exact ⟨_, congrArg Node.tasks hs, rfl, .inl rfl⟩
    · exact ⟨_, congrArg Node.tasks hs, rfl, .inr rfl⟩
  | @sign c r o hph =>
    obtain ⟨e, hs⟩ | ⟨sig, pending, -, -, hs⟩ := @submitSign_cases pf s t task c r o
    · exact ⟨_, congrArg Node.tasks hs, rfl, .inl rfl⟩
    · exact ⟨_, congrArg Node.tasks hs, rfl, .inl rfl⟩
  | @settle clock r o hph =>
    obtain ⟨-, htasks⟩ := Node.tasks_of_still (maybeFinalize_spec pf clock s (r.id pf)).1
    exact ⟨.wait r o, congrArg (ExtTreeMap.insert · t _) htasks, rfl, .inl rfl⟩
  | finish hph h =>
    obtain ⟨result, rfl, -⟩ := submitFinish_cases h
    exact ⟨_, rfl, rfl, .inl rfl⟩
  | timeout hph h =>
    obtain ⟨e, rfl⟩ := submitTimeout_cases h
    exact ⟨_, rfl, rfl, .inl rfl⟩

end Onvm
