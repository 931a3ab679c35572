import Onvm.Steps

/-! Who proposes. `forward_execution_to_leader` asks the leader and then the
other members in turn, and gives the call back when the node itself is next;
`submit_execution` then goes on to propose. -/

namespace Onvm

open ByteString Runs Std

/-- The node's own turn comes when `k` of the queue, none of them in `asked`, have been asked, and none
of these has answered with an outcome or an error. -/
inductive TurnComes (pf : Platform) (s : Node) (answers : Answers) :
    (queue asked : List NodeId) → (k : Nat) → Prop
  | own {queue asked : List NodeId} (hnew : s.nodeId ∉ asked) : TurnComes pf s answers (s.nodeId :: queue) asked 0
  | again {queue asked : List NodeId} {n : NodeId} {k : Nat} (hold : n ∈ asked)
    (h : TurnComes pf s answers queue asked k) : TurnComes pf s answers (n :: queue) asked k
  | silent {queue asked : List NodeId} {n : NodeId} {k : Nat} (hnew : n ∉ asked) (hother : n ≠ s.nodeId)
    (hreply : requestLeaderExecution pf s answers n = none) (h : TurnComes pf s answers queue (n :: asked) k) :
    TurnComes pf s answers (n :: queue) asked (k + 1)
  | redirect {queue asked : List NodeId} {n leader : NodeId} {k : Nat} (hnew : n ∉ asked)
    (hother : n ≠ s.nodeId) (hreply : requestLeaderExecution pf s answers n = some (.redirect leader))
    (h : TurnComes pf s answers (leader :: queue) (n :: asked) k) :
    TurnComes pf s answers (n :: queue) asked (k + 1)

def OwnTurn (pf : Platform) (s : Node) (answers : Answers) (c : CommitteeCertificate) (leader : NodeId) :
    Prop :=
  ∃ k < c.members.length + 8, TurnComes pf s answers (forwardQueue c leader) [] k

section Loop

variable {pf : Platform} {s : Node} {answers : Answers} {p : ProgramId} {maxAttempts : Nat}

theorem turnComes_of_forwardLoop {fuel attempts : Nat} {queue asked : List NodeId}
    (h : forwardLoop pf s answers p maxAttempts fuel queue asked attempts = .ok none) :
    ∃ k, attempts + k < maxAttempts ∧ TurnComes pf s answers queue asked k := by
  induction fuel generalizing queue asked attempts with
  | zero => cases h
  | succ fuel ih =>
    cases queue with
    | nil => cases h
    | cons target queue =>
      rw [forwardLoop] at h
      split at h
      · next hold =>
        obtain ⟨k, hk, hcomes⟩ := ih h
        exact ⟨k, hk, .again hold hcomes⟩
      split at h
      · cases h
      next hnew hroom =>
      split at h
      · next hself =>
        subst hself
        exact ⟨0, by omega, .own hnew⟩
      next hother =>
      split at h
      · next hreply =>
        obtain ⟨k, hk, hcomes⟩ := ih h
        exact ⟨k + 1, by omega, .silent hnew hother hreply hcomes⟩
      · cases h
      · next leader hreply =>
        obtain ⟨k, hk, hcomes⟩ := ih h
        exact ⟨k + 1, by omega, .redirect hnew hother hreply hcomes⟩
      · cases h

theorem forwardLoop_of_turnComes {fuel attempts k : Nat} {queue asked : List NodeId}
    (h : TurnComes pf s answers queue asked k) (hk : attempts + k < maxAttempts)
    (hfuel : queue.length + (maxAttempts - attempts) < fuel) :
    forwardLoop pf s answers p maxAttempts fuel queue asked attempts = .ok none := by
  obtain ⟨fuel, rfl⟩ : ∃ n, fuel = n + 1 := ⟨fuel - 1, by omega⟩
  induction h generalizing fuel attempts with
  | own hnew =>
    rw [forwardLoop, if_neg hnew, if_neg (by omega), if_pos rfl]
  | again hold _ ih =>
    rw [List.length_cons] at hfuel
    rw [forwardLoop, if_pos hold]
    obtain ⟨n, rfl⟩ : ∃ n, fuel = n + 1 := ⟨fuel - 1, by omega⟩
    exact ih hk n (by omega)
  | silent hnew hother hreply _ ih =>
    rw [List.length_cons] at hfuel
    rw [forwardLoop, if_neg hnew, if_neg (by omega), if_neg hother, hreply]
    obtain ⟨n, rfl⟩ : ∃ n, fuel = n + 1 := ⟨fuel - 1, by omega⟩
    exact ih (by omega) n (by omega)
  | redirect hnew hother hreply _ ih =>
    rw [List.length_cons] at hfuel
    rw [forwardLoop, if_neg hnew, if_neg (by omega), if_neg hother, hreply]
    obtain ⟨n, rfl⟩ : ∃ n, fuel = n + 1 := ⟨fuel - 1, by omega⟩
    exact ih (by omega) n (by rw [List.length_cons]; omega)

theorem forwardExecutionToLeader_eq_none_iff {c : CommitteeCertificate} {leader : NodeId} :
    forwardExecutionToLeader pf s answers p c leader = .ok none ↔ OwnTurn pf s answers c leader := by
  constructor
  · intro h
    obtain ⟨k, hk, hcomes⟩ := turnComes_of_forwardLoop h
    exact ⟨k, by omega, hcomes⟩
  · rintro ⟨k, hk, hcomes⟩
    exact forwardLoop_of_turnComes hcomes (by omega) (by omega)

end Loop

section Calls

/-- The step gives call `t` back to the node at a height that another leads. -/
def GivenBack (pf : Platform) (t : Nat) (s : Node) (op : Op) : Prop :=
  ∃ answers task c height leader, op = .call t (.forward answers) ∧ s.tasks[t]? = some task ∧
    task.phase = .forward c height leader ∧ leaderForHeight c height ≠ some s.nodeId ∧
    OwnTurn pf s answers c leader

/-- Call `t` is about to propose at a height that another leads. -/
def Astray (t : Nat) (s : Node) : Prop :=
  ∃ task c height, s.tasks[t]? = some task ∧ task.phase.turn = some (c, height) ∧
    leaderForHeight c height ≠ some s.nodeId

/-- Call `t`, if it is still there, is past the question who leads, and it is not the leader's. -/
def Strayed (t : Nat) (s : Node) : Prop :=
  ∀ task, s.tasks[t]? = some task →
    (∃ c height, task.phase.turn = some (c, height) ∧ leaderForHeight c height ≠ some s.nodeId) ∨
    (task.phase.live = false ∧ task.phase.turn = none)

variable {pf : Platform} {s s' : Node} {op : Op} {t : Nat} {task : SubmitTask} {act : CallStep}

theorem astray_congr (hid : s'.nodeId = s.nodeId) (ht : s'.tasks[t]? = s.tasks[t]?) (h : Astray t s') :
    Astray t s := by
  obtain ⟨task, c, height, htask, hturn, hother⟩ := h
  exact ⟨task, c, height, ht ▸ htask, hturn, hid ▸ hother⟩

theorem strayed_congr (hid : s'.nodeId = s.nodeId) (ht : s'.tasks[t]? = s.tasks[t]?) (h : Strayed t s) :
    Strayed t s' := by
  intro task htask
  rw [ht] at htask
  rw [hid]
  exact h task htask

theorem callStep_turn {c : CommitteeCertificate} {height : UInt64}
    (hturn : task.phase.turn = some (c, height)) (hs : callStep pf s t task act task.phase = some s') :
    ∃ phase : Phase, s'.tasks = s.tasks.insert t { task with phase := phase } ∧
      (phase.turn = some (c, height) ∨ phase.live = false ∧ phase.turn = none) := by
  have hlate : LateStep pf s t task act s' → _ := fun hlate => hlate.tasks
  cases hph : task.phase <;> rw [hph] at hturn hs <;> cases hturn <;> cases act <;> cases hs
  case prepare =>
    rw [submitPrepare]
    repeat' split
    all_goals first | exact ⟨_, rfl, .inl rfl⟩ | exact ⟨_, rfl, .inr ⟨rfl, rfl⟩⟩
  case fetch =>
    unfold submitFetched
    repeat' split
    all_goals first | exact ⟨_, rfl, .inl rfl⟩ | exact ⟨_, rfl, .inr ⟨rfl, rfl⟩⟩
  case readRoot => exact ⟨_, rfl, .inl rfl⟩
  case execute =>
    rw [submitExecute]
    repeat' split
    all_goals first | exact ⟨_, rfl, .inl rfl⟩ | exact ⟨_, rfl, .inr ⟨rfl, rfl⟩⟩
  case propose =>
    obtain ⟨phase, htasks, hlive, hnone | hkept⟩ := hlate (.propose hph)
    · exact ⟨phase, htasks, .inr ⟨hlive, hnone⟩⟩
    · exact ⟨phase, htasks, .inl (by rw [hkept, hph]; rfl)⟩
  case sign =>
    obtain ⟨phase, htasks, hlive, hnone | hkept⟩ := hlate (.sign hph)
    · exact ⟨phase, htasks, .inr ⟨hlive, hnone⟩⟩
    · exact ⟨phase, htasks, .inl (by rw [hkept, hph]; rfl)⟩

theorem lateStep_of_not_live (hlive : task.phase.live = false)
    (hs : callStep pf s t task act task.phase = some s') : LateStep pf s t task act s' := by
  rcases callStep_cases hs with ⟨hearly, ha⟩ | hlate
  · cases hph : task.phase <;> rw [hph] at hlive hearly hs <;>
      first | (cases hlive; done) | (cases hearly; done) | (cases act <;> cases hs)
  · exact hlate

theorem callStep_tasks (hs : callStep pf s t task act task.phase = some s') :
    s'.nodeId = s.nodeId ∧ ∀ t', t' ≠ t → s'.tasks[t']? = s.tasks[t']? := by
  have hinsert : ∀ {task' : SubmitTask}, s'.tasks = s.tasks.insert t task' → ∀ t', t' ≠ t →
      s'.tasks[t']? = s.tasks[t']? := by
    intro task' htasks t' hne
    rw [htasks, ExtTreeMap.getElem?_insert, if_neg (by simpa using hne.symm)]
  refine ⟨congrArg Prod.fst (callStep_frame hs).2, ?_⟩
  rcases callStep_cases hs with ⟨-, ha⟩ | hlate
  · rcases ha.tasks with htasks | ⟨phase, -, htasks⟩
    · exact fun t' _ => by rw [htasks]
    · exact hinsert htasks
  · obtain ⟨phase, htasks, -⟩ := hlate.tasks
    exact hinsert htasks

theorem step_tasks (hs : step pf s op = some s') :
    s'.nodeId = s.nodeId ∧ (s'.tasks = s.tasks ∨ op = .restart ∧ s'.tasks = ∅ ∨
      (∃ t p input, op = .submit t p input ∧ s.tasks[t]? = none ∧ s' = submitStart s t p input) ∨
      ∃ t act task, op = .call t act ∧ s.tasks[t]? = some task ∧
        callStep pf s t task act task.phase = some s') := by
  cases step_cases hs with
  | submit ht => exact ⟨rfl, .inr (.inr (.inl ⟨_, _, _, rfl, ht, rfl⟩))⟩
  | call ht hcall => exact ⟨(callStep_tasks hcall).1, .inr (.inr (.inr ⟨_, _, _, rfl, ht, hcall⟩))⟩
  | @vote clock v => exact (Node.tasks_of_still (handleInbound_still pf clock s (.vote v))).imp_right .inl
  | @deliver clock m hm => exact (Node.tasks_of_still (handleInbound_still pf clock s m)).imp_right .inl
  | proposal hc => exact ⟨rfl, .inl rfl⟩
  | @finishProposal world clock task ht =>
    rw [finishProposal]
    split
    · exact ⟨rfl, .inl rfl⟩
    · next sig he =>
      have hstill := (maybeFinalize_spec pf clock (castVote pf { s with handling := none } task sig)
        (task.proposal.receipt.id pf)).1
      exact (Node.tasks_of_still hstill).imp_right .inl
  | store => exact ⟨rfl, .inl rfl⟩
  | job hj => exact ⟨rfl, .inl rfl⟩
  | restart => exact ⟨rfl, .inr (.inl ⟨rfl, rfl⟩)⟩

theorem submitStart_tasks {p : ProgramId} {input : Bytes} :
    ∃ task : SubmitTask, (submitStart s t p input).tasks = s.tasks.insert t task ∧ task.phase.turn = none := by
  refine ⟨_, rfl, ?_⟩
  dsimp only
  split <;> rfl

theorem astray_origin (hs : step pf s op = some s') (h : Astray t s') : Astray t s ∨ GivenBack pf t s op := by
  obtain ⟨hid, hsame | ⟨-, hnone⟩ | ⟨t', p, input, rfl, -, rfl⟩ | ⟨t', act, task, rfl, ht, hcall⟩⟩ := step_tasks hs
  · exact .inl (astray_congr hid (by rw [hsame]) h)
  · obtain ⟨task, c, height, htask, -⟩ := h
    rw [hnone] at htask
    cases htask
  · obtain ⟨task, htasks, hnone⟩ := @submitStart_tasks s t' p input
    by_cases hne : t = t'
    · subst hne
      obtain ⟨task', c, height, htask, hturn, -⟩ := h
      rw [htasks, ExtTreeMap.getElem?_insert_self] at htask
      cases htask
      cases hnone.symm.trans hturn
    · refine .inl (astray_congr hid ?_ h)
      rw [htasks, ExtTreeMap.getElem?_insert, if_neg (by simpa using Ne.symm hne)]
  · by_cases hne : t = t'
    · subst hne
      obtain ⟨task', c, height, htask, hturn, hother⟩ := h
      have hold : task.phase.turn = some (c, height) → Astray t s := fun hturn =>
        ⟨task, c, height, ht, hturn, hid ▸ hother⟩
      rcases callStep_cases hcall with ⟨-, ha⟩ | hlate
      · rcases ha.tasks with htasks | ⟨phase, hphase, htasks⟩
        · rw [htasks, ht] at htask
          cases htask
          exact .inl (hold hturn)
        · rw [htasks, ExtTreeMap.getElem?_insert_self] at htask
          cases htask
          rcases hphase.turn c height hturn with hturn | hlead | ⟨answers, leader, rfl, hph, hback⟩
          · exact .inl (hold hturn)
          · exact absurd (hid ▸ hlead) hother
          · exact .inr ⟨answers, task, c, height, leader, rfl, ht, hph, hid ▸ hother,
              forwardExecutionToLeader_eq_none_iff.mp hback⟩
      · obtain ⟨phase, htasks, -, hkept⟩ := hlate.tasks
        rw [htasks, ExtTreeMap.getElem?_insert_self] at htask
        cases htask
        rcases hkept with hnone | hkept
        · cases hnone.symm.trans hturn
        · exact .inl (hold (hkept.symm.trans hturn))
    · exact .inl (astray_congr hid ((callStep_tasks hcall).2 t hne) h)

theorem strayed_of_givenBack (hs : step pf s op = some s') (h : GivenBack pf t s op) : Strayed t s' := by
  obtain ⟨answers, task, c, height, leader, rfl, ht, hph, hother, hown⟩ := h
  simp only [step, ht, hph, callStep, submitForward, forwardExecutionToLeader_eq_none_iff.mpr hown,
    Option.some.injEq] at hs
  subst hs
  intro task' htask
  rw [Node.setPhase, ExtTreeMap.getElem?_insert_self] at htask
  cases htask
  exact .inl ⟨c, height, rfl, hother⟩

theorem Strayed.step (h : Strayed t s) (hop : ∀ p input, op ≠ .submit t p input)
    (hs : step pf s op = some s') : Strayed t s' := by
  obtain ⟨hid, hsame | ⟨-, hnone⟩ | ⟨t', p, input, rfl, -, rfl⟩ | ⟨t', act, task, rfl, ht, hcall⟩⟩ := step_tasks hs
  · exact strayed_congr hid (by rw [hsame]) h
  · intro task htask
    rw [hnone] at htask
    cases htask
  · have hne : t' ≠ t := fun he => hop p input (by rw [he])
    obtain ⟨task, htasks, -⟩ := @submitStart_tasks s t' p input
    refine strayed_congr hid ?_ h
    rw [htasks, ExtTreeMap.getElem?_insert, if_neg (by simpa using hne)]
  · by_cases hne : t = t'
    · subst hne
      intro task' htask
      rw [hid]
      rcases h task ht with ⟨c, height, hturn, hother⟩ | hspent
      · obtain ⟨phase, htasks, hnext⟩ := callStep_turn hturn hcall
        rw [htasks, ExtTreeMap.getElem?_insert_self] at htask
        cases htask
        exact hnext.imp_left fun hkept => ⟨c, height, hkept, hother⟩
      · obtain ⟨phase, htasks, hlive, hkept⟩ := (lateStep_of_not_live hspent.1 hcall).tasks
        rw [htasks, ExtTreeMap.getElem?_insert_self] at htask
        cases htask
        exact .inr ⟨hlive, hkept.elim id fun hkept => hkept.trans hspent.2⟩
    · exact strayed_congr hid ((callStep_tasks hcall).2 t hne) h

/-- A step publishes `r` in a proposal or signs it. -/
def Node.PutsForward (s s' : Node) (r : ExecutionReceipt) : Prop :=
  (∃ m : StateTransitionProposal, m.receipt = r ∧ s'.published = s.published ++ [.proposal m]) ∨
    s'.signed = r :: s.signed

theorem not_putsForward_of_same {r : ExecutionReceipt} (hp : s'.published = s.published)
    (hs : s'.signed = s.signed) : ¬ s.PutsForward s' r := by
  rintro (⟨m, -, hm⟩ | hr)
  · simp [hp] at hm
  · exact absurd (hs.symm.trans hr).symm (List.cons_ne_self _ _)

theorem finalizeTransition_published (pf : Platform) (clock : UInt64 → UInt64) (s : Node)
    (entry : PendingTransition) :
    (finalizeTransition pf clock s entry).1.published = s.published ∨
      ∃ b, (finalizeTransition pf clock s entry).1.published = s.published ++ [.aggregatedReceipt b] := by
  rw [finalizeTransition]
  split
  · exact .inl rfl
  · exact .inl rfl
  rename_i b hb
  have hpub := congrArg Node.published (handleFinalizedReceipt_spec pf clock s b).1
  cases hout : handleFinalizedReceipt pf clock s b with
  | mk s₁ r =>
    rw [hout] at hpub
    cases r with
    | error e => cases entry.completion <;> exact .inl hpub
    | ok _ =>
      have hsame : s₁.published = s.published := hpub
      have happ : s₁.published ++ [.aggregatedReceipt b] = s.published ++ [.aggregatedReceipt b] := by
        rw [hsame]
      cases entry.completion <;> exact .inr ⟨b, happ⟩

theorem maybeFinalize_published (pf : Platform) (clock : UInt64 → UInt64) (s : Node) (id : ReceiptId) :
    (maybeFinalizePendingTransition pf clock s id).1.published = s.published ∨
      ∃ b, (maybeFinalizePendingTransition pf clock s id).1.published =
        s.published ++ [.aggregatedReceipt b] := by
  rw [maybeFinalizePendingTransition]
  split
  · exact .inl rfl
  split
  · exact .inl rfl
  · exact finalizeTransition_published ..

theorem turn_of_putsForward {r : ExecutionReceipt}
    (hs : Onvm.callStep pf s t task act task.phase = some s') (hp : s.PutsForward s' r) :
    ∃ c, task.phase.turn = some (c, r.height) := by
  rcases callStep_cases hs with ⟨-, ha⟩ | hlate
  · exact absurd hp (not_putsForward_of_same ha.published (congrArg Prod.fst ha.untouched.2))
  cases hlate with
  | @propose c height rootIn o hph =>
    refine ⟨c, ?_⟩
    obtain ⟨e, hs⟩ | ⟨-, hs⟩ := @submitPropose_cases pf s t task c height rootIn o
    · rw [hs] at hp
      exact absurd hp (not_putsForward_of_same rfl rfl)
    rw [hs] at hp
    rcases hp with ⟨m, rfl, hm⟩ | hr
    · have hmsg := List.append_cancel_left hm
      cases hmsg
      rw [hph]
      rfl
    · exact absurd hr.symm (List.cons_ne_self _ _)
  | @sign c r' o hph =>
    refine ⟨c, ?_⟩
    obtain ⟨e, hs⟩ | ⟨sig, pending, -, -, hs⟩ := @submitSign_cases pf s t task c r' o
    · rw [hs] at hp
      exact absurd hp (not_putsForward_of_same rfl rfl)
    rw [hs] at hp
    rcases hp with ⟨m, rfl, hm⟩ | hr
    · cases List.append_cancel_left hm
    · have hr : r' :: s.signed = r :: s.signed := hr
      cases hr
      rw [hph]
      rfl
  | @settle clock r' o hph =>
    have hvotes := Node.votes_of_still (maybeFinalize_spec pf clock s (r'.id pf)).1
    have hsigned : (submitSettle pf s t task clock r' o).signed = s.signed := congrArg Prod.fst hvotes
    have hout : (submitSettle pf s t task clock r' o).published = s.published ∨
        ∃ b, (submitSettle pf s t task clock r' o).published = s.published ++ [.aggregatedReceipt b] :=
      maybeFinalize_published pf clock s (r'.id pf)
    rcases hout with hpub | ⟨b, hpub⟩
    · exact absurd hp (not_putsForward_of_same hpub hsigned)
    · rcases hp with ⟨m, rfl, hm⟩ | hr
      · cases List.append_cancel_left (hpub.symm.trans hm)
      · exact absurd (hsigned.symm.trans hr).symm (List.cons_ne_self _ _)
  | finish hph h =>
    obtain ⟨result, rfl, -⟩ := submitFinish_cases h
    exact absurd hp (not_putsForward_of_same rfl rfl)
  | timeout hph h =>
    obtain ⟨e, rfl⟩ := submitTimeout_cases h
    exact absurd hp (not_putsForward_of_same rfl rfl)

theorem sometime_of_astray {ops : List Op} (hrun : run (step pf) s ops = some s') (hs : ¬ Astray t s)
    (h : Astray t s') : Sometime (step pf) (GivenBack pf t) s ops :=
  (origin_run (fun _ _ _ hs h => astray_origin hs h) hrun h).resolve_left hs

theorem strayed_of_sometime {ops : List Op} (hrun : run (step pf) s ops = some s')
    (hops : ∀ p input, Op.submit t p input ∉ ops) (h : Sometime (step pf) (GivenBack pf t) s ops) :
    Strayed t s' := by
  obtain ⟨front, op, back, u, rfl, hfront, hback⟩ := h
  have hrest := run_of_append hfront hrun
  obtain ⟨u', hu', hrest⟩ := run_cons_eq_some hrest
  have hquiet : Along (step pf) (fun _ op => ∀ p input, op ≠ .submit t p input) u' back := by
    refine along_of_forall fun op hop p input heq => hops p input ?_
    rw [← heq]
    simp [hop]
  exact invariant_run (fun _ _ _ h hop hs => h.step hop hs) (strayed_of_givenBack hu' hback) hquiet hrest

end Calls

/-- A call that puts a receipt forward does so as the leader of its height just if it has not been given
back at a height that another leads. -/
theorem putsForward_as_leader_iff {pf : Platform} {s₀ s s' : Node} {t : Nat} {p : ProgramId} {input : Bytes}
    {ops : List Op} {task : SubmitTask} {act : CallStep} {r : ExecutionReceipt}
    (hops : ∀ p input, Op.submit t p input ∉ ops)
    (hrun : run (step pf) s₀ (.submit t p input :: ops) = some s) (ht : s.tasks[t]? = some task)
    (hs : step pf s (.call t act) = some s') (hp : s.PutsForward s' r) :
    ∃ c, task.phase.turn = some (c, r.height) ∧ (leaderForHeight c r.height = some s.nodeId ↔
      ¬ Sometime (step pf) (GivenBack pf t) (submitStart s₀ t p input) ops) := by
  obtain ⟨s₁, hs₁, hrun⟩ := run_cons_eq_some hrun
  cases step_cases hs₁
  simp only [step, ht] at hs
  obtain ⟨c, hturn⟩ := turn_of_putsForward hs hp
  refine ⟨c, hturn, ?_⟩
  rw [← not_iff_not, not_not]
  constructor
  · intro hother
    refine sometime_of_astray hrun ?_ ⟨task, c, r.height, ht, hturn, hother⟩
    rintro ⟨task', c', height, htask, hturn', -⟩
    obtain ⟨begun, htasks, hnone⟩ := @submitStart_tasks s₀ t p input
    rw [htasks, ExtTreeMap.getElem?_insert_self] at htask
    cases htask
    cases hnone.symm.trans hturn'
  · intro hback
    rcases strayed_of_sometime hrun hops hback task ht with ⟨c', height, hturn', hother⟩ | ⟨-, hnone⟩
    · cases hturn'.symm.trans hturn
      exact hother
    · cases hnone.symm.trans hturn

section Sample

def callOps (t : Nat) (acts : List CallStep) : List Op := acts.map (Op.call t)

/-- The second of two members calls while the first, which leads, does not answer: the call is given back
and is about to sign. -/
def sampleStrayed : List Op :=
  callOps 0 [.resolve false, .route fun _ => none, .acquire, .lead, .forward fun _ => none, .prepare,
    .readRoot, .execute 0, .propose]

/-- Another call is given back before it has the lock, and gets it when the second member leads. -/
def sampleLed : List Op :=
  callOps 1 [.resolve false, .route fun _ => none] ++ callOps 0 [.sign, .settle fun _ => 0, .finish] ++
    callOps 1 [.acquire, .lead, .prepare, .readRoot, .execute 0, .propose]

theorem putsForward_as_leader_iff_sample :
    let setup := sampleSetup (sampleCommittee sampleProgram [1, 2] 1)
    ∃ s₀ s₁ s₂, run (step sampleRuntime) (sampleStart 2) setup = some s₀ ∧
      run (step sampleRuntime) s₀ (.submit 0 sampleProgram [] :: sampleStrayed) = some s₁ ∧
      Sometime (step sampleRuntime) (GivenBack sampleRuntime 0) (submitStart s₀ 0 sampleProgram [])
        sampleStrayed ∧
      run (step sampleRuntime) s₁ (.submit 1 sampleProgram [1] :: sampleLed) = some s₂ ∧
      ∃ task r c s', s₂.tasks[1]? = some task ∧ step sampleRuntime s₂ (.call 1 .sign) = some s' ∧
        s₂.PutsForward s' r ∧ task.phase.turn = some (c, r.height) ∧
        leaderForHeight c r.height = some s₂.nodeId := by
  intro setup
  have hrun : ((run (step sampleRuntime) (sampleStart 2) setup).any fun s₀ =>
      ∃ s₁ ∈ run (step sampleRuntime) s₀ (.submit 0 sampleProgram [] :: sampleStrayed),
      (∃ s' ∈ step sampleRuntime s₁ (.call 0 .sign), ∃ task ∈ s₁.tasks[0]?, ∃ r ∈ s'.signed,
        s'.signed = r :: s₁.signed ∧
        ∀ turn ∈ task.phase.turn, leaderForHeight turn.1 turn.2 ≠ some s₁.nodeId) ∧
      ∃ s₂ ∈ run (step sampleRuntime) s₁ (.submit 1 sampleProgram [1] :: sampleLed),
      ∃ s' ∈ step sampleRuntime s₂ (.call 1 .sign), ∃ task ∈ s₂.tasks[1]?, ∃ r ∈ s'.signed,
        s'.signed = r :: s₂.signed) = true := by
    decide +kernel
  obtain ⟨s₀, hs₀, s₁, hs₁, ⟨s', hs', task, htask, r, -, hr, hother⟩, s₂, hs₂, u, hu, task', htask', r', -, hr'⟩ :=
    exists_of_any hrun
  refine ⟨s₀, s₁, s₂, hs₀, hs₁, ?_, hs₂, task', r', ?_⟩
  · obtain ⟨c, hturn, hiff⟩ := putsForward_as_leader_iff (by simp [sampleStrayed, callOps]) hs₁ htask hs' (.inr hr)
    exact not_not.mp ((not_iff_not.mpr hiff).mp (hother _ hturn))
  · obtain ⟨c, hturn, hiff⟩ := putsForward_as_leader_iff (by simp [sampleLed, callOps]) hs₂ htask' hu (.inr hr')
    refine ⟨c, u, htask', hu, .inr hr', hturn, hiff.mpr ?_⟩
    rintro ⟨front, op, back, _, hops, -, answers, _, _, _, _, rfl, -⟩
    have hmem : Op.call 1 (.forward answers) ∈ sampleLed := by simp [hops]
    simp [sampleLed, callOps] at hmem

/-- The second member calls while the first, which leads, does not answer. -/
theorem putsForward_not_as_leader :
    ¬ ∀ (ops : List Op) (s s' : Node) (t : Nat) (task : SubmitTask) (act : CallStep) (r : ExecutionReceipt),
      run (step sampleRuntime) (sampleStart 2) ops = some s → s.tasks[t]? = some task →
      step sampleRuntime s (.call t act) = some s' → s.PutsForward s' r →
      ∃ c, task.phase.turn = some (c, r.height) ∧ leaderForHeight c r.height = some s.nodeId := by
  intro hall
  let acts : List CallStep := [.resolve false, .route fun _ => none, .acquire, .lead,
    .forward fun _ => none, .prepare, .readRoot, .execute 0, .propose]
  let ops : List Op := sampleSetup (sampleCommittee sampleProgram [1, 2] 2) ++
    Op.submit 0 sampleProgram [] :: acts.map (Op.call 0)
  have hrun : ((run (step sampleRuntime) (sampleStart 2) ops).any fun s =>
      ∃ s' ∈ step sampleRuntime s (.call 0 .sign), ∃ task ∈ s.tasks[0]?, ∃ r ∈ s'.signed,
        s'.signed = r :: s.signed ∧
        ∀ turn ∈ task.phase.turn, leaderForHeight turn.1 turn.2 ≠ some s.nodeId) = true := by
    decide +kernel
  obtain ⟨s, hs, s', hstep, task, ht, r, -, hsigned, hbad⟩ := exists_of_any hrun
  obtain ⟨c, hturn, hlead⟩ := hall ops s s' 0 task .sign r hs ht hstep (.inr hsigned)
  exact hbad _ hturn hlead

end Sample

end Onvm
