import Onvm.Execution

/-! Forwarding, one request at a time. `forward_execution_to_leader` asks one member after the other
and waits for each; cut at these points, its loop comes to the same result. -/

namespace Onvm

open ByteString Std

/-- Where a call is in the loop of `forward_execution_to_leader`. -/
structure Forward where
  maxAttempts : Nat
  queue : List NodeId
  attempted : List NodeId
  attempts : Nat
  waiting : Option Nat

def Forward.start (c : CommitteeCertificate) (leaderHint : NodeId) : Forward :=
  ⟨c.members.length + 8, forwardQueue c leaderHint, [], 0, none⟩

inductive ForwardTurn
  | finish (result : Except String (Option ExecutionOutcome))
  | next (f : Forward)
  | ask (target : NodeId) (f : Forward)

def forwardTurn (pf : Platform) (s : Node) (p : ProgramId) (f : Forward) : ForwardTurn :=
  match f.queue with
  | [] => .finish (.error (forwardingFailed p))
  | target :: queue =>
    if target ∈ f.attempted then .next { f with queue := queue }
    else if f.maxAttempts < f.attempts + 1 then .finish (.error (forwardingFailed p))
    else if target = s.nodeId then .finish (.ok none)
    else
      let f' := { f with queue := queue, attempted := target :: f.attempted, attempts := f.attempts + 1 }
      match pf.peerIdOf target.bytes with
      | .error _ => .next f'
      | .ok peer => if peer = s.peerId then .next { f' with queue := s.nodeId :: queue } else .ask target f'

/-- What the loop does with a reply; `none` is a request that failed or timed out. -/
def forwardReply (f : Forward) : Option LeaderReply → ForwardTurn
  | none => .next f
  | some (.outcome o) => .finish (.ok (some o))
  | some (.redirect leader) => .next { f with queue := leader :: f.queue }
  | some (.error msg) => .finish (.error msg)

/-- The loop, turn by turn, when the members give these answers. -/
inductive Forward.Ends (pf : Platform) (s : Node) (p : ProgramId) (answers : Answers) :
    Forward → Except String (Option ExecutionOutcome) → Prop
  | finish {f : Forward} {r : Except String (Option ExecutionOutcome)}
    (h : forwardTurn pf s p f = .finish r) : Ends pf s p answers f r
  | next {f f' : Forward} {r : Except String (Option ExecutionOutcome)}
    (h : forwardTurn pf s p f = .next f') (hr : Ends pf s p answers f' r) : Ends pf s p answers f r
  | answered {f f' : Forward} {target : NodeId} {r : Except String (Option ExecutionOutcome)}
    (h : forwardTurn pf s p f = .ask target f') (ha : forwardReply f' (answers target) = .finish r) :
    Ends pf s p answers f r
  | again {f f' f'' : Forward} {target : NodeId} {r : Except String (Option ExecutionOutcome)}
    (h : forwardTurn pf s p f = .ask target f') (ha : forwardReply f' (answers target) = .next f'')
    (hr : Ends pf s p answers f'' r) : Ends pf s p answers f r

section Loop

variable {pf : Platform} {s : Node} {p : ProgramId} {answers : Answers} {f f' : Forward} {target : NodeId}
  {r : Except String (Option ExecutionOutcome)}

def Forward.loop (pf : Platform) (s : Node) (p : ProgramId) (answers : Answers) (f : Forward) (fuel : Nat) :
    Except String (Option ExecutionOutcome) :=
  forwardLoop pf s answers p f.maxAttempts fuel f.queue f.attempted f.attempts

def Forward.measure (f : Forward) : Nat := f.queue.length + (f.maxAttempts - f.attempts)

/-- The turn takes this target off the queue and gets as far as asking it. -/
structure Forward.Tries (s : Node) (f : Forward) (target : NodeId) (queue : List NodeId) : Prop where
  queue_eq : f.queue = target :: queue
  new : target ∉ f.attempted
  room : ¬ f.maxAttempts < f.attempts + 1
  other : target ≠ s.nodeId

def Forward.mark (f : Forward) (target : NodeId) (queue : List NodeId) : Forward :=
  { f with queue := queue, attempted := target :: f.attempted, attempts := f.attempts + 1 }

def askTurn (pf : Platform) (s : Node) (target : NodeId) (f : Forward) : ForwardTurn :=
  match pf.peerIdOf target.bytes with
  | .error _ => .next f
  | .ok peer => if peer = s.peerId then .next { f with queue := s.nodeId :: f.queue } else .ask target f

theorem Forward.Tries.turn_eq {queue : List NodeId} (h : f.Tries s target queue) :
    forwardTurn pf s p f = askTurn pf s target (f.mark target queue) := by
  rw [forwardTurn, h.queue_eq]
  dsimp only
  rw [if_neg h.new, if_neg h.room, if_neg h.other]
  rfl

theorem forwardTurn_cases (pf : Platform) (s : Node) (p : ProgramId) (answers : Answers) (f : Forward) :
    (∃ r, forwardTurn pf s p f = .finish r ∧ ∀ fuel, f.loop pf s p answers (fuel + 1) = r) ∨
    (∃ target queue, f.queue = target :: queue ∧ target ∈ f.attempted ∧
      forwardTurn pf s p f = .next { f with queue := queue }) ∨
    ∃ target queue, f.Tries s target queue := by
  cases hq : f.queue with
  | nil => exact .inl ⟨_, by rw [forwardTurn, hq], fun fuel => by rw [Forward.loop, hq, forwardLoop]⟩
  | cons target queue =>
    by_cases hold : target ∈ f.attempted
    · refine .inr (.inl ⟨target, queue, rfl, hold, ?_⟩)
      rw [forwardTurn, hq]
      exact if_pos hold
    by_cases hmax : f.maxAttempts < f.attempts + 1
    · refine .inl ⟨.error (forwardingFailed p), ?_, fun fuel => ?_⟩
      · rw [forwardTurn, hq]
        exact (if_neg hold).trans (if_pos hmax)
      · rw [Forward.loop, hq, forwardLoop, if_neg hold, if_pos hmax]
    by_cases hself : target = s.nodeId
    · refine .inl ⟨.ok none, ?_, fun fuel => ?_⟩
      · rw [forwardTurn, hq]
        exact (if_neg hold).trans ((if_neg hmax).trans (if_pos hself))
      · rw [Forward.loop, hq, forwardLoop, if_neg hold, if_neg hmax, if_pos hself]
    exact .inr (.inr ⟨target, queue, hq, hold, hmax, hself⟩)

theorem askTurn_ne_finish : askTurn pf s target f ≠ .finish r := by
  intro h
  unfold askTurn at h
  split at h
  · cases h
  · split_ifs at h

theorem askTurn_eq_next (h : askTurn pf s target f = .next f') (answers : Answers) :
    forwardReply f (requestLeaderExecution pf s answers target) = .next f' := by
  cases hpeer : pf.peerIdOf target.bytes with
  | error e =>
    rw [askTurn, hpeer] at h
    rw [requestLeaderExecution, hpeer]
    exact h
  | ok peer =>
    rw [askTurn, hpeer] at h
    dsimp only at h
    split_ifs at h with hown
    rw [requestLeaderExecution, hpeer]
    dsimp only
    rw [if_pos hown]
    exact h

theorem askTurn_eq_ask {asked : NodeId} (h : askTurn pf s target f = .ask asked f') (answers : Answers) :
    asked = target ∧ f' = f ∧ requestLeaderExecution pf s answers target = answers target := by
  cases hpeer : pf.peerIdOf target.bytes with
  | error e =>
    rw [askTurn, hpeer] at h
    cases h
  | ok peer =>
    rw [askTurn, hpeer] at h
    dsimp only at h
    split_ifs at h with hown
    cases h
    rw [requestLeaderExecution, hpeer]
    exact ⟨rfl, rfl, if_neg hown⟩

theorem forwardReply_cases (f : Forward) (reply : Option LeaderReply) :
    (∃ r, forwardReply f reply = .finish r) ∨
      ∃ f', forwardReply f reply = .next f' ∧ f'.maxAttempts = f.maxAttempts ∧
        f'.attempted = f.attempted ∧ f'.attempts = f.attempts ∧ f'.measure ≤ f.measure + 1 := by
  cases reply with
  | none => exact .inr ⟨f, rfl, rfl, rfl, rfl, by omega⟩
  | some reply =>
    cases reply with
    | outcome o => exact .inl ⟨_, rfl⟩
    | error msg => exact .inl ⟨_, rfl⟩
    | redirect leader =>
      refine .inr ⟨_, rfl, rfl, rfl, rfl, ?_⟩
      simp only [Forward.measure, List.length_cons]
      omega

theorem forwardReply_eq_next {reply : Option LeaderReply} (h : forwardReply f reply = .next f') :
    f'.maxAttempts = f.maxAttempts ∧ f'.attempted = f.attempted ∧ f'.attempts = f.attempts ∧
      f'.measure ≤ f.measure + 1 := by
  obtain ⟨r, hr⟩ | ⟨f'', hr, hkept⟩ := forwardReply_cases f reply
  · cases h.symm.trans hr
  · cases h.symm.trans hr
    exact hkept

section Tries

variable {queue : List NodeId} (h : f.Tries s target queue)
include h

theorem Forward.Tries.measure_lt : (f.mark target queue).measure + 1 < f.measure := by
  have hroom := h.room
  simp only [Forward.measure, Forward.mark, h.queue_eq, List.length_cons]
  omega

theorem Forward.Tries.loop_finish (hr : forwardReply (f.mark target queue)
      (requestLeaderExecution pf s answers target) = .finish r) (fuel : Nat) :
    f.loop pf s p answers (fuel + 1) = r := by
  rw [Forward.loop, h.queue_eq, forwardLoop, if_neg h.new, if_neg h.room, if_neg h.other]
  cases hreply : requestLeaderExecution pf s answers target with
  | none =>
    rw [hreply] at hr
    cases hr
  | some reply =>
    rw [hreply] at hr
    cases reply with
    | redirect leader => cases hr
    | _ =>
      cases hr
      rfl

theorem Forward.Tries.loop_next (hr : forwardReply (f.mark target queue)
      (requestLeaderExecution pf s answers target) = .next f') (fuel : Nat) :
    f.loop pf s p answers (fuel + 1) = f'.loop pf s p answers fuel ∧ f'.measure < f.measure := by
  refine ⟨?_, (forwardReply_eq_next hr).2.2.2.trans_lt h.measure_lt⟩
  rw [Forward.loop, h.queue_eq, forwardLoop, if_neg h.new, if_neg h.room, if_neg h.other]
  cases hreply : requestLeaderExecution pf s answers target with
  | none =>
    rw [hreply] at hr
    cases hr
    rfl
  | some reply =>
    rw [hreply] at hr
    cases reply with
    | redirect leader =>
      cases hr
      rfl
    | _ => cases hr

end Tries

theorem loop_of_finish (h : forwardTurn pf s p f = .finish r) (fuel : Nat) :
    f.loop pf s p answers (fuel + 1) = r := by
  obtain ⟨r', hturn, hloop⟩ | ⟨target, queue, -, -, hturn⟩ | ⟨target, queue, htries⟩ :=
    forwardTurn_cases pf s p answers f
  · cases h.symm.trans hturn
    exact hloop fuel
  · cases h.symm.trans hturn
  · exact absurd (htries.turn_eq.symm.trans h) askTurn_ne_finish

theorem loop_of_next (h : forwardTurn pf s p f = .next f') (fuel : Nat) :
    f.loop pf s p answers (fuel + 1) = f'.loop pf s p answers fuel ∧ f'.measure < f.measure := by
  obtain ⟨r', hturn, -⟩ | ⟨target, queue, hqueue, hold, hturn⟩ | ⟨target, queue, htries⟩ :=
    forwardTurn_cases pf s p answers f
  · cases h.symm.trans hturn
  · cases h.symm.trans hturn
    refine ⟨?_, by simp [Forward.measure, hqueue]⟩
    rw [Forward.loop, hqueue, forwardLoop, if_pos hold]
    rfl
  · exact htries.loop_next (askTurn_eq_next (htries.turn_eq.symm.trans h) answers) fuel

theorem forwardTurn_eq_ask (h : forwardTurn pf s p f = .ask target f') (answers : Answers) :
    ∃ queue, f.Tries s target queue ∧ f' = f.mark target queue ∧
      requestLeaderExecution pf s answers target = answers target := by
  obtain ⟨r', hturn, -⟩ | ⟨head, queue, -, -, hturn⟩ | ⟨head, queue, htries⟩ :=
    forwardTurn_cases pf s p answers f
  · cases h.symm.trans hturn
  · cases h.symm.trans hturn
  · obtain ⟨rfl, hmark, hasked⟩ := askTurn_eq_ask (htries.turn_eq.symm.trans h) answers
    exact ⟨queue, htries, hmark, hasked⟩

theorem loop_of_ask (h : forwardTurn pf s p f = .ask target f') (fuel : Nat) :
    f'.measure + 1 < f.measure ∧
      (∀ r, forwardReply f' (answers target) = .finish r → f.loop pf s p answers (fuel + 1) = r) ∧
      ∀ f'', forwardReply f' (answers target) = .next f'' →
        f.loop pf s p answers (fuel + 1) = f''.loop pf s p answers fuel ∧ f''.measure < f.measure := by
  obtain ⟨queue, htries, rfl, hasked⟩ := forwardTurn_eq_ask h answers
  rw [← hasked]
  exact ⟨htries.measure_lt, fun r hr => htries.loop_finish hr fuel, fun f'' hr => htries.loop_next hr fuel⟩

theorem loop_of_ends (h : f.Ends pf s p answers r) {fuel : Nat} (hfuel : f.measure < fuel) :
    f.loop pf s p answers fuel = r := by
  obtain ⟨fuel, rfl⟩ : ∃ n, fuel = n + 1 := ⟨fuel - 1, by omega⟩
  induction h generalizing fuel with
  | finish h => exact loop_of_finish h fuel
  | next h _ ih =>
    obtain ⟨heq, hlt⟩ := @loop_of_next _ _ _ answers _ _ h fuel
    obtain ⟨n, rfl⟩ : ∃ n, fuel = n + 1 := ⟨fuel - 1, by omega⟩
    rw [heq]
    exact ih n (by omega)
  | answered h ha => exact (loop_of_ask h fuel).2.1 _ ha
  | again h ha _ ih =>
    obtain ⟨heq, hlt⟩ := (loop_of_ask h fuel).2.2 _ ha
    obtain ⟨n, rfl⟩ : ∃ n, fuel = n + 1 := ⟨fuel - 1, by omega⟩
    rw [heq]
    exact ih n (by omega)

theorem forwardExecutionToLeader_of_ends {c : CommitteeCertificate} {leader : NodeId}
    (h : (Forward.start c leader).Ends pf s p answers r) :
    forwardExecutionToLeader pf s answers p c leader = r := by
  refine loop_of_ends h ?_
  simp only [Forward.measure, Forward.start]
  omega

end Loop

section Returns

variable (s : Node) (t : Nat) (task : SubmitTask)

def Phase.resume : Phase → Option Phase
  | .route c => some (.lock c)
  | .forward c height _ => some (.prepare c height)
  | _ => none

def afterForward : Except String (Option ExecutionOutcome) → Option Node
  | .error e => some (s.conclude t task (.returned (.error e)))
  | .ok (some o) => some (s.conclude t task (.returned (.ok o)))
  | .ok none => task.phase.resume.map (s.setPhase t task)

def startForward : Option Forward :=
  match task.phase with
  | .route c =>
    match leaderForHeight c (s.catalog.nextHeight task.programId) with
    | none => none
    | some leader => if leader = s.nodeId then none else some (.start c leader)
  | .forward c _ leader => some (.start c leader)
  | _ => none

theorem afterForward_eq_submitRoute {pf : Platform} {answers : Answers} {c : CommitteeCertificate}
    {f : Forward} {r : Except String (Option ExecutionOutcome)} (hph : task.phase = .route c)
    (hf : startForward s task = some f) (hr : f.Ends pf s task.programId answers r) :
    afterForward s t task r = some (submitRoute pf s t task answers c) := by
  rw [startForward, hph] at hf
  dsimp only at hf
  split at hf
  · cases hf
  rename_i leader hl
  split at hf
  · cases hf
  rename_i hother
  cases hf
  rw [submitRoute, hl]
  dsimp only
  rw [if_neg hother, forwardExecutionToLeader_of_ends hr]
  rcases r with e | _ | o
  · rfl
  · rw [afterForward, hph]
    rfl
  · rfl

theorem afterForward_eq_submitForward {pf : Platform} {answers : Answers} {c : CommitteeCertificate}
    {height : UInt64} {leader : NodeId} {f : Forward} {r : Except String (Option ExecutionOutcome)}
    (hph : task.phase = .forward c height leader) (hf : startForward s task = some f)
    (hr : f.Ends pf s task.programId answers r) :
    afterForward s t task r = some (submitForward pf s t task answers c height leader) := by
  rw [startForward, hph] at hf
  cases hf
  rw [submitForward, forwardExecutionToLeader_of_ends hr]
  rcases r with e | _ | o
  · rfl
  · rw [afterForward, hph]
    rfl
  · rfl

end Returns

end Onvm
