import Onvm.ForwardTurns
import Onvm.Runs

/-! The requests that `forward_execution_to_leader` sends. The nodes asked may
reply whatever they like, redirects to unheard-of nodes included: the loop still
ends, and asks no node twice. -/

namespace Onvm

open ByteString Runs

inductive Forwarding
  | running (f : Forward) (sent : List NodeId)
  | stopped (result : Except String (Option ExecutionOutcome)) (sent : List NodeId)

/-- Where a turn leaves the loop, `sent` being the requests so far. -/
def Forwarding.after (sent : List NodeId) : ForwardTurn → Forwarding
  | .finish r => .stopped r sent
  | .next f => .running f sent
  | .ask target f => .running f (sent ++ [target])

/-- One turn of the loop; `reply` is what a node gives if the turn asks one. -/
def forwardStep (pf : Platform) (s : Node) (p : ProgramId) :
    Forwarding → (reply : Option LeaderReply) → Option Forwarding
  | .stopped _ _, _ => none
  | .running f sent, reply =>
    match forwardTurn pf s p f with
    | .ask target f' => some (.after (sent ++ [target]) (forwardReply f' reply))
    | turn => some (.after sent turn)

section Turns

variable {pf : Platform} {s : Node} {p : ProgramId} {f f' : Forward} {target : NodeId}

theorem forwardTurn_next (h : forwardTurn pf s p f = .next f') :
    f'.maxAttempts = f.maxAttempts ∧ f.attempted ⊆ f'.attempted ∧ f.attempts ≤ f'.attempts ∧
      f'.measure < f.measure := by
  refine ⟨?_, ?_, ?_, (@loop_of_next _ _ _ (fun _ => none) _ _ h 0).2⟩
  all_goals
    obtain ⟨r, hturn, -⟩ | ⟨target, queue, -, -, hturn⟩ | ⟨target, queue, htries⟩ :=
      forwardTurn_cases pf s p (fun _ => none) f
    · cases h.symm.trans hturn
    · cases h.symm.trans hturn
      simp
    · have hreply := askTurn_eq_next (htries.turn_eq.symm.trans h) fun _ => none
      obtain ⟨hmax, hattempted, hattempts, -⟩ := forwardReply_eq_next hreply
      simp [hmax, hattempted, hattempts, Forward.mark]

theorem forwardTurn_ask (h : forwardTurn pf s p f = .ask target f') :
    target ∉ f.attempted ∧ f.attempts < f.maxAttempts ∧ f'.maxAttempts = f.maxAttempts ∧
      f'.attempted = target :: f.attempted ∧ f'.attempts = f.attempts + 1 ∧ f'.measure + 1 < f.measure := by
  obtain ⟨queue, htries, rfl, -⟩ := forwardTurn_eq_ask h fun _ => none
  have hroom := htries.room
  exact ⟨htries.new, by omega, rfl, rfl, rfl, htries.measure_lt⟩

end Turns

/-- Every request went to a node marked as attempted, and was counted. -/
structure RequestsCounted (limit : Nat) (f : Forward) (sent : List NodeId) : Prop where
  limited : f.maxAttempts = limit
  marked : sent ⊆ f.attempted
  once : sent.Nodup
  counted : sent.length ≤ f.attempts
  bounded : sent.length ≤ limit

section Runs

variable {pf : Platform} {s : Node} {p : ProgramId} {f : Forward} {sent : List NodeId} {limit : Nat}

/-- What one turn leaves. -/
inductive Forwarded (limit : Nat) (before : Nat) : Forwarding → Prop
  | stopped {r : Except String (Option ExecutionOutcome)} {sent : List NodeId} (once : sent.Nodup)
    (bounded : sent.length ≤ limit) : Forwarded limit before (.stopped r sent)
  | running {f : Forward} {sent : List NodeId} (hc : RequestsCounted limit f sent) (hm : f.measure < before) :
    Forwarded limit before (.running f sent)

theorem forwardStep_counted (hc : RequestsCounted limit f sent) (reply : Option LeaderReply) :
    ∃ st, forwardStep pf s p (.running f sent) reply = some st ∧ Forwarded limit f.measure st := by
  cases ht : forwardTurn pf s p f with
  | finish r =>
    refine ⟨.stopped r sent, ?_, .stopped hc.once hc.bounded⟩
    rw [forwardStep, ht]
    rfl
  | next f' =>
    obtain ⟨hmax, hsub, hattempts, hm⟩ := forwardTurn_next ht
    refine ⟨.running f' sent, ?_, .running ⟨hmax.trans hc.limited, List.Subset.trans hc.marked hsub, hc.once,
      hc.counted.trans hattempts, hc.bounded⟩ hm⟩
    rw [forwardStep, ht]
    rfl
  | ask target f' =>
    obtain ⟨hnew, hlt, hmax, hattempted, hattempts, hm⟩ := forwardTurn_ask ht
    have honce : (sent ++ [target]).Nodup := by
      rw [List.nodup_append]
      refine ⟨hc.once, List.nodup_singleton target, ?_⟩
      intro a ha b hb hab
      rw [List.mem_singleton.mp hb] at hab
      exact hnew (hab ▸ hc.marked ha)
    have hlen : (sent ++ [target]).length ≤ f.attempts + 1 := by
      rw [List.length_append, List.length_singleton]
      have hcounted := hc.counted
      omega
    have hbound : (sent ++ [target]).length ≤ limit := by
      have hlimited := hc.limited
      omega
    have hstep : forwardStep pf s p (.running f sent) reply =
        some (.after (sent ++ [target]) (forwardReply f' reply)) := by
      rw [forwardStep, ht]
    rw [hstep]
    rcases forwardReply_cases f' reply with ⟨r, hr⟩ | ⟨f'', hr, hmax', hattempted', hattempts', hm'⟩
    · rw [hr]
      exact ⟨_, rfl, .stopped honce hbound⟩
    · rw [hr]
      refine ⟨_, rfl, .running ⟨hmax'.trans (hmax.trans hc.limited), ?_, honce, ?_, hbound⟩ (by omega)⟩
      · rw [hattempted', hattempted]
        intro a ha
        rcases List.mem_append.mp ha with ha | ha
        · exact List.mem_cons_of_mem _ (hc.marked ha)
        · rw [List.mem_singleton.mp ha]
          exact List.mem_cons_self
      · rw [hattempts', hattempts]
        exact hlen

theorem exists_stopped (hc : RequestsCounted limit f sent) (replies : Nat → Option LeaderReply) :
    ∃ n result sent', run (forwardStep pf s p) (.running f sent) ((List.range n).map replies) =
      some (.stopped result sent') ∧ sent'.length ≤ limit ∧ sent'.Nodup := by
  induction hm : f.measure using Nat.strong_induction_on generalizing f sent replies with
  | _ m ih =>
    obtain ⟨st, hst, hforwarded⟩ := @forwardStep_counted pf s p f sent limit hc (replies 0)
    cases hforwarded with
    | @stopped r sent' honce hbound =>
      refine ⟨1, r, sent', ?_, hbound, honce⟩
      rw [List.range_one, List.map_singleton, run, hst]
      rfl
    | running hc' hm' =>
      obtain ⟨n, result, sent', hrun, hlen, honce⟩ :=
        ih _ (by omega) hc' (fun i => replies (i + 1)) rfl
      refine ⟨n + 1, result, sent', ?_, hlen, honce⟩
      rw [List.range_succ_eq_map, List.map_cons, List.map_map, run, hst]
      exact hrun

theorem exists_run_eq_loop (answers : Answers) {fuel : Nat} (hfuel : f.measure < fuel)
    (sent : List NodeId) :
    ∃ replies sent', run (forwardStep pf s p) (.running f sent) replies =
      some (.stopped (f.loop pf s p answers fuel) sent') := by
  induction fuel generalizing f sent with
  | zero => exact absurd hfuel (Nat.not_lt_zero _)
  | succ fuel ih =>
    cases ht : forwardTurn pf s p f with
    | finish r =>
      refine ⟨[none], sent, ?_⟩
      rw [loop_of_finish ht, run, forwardStep, ht]
      rfl
    | next f' =>
      obtain ⟨heq, hm⟩ := @loop_of_next _ _ _ answers _ _ ht fuel
      obtain ⟨replies, sent', hrun⟩ := ih (f := f') (by omega) sent
      refine ⟨none :: replies, sent', ?_⟩
      rw [heq, run, forwardStep, ht]
      exact hrun
    | ask target f' =>
      obtain ⟨-, hfinish, hnext⟩ := @loop_of_ask _ _ _ answers _ _ _ ht fuel
      rcases forwardReply_cases f' (answers target) with ⟨r, hr⟩ | ⟨f'', hr, -⟩
      · refine ⟨[answers target], sent ++ [target], ?_⟩
        rw [hfinish r hr, run, forwardStep, ht]
        simp only [hr]
        rfl
      · obtain ⟨heq, hm⟩ := hnext f'' hr
        obtain ⟨replies, sent', hrun⟩ := ih (f := f'') (by omega) (sent ++ [target])
        refine ⟨answers target :: replies, sent', ?_⟩
        rw [heq, run, forwardStep, ht]
        simp only [hr]
        exact hrun

theorem exists_run_eq_forwardExecutionToLeader (answers : Answers) (c : CommitteeCertificate)
    (leaderHint : NodeId) :
    ∃ replies sent, run (forwardStep pf s p) (.running (.start c leaderHint) []) replies =
      some (.stopped (forwardExecutionToLeader pf s answers p c leaderHint) sent) := by
  refine exists_run_eq_loop (f := .start c leaderHint) answers ?_ []
  simp only [Forward.measure, Forward.start]
  omega

end Runs

/-- Forwarding stops after at most eight requests more than the committee has members, no two of
them to one node, whatever the nodes asked reply in whatever turn. -/
theorem forwarding_stops (pf : Platform) (s : Node) (p : ProgramId) (c : CommitteeCertificate)
    (leaderHint : NodeId) (replies : Nat → Option LeaderReply) :
    ∃ n result sent, run (forwardStep pf s p) (.running (.start c leaderHint) [])
        ((List.range n).map replies) = some (.stopped result sent) ∧
      sent.length ≤ c.members.length + 8 ∧ sent.Nodup := by
  have hc : RequestsCounted (c.members.length + 8) (.start c leaderHint) [] :=
    ⟨rfl, List.nil_subset _, List.nodup_nil, Nat.le_refl 0, Nat.zero_le _⟩
  exact exists_stopped hc replies

end Onvm
