import Onvm.Threads

/-! The machine with whole operations is part of the one with threads: each of its steps is a run of threads
in which the operation goes on to its end with nothing in between. -/

namespace Onvm

open ByteString OrderedStore WeightedQuorum Runs Std

def moves (pf : Platform) (clock : UInt64 → UInt64) (th : Thread) (n : Nat) (x : Node × ThreadPoint) :
    Node × ThreadPoint :=
  (fun x => move pf clock th x.1 x.2)^[n] x

/-- A thread that nobody interrupts comes to its end and leaves `s'`. -/
def Finishes (pf : Platform) (clock : UInt64 → UInt64) (th : Thread) (x : Node × ThreadPoint) (s' : Node) : Prop :=
  ∃ n, moves pf clock th n x = (s', .done)

/-- Behind a function that a call and the event loop share. -/
def Node.back (s : Node) : Thread → Node
  | .call t => ((s.tasks[t]?).map fun task => s.setPhase t task task.phase.after).getD s
  | _ => s

section Finishing

variable {pf : Platform} {clock : UInt64 → UInt64} {th : Thread} {s s' s'' : Node} {x : Node × ThreadPoint}

theorem Finishes.done : Finishes pf clock th (s, .done) s := ⟨0, rfl⟩

theorem Finishes.head (h : Finishes pf clock th (move pf clock th x.1 x.2) s') : Finishes pf clock th x s' := by
  obtain ⟨n, hn⟩ := h
  exact ⟨n + 1, hn⟩

theorem finishes_over : Finishes pf clock th (s, th.over) (s.back th) := by
  cases th with
  | call t => exact .head .done
  | _ => exact .done

theorem finishes_notify (completion : Option Nat) (result : Except String Unit) :
    Finishes pf clock th (s, notifyPoint th completion result)
      ((completion.elim s fun t => { s with sent := s.sent.insert t result }).back th) := by
  cases completion with
  | none => exact finishes_over
  | some t => exact .head finishes_over

theorem finishes_apply {p : ProgramId} {h : Option Handling} {y : ApplyPoint} {r : Except String Unit}
    (hl : Leads pf clock p (s, y) (s', .done r)) (hf : Finishes pf clock th (s', handledPoint th h r) s'') :
    Finishes pf clock th (s, .apply p h y) s'' := by
  obtain ⟨n, hn⟩ := hl
  induction n generalizing s y with
  | zero =>
    cases hn
    exact .head hf
  | succ n ih =>
    cases hstep : applyStep pf clock p s y with
    | mk s₁ y₁ =>
      have hrest : applySteps pf clock p n (s₁, y₁) = (s', .done r) := by
        rw [← hstep]
        exact hn
      refine .head ?_
      rw [move, hstep]
      cases y₁ with
      | done r₁ =>
        have hsame : applySteps pf clock p n (s₁, .done r₁) = (s₁, .done r₁) := Function.iterate_fixed rfl n
        cases hsame.symm.trans hrest
        exact hf
      | _ => exact ih hrest

theorem finishes_loop (p : ProgramId) (h : Option Handling)
    (hf : Finishes pf clock th ((applyAvailableFinalizedTransitions pf clock p s).1,
      handledPoint th h (applyAvailableFinalizedTransitions pf clock p s).2) s') :
    Finishes pf clock th (s, .apply p h .readCommittee) s' :=
  finishes_apply (leads_applyAvailable pf clock p s) hf

/-- The loop alone, for which nobody waits. -/
theorem finishes_catchUp (p : ProgramId) :
    Finishes pf clock th (s, .apply p none .readCommittee)
      ((applyAvailableFinalizedTransitions pf clock p s).1.back th) :=
  finishes_loop p none finishes_over

theorem finishes_receive (h : Handling)
    (hf : Finishes pf clock th ((handleFinalizedReceipt pf clock s h.bundle).1,
      handledPoint th (some h) (handleFinalizedReceipt pf clock s h.bundle).2) s') :
    Finishes pf clock th (s, .receive h) s' := by
  refine .head ?_
  rw [handleFinalizedReceipt] at hf
  simp only [move]
  cases hC : s.catalog.committee pf h.bundle.receipt.receipt.programId with
  | error e =>
    rw [hC] at hf
    exact hf
  | ok expected? =>
    rw [hC] at hf
    cases expected? with
    | none => exact .head hf
    | some expected =>
      dsimp only at hf ⊢
      split_ifs at hf ⊢ with hne
      · exact hf
      · refine .head ?_
        simp only [move]
        cases hi : s.ingestAggregatedReceipt pf h.bundle.receipt h.bundle.committee with
        | error e =>
          rw [hi] at hf
          exact hf
        | ok s₁ =>
          rw [hi] at hf
          refine .head (.head ?_)
          simp only [move]
          dsimp only at hf
          cases hh : (s₁.storeFinalizedTransition h.bundle).catalog.expectedHeight
            h.bundle.receipt.receipt.programId with
          | error e =>
            rw [hh] at hf
            exact hf
          | ok height =>
            rw [hh] at hf
            exact finishes_loop _ _ hf

theorem finishes_finalize (entry : PendingTransition) :
    Finishes pf clock th (s, finalizePoint pf th entry) ((finalizeTransition pf clock s entry).1.back th) := by
  rw [finalizePoint, finalizeTransition]
  cases assembleBundle pf entry with
  | error e => exact finishes_over
  | ok b? =>
    cases b? with
    | none => exact finishes_over
    | some b =>
      refine finishes_receive _ ?_
      dsimp only
      cases handleFinalizedReceipt pf clock s b with
      | mk s₁ result =>
        cases result with
        | error e =>
          cases entry.completion with
          | none => exact finishes_notify none (.error e)
          | some t => exact finishes_notify (some t) (.error e)
        | ok u =>
          refine .head ?_
          cases entry.completion with
          | none => exact finishes_notify none (.ok ())
          | some t => exact finishes_notify (some t) (.ok ())

theorem finishes_settle (id : ReceiptId) :
    Finishes pf clock th (s, .settle id) ((maybeFinalizePendingTransition pf clock s id).1.back th) := by
  refine .head ?_
  simp only [move, maybeFinalizePendingTransition]
  cases s.pending[id]? with
  | none => exact finishes_over
  | some entry =>
    dsimp only
    split_ifs
    · exact finishes_over
    · exact finishes_finalize entry

theorem finishes_writes (p : ProgramId) (ws : List StateWrite) :
    Finishes pf clock th (s, .write p ws) { s with states := s.states.applyStateWrites p ws } := by
  induction ws generalizing s with
  | nil => exact .head .done
  | cons w ws ih => exact .head (ih (s := { s with states := s.states.applyWrite p w }))

theorem finishes_sync (m : ProgramManifest) :
    Finishes pf clock .loop (s, .sync m) (acceptManifest pf clock s m) := by
  refine .head ?_
  simp only [move, acceptManifest]
  cases s.catalog.verifyInitialSync pf m with
  | error e => exact .done
  | ok u => exact .head (finishes_catchUp m.programId)

theorem finishes_count (v : StateTransitionVote) :
    Finishes pf clock .loop (s, .count v) (handleStateTransitionVote pf clock s v) := by
  refine .head ?_
  simp only [move, handleStateTransitionVote]
  cases s.pending[v.receiptId]? with
  | none => exact .done
  | some entry =>
    dsimp only
    cases countVote pf entry v with
    | none => exact .done
    | some entry' =>
      dsimp only
      split_ifs
      · exact finishes_finalize entry'
      · exact .done

theorem finishes_head (head : ProgramHead) :
    Finishes pf clock .loop (s, .readHead head) (handleProgramHead pf clock s head) := by
  refine .head ?_
  simp only [move, handleProgramHead]
  split_ifs
  · exact .done
  · refine .head ?_
    simp only [move]
    cases s.loadFinalizedTransition head.programId (saturatingAdd (s.catalog.localHeight head.programId) 1) with
    | none => exact .done
    | some b => exact finishes_catchUp head.programId

theorem applyStateWrites_entries (st : StateStore) (p : ProgramId) (es : List (Bytes × Bytes)) :
    st.applyStateWrites p (es.map fun e => ⟨e.1, some e.2⟩) = setEntries st p es := by
  induction es generalizing st with
  | nil => rfl
  | cons e es ih => exact ih (st.setScoped p e.1 e.2)

theorem finishes_compare (r : StateResponse)
    (hlen : ¬ maxStateEntries < r.stateEntries.length) (hsize : ¬ (!stateSizesAllowed 0 r.stateEntries) = true) :
    Finishes pf clock .loop (s, .compareState r) (handleStateResponse pf s r) := by
  refine .head ?_
  simp only [move, handleStateResponse, if_neg hlen, if_neg hsize]
  cases expectedStateRoot pf s r.programId with
  | error e => exact .done
  | ok expected? =>
    cases expected? with
    | none => exact .done
    | some expected =>
      dsimp only
      split_ifs
      · exact .done
      · exact .done
      · rw [← applyStateWrites_entries]
        exact finishes_writes _ _

theorem finishes_inbound (m : Inbound) :
    Finishes pf clock .loop (s, m.point pf) (handleInbound pf clock s m) := by
  have hreceive : ∀ b, Finishes pf clock .loop (s, .receive ⟨b, none⟩) (handleFinalizedReceipt pf clock s b).1 :=
    fun b => finishes_receive _ .done
  cases m with
  | programAnnouncement a =>
    simp only [Inbound.point, handleInbound, handleProgramAnnouncement]
    split_ifs
    · exact .done
    · cases verifyManifestSignature pf a.manifest with
      | error e => exact .done
      | ok u => exact finishes_sync a.manifest
  | programManifest r =>
    simp only [Inbound.point, handleInbound, handleProgramManifestResponse]
    cases r.manifest with
    | none => exact .done
    | some m => exact finishes_sync m
  | aggregatedReceipt b => exact hreceive b
  | finalizedTransition r =>
    simp only [Inbound.point, handleInbound, handleFinalizedTransitionResponse]
    cases r.bundle with
    | none => exact .done
    | some b => exact hreceive b
  | vote v => exact finishes_count v
  | programHead head => exact finishes_head head
  | stateResponse r =>
    simp only [Inbound.point, handleInbound]
    split_ifs with hlen hsize
    · rw [handleStateResponse, if_pos hlen]
      exact .done
    · rw [handleStateResponse, if_neg hlen, if_pos hsize]
      exact .done
    · exact finishes_compare r hlen hsize

/-- What the first half of a proposal leaves behind. -/
def Node.checked (out : Node × Option ProposalTask) : Node := { out.1 with handling := out.2 }

theorem checked_none (h : s.handling = none) : Node.checked (s, none) = s := by
  rw [Node.checked, ← h]

theorem loadLastVoted_handling (p : ProgramId) : (s.loadLastVoted p).1.handling = s.handling := by
  rw [Node.loadLastVoted]
  split
  · rfl
  · split <;> rfl

theorem finishes_readVoted (task : ProposalTask) :
    Finishes pf clock th (s, .readVoted task)
      (acceptProposal pf (s.loadLastVoted task.proposal.receipt.programId).1 task
        (s.loadLastVoted task.proposal.receipt.programId).2) := by
  refine .head ?_
  simp only [move, Node.loadLastVoted]
  cases s.lastVoted[task.proposal.receipt.programId]? with
  | some found => exact .done
  | none =>
    refine .head ?_
    simp only [move]
    cases s.lastVotedStore[task.proposal.receipt.programId]? with
    | none => exact .done
    | some found => exact .head .done

theorem checked_accept (m : StateTransitionProposal) (c : CommitteeCertificate) (last : Option (UInt64 × ReceiptId))
    (h : s.handling = none) :
    Node.checked (if !voteAllowed last m.receipt.height (m.receipt.id pf) then (s, none)
      else if pf.hashBytes m.receipt.call.calldata ≠ m.receipt.inputsHash then (s, none)
      else (s, some ⟨m, c⟩)) = acceptProposal pf s ⟨m, c⟩ last := by
  rw [acceptProposal]
  split_ifs
  · exact checked_none h
  · exact checked_none h
  · rfl

theorem finishes_proposal (m : StateTransitionProposal) (h : s.handling = none) :
    Finishes pf clock .loop (s, .checkCommittee m) (Node.checked (checkProposal pf s m)) := by
  have hstop : ∀ s' : Node, s'.handling = none → Finishes pf clock .loop (s', .done) (Node.checked (s', none)) := by
    intro s' h'
    rw [checked_none h']
    exact .done
  refine .head ?_
  simp only [move, checkProposal]
  cases s.catalog.committee pf m.receipt.programId with
  | error e => exact hstop s h
  | ok c? =>
    cases c? with
    | none => exact hstop (s.request _) h
    | some c =>
      dsimp only
      by_cases hepoch : m.committeeEpoch ≠ c.epoch
      · simp only [if_pos hepoch]
        exact hstop s h
      by_cases hleader : leaderForHeight c m.receipt.height ≠ some m.receipt.executor
      · simp only [if_neg hepoch, if_pos hleader]
        exact hstop s h
      simp only [if_neg hepoch, if_neg hleader]
      cases c.members.find? (·.node == s.nodeId) with
      | none => exact hstop s h
      | some me =>
        dsimp only
        by_cases hkey : me.blsPublicKey ≠ s.blsPublic
        · simp only [if_pos hkey]
          exact hstop s h
        simp only [if_neg hkey]
        refine .head ?_
        simp only [move]
        by_cases hheight : s.catalog.expectedHeight m.receipt.programId ≠ .ok m.receipt.height
        · simp only [if_pos hheight]
          exact hstop s h
        simp only [if_neg hheight]
        refine .head ?_
        simp only [move]
        by_cases hroot : m.receipt.stateRootIn ≠ s.states.sparseRootScoped m.receipt.programId pf
        · simp only [if_pos hroot]
          exact hstop s h
        simp only [if_neg hroot]
        rw [checked_accept m c _ (by rwa [loadLastVoted_handling])]
        exact finishes_readVoted ⟨m, c⟩

/-- A signature is put on record, counted and sent. -/
def SignedVote.cast (pf : Platform) (s : Node) (v : SignedVote) : Node :=
  let s' := v.collected pf (s.storeLastVoted v.receipt.programId v.receipt.height (v.receipt.id pf))
  s'.publish (.vote ⟨v.program, v.committee.epoch, v.receipt.id pf, s'.nodeId, v.signature⟩)

theorem finishes_record (v : SignedVote)
    (h : Finishes pf clock th (v.cast pf s, if v.writes.isSome then .settle (v.receipt.id pf) else th.over) s') :
    Finishes pf clock th (s, .record v) s' :=
  .head (.head (.head (.head h)))

theorem endorse_of_agrees {world : Nat} {m : StateTransitionProposal} (h : agrees pf s world m = true) :
    endorse pf s world m =
      if computeRootAfterWrites pf s.states m.receipt.programId m.stateWrites ≠ m.receipt.stateRootOut then none
      else (pf.sign (m.receipt.id pf).bytes s.blsSecret dstReceipt).toOption := by
  simp only [agrees, Bool.and_eq_true, Option.any_eq_true, decide_eq_true_eq] at h
  obtain ⟨hcomplete, o, ho, hwrites, hroot, hdigest⟩ := h
  have hexec : execute pf world s.maxFuel s.unified s.states m.receipt.programId m.receipt.call.calldata = .ok o := by
    cases he : execute pf world s.maxFuel s.unified s.states m.receipt.programId m.receipt.call.calldata with
    | error e =>
      rw [he] at ho
      cases ho
    | ok o' =>
      rw [he] at ho
      cases ho
      rfl
  simp only [endorse, hcomplete, hexec, hwrites, hroot, hdigest, Bool.not_true, Bool.false_eq_true, ne_eq,
    not_true_eq_false, if_false]
  split_ifs
  · cases pf.sign (m.receipt.id pf).bytes s.blsSecret dstReceipt <;> rfl
  · rfl

theorem agrees_of_endorse {world : Nat} {m : StateTransitionProposal} {sig : BlsSignature}
    (h : endorse pf s world m = some sig) : agrees pf s world m = true := by
  rw [endorse] at h
  split at h
  · cases h
  rename_i hcomplete
  split at h
  · cases h
  rename_i o ho
  split_ifs at h with hwrites hroot hdigest
  simp only [Bool.not_eq_true, Bool.not_eq_false', ne_eq, not_not] at hcomplete hwrites hroot hdigest
  simp [agrees, hcomplete, ho, hwrites, hroot, hdigest, Except.toOption]

theorem endorse_of_not_agrees {world : Nat} {m : StateTransitionProposal} (h : ¬ agrees pf s world m = true) :
    endorse pf s world m = none := by
  by_contra hne
  obtain ⟨sig, hsig⟩ := Option.ne_none_iff_exists'.mp hne
  exact h (agrees_of_endorse hsig)

theorem cast_proposal (task : ProposalTask) (sig : BlsSignature) :
    SignedVote.cast pf { s with signed := task.proposal.receipt :: s.signed }
        ⟨task.proposal.receipt.programId, task.proposal.receipt, task.committee, sig,
          some task.proposal.stateWrites⟩ =
      castVote pf s task sig := by
  simp only [SignedVote.cast, SignedVote.collected, castVote, followerEntry, Node.storeLastVoted, Node.recordVote]
  cases s.pending[task.proposal.receipt.id pf]? <;> rfl

theorem finishes_predict {world : Nat} (task : ProposalTask) (h : agrees pf s world task.proposal = true) :
    Finishes pf clock .loop (s, .predict task) (finishProposal pf clock s world task) := by
  refine .head ?_
  simp only [move, finishProposal, endorse_of_agrees h]
  by_cases hroot : computeRootAfterWrites pf s.states task.proposal.receipt.programId task.proposal.stateWrites ≠
      task.proposal.receipt.stateRootOut
  · simp only [if_pos hroot]
    exact .done
  simp only [if_neg hroot]
  cases pf.sign (task.proposal.receipt.id pf).bytes s.blsSecret dstReceipt with
  | error e => exact .done
  | ok sig =>
    refine finishes_record _ ?_
    rw [cast_proposal]
    exact finishes_settle _

theorem Node.back_call {t : Nat} {task : SubmitTask} (ht : s.tasks[t]? = some task) :
    s.back (.call t) = s.setPhase t task task.phase.after := by
  rw [back, ht]
  rfl

theorem SignedVote.collected_tasks (v : SignedVote) : (v.collected pf s).tasks = s.tasks := by
  rw [collected]
  split
  · rfl
  · split <;> rfl

theorem SignedVote.cast_tasks (v : SignedVote) : (v.cast pf s).tasks = s.tasks :=
  v.collected_tasks

theorem finishes_sign {t : Nat} {task : SubmitTask} {c : CommitteeCertificate} {r : ExecutionReceipt}
    {o : ExecutionOutcome} {sig : BlsSignature} (ht : s.tasks[t]? = some task) (hphase : task.phase = .sign c r o)
    (hsig : pf.sign (r.id pf).bytes s.blsSecret dstReceipt = .ok sig) :
    Finishes pf clock (.call t) ({ s with signed := r :: s.signed }, .record ⟨task.programId, r, c, sig, none⟩)
      (submitSign pf s t task c r o) := by
  have hcast : submitSign pf s t task c r o =
      (SignedVote.cast pf { s with signed := r :: s.signed } ⟨task.programId, r, c, sig, none⟩).setPhase t task
        task.phase.after := by
    simp only [submitSign, hsig, hphase, SignedVote.cast, SignedVote.collected, Node.storeLastVoted, Node.recordVote]
    cases s.pending[r.id pf]? <;> rfl
  rw [hcast, ← Node.back_call (by rw [SignedVote.cast_tasks]; exact ht)]
  exact finishes_record _ finishes_over

theorem finishes_submitSettle {t : Nat} {task : SubmitTask} {r : ExecutionReceipt} {o : ExecutionOutcome}
    (ht : s.tasks[t]? = some task) (hphase : task.phase = .settle r o) :
    Finishes pf clock (.call t) (s, .settle (r.id pf)) (submitSettle pf s t task clock r o) := by
  have htasks := (Node.tasks_of_still (maybeFinalize_spec pf clock s (r.id pf)).1).2
  have hback := Node.back_call (s := (maybeFinalizePendingTransition pf clock s (r.id pf)).1) (t := t) (htasks ▸ ht)
  rw [hphase] at hback
  rw [submitSettle]
  exact hback ▸ finishes_settle (r.id pf)

theorem finishes_job {p : ProgramId} {input : Bytes} {maxFuel : UInt64} {world : Nat} {salt : Bytes32} {now : UInt64}
    {o : ExecutionOutcome} (ho : execute pf world maxFuel s.unified s.states p input = .ok o) :
    Finishes pf clock .job (s, .output p o salt now) (runJob pf s p input maxFuel world salt now) := by
  refine .head ?_
  simp only [move, runJob, ho]
  cases s.unified.putObject pf o.returnData (.blob (some "application/octet-stream") salt) ⟨.ofByte 32 0⟩ now with
  | error e => exact .done
  | ok u =>
    cases o.stateWrites with
    | nil => exact finishes_writes (s := { s with unified := u.1 }) p []
    | cons w ws => exact finishes_writes (s := { s with unified := u.1 }) p (w :: ws)

end Finishing

/-- No thread is in the middle of anything. -/
def NodeThreads.Resting (S : NodeThreads) : Prop := ∀ a ∈ S.processes, a.point = .done

/-- How threads do one whole operation. -/
inductive Covered (pf : Platform) (S : NodeThreads) (op : Op) (s' : Node) : Prop
  | atOnce (h : start pf S op = some (S.withNode s'))
  | thread (clock : UInt64 → UInt64) {th : Thread} {s : Node} {x : ThreadPoint}
    (h : start pf S op = some (S.begin s th x)) (hf : Finishes pf clock th (s, x) s')
  | restart (h : start pf S op = some (.idle s'))

section Covering

variable {pf : Platform} {S : NodeThreads} {s' : Node} {op : Op}

theorem NodeThreads.Resting.free (h : S.Resting) (th : Thread) : S.free th = true := by
  simp only [NodeThreads.free, List.all_eq_true, Bool.or_eq_true]
  intro a ha
  right
  rw [h a ha]
  rfl

theorem NodeThreads.Resting.awaited (h : S.Resting) (t : Nat) : S.awaited t = false := by
  simp only [NodeThreads.awaited, List.any_eq_false]
  intro a ha
  rw [h a ha]
  exact Bool.false_ne_true

theorem start_call {t : Nat} {task : SubmitTask} (act : CallStep) (hS : S.Resting)
    (ht : S.shared.tasks[t]? = some task) : start pf S (.call t act) = startCall pf S t task act := by
  simp only [start, hS.free, if_true, ht, Option.bind_some]

theorem covered_sign {t : Nat} {task : SubmitTask} {c : CommitteeCertificate} {r : ExecutionReceipt}
    {o : ExecutionOutcome} (hS : S.Resting) (ht : S.shared.tasks[t]? = some task)
    (hphase : task.phase = .sign c r o) :
    Covered pf S (.call t .sign) (submitSign pf S.shared t task c r o) := by
  cases hsig : pf.sign (r.id pf).bytes S.shared.blsSecret dstReceipt with
  | error e =>
    refine .atOnce ?_
    simp only [start_call _ hS ht, startCall, hphase, hsig, submitSign]
  | ok sig =>
    refine .thread (fun _ => 0) ?_ (finishes_sign ht hphase hsig)
    simp only [start_call _ hS ht, startCall, hphase, hsig]

theorem covered_timeout {t : Nat} {task : SubmitTask} {r : ExecutionReceipt} {o : ExecutionOutcome} (hS : S.Resting)
    (ht : S.shared.tasks[t]? = some task) (hphase : task.phase = .wait r o)
    (h : submitTimeout pf S.shared t task r = some s') : Covered pf S (.call t .timeout) s' := by
  rw [submitTimeout] at h
  split at h
  · cases h
  rename_i hsent
  cases h
  have hexpire : start pf S (.call t .timeout) = some (S.begin S.shared (.call t) (.expire r)) := by
    simp only [start_call _ hS ht, startCall, hphase, hsent, Option.isSome_none, Bool.false_eq_true, if_false]
  refine .thread (fun _ => 0) hexpire (.head ?_)
  simp only [move, ht]
  exact .done

theorem covered_call {t : Nat} {task : SubmitTask} {act : CallStep} (hS : S.Resting)
    (ht : S.shared.tasks[t]? = some task) (h : callStep pf S.shared t task act task.phase = some s') :
    Covered pf S (.call t act) s' := by
  have honce : startCall pf S t task act = (callStep pf S.shared t task act task.phase).map S.withNode →
      Covered pf S (.call t act) s' := fun heq => .atOnce (by rw [start_call act hS ht, heq, h]; rfl)
  cases act with
  | sign =>
    cases hphase : task.phase <;> rw [hphase] at h <;> cases h
    exact covered_sign hS ht hphase
  | settle clock =>
    cases hphase : task.phase <;> rw [hphase] at h <;> cases h
    refine .thread clock ?_ (finishes_submitSettle ht hphase)
    simp only [start_call _ hS ht, startCall, hphase]
  | timeout =>
    cases hphase : task.phase with
    | wait r o =>
      rw [hphase] at h
      exact covered_timeout hS ht hphase h
    | _ =>
      rw [hphase] at h
      cases h
  | finish =>
    -- nobody holds the call's sender, so its channel is as the whole operation sees it
    refine honce ?_
    simp only [startCall, hS.awaited, Bool.and_false, Bool.false_eq_true, if_false]
  | _ => exact honce rfl

theorem covered_finishProposal (world : Nat) (clock : UInt64 → UInt64) {task : ProposalTask} (hS : S.Resting)
    (hh : S.shared.handling = some task) :
    Covered pf S (.finishProposal world clock)
      (finishProposal pf clock { S.shared with handling := none } world task) := by
  by_cases ha : agrees pf { S.shared with handling := none } world task.proposal = true
  · refine .thread clock ?_ (finishes_predict task ha)
    simp only [start, hS.free, if_true, hh, Option.map_some, if_pos ha]
  · refine .atOnce ?_
    simp only [start, hS.free, if_true, hh, Option.map_some, if_neg ha, finishProposal, endorse_of_not_agrees ha]

theorem covered_job (p : ProgramId) (input : Bytes) (maxFuel : UInt64) (world : Nat) (salt : Bytes32) (now : UInt64) :
    Covered pf S (.job p input maxFuel world salt now) (runJob pf S.shared p input maxFuel world salt now) := by
  cases ho : execute pf world maxFuel S.shared.unified S.shared.states p input with
  | error e =>
    refine .atOnce ?_
    simp only [start, ho, runJob]
    rfl
  | ok o =>
    refine .thread (fun _ => 0) ?_ (finishes_job ho)
    simp only [start, ho]

theorem step_covered (hS : S.Resting) (h : step pf S.shared op = some s') : Covered pf S op s' := by
  cases op with
  | submit t p input => exact .atOnce (by simp only [start, h, Option.map_some])
  | call t act =>
    simp only [step] at h
    cases ht : S.shared.tasks[t]? with
    | none =>
      rw [ht] at h
      cases h
    | some task =>
      rw [ht] at h
      exact covered_call hS ht h
  | deliver clock m =>
    simp only [step] at h
    cases hh : S.shared.handling with
    | some task =>
      rw [hh] at h
      cases h
    | none =>
      rw [hh] at h
      cases h
      refine .thread clock ?_ (finishes_inbound m)
      simp only [start, NodeThreads.loopFree, hS.free, hh, Option.isNone_none, Bool.and_self, if_true]
  | proposal m =>
    simp only [step] at h
    cases hh : S.shared.handling with
    | some task =>
      rw [hh] at h
      cases h
    | none =>
      rw [hh] at h
      cases h
      refine .thread (fun _ => 0) ?_ (finishes_proposal m hh)
      simp only [start, NodeThreads.loopFree, hS.free, hh, Option.isNone_none, Bool.and_self, if_true]
  | finishProposal world clock =>
    simp only [step] at h
    cases hh : S.shared.handling with
    | none =>
      rw [hh] at h
      cases h
    | some task =>
      rw [hh] at h
      cases h
      exact covered_finishProposal world clock hS hh
  | store e =>
    cases h
    exact .atOnce rfl
  | job p input maxFuel world salt now =>
    cases h
    exact covered_job p input maxFuel world salt now
  | restart =>
    cases h
    exact .restart rfl

theorem run_turns (pf : Platform) (clock : UInt64 → UInt64) {k : Nat} {a : Activity} (n : Nat)
    (ha : S.processes[k]? = some a) :
    run (threadStep pf) S (List.replicate n (.turn k clock)) =
      some ⟨(moves pf clock a.thread n (S.shared, a.point)).1,
        S.processes.set k ⟨a.thread, (moves pf clock a.thread n (S.shared, a.point)).2⟩⟩ := by
  have hk : k < S.processes.length := (List.getElem?_eq_some_iff.mp ha).1
  induction n generalizing S a with
  | zero =>
    obtain ⟨_, rfl⟩ := List.getElem?_eq_some_iff.mp ha
    exact congrArg some (congrArg (Interleaving.System.mk S.shared) (List.set_getElem_self _).symm)
  | succ n ih =>
    have hturn : threadStep pf S (.turn k clock) =
        some ⟨(move pf clock a.thread S.shared a.point).1,
          S.processes.set k ⟨a.thread, (move pf clock a.thread S.shared a.point).2⟩⟩ := by
      simp only [threadStep, Interleaving.System.turn, ha, Option.map_some, Activity.act, List.append_nil]
    refine run_cons hturn ((ih (List.getElem?_set_self hk) (by simpa using hk)).trans ?_)
    rw [List.set_set]
    rfl

def ThreadEvent.started : ThreadEvent → Option Op
  | .start op => some op
  | .turn _ _ => none

theorem Covered.exists_run (h : Covered pf S op s') (hS : S.Resting) :
    ∃ es S', run (threadStep pf) S es = some S' ∧ S'.shared = s' ∧ S'.Resting ∧
      es.filterMap ThreadEvent.started = [op] := by
  have hstart : ∀ {S₁ S' es}, start pf S op = some S₁ → run (threadStep pf) S₁ es = some S' →
      run (threadStep pf) S (.start op :: es) = some S' := fun h => run_cons h
  cases h with
  | atOnce h => exact ⟨[.start op], S.withNode s', hstart h rfl, rfl, hS, rfl⟩
  | restart h => exact ⟨[.start op], .idle s', hstart h rfl, rfl, fun a ha => (nomatch ha), rfl⟩
  | @thread clock th s x h hf =>
    obtain ⟨n, hn⟩ := hf
    have hlast : (S.begin s th x).processes[S.processes.length]? = some ⟨th, x⟩ := List.getElem?_concat_length
    have hset : (S.begin s th x).processes.set S.processes.length ⟨th, .done⟩ = S.processes ++ [⟨th, .done⟩] := by
      simp [NodeThreads.begin, NodeThreads.withNode, Interleaving.System.spawn]
    have hturns := run_turns pf clock n hlast
    rw [show moves pf clock th n ((S.begin s th x).shared, x) = (s', .done) from hn, hset] at hturns
    refine ⟨.start op :: List.replicate n (.turn S.processes.length clock), _, hstart h hturns, rfl, ?_, ?_⟩
    · intro a ha
      rcases List.mem_append.mp ha with ha | ha
      · exact hS a ha
      · rw [List.mem_singleton.mp ha]
    · simp [ThreadEvent.started]

end Covering

/-- Every run of whole operations is a run of threads that starts the same operations in the same order, leaves
the same node and no thread in the middle of anything. -/
theorem operations_are_thread_runs {pf : Platform} {s s' : Node} {ops : List Op} (h : run (step pf) s ops = some s') :
    ∃ es S, run (threadStep pf) (.idle s) es = some S ∧ S.shared = s' ∧ S.Resting ∧
      es.filterMap ThreadEvent.started = ops := by
  suffices hrun : ∀ S : NodeThreads, S.shared = s → S.Resting →
      ∃ es S', run (threadStep pf) S es = some S' ∧ S'.shared = s' ∧ S'.Resting ∧
        es.filterMap ThreadEvent.started = ops from hrun (.idle s) rfl fun a ha => (nomatch ha)
  induction ops generalizing s with
  | nil =>
    intro S hS hrest
    cases h
    exact ⟨[], S, rfl, hS, hrest, rfl⟩
  | cons op ops ih =>
    intro S hS hrest
    obtain ⟨s₁, hstep, htail⟩ := run_cons_eq_some h
    subst hS
    obtain ⟨es, S₁, hes, hS₁, hrest₁, hop⟩ := (step_covered hrest hstep).exists_run hrest
    obtain ⟨es', S', hes', hS', hrest', hops⟩ := ih htail S₁ hS₁ hrest₁
    refine ⟨es ++ es', S', run_append hes hes', hS', hrest', ?_⟩
    rw [List.filterMap_append, hop, hops]
    rfl

end Onvm
