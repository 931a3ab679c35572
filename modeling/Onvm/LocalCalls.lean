import Onvm.LeaderRequests
import Onvm.OwnChains

/-! Calls that a node serves by itself: the machine that a client of the program sees, the steps of a
call that leads and that nothing interrupts, and a call that fails. -/

namespace Onvm

open ByteString OrderedStore WeightedQuorum Runs Std

/-- A call of a client of this node, with the surroundings of its guest run and the clock. -/
structure LocalCall where
  id : Nat
  input : Bytes
  world : Nat
  clock : UInt64 → UInt64

/-- The answer to a call whose guest run ends so: neither the input nor the writes are too many. -/
def limitedAnswer (input : Bytes) (result : Except String ExecutionOutcome) : Except String ExecutionOutcome :=
  if maxCaldataSize < input.length then
    .error ("calldata too large: " ++ toString input.length ++ " bytes (max " ++ toString maxCaldataSize ++ ")")
  else
    result.bind fun o =>
      if maxStateWrites < o.stateWrites.length then
        .error ("too many state writes: " ++ toString o.stateWrites.length ++ " (max " ++
          toString maxStateWrites ++ ")")
      else .ok o

theorem limitedAnswer_eq_ok {input : Bytes} {result : Except String ExecutionOutcome} {o : ExecutionOutcome}
    (h : limitedAnswer input result = .ok o) :
    result = .ok o ∧ o.stateWrites.length ≤ maxStateWrites ∧ input.length ≤ maxCaldataSize := by
  rw [limitedAnswer] at h
  split_ifs at h with hsize
  obtain ⟨o', ho, h⟩ := bind_eq_ok h
  split_ifs at h with hw
  cases h
  exact ⟨ho, Nat.not_lt.mp hw, Nat.not_lt.mp hsize⟩

section Serial

variable (pf : Platform) (maxFuel : UInt64) (u : UnifiedStore) (p : ProgramId)

def serialAnswer (st : StateStore) (c : LocalCall) : Except String ExecutionOutcome :=
  limitedAnswer c.input (execute pf c.world maxFuel u st p c.input)

def afterAnswer (st : StateStore) : Except String ExecutionOutcome → StateStore
  | .error _ => st
  | .ok o => st.applyStateWrites p o.stateWrites

variable {pf maxFuel u p}

theorem serialAnswer_eq_ok {st : StateStore} {c : LocalCall} {o : ExecutionOutcome}
    (h : serialAnswer pf maxFuel u p st c = .ok o) :
    execute pf c.world maxFuel u st p c.input = .ok o ∧ o.stateWrites.length ≤ maxStateWrites ∧
      c.input.length ≤ maxCaldataSize :=
  limitedAnswer_eq_ok h

end Serial

def leadingSteps : List CallStep := [.acquire, .lead, .prepare, .readRoot]

def openingSteps : List CallStep := .resolve false :: (.route fun _ => none) :: leadingSteps

def LocalCall.steps (c : LocalCall) : List CallStep :=
  openingSteps ++ [.execute c.world, .propose, .sign, .settle c.clock, .finish]

def Node.resultOf (s : Node) (t : Nat) : Option (Except String ExecutionOutcome) :=
  (s.tasks[t]?).bind (·.phase.result)

def attend (pf : Platform) (t : Nat) : Node → List CallStep → Option Node
  | s, [] => some s
  | s, act :: acts =>
    if (s.resultOf t).isSome then some s
    else (step pf s (.call t act)).bind fun s' => attend pf t s' acts

def serveCall (pf : Platform) (p : ProgramId) (s : Node) (c : LocalCall) : Option Node :=
  (step pf s (.submit c.id p c.input)).bind fun s' => attend pf c.id s' c.steps

section Attending

variable {pf : Platform} {t : Nat} {s s' : Node} {task : SubmitTask} {act : CallStep}
  {acts : List CallStep}

theorem attend_cons (htask : s.tasks[t]? = some task) (hphase : task.phase.result = none)
    (hstep : callStep pf s t task act task.phase = some s') :
    attend pf t s (act :: acts) = attend pf t s' acts := by
  have hres : s.resultOf t = none := by rw [Node.resultOf, htask, Option.bind_some, hphase]
  rw [attend, hres, if_neg (by simp), step]
  simp only [htask, hstep, Option.bind_some]

theorem attend_returned (h : (s.resultOf t).isSome) : attend pf t s acts = some s := by
  cases acts with
  | nil => rfl
  | cons act acts => rw [attend, if_pos h]

end Attending

/-- The node leads the next height of the program and has what a call needs. -/
structure LeadsNext (pf : Platform) (p : ProgramId) (C : CommitteeCertificate) (s : Node) : Prop where
  committee : s.catalog.committee pf p = .ok (some C)
  leads : leaderForHeight C (s.catalog.nextHeight p) = some s.nodeId
  unlocked : s.locks[p]? = none
  size : ∀ o, s.unified.getObjectMetadata p.toObjectId = some o → o.totalSize.toNat ≤ maxProgramSize
  complete : s.unified.isComplete p.toObjectId = true

/-- The node is the whole committee of the program and has the program and its keys. -/
structure SoleLeader (pf : Platform) (p : ProgramId) (C : CommitteeCertificate) (s : Node) : Prop where
  committee : s.catalog.committee pf p = .ok (some C)
  program : C.programId = p
  member : ∃ weight, C.members = [⟨s.nodeId, weight, s.blsPublic⟩] ∧ C.threshold.toNat ≤ weight.toNat
  threshold : 1 ≤ C.threshold.toNat
  unlocked : s.locks[p]? = none
  size : ∀ o, s.unified.getObjectMetadata p.toObjectId = some o → o.totalSize.toNat ≤ maxProgramSize
  complete : s.unified.isComplete p.toObjectId = true
  signs : ∀ id : ReceiptId, ∃ sig, pf.sign id.bytes s.blsSecret dstReceipt = .ok sig
  keyPair : KeyPair pf s.blsSecret s.blsPublic

section Leading

variable {pf : Platform} {p : ProgramId} {C : CommitteeCertificate} {s : Node}

theorem SoleLeader.leads (h : SoleLeader pf p C s) {height : UInt64} (hh : height ≠ 0) :
    leaderForHeight C height = some s.nodeId := by
  obtain ⟨weight, hm, -⟩ := h.member
  rw [leaderForHeight, hm, if_neg (by simp [hh])]
  simp [Nat.mod_one]

theorem SoleLeader.leadsNext (h : SoleLeader pf p C s) (hnext : s.catalog.nextHeight p ≠ 0) :
    LeadsNext pf p C s :=
  ⟨h.committee, h.leads hnext, h.unlocked, h.size, h.complete⟩

theorem SoleLeader.sound (h : SoleLeader pf p C s) : SoundCommittee p C := by
  obtain ⟨weight, hm, -⟩ := h.member
  refine ⟨h.program, ?_, ?_, h.threshold⟩
  · simp [hm]
  · rw [hm, maxCommitteeSize]
    simp

section Steps

variable {t : Nat} {task : SubmitTask} {height : UInt64}

theorem submitResolve_of_committee (hc : s.catalog.committee pf task.programId = .ok (some C)) :
    submitResolve pf s t task false = s.setPhase t task (.route C) := by
  simp [submitResolve, hc]

theorem submitRoute_of_leader (answers : Answers)
    (hl : leaderForHeight C (s.catalog.nextHeight task.programId) = some s.nodeId) :
    submitRoute pf s t task answers C = s.setPhase t task (.lock C) := by
  simp [submitRoute, hl]

theorem submitAcquire_of_unlocked (hl : s.locks[task.programId]? = none) :
    submitAcquire s t task C =
      some { s.setPhase t task (.lead C) with locks := s.locks.insert task.programId t } := by
  simp [submitAcquire, hl]

theorem submitLead_of_leader
    (hl : leaderForHeight C (s.catalog.nextHeight task.programId) = some s.nodeId) :
    submitLead s t task C = s.setPhase t task (.prepare C (s.catalog.nextHeight task.programId)) := by
  simp [submitLead, hl]

theorem submitPrepare_of_complete (hc : s.unified.isComplete task.programId.toObjectId = true)
    (hsize : ∀ o, s.unified.getObjectMetadata task.programId.toObjectId = some o →
      o.totalSize.toNat ≤ maxProgramSize) :
    submitPrepare s t task C height = s.setPhase t task (.readRoot C height) := by
  have hnone : ((s.unified.getObjectMetadata task.programId.toObjectId).bind fun o =>
      if maxProgramSize < o.totalSize.toNat then some o.totalSize else none) = none := by
    rw [Option.bind_eq_none_iff]
    intro o ho
    rw [if_neg (Nat.not_lt.mpr (hsize o ho))]
  simp [submitPrepare, hnone, hc]

theorem submitExecute_of_error {c : LocalCall} {rootIn : StateRoot} {e : String} (hin : task.input = c.input)
    (hsize : ¬ maxCaldataSize < c.input.length)
    (ha : serialAnswer pf s.maxFuel s.unified task.programId s.states c = .error e) :
    submitExecute pf s t task c.world C height rootIn = s.conclude t task (.returned (.error e)) := by
  rw [serialAnswer, limitedAnswer, if_neg hsize] at ha
  rw [submitExecute, hin]
  cases hx : execute pf c.world s.maxFuel s.unified s.states task.programId c.input with
  | error e' =>
    rw [hx] at ha
    cases ha
    rfl
  | ok o =>
    rw [hx] at ha
    simp only [Except.bind] at ha
    split_ifs at ha with hw
    cases ha
    simp only [if_pos hw]

theorem submitExecute_of_ok {c : LocalCall} {rootIn : StateRoot} {o : ExecutionOutcome}
    (hin : task.input = c.input) (ha : serialAnswer pf s.maxFuel s.unified task.programId s.states c = .ok o) :
    submitExecute pf s t task c.world C height rootIn = s.setPhase t task (.propose C height rootIn o) := by
  obtain ⟨hx, hw, -⟩ := serialAnswer_eq_ok ha
  rw [submitExecute, hin, hx]
  simp only [if_neg (Nat.not_lt.mpr hw)]

theorem submitPropose_of_member {rootIn : StateRoot} {o : ExecutionOutcome} {me : CommitteeMember}
    (hm : C.members.find? (·.node == s.nodeId) = some me) (hk : me.blsPublicKey = s.blsPublic) :
    let r := buildReceipt pf s.unified s.nodeId task.programId task.input height rootIn o
    submitPropose pf s t task C height rootIn o =
      ({ s with pending := s.pending.insert (r.id pf) ⟨C, r, o.stateWrites, ∅, some t⟩ }.publish
        (.proposal ⟨r, C.epoch, o.stateWrites⟩)).setPhase t task (.sign C r o) := by
  intro r
  rw [submitPropose, hm]
  simp only [hk, ne_eq, not_true_eq_false, if_false]
  rfl

theorem submitSign_of_ok {r : ExecutionReceipt} {o : ExecutionOutcome} {sig : BlsSignature}
    {entry : PendingTransition} (hs : pf.sign (r.id pf).bytes s.blsSecret dstReceipt = .ok sig)
    (he : s.pending[r.id pf]? = some entry) :
    submitSign pf s t task C r o =
      ({ s.recordVote pf r with
          pending := s.pending.insert (r.id pf)
            { entry with signatures := entry.signatures.insert s.nodeId sig } }.publish
        (.vote ⟨task.programId, C.epoch, r.id pf, s.nodeId, sig⟩)).setPhase t task (.settle r o) := by
  have he' : (s.recordVote pf r).pending[r.id pf]? = some entry := he
  simp only [submitSign, hs, he']
  rfl

end Steps

def Node.held (s : Node) (T : ExtTreeMap Nat SubmitTask) (locks : ExtTreeMap ProgramId Nat) : Node :=
  { s with tasks := T, locks := locks }

variable {T : ExtTreeMap Nat SubmitTask} {locks : ExtTreeMap ProgramId Nat} {c : LocalCall}

def LocalCall.entered (c : LocalCall) (p : ProgramId) (T : ExtTreeMap Nat SubmitTask) (ph : Phase) :
    ExtTreeMap Nat SubmitTask :=
  T.insert c.id ⟨p, c.input, ph⟩

@[simp] theorem getElem?_entered_self {ph : Phase} :
    (c.entered p T ph)[c.id]? = some ⟨p, c.input, ph⟩ := ExtTreeMap.getElem?_insert_self

theorem getElem?_entered_of_ne {ph : Phase} {t : Nat} (ht : t ≠ c.id) :
    (c.entered p T ph)[t]? = T[t]? := by
  have hne : ¬ compare c.id t = .eq := fun he => ht (LawfulEqOrd.eq_of_compare he).symm
  rw [LocalCall.entered, ExtTreeMap.getElem?_insert, if_neg hne]

theorem entered_entered {ph ph' : Phase} : c.entered p (c.entered p T ph) ph' = c.entered p T ph' := by
  apply ExtTreeMap.ext_getElem?
  intro t
  by_cases ht : t = c.id
  · rw [ht, getElem?_entered_self, getElem?_entered_self]
  · rw [getElem?_entered_of_ne ht, getElem?_entered_of_ne ht, getElem?_entered_of_ne ht]

theorem attend_entered {ph ph' : Phase} {act : CallStep} {acts : List CallStep}
    {locks' : ExtTreeMap ProgramId Nat} (hph : ph.result = none)
    (hstep : callStep pf (s.held (c.entered p T ph) locks) c.id ⟨p, c.input, ph⟩ act ph =
      some (s.held (c.entered p (c.entered p T ph) ph') locks')) :
    attend pf c.id (s.held (c.entered p T ph) locks) (act :: acts) =
      attend pf c.id (s.held (c.entered p T ph') locks') acts := by
  rw [entered_entered] at hstep
  exact attend_cons (s := s.held (c.entered p T ph) locks) getElem?_entered_self hph hstep

theorem LeadsNext.attend_leading (h : LeadsNext pf p C s) (acts : List CallStep) :
    attend pf c.id (s.held (c.entered p s.tasks (.lock C)) s.locks) (leadingSteps ++ acts) =
      attend pf c.id (s.held (c.entered p s.tasks
        (.execute C (s.catalog.nextHeight p) (s.states.sparseRootScoped p pf))) (s.locks.insert p c.id)) acts := by
  calc attend pf c.id (s.held (c.entered p s.tasks (.lock C)) s.locks) (leadingSteps ++ acts)
    _ = attend pf c.id (s.held (c.entered p s.tasks (.lead C)) (s.locks.insert p c.id))
          (leadingSteps.drop 1 ++ acts) :=
      attend_entered rfl (by exact submitAcquire_of_unlocked h.unlocked)
    _ = attend pf c.id (s.held (c.entered p s.tasks (.prepare C (s.catalog.nextHeight p)))
          (s.locks.insert p c.id)) (leadingSteps.drop 2 ++ acts) :=
      attend_entered rfl (by exact congrArg some (submitLead_of_leader h.leads))
    _ = attend pf c.id (s.held (c.entered p s.tasks (.readRoot C (s.catalog.nextHeight p)))
          (s.locks.insert p c.id)) (leadingSteps.drop 3 ++ acts) :=
      attend_entered rfl (by exact congrArg some (submitPrepare_of_complete h.complete h.size))
    _ = _ := attend_entered rfl rfl

theorem LeadsNext.attend_opening (h : LeadsNext pf p C s) (acts : List CallStep) :
    attend pf c.id (s.held (c.entered p s.tasks .resolve) s.locks) (openingSteps ++ acts) =
      attend pf c.id (s.held (c.entered p s.tasks (.lock C)) s.locks) (leadingSteps ++ acts) :=
  (attend_entered rfl (by exact congrArg some (submitResolve_of_committee h.committee))).trans
    (attend_entered rfl (by exact congrArg some (submitRoute_of_leader _ h.leads)))

theorem step_submit (hfresh : s.tasks[c.id]? = none) (hsize : c.input.length ≤ maxCaldataSize) :
    step pf s (.submit c.id p c.input) = some (s.held (c.entered p s.tasks .resolve) s.locks) := by
  simp only [step, hfresh, submitStart, if_neg (Nat.not_lt.mpr hsize)]
  rfl

theorem erase_insert_of_none {m : ExtTreeMap ProgramId Nat} (h : m[p]? = none) (t : Nat) :
    (m.insert p t).erase p = m := by
  apply ExtTreeMap.ext_getElem?
  intro q
  rw [ExtTreeMap.getElem?_erase, ExtTreeMap.getElem?_insert]
  split_ifs with hq
  · rw [← LawfulEqOrd.eq_of_compare hq, h]
  · rfl

theorem conclude_held (hl : s.locks[p]? = none) (ph ph' : Phase) :
    (s.held (c.entered p T ph) (s.locks.insert p c.id)).conclude c.id ⟨p, c.input, ph⟩ ph' =
      s.held (c.entered p T ph') s.locks := by
  have hlock : (s.locks.insert p c.id)[p]? = some c.id := ExtTreeMap.getElem?_insert_self
  have htasks : (c.entered p T ph).insert c.id ⟨p, c.input, ph'⟩ = c.entered p T ph' := entered_entered
  simp only [Node.conclude, Node.setPhase, Node.held, if_pos hlock, htasks, erase_insert_of_none hl]

theorem attend_failed {e : String} (acts : List CallStep) :
    attend pf c.id (s.held (c.entered p s.tasks (.returned (.error e))) s.locks) acts =
      some (s.held (c.entered p s.tasks (.returned (.error e))) s.locks) :=
  attend_returned (by simp [Node.resultOf, Node.held, Phase.result])

theorem LeadsNext.attend_execute_failed (h : LeadsNext pf p C s) (hsize : ¬ maxCaldataSize < c.input.length)
    {e : String} (ha : serialAnswer pf s.maxFuel s.unified p s.states c = .error e) (acts : List CallStep) :
    attend pf c.id (s.held (c.entered p s.tasks (.lock C)) s.locks) (leadingSteps ++ .execute c.world :: acts) =
      some (s.held (c.entered p s.tasks (.returned (.error e))) s.locks) := by
  have hstep : callStep pf (s.held (c.entered p s.tasks
        (.execute C (s.catalog.nextHeight p) (s.states.sparseRootScoped p pf))) (s.locks.insert p c.id)) c.id
      ⟨p, c.input, .execute C (s.catalog.nextHeight p) (s.states.sparseRootScoped p pf)⟩ (.execute c.world)
      (.execute C (s.catalog.nextHeight p) (s.states.sparseRootScoped p pf)) =
      some (s.held (c.entered p s.tasks (.returned (.error e))) s.locks) := by
    rw [← conclude_held h.unlocked (.execute C (s.catalog.nextHeight p) (s.states.sparseRootScoped p pf))]
    exact congrArg some (submitExecute_of_error (s := s.held _ _) rfl hsize ha)
  rw [h.attend_leading, ← attend_failed acts]
  exact attend_cons getElem?_entered_self rfl hstep

theorem step_submit_failed (hfresh : s.tasks[c.id]? = none) (hsize : maxCaldataSize < c.input.length) {e : String}
    (ha : serialAnswer pf s.maxFuel s.unified p s.states c = .error e) :
    step pf s (.submit c.id p c.input) = some (s.held (c.entered p s.tasks (.returned (.error e))) s.locks) := by
  rw [serialAnswer, limitedAnswer, if_pos hsize] at ha
  cases ha
  simp only [step, hfresh, submitStart, if_pos hsize]
  rfl

theorem LeadsNext.serveCall_failed (h : LeadsNext pf p C s) (hfresh : s.tasks[c.id]? = none) {e : String}
    (ha : serialAnswer pf s.maxFuel s.unified p s.states c = .error e) :
    serveCall pf p s c = some (s.held (c.entered p s.tasks (.returned (.error e))) s.locks) := by
  by_cases hsize : maxCaldataSize < c.input.length
  · rw [serveCall, step_submit_failed hfresh hsize ha]
    exact attend_failed _
  · rw [serveCall, step_submit hfresh (Nat.not_lt.mp hsize)]
    exact (h.attend_opening _).trans (h.attend_execute_failed hsize ha _)

end Leading

end Onvm
