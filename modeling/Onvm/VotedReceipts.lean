import Onvm.Steps

/-! What a vote certifies: the receipt of a proposal beside the receipt that
`submit_execution` on the voting node would make for the same calldata. -/

namespace Onvm

open ByteString WeightedQuorum Runs Std

/-- The receipt `submit_execution` would make in this state, its outcome being that of `world`. -/
def ownReceipt (pf : Platform) (s : Node) (world : Nat) (p : ProgramId) (input : Bytes) :
    Except String ExecutionReceipt :=
  (execute pf world s.maxFuel s.unified s.states p input).map fun o =>
    buildReceipt pf s.unified s.nodeId p input (s.catalog.nextHeight p)
      (s.states.sparseRootScoped p pf) o

/-- The fields of a receipt that no check of the proposal handler looks at, as this node would set
them. -/
structure UncheckedFieldsMatch (pf : Platform) (s : Node) (world : Nat) (r : ExecutionReceipt) : Prop where
  entrypoint : getEntrypoint s.unified r.programId.toObjectId = .ok r.call.entrypoint
  requestId : r.call.requestId = pf.hashBytes r.call.calldata
  gasUsed : (execute pf world s.maxFuel s.unified s.states r.programId r.call.calldata).map
    (·.fuelConsumed) = .ok r.gasUsed
  eventsHash : r.eventsHash = .ofByte 32 0
  wasmCodeHash : r.wasmCodeHash =
    (s.unified.getManifestByObject r.programId.toObjectId).map (·.contentHash)
  wasmEnvHash : r.wasmEnvHash = wasmEnvHashV1 pf
  nonce : r.nonce = UInt64.ofNat (r.call.requestId.bytes.getD 0 0).toNat

instance (pf : Platform) (s : Node) (world : Nat) (r : ExecutionReceipt) :
    Decidable (UncheckedFieldsMatch pf s world r) :=
  decidable_of_iff
    (getEntrypoint s.unified r.programId.toObjectId = .ok r.call.entrypoint ∧
      r.call.requestId = pf.hashBytes r.call.calldata ∧
      (execute pf world s.maxFuel s.unified s.states r.programId r.call.calldata).map
        (·.fuelConsumed) = .ok r.gasUsed ∧
      r.eventsHash = .ofByte 32 0 ∧
      r.wasmCodeHash = (s.unified.getManifestByObject r.programId.toObjectId).map (·.contentHash) ∧
      r.wasmEnvHash = wasmEnvHashV1 pf ∧
      r.nonce = UInt64.ofNat (r.call.requestId.bytes.getD 0 0).toNat)
    ⟨fun ⟨h1, h2, h3, h4, h5, h6, h7⟩ => ⟨h1, h2, h3, h4, h5, h6, h7⟩,
      fun h => ⟨h.1, h.2, h.3, h.4, h.5, h.6, h.7⟩⟩

section Checks

variable {pf : Platform} {s s' : Node} {world : Nat} {m : StateTransitionProposal}

theorem ProgramCatalog.nextHeight_of_expectedHeight {cat : ProgramCatalog} {p : ProgramId}
    {height : UInt64} (h : cat.expectedHeight p = .ok height) : cat.nextHeight p = height := by
  obtain ⟨hl, rfl⟩ | ⟨c, hl, hlt, rfl⟩ := expectedHeight_cases h
  · rw [nextHeight, hl]
  · rw [nextHeight, hl]
    refine UInt64.toNat_inj.mp ?_
    rw [toNat_saturatingAdd, UInt64.toNat_add]
    exact (min_eq_left (Nat.le_sub_one_of_lt hlt)).trans (Nat.mod_eq_of_lt hlt).symm

/-- What a proposal that goes on to be executed has passed. -/
structure PassedChecks (pf : Platform) (s : Node) (m : StateTransitionProposal) (task : ProposalTask) :
    Prop where
  proposal : task.proposal = m
  loaded : (checkProposal pf s m).1 = (s.loadLastVoted m.receipt.programId).1
  height : s.catalog.expectedHeight m.receipt.programId = .ok m.receipt.height
  root : m.receipt.stateRootIn = s.states.sparseRootScoped m.receipt.programId pf
  inputs : pf.hashBytes m.receipt.call.calldata = m.receipt.inputsHash
  key : (task.committee.members.find? (·.node == s.nodeId)).map (·.blsPublicKey) = some s.blsPublic

theorem checkProposal_passed {task : ProposalTask} (ht : (checkProposal pf s m).2 = some task) :
    PassedChecks pf s m task := by
  have h : checkProposal pf s m = ((checkProposal pf s m).1, some task) := by rw [← ht]
  generalize hs' : (checkProposal pf s m).1 = s' at h
  rw [checkProposal] at h
  dsimp only at h
  split at h
  · cases h
  · cases h
  split at h
  · cases h
  split at h
  · cases h
  split at h
  · cases h
  rename_i me hme
  split at h
  · cases h
  rename_i hkey
  split at h
  · cases h
  rename_i hheight
  split at h
  · cases h
  rename_i hroot
  split at h
  · cases h
  split at h
  · cases h
  rename_i hinputs
  cases h
  refine ⟨rfl, hs', not_not.mp hheight, not_not.mp hroot, not_not.mp hinputs, ?_⟩
  rw [hme, Option.map_some, not_not.mp hkey]

theorem endorse_eq_some {sig : BlsSignature} (h : endorse pf s world m = some sig) :
    pf.sign (m.receipt.id pf).bytes s.blsSecret dstReceipt = .ok sig ∧
    ∃ o, execute pf world s.maxFuel s.unified s.states m.receipt.programId m.receipt.call.calldata =
        .ok o ∧
      o.stateRoot = m.receipt.stateRootOut ∧ stateWritesDigest pf o.stateWrites = m.receipt.writeDigest := by
  rw [endorse] at h
  split at h
  · cases h
  split at h
  · cases h
  rename_i o ho
  split at h
  · cases h
  rename_i hwrites
  split at h
  · cases h
  rename_i hroot
  split at h
  · cases h
  rename_i hdigest
  split at h
  · cases h
  split at h
  · cases h
  rename_i sig' hsign
  cases h
  exact ⟨hsign, o, ho, not_not.mp hroot, not_not.mp hwrites ▸ not_not.mp hdigest⟩

theorem execute_entrypoint {maxFuel : UInt64} {u : UnifiedStore} {st : StateStore} {p : ProgramId}
    {input : Bytes} {o : ExecutionOutcome} (h : execute pf world maxFuel u st p input = .ok o) :
    ∃ e, getEntrypoint u p.toObjectId = .ok e := by
  obtain ⟨wasm, -, h⟩ := bind_eq_ok h
  obtain ⟨e, he, -⟩ := bind_eq_ok h
  exact ⟨e, he⟩

theorem execute_world (hdet : ∀ w w' call, pf.runGuest w call = pf.runGuest w' call) (w w' : Nat)
    (maxFuel : UInt64) (u : UnifiedStore) (st : StateStore) (p : ProgramId) (input : Bytes) :
    execute pf w maxFuel u st p input = execute pf w' maxFuel u st p input := by
  simp only [execute, hdet w w']

theorem ownReceipt_eq_iff {r : ExecutionReceipt} {o : ExecutionOutcome}
    (ho : execute pf world s.maxFuel s.unified s.states r.programId r.call.calldata = .ok o)
    (hheight : s.catalog.nextHeight r.programId = r.height)
    (hroot : r.stateRootIn = s.states.sparseRootScoped r.programId pf)
    (hinputs : pf.hashBytes r.call.calldata = r.inputsHash) (hout : o.stateRoot = r.stateRootOut)
    (hdigest : stateWritesDigest pf o.stateWrites = r.writeDigest) :
    (ownReceipt pf s world r.programId r.call.calldata).map
        (fun own => { own with executor := r.executor }) = .ok r ↔
      UncheckedFieldsMatch pf s world r := by
  obtain ⟨e, he⟩ := execute_entrypoint ho
  rw [ownReceipt, ho]
  simp only [Except.map, Except.ok.injEq, buildReceipt, he, hheight, ← hroot, hinputs, hout, hdigest]
  constructor
  · intro h
    have hcall := congrArg ExecutionReceipt.call h
    refine ⟨?_, ?_, ?_, ?_, ?_, ?_, ?_⟩
    · rw [he]
      exact congrArg Except.ok (congrArg ExecutionCall.entrypoint hcall)
    · exact (congrArg ExecutionCall.requestId hcall).symm.trans hinputs.symm
    · rw [ho]
      exact congrArg Except.ok (congrArg ExecutionReceipt.gasUsed h)
    · exact (congrArg ExecutionReceipt.eventsHash h).symm
    · exact (congrArg ExecutionReceipt.wasmCodeHash h).symm
    · exact (congrArg ExecutionReceipt.wasmEnvHash h).symm
    · rw [← congrArg ExecutionCall.requestId hcall]
      exact (congrArg ExecutionReceipt.nonce h).symm
  · intro h
    have hentry := h.entrypoint
    have hgas : (Except.ok o : Except String ExecutionOutcome).map (·.fuelConsumed) = .ok r.gasUsed :=
      ho ▸ h.gasUsed
    have hfuel : o.fuelConsumed = r.gasUsed := Except.ok.inj hgas
    have hnonce := h.nonce
    have hreq := h.requestId.trans hinputs
    rw [he, Except.ok.injEq] at hentry
    rw [hreq] at hnonce
    have hcall : (⟨e, r.call.calldata, r.inputsHash⟩ : ExecutionCall) = r.call := by
      rw [hentry, ← hreq]
    rw [hcall, hfuel, ← h.eventsHash, ← h.wasmCodeHash, ← h.wasmEnvHash, ← hnonce]

end Checks

section Voting

variable {pf : Platform} {s s' : Node} {world : Nat} {clock : UInt64 → UInt64}
  {m : StateTransitionProposal}

theorem run_proposal (hh : s.handling = none) (hc : (checkProposal pf s m).2.isSome) :
    run (step pf) s [.proposal m, .finishProposal world clock] =
      some (handleStateTransitionProposal pf clock s world m) := by
  obtain ⟨task, ht⟩ := Option.isSome_iff_exists.mp hc
  have hnone : (checkProposal pf s m).1.handling = none := by
    obtain ⟨cache, requests, h⟩ := checkProposal_frame pf s m
    rw [h]
    exact hh
  cases hcheck : checkProposal pf s m with
  | mk s₁ found =>
    rw [hcheck] at ht hnone
    cases ht
    cases s₁
    cases hnone
    simp [run, step, hh, hcheck, handleStateTransitionProposal]

theorem checked_of_signed
    (h : (handleStateTransitionProposal pf clock s world m).signed = m.receipt :: s.signed) :
    s.catalog.expectedHeight m.receipt.programId = .ok m.receipt.height ∧
      m.receipt.stateRootIn = s.states.sparseRootScoped m.receipt.programId pf ∧
      pf.hashBytes m.receipt.call.calldata = m.receipt.inputsHash ∧
      ∃ o, execute pf world s.maxFuel s.unified s.states m.receipt.programId m.receipt.call.calldata =
          .ok o ∧
        o.stateRoot = m.receipt.stateRootOut ∧
        stateWritesDigest pf o.stateWrites = m.receipt.writeDigest := by
  have hkeep : (checkProposal pf s m).1.signed = s.signed := by
    obtain ⟨cache, requests, hc⟩ := checkProposal_frame pf s m
    rw [hc]
  rw [handleStateTransitionProposal] at h
  split at h
  · rename_i s₁ hc
    rw [hc] at hkeep
    exact absurd (hkeep.symm.trans h).symm (List.cons_ne_self _ _)
  rename_i s₁ task hc
  rw [hc] at hkeep
  obtain ⟨rfl, hloaded, hheight, hroot, hinputs, -⟩ := checkProposal_passed (congrArg Prod.snd hc)
  rw [hc] at hloaded
  obtain rfl : s₁ = (s.loadLastVoted task.proposal.receipt.programId).1 := hloaded
  obtain ⟨cache, hcache⟩ := s.loadLastVoted_eq task.proposal.receipt.programId
  rw [finishProposal] at h
  split at h
  · exact absurd (hkeep.symm.trans h).symm (List.cons_ne_self _ _)
  rename_i sig he
  rw [hcache] at he
  exact ⟨hheight, hroot, hinputs, (endorse_eq_some he).2⟩

theorem submit_proposes_ownReceipt {t : Nat} {task : SubmitTask} {c : CommitteeCertificate}
    (ht : s.tasks[t]? = some task)
    (hph : task.phase = .readRoot c (s.catalog.nextHeight task.programId))
    (h : run (step pf) s [.call t .readRoot, .call t (.execute world), .call t .propose] = some s') :
    s'.published = s.published ∨
      ∃ r writes, ownReceipt pf s world task.programId task.input = .ok r ∧
        s'.published = s.published ++ [.proposal ⟨r, c.epoch, writes⟩] := by
  obtain ⟨s₁, h₁, h⟩ := run_cons_eq_some h
  obtain ⟨s₂, h₂, h⟩ := run_cons_eq_some h
  obtain ⟨s₃, h₃, h⟩ := run_cons_eq_some h
  cases h
  simp only [step, ht, hph, callStep] at h₁
  cases h₁
  simp only [step, submitReadRoot, Node.setPhase, ExtTreeMap.getElem?_insert_self, callStep, submitExecute] at h₂
  cases he : execute pf world s.maxFuel s.unified s.states task.programId task.input with
  | error e =>
    simp only [he, Option.some.injEq] at h₂
    subst h₂
    simp [step, Node.conclude, Node.setPhase, callStep] at h₃
  | ok o =>
    simp only [he, Option.some.injEq] at h₂
    subst h₂
    split at h₃
    · simp [step, Node.conclude, Node.setPhase, callStep] at h₃
    · simp only [step, ExtTreeMap.getElem?_insert_self, callStep, Option.some.injEq] at h₃
      subst h₃
      rw [ownReceipt, he, submitPropose]
      dsimp only
      split
      · exact .inl rfl
      split
      · exact .inl rfl
      · exact .inr ⟨_, o.stateWrites, rfl, rfl⟩

end Voting

/-- On a platform that runs programs deterministically, a receipt the proposal handler signs is, its
executor apart, the node's own receipt for the calldata exactly if the fields nobody checks match. -/
theorem signed_receipt_own_iff {pf : Platform} {s : Node} {world : Nat} {clock : UInt64 → UInt64}
    {m : StateTransitionProposal} (hdet : ∀ w w' call, pf.runGuest w call = pf.runGuest w' call)
    (hsigned : (handleStateTransitionProposal pf clock s world m).signed = m.receipt :: s.signed)
    (w : Nat) :
    (ownReceipt pf s w m.receipt.programId m.receipt.call.calldata).map
        (fun own => { own with executor := m.receipt.executor }) = .ok m.receipt ↔
      UncheckedFieldsMatch pf s w m.receipt := by
  obtain ⟨hheight, hroot, hinputs, o, ho, hout, hdigest⟩ := checked_of_signed hsigned
  rw [execute_world hdet world w] at ho
  exact ownReceipt_eq_iff ho (ProgramCatalog.nextHeight_of_expectedHeight hheight) hroot hinputs hout hdigest

section Sample

def sampleProposals : List StateTransitionProposal :=
  ((run (step sampleRuntime) (sampleStart 1)
    (sampleSetup (sampleCommittee sampleProgram [1, 2] 2) ++ sampleCall 0 [])).map fun s =>
      s.published.filterMap fun
        | .proposal m => some m
        | _ => none).getD []

/-- The other member signs the leader's receipt, and it is the receipt it would have made. -/
theorem signed_receipt_own_iff_sample :
    ∃ s, run (step sampleRuntime) (sampleStart 2)
        (sampleSetup (sampleCommittee sampleProgram [1, 2] 2)) = some s ∧
      ∃ m ∈ sampleProposals,
        (handleStateTransitionProposal sampleRuntime (fun _ => 0) s 0 m).signed = m.receipt :: s.signed ∧
        (ownReceipt sampleRuntime s 1 m.receipt.programId m.receipt.call.calldata).map
          (fun own => { own with executor := m.receipt.executor }) = .ok m.receipt := by
  have hrun : ((run (step sampleRuntime) (sampleStart 2)
      (sampleSetup (sampleCommittee sampleProgram [1, 2] 2))).any fun s =>
        ∃ m ∈ sampleProposals,
          (handleStateTransitionProposal sampleRuntime (fun _ => 0) s 0 m).signed = m.receipt :: s.signed ∧
          UncheckedFieldsMatch sampleRuntime s 1 m.receipt) = true := by decide +kernel
  obtain ⟨s, hs, m, hm, hsigned, hmatch⟩ := exists_of_any hrun
  exact ⟨s, hs, m, hm, hsigned,
    (signed_receipt_own_iff (fun _ _ _ => rfl) hsigned 1).mpr hmatch⟩

/-- It signs it as well when the leader reports more gas than was used. -/
theorem signed_receipt_with_other_gas :
    ¬ ∀ (ops : List Op) (s : Node) (m : StateTransitionProposal),
      run (step sampleRuntime) (sampleStart 2) ops = some s →
      (handleStateTransitionProposal sampleRuntime (fun _ => 0) s 0 m).signed = m.receipt :: s.signed →
      (ownReceipt sampleRuntime s 0 m.receipt.programId m.receipt.call.calldata).map
        (fun own => { own with executor := m.receipt.executor }) = .ok m.receipt := by
  intro hall
  let overcharged := sampleProposals.map fun m =>
    { m with receipt := { m.receipt with gasUsed := m.receipt.gasUsed + 1 } }
  have hrun : ((run (step sampleRuntime) (sampleStart 2)
      (sampleSetup (sampleCommittee sampleProgram [1, 2] 2))).any fun s =>
        ∃ m ∈ overcharged,
          (handleStateTransitionProposal sampleRuntime (fun _ => 0) s 0 m).signed = m.receipt :: s.signed ∧
          ¬ (ownReceipt sampleRuntime s 0 m.receipt.programId m.receipt.call.calldata).map
            (fun own => { own with executor := m.receipt.executor }) = .ok m.receipt) = true := by
    decide +kernel
  obtain ⟨s, hs, m, -, hsigned, hbad⟩ := exists_of_any hrun
  exact hbad (hall _ s m hs hsigned)

end Sample

end Onvm
