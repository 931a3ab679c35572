import Onvm.LocalCalls

/-! A call that commits, on a node that is the whole committee of the program: the node's own signature
makes the bundle, whose handler commits it, broadcasts it and tells the call. -/

namespace Onvm

open ByteString OrderedStore WeightedQuorum Runs Std

section Leading

variable {pf : Platform} {p : ProgramId} {C : CommitteeCertificate} {K : Set Bytes} {s : Node}
  {bs : List AggregatedReceiptBundle} {T : ExtTreeMap Nat SubmitTask} {c : LocalCall}

def Node.setting (s : Node) : Node :=
  { s.still with tasks := ∅, locks := ∅, lastVoted := ∅, lastVotedStore := ∅, signed := [] }

theorem Node.fields_of_setting {s' : Node} (h : s'.setting = s.setting) :
    s'.nodeId = s.nodeId ∧ s'.blsSecret = s.blsSecret ∧ s'.blsPublic = s.blsPublic ∧
      s'.maxFuel = s.maxFuel ∧ s'.unified = s.unified := by
  have hnode := congrArg Node.nodeId h
  have hsecret := congrArg Node.blsSecret h
  have hpublic := congrArg Node.blsPublic h
  have hfuel := congrArg Node.maxFuel h
  have hunified := congrArg Node.unified h
  exact ⟨hnode, hsecret, hpublic, hfuel, hunified⟩

theorem SoleLeader.of_setting {s' : Node} (h : SoleLeader pf p C s) (hs : s'.setting = s.setting)
    (hm : s'.catalog.manifests = s.catalog.manifests) (hl : s'.locks[p]? = none) :
    SoleLeader pf p C s' := by
  obtain ⟨hnode, hsecret, hpublic, -, hunified⟩ := Node.fields_of_setting hs
  refine ⟨(ProgramCatalog.committee_congr hm).trans h.committee, h.program, ?_, h.threshold, hl, ?_, ?_, ?_, ?_⟩
  · rw [hnode, hpublic]
    exact h.member
  · rw [hunified]
    exact h.size
  · rw [hunified]
    exact h.complete
  · rw [hsecret]
    exact h.signs
  · rw [hsecret, hpublic]
    exact h.keyPair

structure Served (pf : Platform) (p : ProgramId) (C : CommitteeCertificate) (K : Set Bytes) (s : Node)
    (bs : List AggregatedReceiptBundle) (c : LocalCall) (answer : Except String ExecutionOutcome)
    (s' : Node) (new : List AggregatedReceiptBundle) : Prop where
  result : s'.resultOf c.id = some answer
  others : ∀ t, t ≠ c.id → s'.tasks[t]? = s.tasks[t]?
  leader : SoleLeader pf p C s'
  setting : s'.setting = s.setting
  states : s'.states = afterAnswer p s.states answer
  chain : OwnChain pf p C K (bs ++ new) s'.ledger
  published : s'.bundles = s.bundles ++ new
  writes : new.map (·.stateWrites) = answer.toOption.toList.map (·.stateWrites)

theorem resultOf_of_entered {s' : Node} {ph : Phase} {r : Except String ExecutionOutcome}
    (ht : s'.tasks = c.entered p T ph) (hr : ph.result = some r) : s'.resultOf c.id = some r := by
  rw [Node.resultOf, ht, getElem?_entered_self]
  exact hr

/-- What proposing and signing leave alone. -/
structure Undisturbed (id : ReceiptId) (s s' : Node) : Prop where
  setting : s'.setting = s.setting
  ledger : s'.ledger = s.ledger
  locks : s'.locks = s.locks
  pending : ∀ id', id' ≠ id → s'.pending[id']? = s.pending[id']?

theorem Undisturbed.trans {id : ReceiptId} {s₁ s₂ s₃ : Node} (h : Undisturbed id s₁ s₂)
    (h' : Undisturbed id s₂ s₃) : Undisturbed id s₁ s₃ :=
  ⟨h'.setting.trans h.setting, h'.ledger.trans h.ledger, h'.locks.trans h.locks,
    fun id' hne => (h'.pending id' hne).trans (h.pending id' hne)⟩

theorem getElem?_insert_of_ne {m : ExtTreeMap ReceiptId PendingTransition} {id id' : ReceiptId}
    {e : PendingTransition} (hne : id' ≠ id) : (m.insert id e)[id']? = m[id']? := by
  rw [ExtTreeMap.getElem?_insert, if_neg fun he => hne (LawfulEqOrd.eq_of_compare he).symm]

theorem attend_propose {o : ExecutionOutcome} {me : CommitteeMember} {height : UInt64} {rootIn : StateRoot}
    (acts : List CallStep) (hm : C.members.find? (·.node == s.nodeId) = some me)
    (hk : me.blsPublicKey = s.blsPublic) (hT : s.tasks = c.entered p T (.propose C height rootIn o)) :
    let r := buildReceipt pf s.unified s.nodeId p c.input height rootIn o
    ∃ s', attend pf c.id s (.propose :: acts) = attend pf c.id s' acts ∧
      s'.tasks = c.entered p T (.sign C r o) ∧ Undisturbed (r.id pf) s s' ∧
      s'.published = s.published ++ [.proposal ⟨r, C.epoch, o.stateWrites⟩] ∧
      s'.pending[r.id pf]? = some ⟨C, r, o.stateWrites, ∅, some c.id⟩ := by
  intro r
  have htask : s.tasks[c.id]? = some ⟨p, c.input, .propose C height rootIn o⟩ := by
    rw [hT, getElem?_entered_self]
  refine ⟨_, attend_cons htask rfl (congrArg some (submitPropose_of_member hm hk)), ?_,
    ⟨rfl, rfl, rfl, fun id' hne => getElem?_insert_of_ne hne⟩, rfl, ExtTreeMap.getElem?_insert_self⟩
  change s.tasks.insert c.id _ = _
  rw [hT]
  exact entered_entered

theorem attend_sign {o : ExecutionOutcome} {r : ExecutionReceipt} {sig : BlsSignature}
    {entry : PendingTransition} (acts : List CallStep) (hT : s.tasks = c.entered p T (.sign C r o))
    (hr : r.programId = p) (hs : pf.sign (r.id pf).bytes s.blsSecret dstReceipt = .ok sig)
    (he : s.pending[r.id pf]? = some entry) :
    ∃ s', attend pf c.id s (.sign :: acts) = attend pf c.id s' acts ∧
      s'.tasks = c.entered p T (.settle r o) ∧ Undisturbed (r.id pf) s s' ∧
      s'.published = s.published ++ [.vote ⟨p, C.epoch, r.id pf, s.nodeId, sig⟩] ∧
      s'.lastVoted[p]? = some (r.height, r.id pf) ∧
      s'.pending[r.id pf]? = some { entry with signatures := entry.signatures.insert s.nodeId sig } := by
  have htask : s.tasks[c.id]? = some ⟨p, c.input, .sign C r o⟩ := by rw [hT, getElem?_entered_self]
  refine ⟨_, attend_cons htask rfl (congrArg some (submitSign_of_ok hs he)), ?_,
    ⟨rfl, rfl, rfl, fun id' hne => getElem?_insert_of_ne hne⟩, rfl, ?_, ExtTreeMap.getElem?_insert_self⟩
  · change s.tasks.insert c.id _ = _
    rw [hT]
    exact entered_entered
  · change (s.lastVoted.insert r.programId _)[p]? = _
    rw [hr, ExtTreeMap.getElem?_insert_self]

theorem attend_settle {o : ExecutionOutcome} {r : ExecutionReceipt} {s' : Node} (acts : List CallStep)
    (hT : s.tasks = c.entered p T (.settle r o))
    (hs : (maybeFinalizePendingTransition pf c.clock s (r.id pf)).1 = s') (ht : s'.tasks = s.tasks) :
    attend pf c.id s (.settle c.clock :: acts) =
      attend pf c.id (s'.held (c.entered p T (.wait r o)) s'.locks) acts := by
  have htask : s.tasks[c.id]? = some ⟨p, c.input, .settle r o⟩ := by rw [hT, getElem?_entered_self]
  have hstep : submitSettle pf s c.id ⟨p, c.input, .settle r o⟩ c.clock r o =
      s'.held (c.entered p T (.wait r o)) s'.locks := by
    have htasks : s'.tasks.insert c.id ⟨p, c.input, .wait r o⟩ = c.entered p T (.wait r o) := by
      rw [ht, hT]
      exact entered_entered
    rw [submitSettle, hs, Node.setPhase, htasks]
    rfl
  exact attend_cons htask rfl (congrArg some hstep)

theorem attend_finish {o : ExecutionOutcome} {r : ExecutionReceipt} (hT : s.tasks = c.entered p T (.wait r o))
    (hl : s.locks[p]? = some c.id) (hs : s.sent[c.id]? = some (.ok ())) :
    attend pf c.id s [.finish] =
      some (s.held (c.entered p T (.concluded r (.ok o))) (s.locks.erase p)) := by
  have htask : s.tasks[c.id]? = some ⟨p, c.input, .wait r o⟩ := by rw [hT, getElem?_entered_self]
  have hstep : callStep pf s c.id ⟨p, c.input, .wait r o⟩ .finish (.wait r o) =
      some (s.held (c.entered p T (.concluded r (.ok o))) (s.locks.erase p)) := by
    have htasks : s.tasks.insert c.id ⟨p, c.input, .concluded r (.ok o)⟩ =
        c.entered p T (.concluded r (.ok o)) := by
      rw [hT]
      exact entered_entered
    simp only [callStep, submitFinish, hs, Node.conclude, Node.setPhase, if_pos hl, htasks, Node.held]
  exact attend_cons htask rfl hstep

def LocalCall.receipt (c : LocalCall) (pf : Platform) (p : ProgramId) (s : Node) (o : ExecutionOutcome) :
    ExecutionReceipt :=
  buildReceipt pf s.unified s.nodeId p c.input (s.catalog.nextHeight p) (s.states.sparseRootScoped p pf) o

/-- The node has run the guest, proposed what it computed and signed it; the call is in the phase `ph`. -/
structure Opened (pf : Platform) (p : ProgramId) (C : CommitteeCertificate) (c : LocalCall) (o : ExecutionOutcome)
    (ph : ExecutionReceipt → ExecutionOutcome → Phase) (s s' : Node) : Prop where
  tasks : s'.tasks = c.entered p s.tasks (ph (c.receipt pf p s o) o)
  setting : s'.setting = s.setting
  ledger : s'.ledger = s.ledger
  locks : s'.locks = s.locks.insert p c.id
  pending : ∀ id, id ≠ (c.receipt pf p s o).id pf → s'.pending[id]? = s.pending[id]?
  voted : s'.lastVoted[p]? = some ((c.receipt pf p s o).height, (c.receipt pf p s o).id pf)
  published : ∃ sig, s'.published = s.published ++
    [.proposal ⟨c.receipt pf p s o, C.epoch, o.stateWrites⟩,
      .vote ⟨p, C.epoch, (c.receipt pf p s o).id pf, s.nodeId, sig⟩]
  collecting : ∃ e, s'.pending[(c.receipt pf p s o).id pf]? = some e ∧
    Collecting pf C (c.receipt pf p s o) o.stateWrites (some c.id) [s.nodeId] s' e

theorem LeadsNext.opens (h : LeadsNext pf p C s) {me : CommitteeMember} {o : ExecutionOutcome}
    (hm : C.members.find? (·.node == s.nodeId) = some me) (hk : me.blsPublicKey = s.blsPublic)
    (hkeys : KeyPair pf s.blsSecret s.blsPublic)
    (hsigns : ∃ sig, pf.sign ((c.receipt pf p s o).id pf).bytes s.blsSecret dstReceipt = .ok sig)
    (ha : serialAnswer pf s.maxFuel s.unified p s.states c = .ok o) (acts : List CallStep) :
    ∃ s', Opened pf p C c o .settle s s' ∧
      attend pf c.id (s.held (c.entered p s.tasks (.lock C)) s.locks)
        (leadingSteps ++ .execute c.world :: .propose :: .sign :: acts) = attend pf c.id s' acts := by
  let r := c.receipt pf p s o
  let s₅ := s.held (c.entered p s.tasks
    (.propose C (s.catalog.nextHeight p) (s.states.sparseRootScoped p pf) o)) (s.locks.insert p c.id)
  have h₅ : attend pf c.id (s.held (c.entered p s.tasks (.lock C)) s.locks)
      (leadingSteps ++ .execute c.world :: .propose :: .sign :: acts) =
      attend pf c.id s₅ (.propose :: .sign :: acts) := by
    rw [h.attend_leading]
    exact attend_entered rfl (by exact congrArg some (submitExecute_of_ok rfl ha))
  have hpropose : s₅.tasks = c.entered p s.tasks (.propose C (s.catalog.nextHeight p)
      (s.states.sparseRootScoped p pf) o) := rfl
  obtain ⟨s₆, h₆, htasks₆, hsame₆, hpub₆, hpend₆⟩ :=
    @attend_propose pf p C s₅ _ c _ _ _ _ (.sign :: acts) hm hk hpropose
  obtain ⟨hnode, hsecret, hpublic, -⟩ := Node.fields_of_setting hsame₆.setting
  obtain ⟨sig, hsig⟩ := hsigns
  obtain ⟨s₇, h₇, htasks₇, hsame₇, hpub₇, hvoted, hpend₇⟩ := attend_sign acts htasks₆ rfl
    (by rw [hsecret]; exact hsig) hpend₆
  have hsame : Undisturbed (r.id pf) s₅ s₇ := hsame₆.trans hsame₇
  obtain ⟨hnode₇, -, hpublic₇, -⟩ := Node.fields_of_setting hsame.setting
  have hnode₆ : s₆.nodeId = s.nodeId := hnode
  have hnode' : s₇.nodeId = s.nodeId := hnode₇
  have hpublic' : s₇.blsPublic = s.blsPublic := hpublic₇
  rw [hnode₆] at hpend₇ hpub₇
  rw [hpub₆] at hpub₇
  have hfirst : Collecting pf C r o.stateWrites (some c.id) [] s₇ ⟨C, r, o.stateWrites, ∅, some c.id⟩ := by
    refine ⟨rfl, rfl, rfl, rfl, fun n => by simp, rfl, ?_, fun signer sig hs => by simp at hs⟩
    rw [CommitteeCertificate.Lists, hnode', hpublic', hm, Option.map_some, hk]
  refine ⟨s₇, ⟨htasks₇, hsame.setting, hsame.ledger, hsame.locks, hsame.pending, hvoted, ⟨sig, ?_⟩, _, hpend₇, ?_⟩,
    h₅.trans (h₆.trans h₇)⟩
  · rw [hpub₇, List.append_assoc]
    rfl
  · refine hfirst.insert hm ?_
    rw [hk]
    exact hkeys _ _ hsig

theorem SoleLeader.votedWeight (h : SoleLeader pf p C s) :
    C.threshold.toNat ≤ (votedWeight C [s.nodeId]).toNat := by
  obtain ⟨weight, hm, hw⟩ := h.member
  have hsum : saturatingSum [weight] = weight := by
    rw [← UInt64.toNat_inj]
    have hlt := weight.toNat_lt
    simp [saturatingSum, toNat_saturatingAdd]
    omega
  have hsigners : C.members.filter (fun m => m.node ∈ [s.nodeId]) = [⟨s.nodeId, weight, s.blsPublic⟩] := by
    simp [hm]
  rw [Onvm.votedWeight, hsigners, List.map_cons, List.map_nil, hsum]
  exact hw

theorem SoleLeader.serveCall_ok (hbls : BlsComplete pf) (h : SoleLeader pf p C s)
    (hchain : OwnChain pf p C K bs s.ledger) (hK : Set.InjOn pf.hashBytes K) (hroom : bs.length + 2 < 2 ^ 64)
    (hfresh : s.tasks[c.id]? = none) (hnext : s.catalog.nextHeight p ≠ 0) {o : ExecutionOutcome}
    (ha : serialAnswer pf s.maxFuel s.unified p s.states c = .ok o) (hkeys : ∀ w ∈ o.stateWrites, w.key ∈ K) :
    ∃ s' b, serveCall pf p s c = some s' ∧ Served pf p C K s bs c (.ok o) s' [b] := by
  obtain ⟨hx, -, hsize⟩ := serialAnswer_eq_ok ha
  obtain ⟨weight, hm, -⟩ := h.member
  have hfind : C.members.find? (·.node == s.nodeId) = some ⟨s.nodeId, weight, s.blsPublic⟩ := by
    rw [hm]
    simp
  have hlead := h.leadsNext hnext
  let r := c.receipt pf p s o
  obtain ⟨s₇, hopen, h₇⟩ := hlead.opens hfind rfl h.keyPair (h.signs (r.id pf)) ha [.settle c.clock, .finish]
  have hserve : serveCall pf p s c = attend pf c.id s₇ [.settle c.clock, .finish] := by
    rw [serveCall, step_submit hfresh hsize]
    exact (hlead.attend_opening _).trans h₇
  obtain ⟨e, he, hcol⟩ := hopen.collecting
  have hcat : s₇.catalog.manifests = s.catalog.manifests := congrArg (·.catalog.manifests) hopen.ledger
  have hcom : s₇.catalog.committee pf p = .ok (some C) := (ProgramCatalog.committee_congr hcat).trans h.committee
  have ht : NextTransition pf p C K bs r o.stateWrites :=
    ⟨hbls, h.sound, hK, hchain.nextReceipt hK (by omega) hx hkeys, hkeys, hroom⟩
  obtain ⟨s₈, b, hs₈, hcommits⟩ := hcol.settle c.clock ht (by rw [hopen.ledger]; exact hchain) hcom
    h.votedWeight he
  have htasks₈ : s₈.tasks = s₇.tasks := (Node.tasks_of_still hcommits.still).2
  have hlocks₈ : s₈.locks = s.locks.insert p c.id := by
    have hh := congrArg Node.locks hcommits.still
    exact Eq.trans hh hopen.locks
  have hsettle := attend_settle [.finish] hopen.tasks hs₈ htasks₈
  have hwait : (s₈.held (c.entered p s.tasks (.wait r o)) s₈.locks).tasks = c.entered p s.tasks (.wait r o) := rfl
  have hfinish := @attend_finish pf p _ _ c _ _ hwait
    (by
      change s₈.locks[p]? = _
      rw [hlocks₈, ExtTreeMap.getElem?_insert_self]) (hcommits.sent c.id rfl)
  have hset : s₈.setting = s.setting := by
    have hh : s₇.setting = s.setting := hopen.setting
    rw [Node.setting, hcommits.still, ← Node.setting, hh]
  have hfree : (s₈.locks.erase p)[p]? = none := by
    rw [ExtTreeMap.getElem?_erase_self]
  refine ⟨_, b, hserve.trans (hsettle.trans hfinish), ?_⟩
  constructor
  · exact resultOf_of_entered rfl rfl
  · intro t ht
    exact getElem?_entered_of_ne ht
  · exact h.of_setting (by exact hset) (by exact hcommits.manifests.trans hcat) (by exact hfree)
  · exact hset
  · have hs : s₇.states = s.states := congrArg Ledger.states hopen.ledger
    have hstates := hcommits.states
    rw [hs] at hstates
    exact hstates
  · exact hcommits.chain
  · obtain ⟨sig, hpub⟩ := hopen.published
    change s₈.published.filterMap _ = _
    rw [hcommits.published, hpub, List.filterMap_append, List.filterMap_append]
    simp only [List.filterMap_cons, List.filterMap_nil, Outgoing.bundle?, List.append_nil]
    rfl
  · rw [List.map_cons, hcommits.writes]
    rfl

theorem OwnChain.nextHeight_ne_zero {cat : ProgramCatalog} {L : Ledger} (h : OwnChain pf p C K bs L)
    (hcat : cat.commitments = L.catalog.commitments) (hroom : bs.length + 1 < 2 ^ 64) :
    cat.nextHeight p ≠ 0 := by
  have hheight : cat.committedHeight p = bs.length := by
    rw [← h.committedHeight]
    exact ProgramCatalog.committedHeight_congr (by simp only [ProgramCatalog.latestStateCommitment, hcat])
  have hnat := @toNat_nextHeight p cat (by omega)
  intro h0
  rw [h0] at hnat
  have hzero : (0 : UInt64).toNat = 0 := rfl
  omega

theorem SoleLeader.serve (hbls : BlsComplete pf) (h : SoleLeader pf p C s)
    (hchain : OwnChain pf p C K bs s.ledger) (hK : Set.InjOn pf.hashBytes K) (hroom : bs.length + 2 < 2 ^ 64)
    (hfresh : s.tasks[c.id]? = none)
    (hkeys : ∀ o, execute pf c.world s.maxFuel s.unified s.states p c.input = .ok o →
      ∀ w ∈ o.stateWrites, w.key ∈ K) :
    ∃ s' new, serveCall pf p s c = some s' ∧
      Served pf p C K s bs c (serialAnswer pf s.maxFuel s.unified p s.states c) s' new := by
  have hnext : s.catalog.nextHeight p ≠ 0 := hchain.nextHeight_ne_zero rfl (by omega)
  cases ha : serialAnswer pf s.maxFuel s.unified p s.states c with
  | error e =>
    refine ⟨_, [], (h.leadsNext hnext).serveCall_failed hfresh ha, resultOf_of_entered rfl rfl, ?_, ?_, rfl, rfl, ?_, ?_, rfl⟩
    · intro t ht
      exact getElem?_entered_of_ne ht
    · exact h.of_setting rfl rfl (by exact h.unlocked)
    · rw [List.append_nil]
      exact hchain
    · exact (List.append_nil _).symm
  | ok o =>
    obtain ⟨s', b, hs', hserved⟩ := h.serveCall_ok hbls hchain hK hroom hfresh hnext ha
      (hkeys o (serialAnswer_eq_ok ha).1)
    exact ⟨s', [b], hs', hserved⟩

end Leading

end Onvm
