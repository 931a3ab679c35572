import Onvm.ReceiptOrigins
import Onvm.SignerBitmaps

/-! The signatures a node collects. Votes of others are checked against the key of
their member before they count; the node's own are not checked, but it signs only
where the committee lists it under its own key. So whatever is finalized verifies. -/

namespace Onvm

open ByteString OrderedStore Runs Std

def KeyPair (pf : Platform) (sk : BlsSecretKey) (pk : BlsPublicKey) : Prop :=
  ∀ (id : ReceiptId) sig, pf.sign id.bytes sk dstReceipt = .ok sig →
    pf.verify id.bytes pk sig dstReceipt = .ok ()

/-- The first member with id `n` has key `k`. -/
def CommitteeCertificate.Lists (c : CommitteeCertificate) (n : NodeId) (k : BlsPublicKey) : Prop :=
  (c.members.find? (·.node == n)).map (·.blsPublicKey) = some k

/-- A transition that a node with id `n` and key `k` collects votes for under the id of its receipt:
each signature is valid under the key of the first member with the signer's id. -/
structure PendingTransition.Checked (pf : Platform) (n : NodeId) (k : BlsPublicKey) (id : ReceiptId)
    (e : PendingTransition) : Prop where
  receipt : e.receipt.id pf = id
  lists : e.committee.Lists n k
  valid : ∀ signer sig, e.signatures[signer]? = some sig →
    ∃ m, e.committee.members.find? (·.node == signer) = some m ∧
      pf.verify id.bytes m.blsPublicKey sig dstReceipt = .ok ()

structure VotesChecked (pf : Platform) (s : Node) : Prop where
  keys : KeyPair pf s.blsSecret s.blsPublic
  handling : ∀ task, s.handling = some task → task.committee.Lists s.nodeId s.blsPublic
  pending : ∀ (id : ReceiptId) (e : PendingTransition), s.pending[id]? = some e →
    e.Checked pf s.nodeId s.blsPublic id

section Signatures

variable {pf : Platform} {s : Node} {n : NodeId} {k : BlsPublicKey} {id : ReceiptId}
  {e : PendingTransition}

theorem PendingTransition.Checked.insert {signer : NodeId} {sig : BlsSignature} {m : CommitteeMember}
    (h : e.Checked pf n k id) (hm : e.committee.members.find? (·.node == signer) = some m)
    (hv : pf.verify id.bytes m.blsPublicKey sig dstReceipt = .ok ()) :
    PendingTransition.Checked pf n k id { e with signatures := e.signatures.insert signer sig } := by
  refine ⟨h.receipt, h.lists, fun signer' sig' hs => ?_⟩
  rw [ExtTreeMap.getElem?_insert] at hs
  split at hs
  · rename_i hc
    cases hs
    rw [← LawfulEqOrd.eq_of_compare hc]
    exact ⟨m, hm, hv⟩
  · exact h.valid signer' sig' hs

theorem PendingTransition.Checked.sign {sk : BlsSecretKey} {sig : BlsSignature} (hkeys : KeyPair pf sk k)
    (h : e.Checked pf n k id) (hs : pf.sign id.bytes sk dstReceipt = .ok sig) :
    PendingTransition.Checked pf n k id { e with signatures := e.signatures.insert n sig } := by
  obtain ⟨m, hm, hk⟩ := Option.map_eq_some_iff.mp h.lists
  refine h.insert hm ?_
  rw [hk]
  exact hkeys id sig hs

theorem PendingTransition.Checked.countVote {e' : PendingTransition} {v : StateTransitionVote}
    (h : e.Checked pf n k v.receiptId) (hv : countVote pf e v = some e') :
    e'.Checked pf n k v.receiptId := by
  obtain ⟨rfl, m, hm, hok⟩ := countVote_eq_some hv
  exact h.insert hm hok

theorem VotesChecked.followerEntry (h : VotesChecked pf s) {m : StateTransitionProposal}
    {c : CommitteeCertificate} (hc : c.Lists s.nodeId s.blsPublic) :
    (followerEntry pf s m c).Checked pf s.nodeId s.blsPublic (m.receipt.id pf) := by
  rw [Onvm.followerEntry]
  split
  · rename_i entry he
    exact h.pending _ entry he
  · refine ⟨rfl, hc, fun n sig hs => ?_⟩
    simp at hs

end Signatures

section Steps

variable {pf : Platform} {s s' : Node} {op : Op} {t : Nat} {task : SubmitTask} {act : CallStep}

theorem VotesChecked.same (h : VotesChecked pf s) (hid : s'.identity = s.identity)
    (hhandling : s'.handling = s.handling) (hpending : s'.pending = s.pending) : VotesChecked pf s' := by
  have hn : s'.nodeId = s.nodeId := congrArg Prod.fst hid
  have hsk : s'.blsSecret = s.blsSecret := congrArg (·.2.1) hid
  have hpk : s'.blsPublic = s.blsPublic := congrArg (·.2.2) hid
  refine ⟨?_, ?_, ?_⟩
  · rw [hsk, hpk]
    exact h.keys
  · rw [hn, hpk, hhandling]
    exact h.handling
  · rw [hn, hpk, hpending]
    exact h.pending

theorem VotesChecked.erase (h : VotesChecked pf s) (id : ReceiptId) :
    VotesChecked pf { s with pending := s.pending.erase id } := by
  refine ⟨h.keys, h.handling, fun id' e he => ?_⟩
  rw [ExtTreeMap.getElem?_erase] at he
  split at he
  · cases he
  · exact h.pending id' e he

theorem VotesChecked.insert (h : VotesChecked pf s) {id : ReceiptId} {e : PendingTransition}
    (he : e.Checked pf s.nodeId s.blsPublic id) : VotesChecked pf { s with pending := s.pending.insert id e } := by
  refine ⟨h.keys, h.handling, fun id' e' he' => ?_⟩
  rw [ExtTreeMap.getElem?_insert] at he'
  split at he'
  · rename_i hc
    cases he'
    rw [← LawfulEqOrd.eq_of_compare hc]
    exact he
  · exact h.pending id' e' he'

theorem finalizeTransition_pending (pf : Platform) (clock : UInt64 → UInt64) (s : Node)
    (entry : PendingTransition) : (finalizeTransition pf clock s entry).1.pending = s.pending := by
  rw [finalizeTransition]
  split
  · rfl
  · rfl
  rename_i b hb
  have hpend := (Node.calls_of_rest (handleFinalizedReceipt_spec pf clock s b).1).2.1
  cases hout : handleFinalizedReceipt pf clock s b with
  | mk s₁ r =>
    rw [hout] at hpend
    cases entry.completion <;> cases r <;> exact hpend

theorem VotesChecked.finalizeTransition (h : VotesChecked pf s) (clock : UInt64 → UInt64)
    (entry : PendingTransition) : VotesChecked pf (finalizeTransition pf clock s entry).1 := by
  have hstill := (finalizeTransition_spec pf clock s entry).1
  have hhandling := congrArg Node.handling hstill
  exact h.same (Node.identity_of_still hstill) hhandling (finalizeTransition_pending pf clock s entry)

theorem VotesChecked.maybeFinalize (h : VotesChecked pf s) (clock : UInt64 → UInt64) (id : ReceiptId) :
    VotesChecked pf (maybeFinalizePendingTransition pf clock s id).1 := by
  rw [maybeFinalizePendingTransition]
  split
  · exact h
  split
  · exact h
  · exact (h.erase id).finalizeTransition clock _

theorem VotesChecked.vote (h : VotesChecked pf s) (clock : UInt64 → UInt64) (v : StateTransitionVote) :
    VotesChecked pf (handleStateTransitionVote pf clock s v) := by
  rw [handleStateTransitionVote]
  split
  · exact h
  rename_i entry he
  split
  · exact h
  rename_i entry' hv
  split
  · exact (h.erase _).finalizeTransition clock _
  · exact h.insert ((h.pending _ entry he).countVote hv)

theorem VotesChecked.castVote (h : VotesChecked pf s) {task : ProposalTask} {sig : BlsSignature}
    (hc : task.committee.Lists s.nodeId s.blsPublic)
    (hs : pf.sign (task.proposal.receipt.id pf).bytes s.blsSecret dstReceipt = .ok sig) :
    VotesChecked pf (castVote pf s task sig) := by
  have hins := h.insert ((h.followerEntry hc).sign h.keys hs)
  exact ⟨hins.keys, hins.handling, hins.pending⟩

theorem VotesChecked.finishProposal (h : VotesChecked pf s) (clock : UInt64 → UInt64) (world : Nat)
    {task : ProposalTask} (hc : task.committee.Lists s.nodeId s.blsPublic) :
    VotesChecked pf (finishProposal pf clock s world task) := by
  rw [Onvm.finishProposal]
  split
  · exact h
  · rename_i sig hs
    exact (h.castVote hc (endorse_eq_some hs).1).maybeFinalize clock _

theorem VotesChecked.propose (h : VotesChecked pf s) (c : CommitteeCertificate) (height : UInt64)
    (rootIn : StateRoot) (o : ExecutionOutcome) :
    VotesChecked pf (submitPropose pf s t task c height rootIn o) := by
  obtain ⟨e, hs⟩ | ⟨hlists, hs⟩ := @submitPropose_cases pf s t task c height rootIn o
  · rw [hs]
    exact h.same rfl rfl rfl
  rw [hs]
  have hnew (r : ExecutionReceipt) :
      PendingTransition.Checked pf s.nodeId s.blsPublic (r.id pf) ⟨c, r, o.stateWrites, ∅, some t⟩ :=
    ⟨rfl, hlists, fun signer sig hs => by simp at hs⟩
  exact (h.insert (hnew _)).same rfl rfl rfl

theorem VotesChecked.sign (h : VotesChecked pf s) (c : CommitteeCertificate) (r : ExecutionReceipt)
    (o : ExecutionOutcome) : VotesChecked pf (submitSign pf s t task c r o) := by
  obtain ⟨e, hs⟩ | ⟨sig, pending, hsig, hpending, hs⟩ := @submitSign_cases pf s t task c r o
  · rw [hs]
    exact h.same rfl rfl rfl
  rw [hs]
  rcases hpending with rfl | ⟨entry, he, rfl⟩
  · exact h.same rfl rfl rfl
  · have hentry : entry.Checked pf s.nodeId s.blsPublic (r.id pf) := h.pending _ entry he
    exact (h.insert (hentry.sign h.keys hsig)).same rfl rfl rfl

theorem VotesChecked.callStep (h : VotesChecked pf s)
    (hs : callStep pf s t task act task.phase = some s') : VotesChecked pf s' := by
  rcases callStep_cases hs with ⟨-, ha⟩ | hlate
  · exact h.same (callStep_frame hs).2 (callStep_frame hs).1 ha.pending
  cases hlate with
  | propose hph => exact h.propose ..
  | sign hph => exact h.sign ..
  | settle hph => exact (h.maybeFinalize _ _).same rfl rfl rfl
  | finish hph hf =>
    obtain ⟨result, rfl, -⟩ := submitFinish_cases hf
    exact h.same rfl rfl rfl
  | timeout hph ht =>
    obtain ⟨e, rfl⟩ := submitTimeout_cases ht
    exact (h.erase _).same rfl rfl rfl

theorem VotesChecked.step (h : VotesChecked pf s) (hs : step pf s op = some s') : VotesChecked pf s' := by
  cases step_cases hs with
  | submit ht => exact h.same rfl rfl rfl
  | call ht hcall => exact h.callStep hcall
  | vote => exact h.vote _ _
  | @deliver clock m hm =>
    have hrest := handleInbound_rest pf clock s hm
    have hhandling := congrArg Node.handling hrest
    exact h.same (Node.identity_of_still (Node.still_of_rest hrest)) hhandling (Node.calls_of_rest hrest).2.1
  | proposal hc => exact ⟨h.keys, fun task ht => (checkProposal_passed ht).key, h.pending⟩
  | @finishProposal world clock task ht =>
    have hclear : VotesChecked pf { s with handling := none } :=
      ⟨h.keys, fun _ hnone => (by cases hnone), h.pending⟩
    exact hclear.finishProposal clock world (h.handling task ht)
  | store => exact h.same rfl rfl rfl
  | job hj => exact h.same rfl rfl rfl
  | restart =>
    refine ⟨h.keys, fun _ hnone => (by cases hnone), fun id e he => ?_⟩
    simp [Node.restart] at he

theorem VotesChecked.of_fresh (hfresh : s.Fresh) (hkeys : KeyPair pf s.blsSecret s.blsPublic) :
    VotesChecked pf s := by
  rw [Node.Fresh] at hfresh
  refine ⟨hkeys, fun task ht => ?_, fun id e he => ?_⟩
  · rw [hfresh] at ht
    cases ht
  · rw [hfresh] at he
    simp [Node.fresh] at he

theorem VotesChecked.due (h : VotesChecked pf s) {e : PendingTransition}
    (hdue : dueTransition pf s op = some e) : ∃ id, e.Checked pf s.nodeId s.blsPublic id := by
  cases dueFrom_of_dueTransition hdue with
  | counted v entry hentry hv => exact ⟨_, (h.pending _ entry hentry).countVote hv⟩
  | settled id hentry => exact ⟨id, h.pending id e hentry⟩
  | voted world task sig htask hsig hentry =>
    have hcast := h.castVote (h.handling task htask) (endorse_eq_some hsig).1
    exact ⟨_, hcast.pending _ e hentry⟩

end Steps

theorem PendingTransition.Checked.votes {pf : Platform} {n : NodeId} {k : BlsPublicKey} {id : ReceiptId}
    {e : PendingTransition} (h : e.Checked pf n k id)
    (hnodup : (e.committee.members.map (·.node)).Nodup) :
    ∀ v ∈ e.votes, pf.verify (e.receipt.id pf).bytes v.1 v.2 dstReceipt = .ok () := by
  intro v hv
  obtain ⟨m, hm, hv⟩ := List.mem_filterMap.mp hv
  obtain ⟨sig, hs, rfl⟩ := Option.map_eq_some_iff.mp hv
  obtain ⟨m', hm', hok⟩ := h.valid m.node sig hs
  rw [(find?_node_eq_some hnodup).mpr ⟨hm, rfl⟩] at hm'
  cases hm'
  rw [h.receipt]
  exact hok

/-- What a node finalizes verifies: whatever happened before, the transition that a step finalizes is
made into a bundle that passes `verify_aggregated_receipt`, and `select_signers` reads back the keys
of those who signed, in the order of the committee, with the weight the node saw. -/
theorem finalized_bundle_verifies {pf : Platform} {s₀ s : Node} {ops : List Op} {op : Op}
    {e : PendingTransition} (hfresh : s₀.Fresh) (hkeys : KeyPair pf s₀.blsSecret s₀.blsPublic)
    (hbls : BlsComplete pf) (hrun : run (step pf) s₀ ops = some s) (hdue : dueTransition pf s op = some e)
    (hc : SoundCommittee e.receipt.programId e.committee)
    (hweight : e.committee.threshold.toNat ≤ (signerWeight e.committee e.signatures.keys).toNat) :
    ∃ b, assembleBundle pf e = .ok (some b) ∧
      verifyAggregatedReceipt pf b.receipt b.committee = .ok () ∧
      selectSigners b.committee b.receipt.signerBitmap =
        .ok ((e.committee.members.filter fun m => e.signatures.contains m.node).map (·.blsPublicKey),
          signerWeight e.committee e.signatures.keys) := by
  have hchecked : VotesChecked pf s :=
    always_run (I := VotesChecked pf) (fun _ _ _ h hs => h.step hs) (VotesChecked.of_fresh hfresh hkeys) hrun
  obtain ⟨id, he⟩ := hchecked.due hdue
  obtain ⟨b, hb, hbitmap, hv⟩ := assembleBundle_verifies hbls hc hweight (he.votes hc.distinct)
  refine ⟨b, hb, hv, ?_⟩
  rw [(assembleBundle_fields hb).2.1, hbitmap]
  exact selectSigners_collected hc.distinct

section Sample

theorem parseAll_of_ok {α : Type} {parse : α → Except String Unit} (h : ∀ x, parse x = .ok ()) (xs : List α) :
    Platform.parseAll parse xs = .ok () := by
  induction xs with
  | nil => rfl
  | cons x xs ih =>
    rw [Platform.parseAll, h x]
    exact ih

theorem sampleRuntime_blsComplete : BlsComplete sampleRuntime := by
  intro id votes hne hvalid
  cases votes with
  | nil => exact absurd rfl hne
  | cons v votes =>
    have hv := hvalid v (List.mem_cons_self ..)
    have hsig : v.2 = ⟨.resize 48 (v.1.bytes.bytes.take 1 ++ id.bytes)⟩ := by
      by_contra hsig
      simp [sampleRuntime, samplePlatform, Platform.verify, Platform.blst, Except.bind, Except.mapError,
        hsig] at hv
    have hmessage : (v.2.bytes.bytes.drop 1).take 32 = id.bytes := by
      have hkey := v.1.bytes.length_bytes
      have hid := id.length_bytes
      rw [hsig, FixedBytes.resize, FixedBytes.bytes]
      cases hk : v.1.bytes.bytes with
      | nil => rw [hk] at hkey; cases hkey
      | cons k ks =>
        simp [List.take_append, hid]
    have hsigs : ∀ sigs, Platform.parseAll
        (fun sig => Platform.blst "bls sig parse" (sampleRuntime.parseSignature sig)) sigs = .ok () :=
      parseAll_of_ok fun _ => rfl
    have hkeys : ∀ keys, Platform.parseAll
        (fun pk => Platform.blst "bls pk parse" (sampleRuntime.parsePublic pk)) keys = .ok () :=
      parseAll_of_ok fun _ => rfl
    refine ⟨v.2, ?_, ?_⟩
    · rw [Platform.aggregateSignatures, if_neg (by simp), hsigs]
      rfl
    · rw [Platform.fastAggregateVerify, if_neg (by simp), hkeys]
      have hok : sampleRuntime.fastAggregateVerifyRaw v.2 id.bytes dstReceipt ((v :: votes).map Prod.fst) =
          .ok () := if_pos ⟨hmessage, by simp⟩
      rw [hok]
      rfl

theorem sampleStart_keyPair (b : UInt8) :
    KeyPair sampleRuntime (sampleStart b).blsSecret (sampleStart b).blsPublic := by
  intro id sig hs
  cases hs
  have hok : sampleRuntime.verifyRaw (sampleRuntime.signRaw (sampleStart b).blsSecret id.bytes dstReceipt)
      id.bytes dstReceipt (sampleStart b).blsPublic = .ok () := if_pos rfl
  exact congrArg (Platform.blst "bls verification failed") hok

/-- The vote of node `b` on the transition that is pending. -/
def sampleBallot (s : Node) (b : UInt8) : StateTransitionVote :=
  let id := s.pending.keys.headD (.ofByte 32 0)
  ⟨sampleProgram, 0, id, sampleNode b, sampleRuntime.signRaw ⟨.ofByte 32 b⟩ id.bytes dstReceipt⟩

theorem soundCommittee_of_three {c : CommitteeCertificate} (h : c = sampleCommittee sampleProgram [1, 2, 3] 2) :
    SoundCommittee sampleProgram c := by
  subst h
  exact ⟨rfl, by decide, by decide, by decide⟩

/-- The first and the third of three members have signed. -/
theorem finalized_bundle_verifies_sample :
    let ops := sampleSetup (sampleCommittee sampleProgram [1, 2, 3] 2) ++ sampleCall 0 [1]
    ∃ s e b, run (step sampleRuntime) (sampleStart 1) ops = some s ∧
      dueTransition sampleRuntime s (.deliver (fun _ => 0) (.vote (sampleBallot s 3))) = some e ∧
      assembleBundle sampleRuntime e = .ok (some b) ∧
      verifyAggregatedReceipt sampleRuntime b.receipt b.committee = .ok () ∧
      selectSigners b.committee b.receipt.signerBitmap = .ok ([samplePublicKey 1, samplePublicKey 3], 2) := by
  intro ops
  have hrun : ((run (step sampleRuntime) (sampleStart 1) ops).any fun s =>
      ((dueTransition sampleRuntime s (.deliver (fun _ => 0) (.vote (sampleBallot s 3)))).any fun e =>
        e.committee = sampleCommittee sampleProgram [1, 2, 3] 2 ∧ e.receipt.programId = sampleProgram ∧
        e.committee.threshold.toNat ≤ (signerWeight e.committee e.signatures.keys).toNat ∧
        (e.committee.members.filter fun m => e.signatures.contains m.node).map (·.blsPublicKey) =
          [samplePublicKey 1, samplePublicKey 3] ∧
        signerWeight e.committee e.signatures.keys = 2) = true) = true := by decide +kernel
  obtain ⟨s, hs, hdue⟩ := exists_of_any hrun
  obtain ⟨e, he, hcommittee, hprogram, hweight, hkeys, htotal⟩ := exists_of_any hdue
  obtain ⟨b, hb, hv, hselect⟩ := finalized_bundle_verifies (sampleStart_fresh 1) (sampleStart_keyPair 1)
    sampleRuntime_blsComplete hs he (hprogram ▸ soundCommittee_of_three hcommittee) hweight
  rw [hkeys, htotal] at hselect
  exact ⟨s, e, b, hs, he, hb, hv, hselect⟩

end Sample

end Onvm
