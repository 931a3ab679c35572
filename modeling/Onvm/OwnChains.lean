import Onvm.CollectedVotes
import Onvm.DeliveryOrder

/-! A node that has committed a chain and keeps nothing beyond it takes the next bundle, of others or
made of the votes it has collected, and is then such a node of the longer chain. -/

namespace Onvm

open ByteString OrderedStore WeightedQuorum Runs Std

/-- The ledger has committed the chain, whose keys are in `K`, and no transition beyond it is kept. -/
structure OwnChain (pf : Platform) (p : ProgramId) (C : CommitteeCertificate) (K : Set Bytes)
    (bs : List AggregatedReceiptBundle) (L : Ledger) : Prop where
  holds : Holds p bs L
  valid : ValidChain pf p C bs
  keys : chainKeys bs ⊆ K
  nothingAhead : ∀ height : UInt64, bs.length < height.toNat → L.finalized.get (heightKey p height) = none

/-- The receipt and the writes of a transition that goes on from the chain. -/
structure NextReceipt (pf : Platform) (p : ProgramId) (bs : List AggregatedReceiptBundle)
    (r : ExecutionReceipt) (ws : List StateWrite) : Prop where
  program : r.programId = p
  height : r.height.toNat = bs.length + 1
  digest : stateWritesDigest pf ws = r.writeDigest
  rootIn : r.stateRootIn = rootOf pf (replayed bs)
  rootOut : r.stateRootOut = rootOf pf (writeEntries (replayed bs) ws)

def Outgoing.bundle? : Outgoing → Option AggregatedReceiptBundle
  | .aggregatedReceipt b => some b
  | _ => none

def Node.bundles (s : Node) : List AggregatedReceiptBundle := s.published.filterMap Outgoing.bundle?

section Chain

variable {pf : Platform} {p : ProgramId} {C : CommitteeCertificate} {K : Set Bytes} {s : Node}
  {bs : List AggregatedReceiptBundle} {r : ExecutionReceipt} {ws : List StateWrite}

theorem toNat_nextHeight {cat : ProgramCatalog} (h : cat.committedHeight p + 1 < 2 ^ 64) :
    (cat.nextHeight p).toNat = cat.committedHeight p + 1 := by
  rw [ProgramCatalog.nextHeight]
  cases hl : cat.latestStateCommitment p with
  | none =>
    rw [ProgramCatalog.committedHeight_of_none hl]
    rfl
  | some c =>
    rw [ProgramCatalog.committedHeight_of_some hl] at h ⊢
    have hone : (1 : UInt64).toNat = 1 := rfl
    dsimp only
    rw [toNat_saturatingAdd, hone, Nat.min_eq_left (by omega)]

theorem ValidChain.concat {b : AggregatedReceiptBundle} (h : ValidChain pf p C bs)
    (hb : Continues pf p C bs b) : ValidChain pf p C (bs ++ [b]) := by
  intro pre b' rest he
  cases rest using List.reverseRecOn with
  | nil =>
    obtain ⟨rfl, hb'⟩ := List.append_inj' he rfl
    cases hb'
    exact hb
  | append_singleton rest x =>
    rw [← List.cons_append, ← List.append_assoc] at he
    obtain ⟨hbs, -⟩ := List.append_inj' he rfl
    exact h pre b' rest hbs

theorem OwnChain.committedHeight {L : Ledger} (h : OwnChain pf p C K bs L) :
    L.catalog.committedHeight p = bs.length := h.holds.committedHeight h.valid.length_lt

theorem OwnChain.nextReceipt (h : OwnChain pf p C K bs s.ledger) (hK : Set.InjOn pf.hashBytes K)
    (hroom : bs.length + 1 < 2 ^ 64) {o : ExecutionOutcome} {world : Nat} {input : Bytes}
    (ho : execute pf world s.maxFuel s.unified s.states p input = .ok o)
    (hkeys : ∀ w ∈ o.stateWrites, w.key ∈ K) :
    NextReceipt pf p bs (buildReceipt pf s.unified s.nodeId p input (s.catalog.nextHeight p)
      (s.states.sparseRootScoped p pf) o) o.stateWrites := by
  have hheight : s.catalog.committedHeight p = bs.length := h.committedHeight
  have hentries : s.states.entries p = replayed bs := h.holds.entries
  have hin : ∀ k ∈ (s.states.applyStateWrites p o.stateWrites).entries p, k ∈ K := by
    intro k hk
    rw [StateStore.entries_applyStateWrites, hentries] at hk
    rcases mem_writeEntries hk with hk | ⟨w, hw, rfl⟩
    · exact h.keys (mem_replayed hk)
    · exact hkeys w hw
  refine ⟨rfl, ?_, rfl, sparseRootScoped_eq_rootOf hentries, ?_⟩
  · change (s.catalog.nextHeight p).toNat = _
    rw [toNat_nextHeight (by omega), hheight]
  · change o.stateRoot = _
    rw [execute_stateRoot ho, ← StateStore.sparseRootScoped_applyStateWrites s.states p pf hK hin, ← hentries]
    exact sparseRootScoped_eq_rootOf (StateStore.entries_applyStateWrites ..)

theorem NextReceipt.continues {b : AggregatedReceiptBundle} (h : NextReceipt pf p bs b.receipt.receipt b.stateWrites)
    (hchain : ValidChain pf p C bs) (hc : b.committee = C)
    (hv : verifyAggregatedReceipt pf b.receipt C = .ok ()) : Continues pf p C bs b := by
  refine ⟨h.program, h.height, hc, hv, h.digest, ?_, ?_⟩
  · rw [h.rootIn, hchain.lastRoot_eq (List.append_nil bs).symm]
  · rw [h.rootOut, replayed_append_singleton]

theorem applyAvailable_of_one {b : AggregatedReceiptBundle} (clock : UInt64 → UInt64)
    (hb : Appliable pf p s.ledger b) (hr : AppliedRoot pf p s.ledger b)
    (hlast : b.receipt.receipt.height.toNat + 1 < 2 ^ 64)
    (hnone : ∀ height : UInt64, b.receipt.receipt.height.toNat < height.toNat →
      s.ledger.finalized.get (heightKey p height) = none) :
    ∃ s', applyAvailableFinalizedTransitions pf clock p s = (s', .ok ()) ∧ s'.rest = s.rest ∧
      s'.ledger = s.ledger.commit p b (clock b.receipt.receipt.height) := by
  obtain ⟨s', hturn, hrest, hled⟩ := (applyTurn_of_appliable clock hb).1 hr
  have hcom : s'.ledger.catalog.committee pf p = .ok (some b.committee) := by
    rw [hled]
    exact (ProgramCatalog.committee_congr rfl).trans hb.committee
  have hheight : s'.ledger.catalog.committedHeight p = b.receipt.receipt.height.toNat := by
    rw [hled, ProgramCatalog.committedHeight_of_some (hb.latest_commit _)]
  obtain ⟨height, hexp, hgt⟩ : ∃ height, s'.ledger.catalog.expectedHeight p = .ok height ∧
      b.receipt.receipt.height.toNat < height.toNat := by
    have hnat : (UInt64.ofNat (b.receipt.receipt.height.toNat + 1)).toNat =
      b.receipt.receipt.height.toNat + 1 := UInt64.toNat_ofNat_of_lt' hlast
    exact ⟨_, ProgramCatalog.expectedHeight_eq_ok (by rw [hnat, hheight]), by omega⟩
  have hload : s'.ledger.finalized.get (heightKey p height) = none := by
    rw [hled]
    exact hnone height hgt
  have hstop : applyTurn pf clock p s' = .done s' (.ok ()) := by
    have hcom' : s'.catalog.committee pf p = .ok (some b.committee) := hcom
    have hexp' : s'.catalog.expectedHeight p = .ok height := hexp
    have hload' : s'.loadFinalizedTransition p height = none := hload
    simp only [applyTurn, hcom', hexp', hload']
  refine ⟨s', ?_, hrest, hled⟩
  have hfuel : ∀ fuel, applyLoop pf clock p (fuel + 2) s = (s', .ok ()) := by
    intro fuel
    simp only [applyLoop, hturn, hstop]
  exact hfuel (2 ^ 64 - 2)

theorem handleFinalizedReceipt_of_next {b : AggregatedReceiptBundle} (clock : UInt64 → UInt64)
    (h : OwnChain pf p C K bs s.ledger) (hK : Set.InjOn pf.hashBytes K)
    (hcom : s.catalog.committee pf p = .ok (some C)) (hb : Continues pf p C bs b)
    (hkeys : ∀ w ∈ b.stateWrites, w.key ∈ K) (hroom : bs.length + 2 < 2 ^ 64) :
    ∃ s', handleFinalizedReceipt pf clock s b = (s', .ok ()) ∧ s'.rest = s.rest ∧
      s'.states = s.states.applyStateWrites p b.stateWrites ∧
      s'.catalog.manifests = s.catalog.manifests ∧ OwnChain pf p C K (bs ++ [b]) s'.ledger := by
  have hchain := h.valid.concat hb
  have hsub : chainKeys (bs ++ [b]) ⊆ K := by
    rintro k ⟨b', hb', w, hw, rfl⟩
    rcases List.mem_append.mp hb' with hb' | hb'
    · exact h.keys ⟨b', hb', w, hw, rfl⟩
    · rw [List.mem_singleton.mp hb'] at hw
      exact hkeys w hw
  let s₁ : Node :=
    { s with
      catalog := s.catalog.storeAggregatedReceipt pf b.receipt
      finalizedStore := s.finalizedStore.put b }
  have hkey : bundleKey b = heightKey p b.receipt.receipt.height := by rw [bundleKey, hb.program]
  have hstored : s₁.ledger.finalized.get (heightKey p b.receipt.receipt.height) = some b := by
    change (s.finalizedStore.put b).get _ = _
    rw [Keyed.get_put, if_pos hkey]
  have hbeyond : ∀ height : UInt64, b.receipt.receipt.height.toNat < height.toNat →
      s₁.ledger.finalized.get (heightKey p height) = none := by
    intro height hlt
    have hne : bundleKey b ≠ heightKey p height := by
      rw [hkey]
      intro he
      rw [(heightKey_inj he).2] at hlt
      omega
    change (s.finalizedStore.put b).get _ = _
    rw [Keyed.get_put, if_neg hne]
    exact h.nothingAhead height (by have := hb.height; omega)
  have hholds : Holds p bs s₁.ledger := ⟨h.holds.entries, h.holds.commitments⟩
  obtain ⟨happ, hroot⟩ := hholds.appliable hchain (hK.mono hsub) rfl hcom hstored
  obtain ⟨s', hs', hrest, hled⟩ := applyAvailable_of_one clock happ hroot
    (by have := hb.height; omega) hbeyond
  refine ⟨s', ?_, hrest, congrArg Ledger.states hled, congrArg (·.catalog.manifests) hled, ?_⟩
  · have hcom' : s.catalog.committee pf b.receipt.receipt.programId = .ok (some b.committee) := by
      rw [hb.program, hb.committee]
      exact hcom
    have hv : verifyAggregatedReceipt pf b.receipt b.committee = .ok () := by
      rw [hb.committee]
      exact hb.verified
    have hexp : (s.catalog.storeAggregatedReceipt pf b.receipt).expectedHeight b.receipt.receipt.programId =
        .ok b.receipt.receipt.height := by
      rw [hb.program]
      exact happ.height
    rw [← hs', ← hb.program]
    simp [handleFinalizedReceipt, hcom', Node.ingestAggregatedReceipt, hv, Except.map,
      Node.storeFinalizedTransition, hexp, s₁]
  · rw [hled]
    refine ⟨hholds.commit hb.height _, hchain, hsub, ?_⟩
    intro height hlt
    rw [List.length_append, List.length_singleton, ← hb.height] at hlt
    exact hbeyond height hlt

end Chain

def votedWeight (C : CommitteeCertificate) (S : List NodeId) : UInt64 :=
  saturatingSum ((C.members.filter fun m => m.node ∈ S).map (·.weight))

section Collect

variable (pf : Platform) (p : ProgramId) (C : CommitteeCertificate) (K : Set Bytes)
  (bs : List AggregatedReceiptBundle) (r : ExecutionReceipt) (ws : List StateWrite)

/-- A transition that the node collects votes for, and that the nodes in `S` have signed. -/
structure Collecting (waiting : Option Nat) (S : List NodeId) (s : Node) (e : PendingTransition) : Prop where
  committee : e.committee = C
  receipt : e.receipt = r
  writes : e.stateWrites = ws
  completion : e.completion = waiting
  signers : ∀ n, e.signatures.contains n = true ↔ n ∈ S
  checked : e.Checked pf s.nodeId s.blsPublic (r.id pf)

/-- All that it takes for a transition to be committed after the chain, the votes apart. -/
structure NextTransition : Prop where
  bls : BlsComplete pf
  committee : SoundCommittee p C
  injective : Set.InjOn pf.hashBytes K
  next : NextReceipt pf p bs r ws
  keys : ∀ w ∈ ws, w.key ∈ K
  room : bs.length + 2 < 2 ^ 64

/-- The node commits the bundle `b` that its votes make, broadcasts it, and tells the call that waits. -/
structure Commits (waiting : Option Nat) (s s' : Node) (b : AggregatedReceiptBundle) : Prop where
  still : s'.still = s.still
  erased : s'.pending[r.id pf]? = none
  pending : ∀ id, id ≠ r.id pf → s'.pending[id]? = s.pending[id]?
  sent : ∀ t, waiting = some t → s'.sent[t]? = some (.ok ())
  published : s'.published = s.published ++ [.aggregatedReceipt b]
  receipt : b.receipt.receipt = r
  writes : b.stateWrites = ws
  continues : Continues pf p C bs b
  states : s'.states = s.states.applyStateWrites p ws
  manifests : s'.catalog.manifests = s.catalog.manifests
  chain : OwnChain pf p C K (bs ++ [b]) s'.ledger

variable {pf p C K bs r ws} {s : Node} {waiting : Option Nat} {S : List NodeId} {e : PendingTransition}

theorem Collecting.weight (h : Collecting pf C r ws waiting S s e) (hC : SoundCommittee p C) :
    signerWeight e.committee e.signatures.keys = votedWeight C S := by
  have hnodup : (e.committee.members.map (·.node)).Nodup := by
    rw [h.committee]
    exact hC.distinct
  rw [signerWeight_eq hnodup, votedWeight, PendingTransition.signers, h.committee]
  congr 2
  refine List.filter_congr fun m _ => ?_
  rw [Bool.eq_iff_iff, h.signers, decide_eq_true_iff]

theorem Collecting.insert {n : NodeId} {sig : BlsSignature} {m : CommitteeMember}
    (h : Collecting pf C r ws waiting S s e) (hm : C.members.find? (·.node == n) = some m)
    (hv : pf.verify (r.id pf).bytes m.blsPublicKey sig dstReceipt = .ok ()) :
    Collecting pf C r ws waiting (n :: S) s { e with signatures := e.signatures.insert n sig } := by
  refine ⟨h.committee, h.receipt, h.writes, h.completion, fun n' => ?_, ?_⟩
  · rw [ExtTreeMap.contains_insert, Bool.or_eq_true, h.signers, List.mem_cons, beq_iff_eq,
      LawfulEqOrd.compare_eq_iff_eq]
    exact or_congr_left eq_comm
  · exact h.checked.insert (by rw [h.committee]; exact hm) hv

theorem Collecting.finalize (clock : UInt64 → UInt64) (ht : NextTransition pf p C K bs r ws)
    (h : Collecting pf C r ws waiting S s e) (hchain : OwnChain pf p C K bs s.ledger)
    (hcom : s.catalog.committee pf p = .ok (some C)) (hw : C.threshold.toNat ≤ (votedWeight C S).toNat) :
    ∃ s' b, finalizeTransition pf clock { s with pending := s.pending.erase (r.id pf) } e = (s', .ok ()) ∧
      Commits pf p C K bs r ws waiting s s' b := by
  have hsound : SoundCommittee e.receipt.programId e.committee := by
    rw [h.receipt, h.committee, ht.next.program]
    exact ht.committee
  rw [← h.weight ht.committee, ← h.committee] at hw
  obtain ⟨b, hb, -, hv⟩ := assembleBundle_verifies ht.bls hsound hw (h.checked.votes hsound.distinct)
  obtain ⟨hr, hc, hwrites⟩ := assembleBundle_fields hb
  rw [h.receipt] at hr
  rw [h.committee] at hc
  rw [h.writes] at hwrites
  have hcont : Continues pf p C bs b := by
    refine NextReceipt.continues ?_ hchain.valid hc (hc ▸ hv)
    rw [hr, hwrites]
    exact ht.next
  let s₁ : Node := { s with pending := s.pending.erase (r.id pf) }
  have hchain₁ : OwnChain pf p C K bs s₁.ledger := hchain
  have hcom₁ : s₁.catalog.committee pf p = .ok (some C) := hcom
  obtain ⟨s', hs', hrest, hstates, hman, hchain'⟩ :=
    handleFinalizedReceipt_of_next clock hchain₁ ht.injective hcom₁ hcont (by rw [hwrites]; exact ht.keys) ht.room
  have hpub : s'.published = s.published := by
    have hh := congrArg Node.published hrest
    exact hh
  have hpend : s'.pending = s.pending.erase (r.id pf) := by
    have hh := congrArg Node.pending hrest
    exact hh
  have herased : s'.pending[r.id pf]? = none := by
    rw [hpend, ExtTreeMap.getElem?_erase_self]
  have hothers : ∀ id, id ≠ r.id pf → s'.pending[id]? = s.pending[id]? := by
    intro id hne
    rw [hpend, ExtTreeMap.getElem?_erase, if_neg fun he => hne (LawfulEqOrd.eq_of_compare he).symm]
  rw [hwrites] at hstates
  have hstill : s'.still = s₁.still := Node.still_of_rest hrest
  have hdone := h.completion
  cases waiting with
  | none =>
    refine ⟨s'.publish (.aggregatedReceipt b), b, ?_, hstill, herased, hothers, fun t ht => (by cases ht), ?_, hr, hwrites,
      hcont, hstates, hman, hchain'⟩
    · simp only [finalizeTransition, hb, hs', s₁, hdone]
    · rw [Node.publish, hpub]
  | some t =>
    refine ⟨{ s'.publish (.aggregatedReceipt b) with sent := s'.sent.insert t (.ok ()) }, b, ?_, hstill,
      herased, hothers, fun t' ht => ?_, ?_, hr, hwrites, hcont, hstates, hman, hchain'⟩
    · simp only [finalizeTransition, hb, hs', s₁, hdone]
      rfl
    · cases ht
      exact ExtTreeMap.getElem?_insert_self
    · change s'.published ++ _ = _
      rw [hpub]

theorem Collecting.settle (clock : UInt64 → UInt64) (ht : NextTransition pf p C K bs r ws)
    (h : Collecting pf C r ws waiting S s e) (hchain : OwnChain pf p C K bs s.ledger)
    (hcom : s.catalog.committee pf p = .ok (some C)) (hw : C.threshold.toNat ≤ (votedWeight C S).toNat)
    (he : s.pending[r.id pf]? = some e) :
    ∃ s' b, (maybeFinalizePendingTransition pf clock s (r.id pf)).1 = s' ∧
      Commits pf p C K bs r ws waiting s s' b := by
  obtain ⟨s', b, hs', hcommits⟩ := h.finalize clock ht hchain hcom hw
  refine ⟨s', b, ?_, hcommits⟩
  rw [← h.weight ht.committee, ← h.committee] at hw
  rw [maybeFinalizePendingTransition, he]
  simp only [if_neg (Nat.not_lt.mpr hw), hs']

end Collect

end Onvm
