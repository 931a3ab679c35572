import Onvm.Commitments
import Onvm.VoteSafety

/-! Agreement. The honest nodes run side by side, each with threads of its own, and any message may reach
any of them at any time; a commitment rests on a quorum, two quorums share an honest signer, and an honest
signer that keeps to one vote per height ties the two. -/

namespace Onvm

open ByteString OrderedStore WeightedQuorum Runs Std

variable {ι : Type}

def clusterStep [DecidableEq ι] (pf : Platform) (c : ι → NodeThreads) (e : ι × ThreadEvent) :
    Option (ι → NodeThreads) :=
  (threadStep pf (c e.1) e.2).map (Function.update c e.1)

/-- The node's manifest for `p` names no other committee than `C`. -/
def Node.Recognises (pf : Platform) (s : Node) (p : ProgramId) (C : CommitteeCertificate) : Prop :=
  ∀ C' ∈ (s.catalog.committee pf p).toOption.join, C' = C

def Unforged (pf : Platform) (C : CommitteeCertificate) (boot : ι → Node) (c : ι → NodeThreads)
    (a : AggregatedReceipt) : Prop :=
  verifyAggregatedReceipt pf a C = .ok () → ∀ j, ∀ m ∈ C.members, m.node = (boot j).nodeId →
    m.blsPublicKey ∈ signerKeys C a.signerBitmap → ∃ r ∈ (c j).shared.signed, r.id pf = a.receipt.id pf

/-- The bundle that `handle_finalized_receipt` begins to handle. -/
def handledBundle? (S : NodeThreads) : ThreadEvent → Option AggregatedReceiptBundle
  | .start _ => none
  | .turn n _ =>
    S.processes[n]?.bind fun a =>
      match a.point with
      | .receive h => some h.bundle
      | _ => none

/-- What is assumed of a step: one committee for the program, aggregate signatures that cannot be
forged, and receipts taken from a list `R` in which ids do not collide. -/
structure Trustworthy [DecidableEq ι] (pf : Platform) (p : ProgramId) (C : CommitteeCertificate)
    (R : List ExecutionReceipt) (boot : ι → Node) (c : ι → NodeThreads) (e : ι × ThreadEvent) : Prop where
  committee : ∀ c' ∈ clusterStep pf c e, (c' e.1).shared.Recognises pf p C
  unforged : ∀ b ∈ handledBundle? (c e.1) e.2, Unforged pf C boot c b.receipt
  handled : ∀ b ∈ handledBundle? (c e.1) e.2, b.receipt.receipt ∈ R
  signed : ∀ c' ∈ clusterStep pf c e, ∀ r ∈ (c' e.1).shared.signedSince (c e.1).shared, r ∈ R

/-- A bundle that may be kept. -/
structure Backed (pf : Platform) (C : CommitteeCertificate) (R : List ExecutionReceipt) (boot : ι → Node)
    (c : ι → NodeThreads) (b : AggregatedReceiptBundle) : Prop where
  known : b.receipt.receipt ∈ R
  unforged : Unforged pf C boot c b.receipt

/-- What the catch-up loop knows where it stands; `B` says which bundles may be kept. -/
def ApplyPoint.Sound (pf : Platform) (p : ProgramId) (C : CommitteeCertificate)
    (B : AggregatedReceiptBundle → Prop) : ApplyPoint → Prop
  | .readHeight expected | .loadBundle expected _ => expected = C
  | .ingest b => B b ∧ b.receipt.receipt.programId = p ∧ b.committee = C
  | .readRoot b | .predict b _ | .write b _ _ | .readApplied b _ =>
    (B b ∧ b.receipt.receipt.programId = p) ∧ verifyAggregatedReceipt pf b.receipt C = .ok ()
  | .commit b _ root =>
    ((B b ∧ b.receipt.receipt.programId = p) ∧ verifyAggregatedReceipt pf b.receipt C = .ok ()) ∧
      root = b.receipt.receipt.stateRootOut
  | _ => True

def ThreadPoint.Sound (pf : Platform) (p : ProgramId) (C : CommitteeCertificate)
    (B : AggregatedReceiptBundle → Prop) : ThreadPoint → Prop
  | .defer h | .ingest h | .keep h => B h.bundle
  | .apply q _ x => q = p → x.Sound pf p C B
  | _ => True

structure Certified (pf : Platform) (p : ProgramId) (C : CommitteeCertificate) (R : List ExecutionReceipt)
    (boot : ι → Node) (c : ι → NodeThreads) (height : UInt64) (x : StateCommitment)
    (a : AggregatedReceipt) : Prop where
  program : a.receipt.programId = p
  height : a.receipt.height = height
  root : x.root = a.receipt.stateRootOut
  verified : verifyAggregatedReceipt pf a C = .ok ()
  known : a.receipt ∈ R
  unforged : Unforged pf C boot c a

structure ClusterInvariant (pf : Platform) (p : ProgramId) (C : CommitteeCertificate)
    (R : List ExecutionReceipt) (boot : ι → Node) (c : ι → NodeThreads) : Prop where
  votes : ∀ i, VotesRecorded pf (c i)
  signed : ∀ i, ∀ r ∈ (c i).shared.signed, r ∈ R
  recognised : ∀ i, (c i).shared.Recognises pf p C
  stored : ∀ i k b, (c i).shared.finalizedStore.get k = some b → Backed pf C R boot c b
  sound : ∀ i, ∀ a ∈ (c i).processes, a.point.Sound pf p C (Backed pf C R boot c)
  committed : ∀ i height x, (c i).shared.catalog.getStateCommitment p height = some x →
    ∃ a, Certified pf p C R boot c height x a

section Moves

variable {pf : Platform} {clock : UInt64 → UInt64} {th : Thread} {p q : ProgramId} {C : CommitteeCertificate}
  {B B' : AggregatedReceiptBundle → Prop} {s s' : Node}

theorem ApplyPoint.Sound.imp {x : ApplyPoint} (h : ∀ b, B b → B' b) (hx : x.Sound pf p C B) :
    x.Sound pf p C B' := by
  cases x with
  | ingest b => exact ⟨h b hx.1, hx.2⟩
  | readRoot b => exact ⟨⟨h b hx.1.1, hx.1.2⟩, hx.2⟩
  | predict b => exact ⟨⟨h b hx.1.1, hx.1.2⟩, hx.2⟩
  | write b => exact ⟨⟨h b hx.1.1, hx.1.2⟩, hx.2⟩
  | readApplied b => exact ⟨⟨h b hx.1.1, hx.1.2⟩, hx.2⟩
  | commit b => exact ⟨⟨⟨h b hx.1.1.1, hx.1.1.2⟩, hx.1.2⟩, hx.2⟩
  | _ => exact hx

theorem ThreadPoint.Sound.imp {x : ThreadPoint} (h : ∀ b, B b → B' b) (hx : x.Sound pf p C B) :
    x.Sound pf p C B' := by
  cases x with
  | defer => exact h _ hx
  | ingest => exact h _ hx
  | keep => exact h _ hx
  | apply => exact fun hq => (hx hq).imp h
  | _ => trivial

theorem ThreadPoint.sound_of_quiet {x : ThreadPoint} (h : x.quiet = true) : x.Sound pf p C B := by
  cases x <;> trivial

theorem notifyPoint_sound (completion : Option Nat) (result : Except String Unit) :
    (notifyPoint th completion result).Sound pf p C B := by
  cases completion
  · exact ThreadPoint.sound_of_quiet Thread.over_quiet
  · trivial

theorem handledPoint_sound (h : Option Handling) (result : Except String Unit) :
    (handledPoint th h result).Sound pf p C B := by
  unfold handledPoint
  split
  · split
    · trivial
    · exact notifyPoint_sound _ _
  · exact ThreadPoint.sound_of_quiet Thread.over_quiet

theorem finalizePoint_sound (entry : PendingTransition) : (finalizePoint pf th entry).Sound pf p C B := by
  unfold finalizePoint
  split
  · trivial
  · exact ThreadPoint.sound_of_quiet Thread.over_quiet

theorem applyPoint_sound {x : ApplyPoint} (h : Option Handling) (hx : q = p → x.Sound pf p C B) :
    (applyPoint th q h x).Sound pf p C B := by
  cases x <;> first | exact handledPoint_sound _ _ | exact hx

theorem ApplyMove.sound {x y : ApplyPoint} (h : ApplyMove pf clock p s x s' y) (hrec : s.Recognises pf p C)
    (hstored : ∀ k b, s.finalizedStore.get k = some b → B b) (hx : x.Sound pf p C B) : y.Sound pf p C B := by
  cases h with
  | stop => trivial
  | ask => trivial
  | committee h => exact hrec _ (by rw [h]; rfl)
  | height => exact hx
  | load h hC => exact ⟨hstored _ _ h, (Node.loadFinalizedTransition_eq_some h).1, hC.trans hx⟩
  | ingest h => exact ⟨⟨hx.1, hx.2.1⟩, hx.2.2 ▸ h⟩
  | root => exact hx
  | predict => exact hx
  | written => exact hx
  | write => exact hx
  | applied h => exact ⟨hx, h⟩
  | commit => trivial

theorem Move.sound {x y : ThreadPoint} (h : Move pf clock th s x s' y) (hrec : s.Recognises pf p C)
    (hstored : ∀ k b, s.finalizedStore.get k = some b → B b) (hx : x.Sound pf p C B)
    (hnew : ∀ h, x = .receive h → B h.bundle) : y.Sound pf p C B := by
  cases h with
  | aside _ hy => exact ThreadPoint.sound_of_quiet hy
  | renew _ hy => exact ThreadPoint.sound_of_quiet hy
  | finalize => exact finalizePoint_sound _
  | begin => exact hnew _ rfl
  | unknown => exact hnew _ rfl
  | ingest => exact hx
  | apply hs =>
    refine applyPoint_sound _ fun hq => ?_
    subst hq
    exact (applyStep_cases hs).sound hrec hstored (hx rfl)
  | catchUp => exact fun _ => trivial
  | enter => exact fun _ => trivial
  | manifest => exact fun _ => trivial
  | mismatch => exact handledPoint_sound _ _
  | fail => exact handledPoint_sound _ _
  | defer => exact handledPoint_sound _ _
  | announce => exact notifyPoint_sound _ _
  | notify => exact ThreadPoint.sound_of_quiet Thread.over_quiet
  | _ => trivial

theorem Move.stored {x y : ThreadPoint} (h : Move pf clock th s x s' y)
    (hstored : ∀ k b, s.finalizedStore.get k = some b → B b) (hx : x.Sound pf p C B) :
    ∀ k b, s'.finalizedStore.get k = some b → B b := by
  have hsame : s'.finalizedStore = s.finalizedStore → ∀ k b, s'.finalizedStore.get k = some b → B b := by
    intro he
    rw [he]
    exact hstored
  have hput : ∀ {h : Handling}, B h.bundle → s'.finalizedStore = s.finalizedStore.put h.bundle →
      ∀ k b, s'.finalizedStore.get k = some b → B b := by
    intro h hB he k b hb
    rw [he, Keyed.get_put] at hb
    split_ifs at hb
    · cases hb
      exact hB
    · exact hstored k b hb
  cases h with
  | aside _ _ h =>
    have he := congrArg Node.finalizedStore h
    exact hsame he
  | enter h =>
    have he := congrArg Node.finalizedStore h
    exact hsame he
  | defer => exact hput hx rfl
  | keep => exact hput hx rfl
  | apply hs => cases applyStep_cases hs <;> exact hsame rfl
  | _ => exact hsame rfl

theorem Move.commitments {x y : ThreadPoint} (h : Move pf clock th s x s' y) (hx : x.Sound pf p C B)
    {height : UInt64} {c : StateCommitment} (hc : s'.catalog.getStateCommitment p height = some c) :
    s.catalog.getStateCommitment p height = some c ∨
      ∃ b, B b ∧ b.receipt.receipt.programId = p ∧ b.receipt.receipt.height = height ∧
        c.root = b.receipt.receipt.stateRootOut ∧ verifyAggregatedReceipt pf b.receipt C = .ok () := by
  cases h with
  | aside _ _ h =>
    have he := congrArg Node.catalog h
    exact .inl (by rwa [show s'.catalog = s.catalog from he] at hc)
  | enter h =>
    have he := congrArg Node.catalog h
    exact .inl (by rwa [show s'.catalog = s.catalog from he] at hc)
  | @apply q h x y s' hs =>
    cases applyStep_cases hs with
    | @commit b root applied =>
      rw [ProgramCatalog.getStateCommitment_storeStateCommitment] at hc
      split_ifs at hc with hk
      · obtain ⟨hq, hh⟩ := hk
        obtain ⟨⟨⟨hB, hp⟩, hv⟩, hroot⟩ := hx hq
        cases hc
        exact .inr ⟨b, hB, hp, hh, hroot, hv⟩
      · exact .inl hc
    | _ => exact .inl hc
  | _ => exact .inl hc

end Moves

section Step

variable {pf : Platform} {p : ProgramId} {C : CommitteeCertificate} {R : List ExecutionReceipt}
  {boot : ι → Node} {c c' : ι → NodeThreads} {S S' : NodeThreads} {e : ThreadEvent}
  {B : AggregatedReceiptBundle → Prop}

theorem threadStep_sound (h : threadStep pf S e = some S') (hrec : S.shared.Recognises pf p C)
    (hstored : ∀ k b, S.shared.finalizedStore.get k = some b → B b)
    (hsound : ∀ a ∈ S.processes, a.point.Sound pf p C B) (hnew : ∀ b ∈ handledBundle? S e, B b) :
    (∀ k b, S'.shared.finalizedStore.get k = some b → B b) ∧
      (∀ a ∈ S'.processes, a.point.Sound pf p C B) ∧
      ∀ height x, S'.shared.catalog.getStateCommitment p height = some x →
        S.shared.catalog.getStateCommitment p height = some x ∨
          ∃ b, B b ∧ b.receipt.receipt.programId = p ∧ b.receipt.receipt.height = height ∧
            x.root = b.receipt.receipt.stateRootOut ∧ verifyAggregatedReceipt pf b.receipt C = .ok () := by
  cases e with
  | start op =>
    have hstart := start_cases h
    have hled := hstart.ledger
    have hfinal : S'.shared.finalizedStore = S.shared.finalizedStore := congrArg Ledger.finalized hled
    refine ⟨by rw [hfinal]; exact hstored, fun a ha => ?_, fun height x hx => .inl ?_⟩
    · rcases hstart.processes ha with ha | ha
      · exact hsound a ha
      · cases hp : a.point <;> rw [hp] at ha <;> trivial
    · have hcat := congrArg (fun L => L.catalog.getStateCommitment p height) hled
      exact hcat.symm.trans hx
  | turn n clock =>
    obtain ⟨a, y, ha, hmove, hbefore, hafter⟩ := threadStep_turn h
    have hx := hsound a (List.mem_of_getElem? ha)
    refine ⟨hmove.stored hstored hx, fun a' ha' => ?_, fun height x hc => hmove.commitments hx hc⟩
    rcases List.mem_cons.mp (hafter.mem_iff.mp ha') with rfl | ha'
    · refine hmove.sound hrec hstored hx fun hd hp => hnew _ ?_
      rw [handledBundle?, ha, Option.bind_some, hp]
      rfl
    · exact hsound a' (hbefore.mem_iff.mpr (List.mem_cons_of_mem _ ha'))

theorem clusterStep_eq_some [DecidableEq ι] {e : ι × ThreadEvent} (h : clusterStep pf c e = some c') :
    ∃ S', threadStep pf (c e.1) e.2 = some S' ∧ c' = Function.update c e.1 S' := by
  obtain ⟨S', hs, rfl⟩ := Option.map_eq_some_iff.mp h
  exact ⟨S', hs, rfl⟩

theorem signed_of_threadStep (h : threadStep pf S e = some S') {r : ExecutionReceipt} :
    r ∈ S'.shared.signed ↔ r ∈ S.shared.signed ∨ r ∈ S'.shared.signedSince S.shared := by
  have hsame : S'.shared.signed = S.shared.signed → (r ∈ S'.shared.signed ↔ r ∈ S.shared.signed ∨
      r ∈ S'.shared.signedSince S.shared) := by
    intro he
    rw [Node.signedSince, he, Nat.sub_self, List.take_zero]
    simp
  cases threadStep_ballots h with
  | kept hb => exact hsame (Prod.mk.inj hb).1
  | lost hb => exact hsame (Prod.mk.inj hb).1
  | recorded _ _ hb => exact hsame (Prod.mk.inj hb).1
  | signed r' hb =>
    have hsig : S'.shared.signed = r' :: S.shared.signed := (Prod.mk.inj hb).1
    rw [signedSince_of_ballots hb, hsig, List.mem_cons, List.mem_singleton, or_comm]

theorem Unforged.mono {a : AggregatedReceipt} (h : Unforged pf C boot c a)
    (hc : ∀ j, ∀ r ∈ (c j).shared.signed, r ∈ (c' j).shared.signed) : Unforged pf C boot c' a := by
  intro hv j m hm hnode hkey
  obtain ⟨r, hr, hid⟩ := h hv j m hm hnode hkey
  exact ⟨r, hc j r hr, hid⟩

theorem ClusterInvariant.step [DecidableEq ι] {e : ι × ThreadEvent} (hi : ClusterInvariant pf p C R boot c)
    (ht : Trustworthy pf p C R boot c e) (hg : VoteGuarded pf (c e.1) e.2)
    (h : clusterStep pf c e = some c') : ClusterInvariant pf p C R boot c' := by
  have hcom := ht.committee c' h
  have hsig := ht.signed c' h
  obtain ⟨i, e⟩ := e
  obtain ⟨S', hs, rfl⟩ := clusterStep_eq_some h
  dsimp only at hs hg hcom hsig
  rw [Function.update_self] at hcom hsig
  have hmono : ∀ j, ∀ r ∈ (c j).shared.signed, r ∈ (Function.update c i S' j).shared.signed := by
    refine fun j => (Function.forall_update_iff c
      (p := fun j (S : NodeThreads) => ∀ r ∈ (c j).shared.signed, r ∈ S.shared.signed)).mpr
      ⟨fun r hr => ?_, fun _ _ _ hr => hr⟩ j
    exact (signed_of_threadStep hs).mpr (.inl hr)
  have hback : ∀ b, Backed pf C R boot c b → Backed pf C R boot (Function.update c i S') b :=
    fun b hb => ⟨hb.known, hb.unforged.mono hmono⟩
  obtain ⟨hstored, hsound, hcommit⟩ := threadStep_sound hs (hi.recognised i) (hi.stored i) (hi.sound i)
    fun b hb => ⟨ht.handled b hb, ht.unforged b hb⟩
  constructor
  case votes =>
    exact (Function.forall_update_iff c (p := fun _ S => VotesRecorded pf S)).mpr
      ⟨(hi.votes i).step hg hs, fun j _ => hi.votes j⟩
  case signed =>
    refine (Function.forall_update_iff c (p := fun _ (S : NodeThreads) => ∀ r ∈ S.shared.signed, r ∈ R)).mpr
      ⟨fun r hr => ?_, fun j _ => hi.signed j⟩
    exact ((signed_of_threadStep hs).mp hr).elim (hi.signed i r) (hsig r)
  case recognised =>
    exact (Function.forall_update_iff c
      (p := fun _ (S : NodeThreads) => S.shared.Recognises pf p C)).mpr ⟨hcom, fun j _ => hi.recognised j⟩
  case stored =>
    exact (Function.forall_update_iff c (p := fun _ (S : NodeThreads) =>
      ∀ k b, S.shared.finalizedStore.get k = some b → Backed pf C R boot (Function.update c i S') b)).mpr
      ⟨fun k b hb => hback b (hstored k b hb), fun j _ k b hb => hback b (hi.stored j k b hb)⟩
  case sound =>
    exact (Function.forall_update_iff c (p := fun _ (S : NodeThreads) =>
      ∀ a ∈ S.processes, a.point.Sound pf p C (Backed pf C R boot (Function.update c i S')))).mpr
      ⟨fun a ha => (hsound a ha).imp hback, fun j _ a ha => (hi.sound j a ha).imp hback⟩
  case committed =>
    have hold : ∀ j height x, (c j).shared.catalog.getStateCommitment p height = some x →
        ∃ a, Certified pf p C R boot (Function.update c i S') height x a := by
      intro j height x hx
      obtain ⟨a, ha⟩ := hi.committed j height x hx
      exact ⟨a, { ha with unforged := ha.unforged.mono hmono }⟩
    refine (Function.forall_update_iff c (p := fun _ (S : NodeThreads) => ∀ height x,
      S.shared.catalog.getStateCommitment p height = some x →
        ∃ a, Certified pf p C R boot (Function.update c i S') height x a)).mpr
      ⟨fun height x hx => ?_, fun j _ => hold j⟩
    rcases hcommit height x hx with hprev | ⟨b, hb, hp, hh, hroot, hv⟩
    · exact hold i height x hprev
    · exact ⟨b.receipt, hp, hh, hroot, hv, (hback b hb).known, (hback b hb).unforged⟩

theorem clusterInvariant_of_fresh (hboot : ∀ i, (boot i).Fresh) :
    ClusterInvariant pf p C R boot fun i => .idle (boot i) := by
  refine ⟨fun i => votesRecorded_of_fresh (hboot i), fun i r hr => ?_, fun i C' hC => ?_, fun i k b hb => ?_,
    fun i a ha => ?_, fun i height x hx => ?_⟩
  · rw [hboot i] at hr
    cases hr
  · rw [hboot i] at hC
    simp [NodeThreads.idle, Node.fresh, ProgramCatalog.committee, ProgramCatalog.getManifest,
      ProgramCatalog.empty] at hC
    cases hC
  · rw [hboot i] at hb
    simp [NodeThreads.idle, Node.fresh] at hb
  · cases ha
  · rw [hboot i] at hx
    simp [NodeThreads.idle, Node.fresh, ProgramCatalog.getStateCommitment, ProgramCatalog.empty] at hx

theorem ClusterInvariant.receipt_unique (hi : ClusterInvariant pf p C R boot c) {F : Nat}
    (hR : ∀ r ∈ R, ∀ r' ∈ R, r.id pf = r'.id pf → r = r')
    (hF : weightOf C (fun n => ∀ i, (boot i).nodeId ≠ n) ≤ F)
    (hT : totalWeight C + F < 2 * C.threshold.toNat) {height : UInt64} {x y : StateCommitment}
    {a b : AggregatedReceipt} (ha : Certified pf p C R boot c height x a)
    (hb : Certified pf p C R boot c height y b) : a.receipt = b.receipt := by
  obtain ⟨m, hm, hhonest, hma, hmb⟩ :=
    exists_common_signer (accepted_of_verify ha.verified) (accepted_of_verify hb.verified) hF hT
  push Not at hhonest
  obtain ⟨j, hj⟩ := hhonest
  obtain ⟨r, hr, hra⟩ := ha.unforged ha.verified j m hm hj.symm hma
  obtain ⟨r', hr', hrb⟩ := hb.unforged hb.verified j m hm hj.symm hmb
  have hea : r = a.receipt := hR r (hi.signed j r hr) a.receipt ha.known hra
  have heb : r' = b.receipt := hR r' (hi.signed j r' hr') b.receipt hb.known hrb
  subst hea heb
  exact hR _ ha.known _ hb.known
    ((hi.votes j).unique _ hr _ hr' (ha.program.trans hb.program.symm) (ha.height.trans hb.height.symm))

end Step

section Decidability

variable [Fintype ι]

instance (pf : Platform) (C : CommitteeCertificate) (boot : ι → Node) (c : ι → NodeThreads)
    (a : AggregatedReceipt) : Decidable (Unforged pf C boot c a) :=
  inferInstanceAs (Decidable (verifyAggregatedReceipt pf a C = .ok () → ∀ _ : ι, ∀ m ∈ C.members, _))

instance (pf : Platform) (s : Node) (p : ProgramId) (C : CommitteeCertificate) :
    Decidable (s.Recognises pf p C) :=
  inferInstanceAs (Decidable (∀ C' ∈ (s.catalog.committee pf p).toOption.join, _))

instance [DecidableEq ι] (pf : Platform) (p : ProgramId) (C : CommitteeCertificate)
    (R : List ExecutionReceipt) (boot : ι → Node) (c : ι → NodeThreads) (e : ι × ThreadEvent) :
    Decidable (Trustworthy pf p C R boot c e) :=
  decidable_of_iff
    ((∀ c' ∈ clusterStep pf c e, (c' e.1).shared.Recognises pf p C) ∧
      (∀ b ∈ handledBundle? (c e.1) e.2, Unforged pf C boot c b.receipt) ∧
      (∀ b ∈ handledBundle? (c e.1) e.2, b.receipt.receipt ∈ R) ∧
      ∀ c' ∈ clusterStep pf c e, ∀ r ∈ (c' e.1).shared.signedSince (c e.1).shared, r ∈ R)
    ⟨fun ⟨h1, h2, h3, h4⟩ => ⟨h1, h2, h3, h4⟩, fun h => ⟨h.1, h.2, h.3, h.4⟩⟩

end Decidability

/-- In every run of the honest nodes in which each of their signatures is measured against the record of
last votes, and gets there before the next one and before a stop, two commitments of one height have one root. -/
theorem commitments_agree [DecidableEq ι] {pf : Platform} {p : ProgramId} {C : CommitteeCertificate}
    {R : List ExecutionReceipt} {boot : ι → Node} {c : ι → NodeThreads} {F : Nat} {events : List (ι × ThreadEvent)}
    (hboot : ∀ i, (boot i).Fresh) (hR : ∀ r ∈ R, ∀ r' ∈ R, r.id pf = r'.id pf → r = r')
    (hF : weightOf C (fun n => ∀ i, (boot i).nodeId ≠ n) ≤ F)
    (hT : totalWeight C + F < 2 * C.threshold.toNat)
    (htrust : Along (clusterStep pf) (Trustworthy pf p C R boot) (fun i => .idle (boot i)) events)
    (hguard : Along (clusterStep pf) (fun c e => VoteGuarded pf (c e.1) e.2) (fun i => .idle (boot i)) events)
    (hrun : run (clusterStep pf) (fun i => .idle (boot i)) events = some c) {i j : ι} {height : UInt64}
    {x y : StateCommitment} (hx : (c i).shared.catalog.getStateCommitment p height = some x)
    (hy : (c j).shared.catalog.getStateCommitment p height = some y) : x.root = y.root := by
  have hi : ClusterInvariant pf p C R boot c := invariant_run
    (fun _ _ _ hi hh h => hi.step hh.1 hh.2 h) (clusterInvariant_of_fresh hboot) (htrust.and hguard) hrun
  obtain ⟨a, ha⟩ := hi.committed i height x hx
  obtain ⟨b, hb⟩ := hi.committed j height y hy
  rw [ha.root, hb.root, hi.receipt_unique hR hF hT ha hb]

section Sample

def triad : CommitteeCertificate := sampleCommittee sampleProgram [1, 2, 3] 2

def triadNode (i : Fin 3) : Node := sampleStart (UInt8.ofNat (i.val + 1))

def triadStart (i : Fin 3) : NodeThreads := .idle (triadNode i)

/-- What the member `i` publishes in the course of `ops`. -/
def triadPublished (i : Fin 3) (ops : List Op) : List Outgoing :=
  ((run (threadStep sampleRuntime) (triadStart i) (oneByOne 0 ops)).map (·.shared.published)).getD []

def receiptsIn (ms : List Outgoing) : List ExecutionReceipt :=
  ms.filterMap fun
    | .proposal m => some m.receipt
    | _ => none

theorem weightOf_triad : weightOf triad (fun n => ∀ i, (triadNode i).nodeId ≠ n) ≤ 0 := by
  have hnone : ∀ m ∈ triad.members, ¬ ∀ i, (triadNode i).nodeId ≠ m.node := by decide +kernel
  rw [weightOf, List.filter_eq_nil_iff.mpr fun m hm => by simpa using hnone m hm]
  simp

/-- The leader's proposal and vote reach the second member, whose vote comes back. -/
theorem commitments_agree_triad :
    let ops₀ := sampleSetup triad ++ sampleCall 0 []
    let ops₁ := sampleSetup triad ++ (triadPublished 0 ops₀).flatMap Outgoing.relay
    let back := ((triadPublished 1 ops₁).take 1).flatMap Outgoing.relay
    let events := (oneByOne 0 ops₀).map ((0 : Fin 3), ·) ++ (oneByOne 0 ops₁).map (1, ·) ++
      (oneByOne 2 back).map (0, ·)
    ∃ c x y, run (clusterStep sampleRuntime) triadStart events = some c ∧
      (c 0).shared.catalog.getStateCommitment sampleProgram 1 = some x ∧
      (c 1).shared.catalog.getStateCommitment sampleProgram 1 = some y ∧ x.root = y.root := by
  intro ops₀ ops₁ back events
  have hrun : ((run (clusterStep sampleRuntime) triadStart events).any fun c =>
      ((c 0).shared.catalog.getStateCommitment sampleProgram 1).isSome ∧
      ((c 1).shared.catalog.getStateCommitment sampleProgram 1).isSome) = true := by decide +kernel
  obtain ⟨c, hc, hx, hy⟩ := exists_of_any hrun
  obtain ⟨x, hx⟩ := Option.isSome_iff_exists.mp hx
  obtain ⟨y, hy⟩ := Option.isSome_iff_exists.mp hy
  refine ⟨c, x, y, hc, hx, hy, ?_⟩
  exact @commitments_agree (Fin 3) _ sampleRuntime sampleProgram triad (receiptsIn (triadPublished 0 ops₀))
    triadNode c 0 events (fun _ => rfl) (by decide +kernel) weightOf_triad (by decide +kernel)
    (by decide +kernel) (by decide +kernel) hc 0 1 1 x y hx hy

/-- The leader's first proposal reaches the second member only, and is finalized there. The leader
times out and calls again; its second proposal reaches the third member only. -/
theorem commitments_disagree_triad :
    let ops₀ := sampleSetup triad ++ sampleCall 0 [] ++
      [.call 0 (.settle fun _ => 0), .call 0 .timeout] ++ sampleCall 1 [1]
    let sent := triadPublished 0 ops₀
    let ops₁ := sampleSetup triad ++ (sent.take 2).flatMap Outgoing.relay
    let ops₂ := sampleSetup triad ++ (sent.drop 2).flatMap Outgoing.relay
    let events := (oneByOne 0 ops₀).map ((0 : Fin 3), ·) ++ (oneByOne 0 ops₁).map (1, ·) ++
      (oneByOne 0 ops₂).map (2, ·)
    (∀ i, (triadNode i).Fresh) ∧
      (∀ r ∈ receiptsIn sent, ∀ r' ∈ receiptsIn sent,
        r.id sampleRuntime = r'.id sampleRuntime → r = r') ∧
      weightOf triad (fun n => ∀ i, (triadNode i).nodeId ≠ n) ≤ 0 ∧
      totalWeight triad + 0 < 2 * triad.threshold.toNat ∧
      Along (clusterStep sampleRuntime)
        (Trustworthy sampleRuntime sampleProgram triad (receiptsIn sent) triadNode) triadStart events ∧
      ∃ c x y, run (clusterStep sampleRuntime) triadStart events = some c ∧
        (c 1).shared.catalog.getStateCommitment sampleProgram 1 = some x ∧
        (c 2).shared.catalog.getStateCommitment sampleProgram 1 = some y ∧ x.root ≠ y.root := by
  intro ops₀ sent ops₁ ops₂ events
  refine ⟨fun _ => rfl, by decide +kernel, weightOf_triad, by decide +kernel, by decide +kernel, ?_⟩
  have hrun : ((run (clusterStep sampleRuntime) triadStart events).any fun c =>
      (((c 1).shared.catalog.getStateCommitment sampleProgram 1).bind fun x =>
        ((c 2).shared.catalog.getStateCommitment sampleProgram 1).map fun y => decide (x.root ≠ y.root)) =
        some true) = true := by decide +kernel
  obtain ⟨c, hc, hne⟩ := exists_of_any hrun
  obtain ⟨x, hx, hne⟩ := Option.bind_eq_some_iff.mp hne
  obtain ⟨y, hy, hne⟩ := Option.map_eq_some_iff.mp hne
  exact ⟨c, x, y, hc, hx, hy, of_decide_eq_true hne⟩

end Sample

end Onvm
