import Onvm.Commitments

/-! Where catching up ends, and what a lagging node does when it hears of a
higher head: it asks for the next transition only if it has none cached. -/

namespace Onvm

open ByteString OrderedStore WeightedQuorum Runs Std

section End

variable {pf : Platform} {clock : UInt64 → UInt64} {p : ProgramId} {s : Node} {L L' : Ledger}

def Exhausted (pf : Platform) (p : ProgramId) (L : Ledger) : Prop :=
  ∀ b, Appliable pf p L b → ¬ AppliedRoot pf p L b

theorem Appliable.unique {b b' : AggregatedReceiptBundle} (h : Appliable pf p L b)
    (h' : Appliable pf p L b') : b = b' := by
  have hh : b.receipt.receipt.height = b'.receipt.receipt.height :=
    Except.ok.inj (h.height.symm.trans h'.height)
  exact Option.some.inj (h.stored.symm.trans (hh ▸ h'.stored))

theorem CommitStep.not_exhausted (h : CommitStep pf p L L') : ¬ Exhausted pf p L := by
  obtain ⟨b, now, hb, hr⟩ := h
  exact fun hex => hex b hb hr

theorem exhausted_of_applyTurn_done {s' : Node} {r : Except String Unit}
    (h : applyTurn pf clock p s = .done s' r) : Exhausted pf p s.ledger := by
  intro b hb hr
  obtain ⟨s₁, he, -⟩ := (applyTurn_of_appliable clock hb).1 hr
  rw [he] at h
  cases h

theorem commitStep_of_applyTurn_again {s' : Node} (h : applyTurn pf clock p s = .again s') :
    CommitStep pf p s.ledger s'.ledger := by
  by_cases ha : ∃ b, Appliable pf p s.ledger b
  · obtain ⟨b, ha⟩ := ha
    by_cases hr : AppliedRoot pf p s.ledger b
    · obtain ⟨s₁, he, -, hled⟩ := (applyTurn_of_appliable clock ha).1 hr
      rw [he] at h
      cases h
      exact hled ▸ .mk b _ ha hr
    · obtain ⟨s₁, he, -⟩ := (applyTurn_of_appliable clock ha).2 hr
      rw [he] at h
      cases h
  · push Not at ha
    obtain ⟨s₁, r, he, -⟩ := applyTurn_of_not_appliable clock ha
    rw [he] at h
    cases h

def CaughtUp (pf : Platform) (p : ProgramId) (L L' : Ledger) : Prop :=
  ∃ M, Relation.ReflTransGen (CommitStep pf p) L M ∧ Exhausted pf p M ∧ (L' = M ∨ Misapplied pf p M L')

theorem applyAvailable_caughtUp (clock : UInt64 → UInt64) (hL : s.ledger = L) :
    CaughtUp pf p L (applyAvailableFinalizedTransitions pf clock p s).1.ledger := by
  subst hL
  obtain ⟨m, -, hpath, hdone⟩ := @applyLoop_spec pf clock p s (2 ^ 64) (Nat.le_add_right _ _)
  exact ⟨m.ledger, hpath, exhausted_of_applyTurn_done hdone, (applyTurn_done clock hdone).2⟩

theorem Misapplied.catalog (h : Misapplied pf p L L') : L'.catalog = L.catalog := by
  obtain ⟨b, -, -⟩ := h
  rfl

theorem committedHeight_le_of_commits (h : Relation.ReflTransGen (CommitStep pf p) L L') :
    L.catalog.committedHeight p ≤ L'.catalog.committedHeight p := by
  induction h with
  | refl => exact Nat.le_refl _
  | tail _ hstep ih =>
    have hh := hstep.committedHeight
    omega

theorem committedHeight_lt_applyAvailable {b : AggregatedReceiptBundle}
    (hb : Appliable pf p s.ledger b) (hr : AppliedRoot pf p s.ledger b) :
    s.catalog.committedHeight p <
      (applyAvailableFinalizedTransitions pf clock p s).1.catalog.committedHeight p := by
  obtain ⟨M, hpath, hex, hend⟩ := @applyAvailable_caughtUp pf p s _ clock rfl
  have hlt : s.ledger.catalog.committedHeight p < M.catalog.committedHeight p := by
    rcases Relation.ReflTransGen.cases_head hpath with he | ⟨L₁, hstep, hrest⟩
    · exact absurd hr (he ▸ hex b (he ▸ hb))
    · have h1 := hstep.committedHeight
      have h2 := committedHeight_le_of_commits hrest
      omega
  have hcat : (applyAvailableFinalizedTransitions pf clock p s).1.ledger.catalog = M.catalog := by
    rcases hend with he | hmis
    · rw [he]
    · exact hmis.catalog
  change _ < (applyAvailableFinalizedTransitions pf clock p s).1.ledger.catalog.committedHeight p
  rw [hcat]
  exact hlt

theorem applyLoop_of_exhausted {fuel : Nat} (hfuel : 0 < fuel) (h : Exhausted pf p s.ledger) :
    ∃ r, applyTurn pf clock p s = .done (applyLoop pf clock p fuel s).1 r := by
  obtain ⟨fuel, rfl⟩ := Nat.exists_eq_succ_of_ne_zero hfuel.ne'
  cases ht : applyTurn pf clock p s with
  | done s' r => exact ⟨r, by simp only [applyLoop, ht]⟩
  | again s' =>
    exact absurd h (commitStep_of_applyTurn_again ht).not_exhausted

theorem requests_of_applyTurn_done {c : CommitteeCertificate} {s' : Node} {r : Except String Unit}
    (hc : s.catalog.committee pf p = .ok (some c)) (h : applyTurn pf clock p s = .done s' r) :
    s'.requests = s.requests := by
  rw [applyTurn, hc] at h
  dsimp only at h
  split at h
  · cases h; rfl
  split at h
  · cases h; rfl
  split at h
  · cases h; rfl
  split at h
  · cases h; rfl
  rename_i s₁ hi
  obtain ⟨-, rfl⟩ := ingestAggregatedReceipt_eq_ok hi
  rw [applyBundle] at h
  dsimp only at h
  split_ifs at h <;> cases h <;> rfl

end End

section Heads

variable {pf : Platform} {clock : UInt64 → UInt64} {p : ProgramId} {s : Node}

theorem ProgramCatalog.expectedHeight_of_lt {cat : ProgramCatalog} {height : UInt64}
    (h : cat.localHeight p < height) : cat.expectedHeight p = .ok (cat.localHeight p + 1) := by
  have hlt := UInt64.lt_iff_toNat_lt.mp h
  have hmax := height.toNat_lt
  rw [expectedHeight]
  rw [localHeight] at hlt ⊢
  cases hl : cat.latestStateCommitment p with
  | none => rfl
  | some c =>
    rw [hl] at hlt
    dsimp only at hlt ⊢
    rw [if_pos (by omega)]

theorem saturatingAdd_one_of_lt {a b : UInt64} (h : a < b) : saturatingAdd a 1 = a + 1 := by
  have hlt := UInt64.lt_iff_toNat_lt.mp h
  have hmax := b.toNat_lt
  apply UInt64.toNat_inj.mp
  rw [toNat_saturatingAdd, UInt64.toNat_add]
  have hone : (1 : UInt64).toNat = 1 := rfl
  rw [hone, Nat.mod_eq_of_lt (by omega), Nat.min_eq_left (by omega)]

/-- What is expected of a node that hears of a head above its own: its height grows, or it asks for
the next transition. -/
def MovesOrAsks (pf : Platform) (clock : UInt64 → UInt64) (s : Node) (head : ProgramHead) : Prop :=
  let s' := handleProgramHead pf clock s head
  s.catalog.localHeight head.programId < s'.catalog.localHeight head.programId ∨
    s'.requests = s.requests ++
      [.finalizedTransition head.programId (s.catalog.localHeight head.programId + 1)]

def CacheUsable (pf : Platform) (s : Node) (p : ProgramId) : Prop :=
  ∀ b, s.loadFinalizedTransition p (s.catalog.localHeight p + 1) = some b →
    Appliable pf p s.ledger b ∧ AppliedRoot pf p s.ledger b

theorem exhausted_of_not_cacheUsable {height : UInt64} (hlag : s.catalog.localHeight p < height)
    (h : ¬ CacheUsable pf s p) : Exhausted pf p s.ledger := by
  intro b hb hr
  apply h
  intro b' hb'
  have hh : b.receipt.receipt.height = s.catalog.localHeight p + 1 :=
    Except.ok.inj (hb.height.symm.trans (ProgramCatalog.expectedHeight_of_lt hlag))
  have he : b = b' := by
    have hst : s.loadFinalizedTransition p b.receipt.receipt.height = some b := hb.stored
    rw [hh, hb'] at hst
    exact (Option.some.inj hst).symm
  exact he ▸ ⟨hb, hr⟩

theorem handleProgramHead_of_none {head : ProgramHead}
    (hlag : s.catalog.localHeight head.programId < head.height)
    (hb : s.loadFinalizedTransition head.programId (s.catalog.localHeight head.programId + 1) = none) :
    handleProgramHead pf clock s head =
      s.request (.finalizedTransition head.programId (s.catalog.localHeight head.programId + 1)) := by
  rw [handleProgramHead, if_neg (UInt64.not_le.mpr hlag), saturatingAdd_one_of_lt hlag]
  simp only [hb]

theorem handleProgramHead_of_some {head : ProgramHead} {b : AggregatedReceiptBundle}
    (hlag : s.catalog.localHeight head.programId < head.height)
    (hb : s.loadFinalizedTransition head.programId (s.catalog.localHeight head.programId + 1) = some b) :
    handleProgramHead pf clock s head =
      (applyAvailableFinalizedTransitions pf clock head.programId s).1 := by
  rw [handleProgramHead, if_neg (UInt64.not_le.mpr hlag), saturatingAdd_one_of_lt hlag]
  simp only [hb]

theorem applyAvailable_of_not_cacheUsable {c : CommitteeCertificate} {head : ProgramHead}
    (hc : s.catalog.committee pf head.programId = .ok (some c))
    (hlag : s.catalog.localHeight head.programId < head.height)
    (hn : ¬ CacheUsable pf s head.programId) :
    (applyAvailableFinalizedTransitions pf clock head.programId s).1.catalog.localHeight head.programId =
        s.catalog.localHeight head.programId ∧
      (applyAvailableFinalizedTransitions pf clock head.programId s).1.requests = s.requests := by
  have hex := exhausted_of_not_cacheUsable hlag hn
  obtain ⟨r, hdone⟩ := @applyLoop_of_exhausted pf clock _ s (2 ^ 64) (Nat.two_pow_pos 64) hex
  have hcat : (applyAvailableFinalizedTransitions pf clock head.programId s).1.ledger.catalog =
      s.ledger.catalog := by
    rcases (applyTurn_done clock hdone).2 with he | hmis
    · exact congrArg Ledger.catalog he
    · exact hmis.catalog
  have hheight := congrArg (fun cat : ProgramCatalog => cat.localHeight head.programId) hcat
  exact ⟨hheight, requests_of_applyTurn_done hc hdone⟩

/-- A lagging node that knows the committee moves or asks exactly if the bundle it has cached for the
next height, if any, can be applied. -/
theorem movesOrAsks_iff {c : CommitteeCertificate} {head : ProgramHead}
    (hc : s.catalog.committee pf head.programId = .ok (some c))
    (hlag : s.catalog.localHeight head.programId < head.height) :
    MovesOrAsks pf clock s head ↔ CacheUsable pf s head.programId := by
  cases hb : s.loadFinalizedTransition head.programId (s.catalog.localHeight head.programId + 1) with
  | none =>
    constructor
    · intro _ b hb'
      rw [hb] at hb'
      cases hb'
    · intro _
      exact Or.inr (by rw [handleProgramHead_of_none hlag hb]; rfl)
  | some b =>
    constructor
    · intro hmove
      by_contra hn
      obtain ⟨hheight, hreq⟩ := @applyAvailable_of_not_cacheUsable pf clock s c head hc hlag hn
      rw [MovesOrAsks, handleProgramHead_of_some hlag hb] at hmove
      rcases hmove with hlt | hreq'
      · rw [hheight] at hlt
        exact UInt64.lt_irrefl _ hlt
      · have hlen := congrArg List.length (hreq.symm.trans hreq')
        simp at hlen
    · intro hu
      obtain ⟨happ, hroot⟩ := hu b hb
      left
      rw [handleProgramHead_of_some hlag hb]
      exact UInt64.lt_iff_toNat_lt.mpr (committedHeight_lt_applyAvailable happ hroot)

end Heads

section Sample

instance (pf : Platform) (clock : UInt64 → UInt64) (s : Node) (head : ProgramHead) :
    Decidable (MovesOrAsks pf clock s head) := inferInstanceAs (Decidable (_ ∨ _))

def sampleHead : ProgramHead := ⟨sampleProgram, 1, smtEmpty⟩

def sampleCached : Option Node :=
  (run (step sampleRuntime) (sampleStart 2) (sampleSetup (sampleCommittee sampleProgram [1] 1))).bind fun s =>
    publishedBundles.head?.map fun b => { s with finalizedStore := s.finalizedStore.put b }

theorem movesOrAsks_iff_sample :
    ∃ s, sampleCached = some s ∧
      (s.loadFinalizedTransition sampleProgram (s.catalog.localHeight sampleProgram + 1)).isSome ∧
      s.catalog.committee sampleRuntime sampleProgram = .ok (some (sampleCommittee sampleProgram [1] 1)) ∧
      s.catalog.localHeight sampleProgram < sampleHead.height ∧
      MovesOrAsks sampleRuntime (fun _ => 0) s sampleHead := by
  have hrun : (sampleCached.any fun s =>
        s.catalog.committee sampleRuntime sampleProgram =
          .ok (some (sampleCommittee sampleProgram [1] 1)) ∧
        s.catalog.localHeight sampleProgram < sampleHead.height ∧
        (s.loadFinalizedTransition sampleProgram (s.catalog.localHeight sampleProgram + 1)).any fun b =>
          (s.ledger.catalog.committee sampleRuntime sampleProgram = .ok (some b.committee) ∧
            s.ledger.catalog.expectedHeight sampleProgram = .ok b.receipt.receipt.height ∧
            s.ledger.finalized.get (heightKey sampleProgram b.receipt.receipt.height) = some b ∧
            verifyAggregatedReceipt sampleRuntime b.receipt b.committee = .ok ()) ∧
          (b.receipt.receipt.stateRootIn = s.ledger.root sampleRuntime sampleProgram ∧
            stateWritesDigest sampleRuntime b.stateWrites = b.receipt.receipt.writeDigest ∧
            computeRootAfterWrites sampleRuntime s.ledger.states sampleProgram b.stateWrites =
              b.receipt.receipt.stateRootOut) ∧
          (s.ledger.states.applyStateWrites sampleProgram b.stateWrites).sparseRootScoped sampleProgram
            sampleRuntime = b.receipt.receipt.stateRootOut) = true := by decide +kernel
  obtain ⟨s, hs, hc, hlag, hcached⟩ := exists_of_any hrun
  obtain ⟨b, hb, ⟨hcommittee, hheight, hstored, hverified⟩, ⟨hin, hdigest, hout⟩, hroot⟩ := exists_of_any hcached
  have hu : CacheUsable sampleRuntime s sampleProgram := by
    intro b' hb'
    cases hb.symm.trans hb'
    exact ⟨⟨hcommittee, hheight, hstored, hverified, hin, hdigest, hout⟩, hroot⟩
  exact ⟨s, hs, by rw [hb]; rfl, hc, hlag, (@movesOrAsks_iff _ _ s _ sampleHead hc hlag).mpr hu⟩

/-- A bundle of another committee that arrives before the manifest stays cached. With the manifest the
node hears of the first height and neither moves nor asks. -/
theorem cached_bundle_blocks_head :
    ¬ ∀ (ops : List Op) (s : Node) (c : CommitteeCertificate) (head : ProgramHead),
      run (step sampleRuntime) (sampleStart 2) ops = some s →
      s.catalog.committee sampleRuntime head.programId = .ok (some c) →
      s.catalog.localHeight head.programId < head.height →
      MovesOrAsks sampleRuntime (fun _ => 0) s head := by
  intro hall
  let C := sampleCommittee sampleProgram [1] 1
  let foreign := (publishedBundles.take 1).map fun b =>
    { b with committee := sampleCommittee sampleProgram [3] 1 }
  let ops := foreign.map (fun b => Op.deliver (fun _ => 0) (.aggregatedReceipt b)) ++ sampleSetup C
  have hrun : ((run (step sampleRuntime) (sampleStart 2) ops).any fun s =>
      s.catalog.committee sampleRuntime sampleHead.programId = .ok (some C) ∧
      s.catalog.localHeight sampleHead.programId < sampleHead.height ∧
      ¬ MovesOrAsks sampleRuntime (fun _ => 0) s sampleHead) = true := by decide +kernel
  obtain ⟨s, hs, hc, hlag, hbad⟩ := exists_of_any hrun
  exact hbad (hall ops s C sampleHead hs hc hlag)

end Sample

end Onvm
