import Onvm.CommittedChain

/-! Committed history: the bundles kept for the committed heights, and the
program state they lead to when they are applied in order to an empty one. -/

namespace Onvm

open ByteString OrderedStore Runs Std

/-- The state that the bundles for the first heights of `p` lead to. -/
def Ledger.replay (L : Ledger) (p : ProgramId) : Nat → Option (ByteTree Bytes)
  | 0 => some ∅
  | n + 1 =>
    (L.replay p n).bind fun m =>
      (L.finalized.get (heightKey p (UInt64.ofNat (n + 1)))).map fun b => writeEntries m b.stateWrites

/-- The bundle kept for `c` is one that `c` can be checked against. -/
structure Ledger.Recalls (pf : Platform) (L : Ledger) (c : StateCommitment) (b : AggregatedReceiptBundle) :
    Prop where
  stored : L.finalized.get (heightKey c.programId c.height) = some b
  committee : ∀ C, L.catalog.committee pf c.programId = .ok C → C = some b.committee
  verified : verifyAggregatedReceipt pf b.receipt b.committee = .ok ()
  digest : stateWritesDigest pf b.stateWrites = b.receipt.receipt.writeDigest
  root : b.receipt.receipt.stateRootOut = c.root

/-- Every committed height can be replayed, and the last one gives the program's state. -/
structure Replayable (pf : Platform) (L : Ledger) : Prop where
  recalls : ∀ p height c, L.catalog.getStateCommitment p height = some c → ∃ b, L.Recalls pf c b
  full : ∀ p (height : UInt64), 1 ≤ height.toNat → height.toNat ≤ L.catalog.committedHeight p →
    (L.catalog.getStateCommitment p height).isSome
  current : ∀ p, L.replay p (L.catalog.committedHeight p) = some (L.states.entries p)
  roots : ∀ p (height : UInt64) c, L.catalog.getStateCommitment p height = some c →
    ∃ m, L.replay p height.toNat = some m ∧ pf.sparseRoot m.toList = c.root

section Replay

variable {pf : Platform} {p q : ProgramId} {L L' : Ledger} {b : AggregatedReceiptBundle}

theorem replay_congr {n : Nat}
    (h : ∀ k < n, (L'.finalized.get (heightKey p (UInt64.ofNat (k + 1)))).map (·.stateWrites) =
      (L.finalized.get (heightKey p (UInt64.ofNat (k + 1)))).map (·.stateWrites)) :
    L'.replay p n = L.replay p n := by
  induction n with
  | zero => rfl
  | succ n ih =>
    have hmap : ∀ (K : Ledger) (m : ByteTree Bytes),
        (K.finalized.get (heightKey p (UInt64.ofNat (n + 1)))).map (fun b => writeEntries m b.stateWrites) =
        ((K.finalized.get (heightKey p (UInt64.ofNat (n + 1)))).map (·.stateWrites)).map (writeEntries m) :=
      fun K m => (Option.map_map ..).symm
    simp only [Ledger.replay, ih fun k hk => h k (by omega), hmap, h n (by omega)]

theorem replay_of_finalized (h : L'.finalized = L.finalized) (p : ProgramId) (n : Nat) :
    L'.replay p n = L.replay p n :=
  replay_congr fun _ _ => by rw [h]

theorem ProgramCatalog.committedHeight_lt (cat : ProgramCatalog) (p : ProgramId) :
    cat.committedHeight p < 2 ^ 64 := UInt64.toNat_lt _

theorem Replayable.replay_put (hL : Replayable pf L)
    (hsame : ∀ c x, L.catalog.getStateCommitment b.receipt.receipt.programId b.receipt.receipt.height =
      some c → L.Recalls pf c x → b.stateWrites = x.stateWrites) {n : Nat}
    (hn : n ≤ L.catalog.committedHeight p) :
    Ledger.replay { L with finalized := L.finalized.put b } p n = L.replay p n := by
  refine replay_congr fun k hk => ?_
  have hlt := L.catalog.committedHeight_lt p
  dsimp only
  rw [Keyed.get_put]
  split
  · rename_i hkey
    obtain ⟨hp, hh⟩ := heightKey_inj hkey
    have hto : (UInt64.ofNat (k + 1)).toNat = k + 1 := by
      rw [UInt64.toNat_ofNat']
      exact Nat.mod_eq_of_lt (by omega)
    obtain ⟨c, hc⟩ := Option.isSome_iff_exists.mp
      (hL.full p (UInt64.ofNat (k + 1)) (by omega) (by omega))
    obtain ⟨x, hx⟩ := hL.recalls p _ c hc
    obtain ⟨hcp, hch⟩ := ProgramCatalog.getStateCommitment_eq_some hc
    have hst := hx.stored
    rw [hcp, hch] at hst
    rw [hst, Option.map_some, Option.map_some, hsame c x (by rw [hp, hh]; exact hc) hx]
  · rfl

theorem Replayable.put (hL : Replayable pf L)
    (hsame : ∀ c x, L.catalog.getStateCommitment b.receipt.receipt.programId b.receipt.receipt.height =
      some c → L.Recalls pf c x → b.receipt.receipt = x.receipt.receipt ∧ b.stateWrites = x.stateWrites ∧
        b.committee = x.committee ∧ verifyAggregatedReceipt pf b.receipt b.committee = .ok ()) :
    Replayable pf { L with finalized := L.finalized.put b } := by
  have hwrites : ∀ c x, L.catalog.getStateCommitment b.receipt.receipt.programId b.receipt.receipt.height =
      some c → L.Recalls pf c x → b.stateWrites = x.stateWrites := fun c x hc hx => (hsame c x hc hx).2.1
  constructor
  case recalls =>
    intro p height c hc
    obtain ⟨x, hx⟩ := hL.recalls p height c hc
    by_cases hkey : bundleKey b = heightKey c.programId c.height
    · obtain ⟨hp, hh⟩ := heightKey_inj hkey
      obtain ⟨hcp, hch⟩ := ProgramCatalog.getStateCommitment_eq_some hc
      obtain ⟨hr, hw, hcom, hv⟩ := hsame c x (by rw [hp, hh, hcp, hch]; exact hc) hx
      refine ⟨b, ?_, ?_, hv, ?_, ?_⟩
      · rw [← hkey]
        exact Keyed.get_put_self _ b
      · rw [hcom]
        exact hx.committee
      · rw [hw, hr]
        exact hx.digest
      · rw [hr]
        exact hx.root
    · exact ⟨x, (Keyed.get_put_of_ne _ hkey).trans hx.stored, hx.committee, hx.verified, hx.digest, hx.root⟩
  case full => exact hL.full
  case current =>
    intro p
    rw [hL.replay_put hwrites (Nat.le_refl _)]
    exact hL.current p
  case roots =>
    intro p height c hc
    rw [hL.replay_put hwrites (ProgramCatalog.toNat_le_committedHeight (by rw [hc]; rfl))]
    exact hL.roots p height c hc

theorem Replayable.commitStep (hL : Replayable pf L) (h : CommitStep pf p L L') : Replayable pf L' := by
  have hheight := h.committedHeight
  obtain ⟨b, now, hb, hr⟩ := h
  have hto := ProgramCatalog.toNat_of_expectedHeight hb.height
  have hlt := L.catalog.committedHeight_lt p
  have hofNat : UInt64.ofNat (L.catalog.committedHeight p + 1) = b.receipt.receipt.height := by
    rw [← hto, UInt64.ofNat_toNat]
  have hreplay : ∀ q n, (L.commit p b now).replay q n = L.replay q n := replay_of_finalized rfl
  have hcurrent : L.replay p (L.catalog.committedHeight p + 1) =
      some ((L.commit p b now).states.entries p) := by
    rw [Ledger.replay, hL.current p, Option.bind_some, hofNat, hb.stored, Option.map_some, Ledger.commit,
      StateStore.entries_applyStateWrites]
  constructor
  case recalls =>
    intro q height c hc
    rw [Ledger.commit, ProgramCatalog.getStateCommitment_storeStateCommitment] at hc
    split at hc
    · cases hc
      refine ⟨b, hb.stored, fun C hC => ?_, hb.verified, hb.digest, rfl⟩
      exact Except.ok.inj (hC.symm.trans hb.committee)
    · obtain ⟨x, hx⟩ := hL.recalls q height c hc
      exact ⟨x, hx.stored, hx.committee, hx.verified, hx.digest, hx.root⟩
  case full =>
    intro q height h1 hle
    have hkept : (L.catalog.getStateCommitment q height).isSome →
        ((L.commit p b now).catalog.getStateCommitment q height).isSome := by
      intro hs
      obtain ⟨c, hc⟩ := Option.isSome_iff_exists.mp hs
      rw [hb.getStateCommitment_commit hc]
      rfl
    by_cases hq : p = q
    · subst hq
      rw [hheight] at hle
      by_cases hlast : height = b.receipt.receipt.height
      · rw [hlast, Ledger.commit, ProgramCatalog.getStateCommitment_storeStateCommitment, if_pos ⟨rfl, rfl⟩]
        rfl
      · have hne : height.toNat ≠ b.receipt.receipt.height.toNat := fun he => hlast (UInt64.toNat_inj.mp he)
        exact hkept (hL.full p height h1 (by omega))
    · rw [ProgramCatalog.committedHeight_congr (Ledger.latest_commit_of_ne hq b now)] at hle
      exact hkept (hL.full q height h1 hle)
  case current =>
    intro q
    rw [hreplay]
    by_cases hq : p = q
    · subst hq
      rw [hheight]
      exact hcurrent
    · rw [ProgramCatalog.committedHeight_congr (Ledger.latest_commit_of_ne hq b now), hL.current q,
        Ledger.commit, StateStore.entries_applyStateWrites_of_ne _ _ hq]
  case roots =>
    intro q height c hc
    rw [hreplay]
    rw [Ledger.commit, ProgramCatalog.getStateCommitment_storeStateCommitment] at hc
    split at hc
    · rename_i he
      obtain ⟨hp, hh⟩ := he
      dsimp only at hp hh
      subst hp hh
      cases hc
      refine ⟨_, by rw [hto]; exact hcurrent, ?_⟩
      rw [StateStore.toList_entries]
      exact hr
    · exact hL.roots q height c hc

theorem Replayable.commits (hL : Replayable pf L) (h : Relation.ReflTransGen (CommitStep pf p) L L') :
    Replayable pf L' := by
  induction h with
  | refl => exact hL
  | tail _ hstep ih => exact ih.commitStep hstep

theorem committee_of_verifyInitialSync {cat : ProgramCatalog} {m : ProgramManifest}
    {C : CommitteeCertificate} (hsync : cat.verifyInitialSync pf m = .ok ())
    (hc : cat.committee pf m.programId = .ok (some C)) : m.committee = some C := by
  obtain ⟨old, hold, hC⟩ := ProgramCatalog.committee_eq_ok_some hc
  rw [ProgramCatalog.verifyInitialSync, hold] at hsync
  simp only [hC] at hsync
  split at hsync
  · cases hsync
  split at hsync
  · cases hsync
  rename_i hne
  split at hsync
  · cases hsync
  rename_i hnone
  cases hm : m.committee with
  | none => exact absurd ⟨rfl, by rw [hm]; rfl⟩ hnone
  | some C' =>
    by_contra hd
    exact hne ⟨rfl, by rw [hm]; rfl, by rw [hm]; exact fun he => hd he.symm⟩

theorem committee_storeManifest {cat : ProgramCatalog} {m : ProgramManifest} {C : CommitteeCertificate}
    (hm : m.committee = some C) {C' : Option CommitteeCertificate}
    (h : (cat.storeManifest m).committee pf m.programId = .ok C') : C' = some C := by
  rw [ProgramCatalog.committee, ProgramCatalog.getManifest_storeManifest] at h
  cases hd : ProgramManifest.decode m.encode with
  | none => rw [hd] at h; cases h
  | some m' =>
    rw [hd] at h
    have he : m'.committee = C' := Except.ok.inj h
    rw [← he]
    exact ProgramManifest.committee_of_decode_encode hm hd

theorem Replayable.storeManifest (hL : Replayable pf L) {m : ProgramManifest}
    (hsync : L.catalog.verifyInitialSync pf m = .ok ()) :
    Replayable pf { L with catalog := L.catalog.storeManifest m } := by
  have hreplay : ∀ p n, Ledger.replay { L with catalog := L.catalog.storeManifest m } p n = L.replay p n :=
    replay_of_finalized rfl
  constructor
  case recalls =>
    intro p height c hc
    obtain ⟨x, hx⟩ := hL.recalls p height c hc
    refine ⟨x, hx.stored, fun C hC => ?_, hx.verified, hx.digest, hx.root⟩
    by_cases hp : m.programId = c.programId
    · rw [← hp] at hC
      cases hold : L.catalog.committee pf m.programId with
      | error e =>
        rw [ProgramCatalog.committee] at hold
        rw [ProgramCatalog.verifyInitialSync] at hsync
        cases hg : L.catalog.getManifest pf m.programId with
        | error e' => rw [hg] at hsync; cases hsync
        | ok o => rw [hg] at hold; cases hold
      | ok old =>
        have ho := hx.committee old (hp ▸ hold)
        rw [ho] at hold
        exact committee_storeManifest (committee_of_verifyInitialSync hsync hold) hC
    · rw [ProgramCatalog.committee, ProgramCatalog.getManifest_storeManifest_of_ne hp] at hC
      exact hx.committee C hC
  case full => exact hL.full
  case current =>
    intro p
    rw [hreplay]
    exact hL.current p
  case roots =>
    intro p height c hc
    rw [hreplay]
    exact hL.roots p height c hc

end Replay

section Steps

variable {pf : Platform} {K : List Bytes} {s s' : Node} {op : Op} {L' : Ledger}

def Op.transitionsOnly : Op → Bool
  | .job .. => false
  | .deliver _ (.stateResponse _) => false
  | _ => true

/-- A bundle handled for a committed height has the receipt and the writes of the one kept for it. -/
def Consistent (pf : Platform) (s : Node) (op : Op) : Prop :=
  ∀ b ∈ handledBundle pf s op,
    (s.catalog.getStateCommitment b.receipt.receipt.programId b.receipt.receipt.height).isSome →
    ∀ x ∈ s.loadFinalizedTransition b.receipt.receipt.programId b.receipt.receipt.height,
      b.receipt.receipt = x.receipt.receipt ∧ b.stateWrites = x.stateWrites

instance (pf : Platform) (s : Node) (op : Op) : Decidable (Consistent pf s op) :=
  inferInstanceAs (Decidable (∀ b ∈ handledBundle pf s op, _ → ∀ x ∈ s.loadFinalizedTransition _ _, _))

theorem Replayable.ledgerChange (hK : Set.InjOn pf.hashBytes { k | k ∈ K }) (hs : Replayable pf s.ledger)
    (hkeys : L'.states.KeysIn K) (hcons : Consistent pf s op) (hop : op.transitionsOnly = true)
    (h : LedgerChange pf s op L') : Replayable pf L' := by
  cases h with
  | same => exact hs
  | manifest m _ hsync h =>
    refine Replayable.commits ?_ (h.commits hK hkeys)
    exact hs.storeManifest hsync
  | bundle b hb h =>
    have hold : ∀ c x, s.catalog.getStateCommitment b.receipt.receipt.programId b.receipt.receipt.height =
        some c → s.ledger.Recalls pf c x →
        b.receipt.receipt = x.receipt.receipt ∧ b.stateWrites = x.stateWrites := by
      intro c x hc hx
      obtain ⟨hcp, hch⟩ := ProgramCatalog.getStateCommitment_eq_some hc
      have hst := hx.stored
      rw [hcp, hch] at hst
      exact hcons b hb (by rw [hc]; rfl) x hst
    cases h with
    | ignored => exact hs
    | cached hnone =>
      refine hs.put fun c x hc hx => ?_
      obtain ⟨hcp, -⟩ := ProgramCatalog.getStateCommitment_eq_some hc
      have hx' := hx.committee none (by rw [hcp]; exact hnone)
      cases hx'
    | applied hcom hv h =>
      refine Replayable.commits ?_ (h.commits hK hkeys)
      refine hs.put fun c x hc hx => ?_
      obtain ⟨hcp, -⟩ := ProgramCatalog.getStateCommitment_eq_some hc
      have hsome := hx.committee (some b.committee) (by rw [hcp]; exact hcom)
      obtain ⟨hr, hw⟩ := hold c x hc hx
      exact ⟨hr, hw, Option.some.inj hsome, hv⟩
  | head p h => exact hs.commits (h.commits hK hkeys)
  | respond clock r hop' _ => rw [hop'] at hop; cases hop
  | job p input maxFuel world salt now hop' => rw [hop'] at hop; cases hop

theorem replayable_of_fresh (h₀ : s.Fresh) : Replayable pf s.ledger := by
  have hnone : ∀ (p : ProgramId) (height : UInt64), s.ledger.catalog.getStateCommitment p height = none := by
    intro p height
    rw [h₀]
    exact Keyed.get_empty _
  have hzero : ∀ p, s.ledger.catalog.committedHeight p = 0 := by
    intro p
    have hl : s.ledger.catalog.latestStateCommitment p = none := by
      rw [h₀]
      exact ProgramCatalog.latestStateCommitment_empty
    exact ProgramCatalog.committedHeight_of_none hl
  constructor
  case recalls => intro p height c hc; rw [hnone] at hc; cases hc
  case full => intro p height h1 hle; rw [hzero] at hle; omega
  case current =>
    intro p
    rw [hzero, h₀]
    exact congrArg some (StateStore.entries_empty p).symm
  case roots => intro p height c hc; rw [hnone] at hc; cases hc

end Steps

/-- In every run of finalized transitions without hash collisions in which no bundle comes in for a
committed height with another receipt or other writes than the one kept, the node keeps for every
commitment a bundle that verifies, matches its digest and has the committed root, and replaying the
bundles from an empty state gives a state of that root, the current state at the last height. -/
theorem history_replayable {pf : Platform} {K : List Bytes} {s₀ s : Node} {ops : List Op}
    (h₀ : s₀.Fresh) (hK : Set.InjOn pf.hashBytes { k | k ∈ K })
    (hops : ∀ op ∈ ops, op.transitionsOnly = true)
    (hkeys : Along (step pf) (KeysStay pf K) s₀ ops)
    (hcons : Along (step pf) (Consistent pf) s₀ ops) (hrun : run (step pf) s₀ ops = some s)
    {p : ProgramId} {height : UInt64} {c : StateCommitment}
    (hc : s.catalog.getStateCommitment p height = some c) :
    (∃ b, s.loadFinalizedTransition p height = some b ∧
      (∀ C, s.catalog.committee pf p = .ok C → C = some b.committee) ∧
      verifyAggregatedReceipt pf b.receipt b.committee = .ok () ∧
      stateWritesDigest pf b.stateWrites = b.receipt.receipt.writeDigest ∧
      b.receipt.receipt.stateRootOut = c.root) ∧
    ∃ m, s.ledger.replay p height.toNat = some m ∧ pf.sparseRoot m.toList = c.root ∧
      (s.catalog.latestStateCommitment p = some c → m = s.states.entries p) := by
  have hinv : Replayable pf s.ledger := invariant_run (I := fun s => Replayable pf s.ledger)
    (fun _ _ _ hs hh h => hs.ledgerChange hK (hh.1.1 _ h) hh.1.2 hh.2 (step_ledger h))
    (replayable_of_fresh h₀) ((hkeys.and hcons).and (along_of_forall hops)) hrun
  obtain ⟨hcp, hch⟩ := ProgramCatalog.getStateCommitment_eq_some hc
  refine ⟨?_, ?_⟩
  · obtain ⟨b, hb⟩ := hinv.recalls p height c hc
    have hst := hb.stored
    have hcom := hb.committee
    rw [hcp] at hcom
    rw [hcp, hch] at hst
    exact ⟨b, hst, hcom, hb.verified, hb.digest, hb.root⟩
  · obtain ⟨m, hm, hroot⟩ := hinv.roots p height c hc
    refine ⟨m, hm, hroot, fun hlatest => ?_⟩
    have hcur := hinv.current p
    have hn : s.ledger.catalog.committedHeight p = height.toNat := by
      have hl : s.ledger.catalog.latestStateCommitment p = some c := hlatest
      rw [ProgramCatalog.committedHeight_of_some hl, ← hch]
    rw [hn, hm] at hcur
    exact Option.some.inj hcur

section Sample

theorem history_replayable_sample :
    let ops := twoHeights ++ publishedBundles.map fun b => .deliver (fun _ => 0) (.aggregatedReceipt b)
    ∃ s c, run (step sampleRuntime) (sampleStart 1) ops = some s ∧
      s.catalog.getStateCommitment sampleProgram 2 = some c ∧
      (∃ b, s.loadFinalizedTransition sampleProgram 2 = some b ∧
        stateWritesDigest sampleRuntime b.stateWrites = b.receipt.receipt.writeDigest ∧
        b.receipt.receipt.stateRootOut = c.root) ∧
      ∃ m, s.ledger.replay sampleProgram 2 = some m ∧ sampleRuntime.sparseRoot m.toList = c.root := by
  intro ops
  have hrun : ((run (step sampleRuntime) (sampleStart 1) ops).any fun s =>
      (s.catalog.getStateCommitment sampleProgram 2).isSome = true) = true := by decide +kernel
  obtain ⟨s, hs, hsome⟩ := exists_of_any hrun
  obtain ⟨c, hc⟩ := Option.isSome_iff_exists.mp hsome
  obtain ⟨⟨b, hb, -, -, hd, hroot⟩, m, hm, hmroot, -⟩ :=
    @history_replayable sampleRuntime [[1]] (sampleStart 1) s ops (sampleStart_fresh 1) (by simp)
      (by decide +kernel) (by decide +kernel) (by decide +kernel) hs sampleProgram 2 c hc
  exact ⟨s, c, hs, hc, ⟨b, hb, hd, hroot⟩, m, hm, hmroot⟩

/-- A peer sends a published bundle again with other writes: it replaces the one kept for its height,
and the digest no longer matches. -/
theorem handleFinalizedReceipt_replaces_bundle :
    ¬ ∀ (ops : List Op) (s : Node), (∀ op ∈ ops, op.transitionsOnly = true) →
      Along (step sampleRuntime) (KeysStay sampleRuntime [[1]]) (sampleStart 1) ops →
      run (step sampleRuntime) (sampleStart 1) ops = some s →
      ∀ p height c, s.catalog.getStateCommitment p height = some c →
        ∃ b, s.loadFinalizedTransition p height = some b ∧
          stateWritesDigest sampleRuntime b.stateWrites = b.receipt.receipt.writeDigest := by
  intro hall
  let ops := twoHeights ++ publishedBundles.map fun b =>
    .deliver (fun _ => 0) (.aggregatedReceipt { b with stateWrites := [⟨[2], none⟩] })
  have hrun : ((run (step sampleRuntime) (sampleStart 1) ops).any fun s =>
      (s.catalog.getStateCommitment sampleProgram 1).isSome ∧
      ∀ b ∈ s.loadFinalizedTransition sampleProgram 1,
        stateWritesDigest sampleRuntime b.stateWrites ≠ b.receipt.receipt.writeDigest) = true := by
    decide +kernel
  obtain ⟨s, hs, hsome, hbad⟩ := exists_of_any hrun
  obtain ⟨c, hc⟩ := Option.isSome_iff_exists.mp hsome
  obtain ⟨b, hb, hd⟩ := hall ops s (by decide +kernel) (by decide +kernel) hs sampleProgram 1 c hc
  exact hbad b hb hd

end Sample

end Onvm
