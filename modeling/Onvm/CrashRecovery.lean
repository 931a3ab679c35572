import Onvm.ApplySteps
import Onvm.DeliveryOrder

/-! Stopping inside the catch-up loop. After a restart the loop starts the interrupted batch over,
but it does so only if it finds the root from before the batch. -/

namespace Onvm

open ByteString OrderedStore Runs Std

section Keys

variable {pf : Platform} {p : ProgramId} {K : Set Bytes} {L L' : Ledger} {b : AggregatedReceiptBundle}

def ledgerKeys (p : ProgramId) (L : Ledger) : Set Bytes :=
  { k | k ∈ L.states.entries p ∨ ∃ height b, L.finalized.get (heightKey p height) = some b ∧
    ∃ w ∈ b.stateWrites, w.key = k }

structure KeysWithin (p : ProgramId) (K : Set Bytes) (L : Ledger) : Prop where
  entries : ∀ k ∈ L.states.entries p, k ∈ K
  bundles : ∀ height b, L.finalized.get (heightKey p height) = some b → ∀ w ∈ b.stateWrites, w.key ∈ K

theorem keysWithin_ledgerKeys (p : ProgramId) (L : Ledger) : KeysWithin p (ledgerKeys p L) L :=
  ⟨fun _ hk => Or.inl hk, fun height b hb w hw => Or.inr ⟨height, b, hb, w, hw, rfl⟩⟩

theorem KeysWithin.applyStateWrites (h : KeysWithin p K L) {ws : List StateWrite}
    (hw : ∀ w ∈ ws, w.key ∈ K) : ∀ k ∈ (L.states.applyStateWrites p ws).entries p, k ∈ K := by
  intro k hk
  rw [StateStore.entries_applyStateWrites] at hk
  rcases mem_writeEntries hk with he | ⟨w, hmem, rfl⟩
  · exact h.entries k he
  · exact hw w hmem

theorem KeysWithin.appliedRoot (hK : Set.InjOn pf.hashBytes K) (h : KeysWithin p K L)
    (hb : Appliable pf p L b) : AppliedRoot pf p L b := by
  rw [AppliedRoot, StateStore.sparseRootScoped_applyStateWrites L.states p pf hK
    (h.applyStateWrites (h.bundles _ b hb.stored))]
  exact hb.rootOut

theorem KeysWithin.commits (h : KeysWithin p K L)
    (hpath : Relation.ReflTransGen (CommitStep pf p) L L') : KeysWithin p K L' := by
  induction hpath with
  | refl => exact h
  | tail _ hstep ih =>
    obtain ⟨b, now, hb, -⟩ := hstep
    exact ⟨ih.applyStateWrites (ih.bundles _ b hb.stored), ih.bundles⟩

theorem not_misapplied (hK : Set.InjOn pf.hashBytes K) (h : KeysWithin p K L) :
    ¬ Misapplied pf p L L' := by
  rintro ⟨b, hb, hr⟩
  exact hr (h.appliedRoot hK hb)

theorem KeysWithin.caughtUp (hK : Set.InjOn pf.hashBytes K) (h : KeysWithin p K L)
    (hcu : CaughtUp pf p L L') :
    Relation.ReflTransGen (CommitStep pf p) L L' ∧ Exhausted pf p L' := by
  obtain ⟨M, hpath, hex, rfl | hmis⟩ := hcu
  · exact ⟨hpath, hex⟩
  · exact absurd hmis (not_misapplied hK (h.commits hpath))

end Keys

section Results

variable {pf : Platform} {p : ProgramId} {L L' M M' : Ledger} {b : AggregatedReceiptBundle}

/-- Two ledgers that differ, for the program, at most in the times of their commitments. -/
structure Alike (p : ProgramId) (L L' : Ledger) : Prop where
  entries : L'.states.entries p = L.states.entries p
  commitments : ∀ height, (L'.catalog.getStateCommitment p height).map (·.root) =
    (L.catalog.getStateCommitment p height).map (·.root)
  manifests : L'.catalog.manifests = L.catalog.manifests
  finalized : L'.finalized = L.finalized

theorem Alike.refl (p : ProgramId) (L : Ledger) : Alike p L L := ⟨rfl, fun _ => rfl, rfl, rfl⟩

theorem Alike.symm (h : Alike p L L') : Alike p L' L :=
  ⟨h.entries.symm, fun height => (h.commitments height).symm, h.manifests.symm, h.finalized.symm⟩

theorem Alike.trans (h : Alike p L L') (h' : Alike p L' M) : Alike p L M :=
  ⟨h'.entries.trans h.entries, fun height => (h'.commitments height).trans (h.commitments height),
    h'.manifests.trans h.manifests, h'.finalized.trans h.finalized⟩

theorem Alike.latest (h : Alike p L L') :
    (L'.catalog.latestStateCommitment p).map (fun c => (c.height, c.root)) =
      (L.catalog.latestStateCommitment p).map fun c => (c.height, c.root) := by
  have hsome : ∀ height, (L'.catalog.getStateCommitment p height).isSome =
      (L.catalog.getStateCommitment p height).isSome := by
    intro height
    have hh := congrArg Option.isSome (h.commitments height)
    rwa [Option.isSome_map, Option.isSome_map] at hh
  cases hl : L.catalog.latestStateCommitment p with
  | none =>
    cases hl' : L'.catalog.latestStateCommitment p with
    | none => rfl
    | some c =>
      have hc := (ProgramCatalog.latestStateCommitment_eq_some hl').2.1
      have hh := hsome c.height
      rw [hc, ProgramCatalog.latestStateCommitment_eq_none hl] at hh
      cases hh
  | some c =>
    obtain ⟨-, hc, hmax⟩ := ProgramCatalog.latestStateCommitment_eq_some hl
    have hroot := h.commitments c.height
    rw [hc, Option.map_some, Option.map_eq_some_iff] at hroot
    obtain ⟨c', hc', hr⟩ := hroot
    have hheight := (ProgramCatalog.getStateCommitment_eq_some hc').2
    have hl' : L'.catalog.latestStateCommitment p = some c' := by
      apply ProgramCatalog.latestStateCommitment_of_getStateCommitment
      · rw [hheight]
        exact hc'
      · intro k hk
        rw [hheight]
        exact hmax k (by rw [← hsome]; exact hk)
    rw [hl', Option.map_some, Option.map_some, hheight, hr]

theorem ProgramCatalog.expectedHeight_congr {cat cat' : ProgramCatalog}
    (h : (cat'.latestStateCommitment p).map (fun c => (c.height, c.root)) =
      (cat.latestStateCommitment p).map fun c => (c.height, c.root)) :
    cat'.expectedHeight p = cat.expectedHeight p := by
  rw [expectedHeight, expectedHeight]
  cases hl : cat.latestStateCommitment p with
  | none =>
    rw [hl, Option.map_none, Option.map_eq_none_iff] at h
    rw [h]
  | some c =>
    rw [hl, Option.map_some, Option.map_eq_some_iff] at h
    obtain ⟨c', hc', he⟩ := h
    simp only [hc', (Prod.mk.inj he).1]

theorem Alike.appliable (h : Alike p L L') (hb : Appliable pf p L b) : Appliable pf p L' b := by
  refine ⟨(ProgramCatalog.committee_congr h.manifests).trans hb.committee,
    (ProgramCatalog.expectedHeight_congr h.latest).trans hb.height, by rw [h.finalized]; exact hb.stored,
    hb.verified, hb.rootIn.trans ?_, hb.digest, ?_⟩
  · exact (L'.states.sparseRootScoped_congr pf h.entries).symm
  · rw [StateStore.computeRootAfterWrites_eq, h.entries]
    exact hb.rootOut

theorem Alike.appliedRoot (h : Alike p L L') (hr : AppliedRoot pf p L b) : AppliedRoot pf p L' b := by
  refine Eq.trans ?_ hr
  apply StateStore.sparseRootScoped_congr
  rw [StateStore.entries_applyStateWrites, StateStore.entries_applyStateWrites, h.entries]

theorem Alike.commit (h : Alike p L L') (b : AggregatedReceiptBundle) (now now' : UInt64) :
    Alike p (L.commit p b now) (L'.commit p b now') := by
  refine ⟨?_, fun height => ?_, h.manifests, h.finalized⟩
  · rw [Ledger.commit, Ledger.commit]
    simp only [StateStore.entries_applyStateWrites, h.entries]
  · rw [Ledger.commit, Ledger.commit]
    simp only [ProgramCatalog.getStateCommitment_storeStateCommitment]
    split_ifs
    · rfl
    · exact h.commitments height

theorem Alike.exhausted (h : Alike p L L') (hex : Exhausted pf p L) : Exhausted pf p L' :=
  fun b hb hr => hex b (h.symm.appliable hb) (h.symm.appliedRoot hr)

theorem Alike.commits (h : Alike p L L') (hM : Relation.ReflTransGen (CommitStep pf p) L M)
    (hex : Exhausted pf p M) (hM' : Relation.ReflTransGen (CommitStep pf p) L' M')
    (hex' : Exhausted pf p M') : Alike p M M' := by
  induction hM using Relation.ReflTransGen.head_induction_on generalizing L' with
  | refl =>
    rcases Relation.ReflTransGen.cases_head hM' with rfl | ⟨L₁, hstep, -⟩
    · exact h
    · exact absurd (h.exhausted hex) hstep.not_exhausted
  | head hstep _ ih =>
    obtain ⟨b, now, hb, hr⟩ := hstep
    rcases Relation.ReflTransGen.cases_head hM' with rfl | ⟨L₁, hstep', hrest⟩
    · exact absurd (h.appliedRoot hr) (hex' b (h.appliable hb))
    · obtain ⟨b', now', hb', -⟩ := hstep'
      have he := hb'.unique (h.appliable hb)
      subst he
      exact ih (h.commit b' now now') hrest

theorem exists_commits (pf : Platform) (p : ProgramId) (L : Ledger) :
    ∃ E, Relation.ReflTransGen (CommitStep pf p) L E ∧ Exhausted pf p E := by
  generalize hn : 2 ^ 64 - L.catalog.committedHeight p = n
  induction n generalizing L with
  | zero =>
    have hlt : L.catalog.committedHeight p < 2 ^ 64 := UInt64.toNat_lt _
    omega
  | succ n ih =>
    by_cases hex : Exhausted pf p L
    · exact ⟨L, .refl, hex⟩
    · simp only [Exhausted, not_forall, not_not] at hex
      obtain ⟨b, hb, hr⟩ := hex
      have hstep : CommitStep pf p L (L.commit p b 0) := .mk b 0 hb hr
      have hh := hstep.committedHeight
      obtain ⟨E, hE, hex⟩ := ih (L.commit p b 0) (by omega)
      exact ⟨E, .head hstep hE, hex⟩

theorem ProgramCatalog.committedHeight_eq_of_latest {cat cat' : ProgramCatalog}
    (h : (cat'.latestStateCommitment p).map (fun c => (c.height, c.root)) =
      (cat.latestStateCommitment p).map fun c => (c.height, c.root)) :
    cat'.committedHeight p = cat.committedHeight p := by
  cases hl : cat.latestStateCommitment p with
  | none =>
    rw [hl, Option.map_none, Option.map_eq_none_iff] at h
    rw [committedHeight_of_none h, committedHeight_of_none hl]
  | some c =>
    rw [hl, Option.map_some, Option.map_eq_some_iff] at h
    obtain ⟨c', hc', he⟩ := h
    rw [committedHeight_of_some hc', committedHeight_of_some hl, (Prod.mk.inj he).1]

end Results

section Stops

variable {pf : Platform} {clock : UInt64 → UInt64} {p : ProgramId} {s : Node} {L M : Ledger}
  {b : AggregatedReceiptBundle}

/-- The bundle of the expected height, for the committee of the manifest. -/
structure Loaded (pf : Platform) (p : ProgramId) (L : Ledger) (b : AggregatedReceiptBundle) : Prop where
  committee : L.catalog.committee pf p = .ok (some b.committee)
  height : L.catalog.expectedHeight p = .ok b.receipt.receipt.height
  stored : L.finalized.get (heightKey p b.receipt.receipt.height) = some b

/-- A run that stands at a point: `M` is the ledger in which its present turn began. -/
def Stands (pf : Platform) (p : ProgramId) (M : Ledger) (s : Node) : ApplyPoint → Prop
  | .readCommittee => s.ledger = M
  | .readHeight expected => s.ledger = M ∧ M.catalog.committee pf p = .ok (some expected)
  | .loadBundle expected height => s.ledger = M ∧ M.catalog.committee pf p = .ok (some expected) ∧
    M.catalog.expectedHeight p = .ok height
  | .ingest b => s.ledger = M ∧ Loaded pf p M b
  | .readRoot b => s.ledger = M ∧ Loaded pf p M b ∧ verifyAggregatedReceipt pf b.receipt b.committee = .ok ()
  | .predict b root => s.ledger = M ∧ Loaded pf p M b ∧
    verifyAggregatedReceipt pf b.receipt b.committee = .ok () ∧ root = M.root pf p ∧
    b.receipt.receipt.stateRootIn = root ∧
    stateWritesDigest pf b.stateWrites = b.receipt.receipt.writeDigest
  | .write b root rest => Appliable pf p M b ∧ root = M.root pf p ∧ ∃ front,
    b.stateWrites = front ++ rest ∧ s.ledger = { M with states := M.states.applyStateWrites p front }
  | .readApplied b root => Appliable pf p M b ∧ root = M.root pf p ∧
    s.ledger = { M with states := M.states.applyStateWrites p b.stateWrites }
  | .commit b root applied => Appliable pf p M b ∧ root = M.root pf p ∧ AppliedRoot pf p M b ∧
    applied = b.receipt.receipt.stateRootOut ∧
    s.ledger = { M with states := M.states.applyStateWrites p b.stateWrites }
  | .done _ => s.ledger = M ∨ Misapplied pf p M s.ledger

theorem StateStore.applyStateWrites_concat (st : StateStore) (p : ProgramId) (front : List StateWrite)
    (w : StateWrite) :
    st.applyStateWrites p (front ++ [w]) = (st.applyStateWrites p front).applyWrite p w := by
  simp [applyStateWrites, List.foldl_append]

theorem Node.parts_of_ledger {st : StateStore} (h : s.ledger = { M with states := st }) :
    s.states = st ∧ s.ledger.catalog = M.catalog ∧ s.finalizedStore = M.finalized := by
  have hst := congrArg Ledger.states h
  have hcat := congrArg Ledger.catalog h
  have hfin := congrArg Ledger.finalized h
  exact ⟨hst, hcat, hfin⟩

theorem Stands.step {x : ApplyPoint} (h : Stands pf p M s x) :
    ∃ M', (M' = M ∨ CommitStep pf p M M') ∧
      Stands pf p M' (applyStep pf clock p s x).1 (applyStep pf clock p s x).2 := by
  cases x with
  | readCommittee =>
    have hc : s.catalog.committee pf p = M.catalog.committee pf p := by rw [← h]; rfl
    refine ⟨M, .inl rfl, ?_⟩
    simp only [applyStep, hc]
    split
    · exact .inl h
    · exact .inl h
    · rename_i expected he
      exact ⟨h, he⟩
  | readHeight expected =>
    obtain ⟨hM, hc⟩ := h
    have hh : s.catalog.expectedHeight p = M.catalog.expectedHeight p := by rw [← hM]; rfl
    refine ⟨M, .inl rfl, ?_⟩
    simp only [applyStep, hh]
    split
    · exact .inl hM
    · rename_i height he
      exact ⟨hM, hc, he⟩
  | loadBundle expected height =>
    obtain ⟨hM, hc, hh⟩ := h
    refine ⟨M, .inl rfl, ?_⟩
    simp only [applyStep]
    split
    · exact .inl hM
    · rename_i b hl
      by_cases hne : b.committee ≠ expected
      · rw [if_pos hne]
        exact .inl hM
      · rw [if_neg hne]
        have hbh := (Node.loadFinalizedTransition_eq_some hl).2
        have hl' : M.finalized.get (heightKey p height) = some b := by rw [← hM]; exact hl
        refine ⟨hM, ?_, ?_, ?_⟩
        · rw [not_not.mp hne]
          exact hc
        · rw [hbh]
          exact hh
        · rw [hbh]
          exact hl'
  | ingest b =>
    obtain ⟨hM, hb⟩ := h
    refine ⟨M, .inl rfl, ?_⟩
    simp only [applyStep]
    split
    · exact .inl hM
    · rename_i s' hi
      obtain ⟨hv, rfl⟩ := ingestAggregatedReceipt_eq_ok hi
      exact ⟨hM, hb, hv⟩
  | readRoot b =>
    obtain ⟨hM, hb, hv⟩ := h
    have hr : s.states.sparseRootScoped p pf = M.root pf p := by rw [← hM]; rfl
    refine ⟨M, .inl rfl, ?_⟩
    simp only [applyStep]
    split_ifs with hin hd
    · exact .inl hM
    · exact .inl hM
    · exact ⟨hM, hb, hv, hr, not_not.mp hin, not_not.mp hd⟩
  | predict b root =>
    obtain ⟨hM, hb, hv, hr, hin, hd⟩ := h
    have hp : computeRootAfterWrites pf s.states p b.stateWrites =
        computeRootAfterWrites pf M.states p b.stateWrites := by rw [← hM]; rfl
    refine ⟨M, .inl rfl, ?_⟩
    simp only [applyStep, hp]
    split_ifs with ho
    · exact .inl hM
    · exact ⟨⟨hb.committee, hb.height, hb.stored, hv, hin.trans hr, hd, not_not.mp ho⟩, hr, [], rfl, hM⟩
  | write b root rest =>
    obtain ⟨hb, hr, front, hw, hM⟩ := h
    refine ⟨M, .inl rfl, ?_⟩
    cases rest with
    | nil =>
      rw [List.append_nil] at hw
      exact ⟨hb, hr, hw ▸ hM⟩
    | cons w ws =>
      refine ⟨hb, hr, front ++ [w], by simp [hw], ?_⟩
      obtain ⟨hst, hcat, hfin⟩ := Node.parts_of_ledger hM
      rw [StateStore.applyStateWrites_concat, ← hst, ← hcat, ← hfin]
      rfl
  | readApplied b root =>
    obtain ⟨hb, hr, hM⟩ := h
    have hst := (Node.parts_of_ledger hM).1
    refine ⟨M, .inl rfl, ?_⟩
    simp only [applyStep, hst]
    split_ifs with ha
    · right
      rw [hM]
      exact .mk b hb ha
    · exact ⟨hb, hr, not_not.mp ha, not_not.mp ha, hM⟩
  | commit b root applied =>
    obtain ⟨hb, hr, ha, rfl, hM⟩ := h
    refine ⟨M.commit p b (clock b.receipt.receipt.height), .inr (.mk b _ hb ha), ?_⟩
    obtain ⟨hst, hcat, hfin⟩ := Node.parts_of_ledger hM
    have hroot : root = b.receipt.receipt.stateRootIn := hr.trans hb.rootIn.symm
    rw [Ledger.commit, ← hst, ← hcat, ← hfin, ← hroot]
    rfl
  | done r => exact ⟨M, .inl rfl, h⟩

theorem exists_stands (pf : Platform) (clock : UInt64 → UInt64) (p : ProgramId) (s : Node) (n : Nat) :
    ∃ M, Relation.ReflTransGen (CommitStep pf p) s.ledger M ∧
      Stands pf p M (applySteps pf clock p n (s, .readCommittee)).1
        (applySteps pf clock p n (s, .readCommittee)).2 := by
  induction n with
  | zero => exact ⟨s.ledger, .refl, rfl⟩
  | succ n ih =>
    obtain ⟨M, hpath, hM⟩ := ih
    obtain ⟨M', hstep, hM'⟩ := @Stands.step pf clock p _ M _ hM
    rw [applySteps_succ]
    rcases hstep with rfl | hstep
    · exact ⟨M', hpath, hM'⟩
    · exact ⟨M', hpath.tail hstep, hM'⟩

end Stops

/-- The same program state and the same latest commitment, its time apart. -/
structure SameResult (p : ProgramId) (L L' : Ledger) : Prop where
  entries : L'.states.entries p = L.states.entries p
  latest : (L'.catalog.latestStateCommitment p).map (fun c => (c.height, c.root)) =
    (L.catalog.latestStateCommitment p).map fun c => (c.height, c.root)

theorem Alike.sameResult {p : ProgramId} {L L' : Ledger} (h : Alike p L L') : SameResult p L L' :=
  ⟨h.entries, h.latest⟩

def ApplyPoint.RootKept (pf : Platform) (p : ProgramId) (s : Node) : ApplyPoint → Prop
  | .write _ root _ => s.states.sparseRootScoped p pf = root
  | .readApplied _ root => s.states.sparseRootScoped p pf = root
  | .commit _ root _ => s.states.sparseRootScoped p pf = root
  | _ => True

section Recovery

variable {pf : Platform} {p : ProgramId} {K : Set Bytes} {L M R U : Ledger} {b : AggregatedReceiptBundle}
  {front rest : List StateWrite}

theorem alike_of_ended (hpath : Relation.ReflTransGen (CommitStep pf p) L M)
    (hU : Relation.ReflTransGen (CommitStep pf p) L U) (hexU : Exhausted pf p U)
    (hR : Relation.ReflTransGen (CommitStep pf p) M R) (hexR : Exhausted pf p R) : Alike p U R :=
  (Alike.refl p L).commits hU hexU (hpath.trans hR) hexR

theorem Appliable.restarted (hb : Appliable pf p M b) (hw : b.stateWrites = front ++ rest)
    (hL : L = { M with states := M.states.applyStateWrites p front })
    (hroot : L.root pf p = M.root pf p) : Appliable pf p L b := by
  subst hL
  refine ⟨hb.committee, hb.height, hb.stored, hb.verified, hb.rootIn.trans hroot.symm, hb.digest, ?_⟩
  rw [StateStore.computeRootAfterWrites_eq, StateStore.entries_applyStateWrites, writeEntries_again hw]
  exact hb.rootOut

theorem Appliable.alike_commit (hw : b.stateWrites = front ++ rest)
    (hL : L = { M with states := M.states.applyStateWrites p front }) (now now' : UInt64) :
    Alike p (M.commit p b now) (L.commit p b now') := by
  subst hL
  refine ⟨?_, fun height => ?_, rfl, rfl⟩
  · rw [Ledger.commit, Ledger.commit]
    simp only [StateStore.entries_applyStateWrites, writeEntries_again hw]
  · rw [Ledger.commit, Ledger.commit]
    simp only [ProgramCatalog.getStateCommitment_storeStateCommitment]
    split_ifs <;> rfl

theorem Appliable.exhausted_of_root_ne (hb : Appliable pf p M b)
    (hL : L = { M with states := M.states.applyStateWrites p front })
    (hroot : L.root pf p ≠ M.root pf p) : Exhausted pf p L := by
  intro b' hb' _
  subst hL
  have hh : b'.receipt.receipt.height = b.receipt.receipt.height :=
    Except.ok.inj (hb'.height.symm.trans hb.height)
  have he : b' = b := Option.some.inj (hb'.stored.symm.trans (hh ▸ hb.stored))
  subst he
  exact hroot (hb'.rootIn.symm.trans hb.rootIn)

theorem KeysWithin.midway (hkeys : KeysWithin p K M) (hb : Appliable pf p M b)
    (hw : b.stateWrites = front ++ rest)
    (hL : L = { M with states := M.states.applyStateWrites p front }) : KeysWithin p K L := by
  subst hL
  refine ⟨hkeys.applyStateWrites fun w hmem => ?_, hkeys.bundles⟩
  exact hkeys.bundles _ b hb.stored w (hw ▸ List.mem_append_left rest hmem)

theorem Appliable.recovers_iff {L₀ : Ledger} (hK : Set.InjOn pf.hashBytes K) (hkeys : KeysWithin p K L₀)
    (hpath : Relation.ReflTransGen (CommitStep pf p) L₀ M) (hb : Appliable pf p M b)
    (hw : b.stateWrites = front ++ rest)
    (hL : L = { M with states := M.states.applyStateWrites p front })
    (hU : CaughtUp pf p L₀ U) (hR : CaughtUp pf p L R) :
    SameResult p U R ↔ L.root pf p = M.root pf p := by
  have hkeysM := hkeys.commits hpath
  have hkeysL := hkeysM.midway hb hw hL
  obtain ⟨hU, hexU⟩ := hkeys.caughtUp hK hU
  obtain ⟨hR, hexR⟩ := hkeysL.caughtUp hK hR
  have hstep : CommitStep pf p M (M.commit p b 0) := .mk b 0 hb (hkeysM.appliedRoot hK hb)
  obtain ⟨E, hE, hexE⟩ := exists_commits pf p (M.commit p b 0)
  have hUE : Alike p U E := alike_of_ended (hpath.tail hstep) hU hexU hE hexE
  constructor
  · intro hsame
    by_contra hne
    have hex := hb.exhausted_of_root_ne hL hne
    have hRL : R = L := by
      rcases Relation.ReflTransGen.cases_head hR with he | ⟨L₁, hstep', -⟩
      · exact he.symm
      · exact absurd hex hstep'.not_exhausted
    have hRM : R.catalog.committedHeight p = M.catalog.committedHeight p := by rw [hRL, hL]
    have h1 := ProgramCatalog.committedHeight_eq_of_latest hsame.latest
    have h2 := ProgramCatalog.committedHeight_eq_of_latest hUE.latest
    have h3 := committedHeight_le_of_commits hE
    have h4 := hstep.committedHeight
    omega
  · intro hroot
    have hbL := hb.restarted hw hL hroot
    have hER : Alike p E R := by
      rcases Relation.ReflTransGen.cases_head hR with he | ⟨L₁, hstep', hrest⟩
      · exact absurd (hkeysL.appliedRoot hK hbL) (he ▸ hexR b (he ▸ hbL))
      · obtain ⟨b', now', hb', -⟩ := hstep'
        have he := hb'.unique hbL
        subst he
        exact (Appliable.alike_commit hw hL 0 now').commits hE hexE hrest hexR
    exact (hUE.trans hER).sameResult

theorem Node.sparseRootScoped_eq_root (s : Node) :
    s.states.sparseRootScoped p pf = s.ledger.root pf p := rfl

theorem Stands.recovers_iff {L₀ : Ledger} {s : Node} {x : ApplyPoint} (hK : Set.InjOn pf.hashBytes K)
    (hkeys : KeysWithin p K L₀) (hpath : Relation.ReflTransGen (CommitStep pf p) L₀ M)
    (hM : Stands pf p M s x) (hU : CaughtUp pf p L₀ U) (hR : CaughtUp pf p s.ledger R) :
    SameResult p U R ↔ x.RootKept pf p s := by
  have hout : s.ledger = M → SameResult p U R := by
    intro hL
    rw [hL] at hR
    obtain ⟨hU, hexU⟩ := hkeys.caughtUp hK hU
    obtain ⟨hR, hexR⟩ := (hkeys.commits hpath).caughtUp hK hR
    exact (alike_of_ended hpath hU hexU hR hexR).sameResult
  cases x with
  | readCommittee => exact iff_of_true (hout hM) trivial
  | readHeight expected => exact iff_of_true (hout hM.1) trivial
  | loadBundle expected height => exact iff_of_true (hout hM.1) trivial
  | ingest b => exact iff_of_true (hout hM.1) trivial
  | readRoot b => exact iff_of_true (hout hM.1) trivial
  | predict b root => exact iff_of_true (hout hM.1) trivial
  | write b root rest =>
    obtain ⟨hb, rfl, front, hw, hL⟩ := hM
    rw [ApplyPoint.RootKept, Node.sparseRootScoped_eq_root]
    exact hb.recovers_iff hK hkeys hpath hw hL hU hR
  | readApplied b root =>
    obtain ⟨hb, rfl, hL⟩ := hM
    rw [ApplyPoint.RootKept, Node.sparseRootScoped_eq_root]
    exact hb.recovers_iff hK hkeys hpath (List.append_nil _).symm hL hU hR
  | commit b root applied =>
    obtain ⟨hb, rfl, -, -, hL⟩ := hM
    rw [ApplyPoint.RootKept, Node.sparseRootScoped_eq_root]
    exact hb.recovers_iff hK hkeys hpath (List.append_nil _).symm hL hU hR
  | done r =>
    rcases hM with hM | hmis
    · exact iff_of_true (hout hM) trivial
    · exact absurd hmis (not_misapplied hK (hkeys.commits hpath))

end Recovery

/-- A node stops after any number of store operations of the catch-up loop. Running the loop again
after the restart leads to the state and the latest commitment of an uninterrupted run exactly if the
writes of the batch in progress, if any, had left the program's root alone. -/
theorem crash_recovers_iff {pf : Platform} {p : ProgramId} {s : Node}
    (hK : Set.InjOn pf.hashBytes (ledgerKeys p s.ledger)) (clock clock' : UInt64 → UInt64) (n : Nat) :
    let stopped := applySteps pf clock p n (s, .readCommittee)
    SameResult p (applyAvailableFinalizedTransitions pf clock p s).1.ledger
        (applyAvailableFinalizedTransitions pf clock' p stopped.1.restart).1.ledger ↔
      stopped.2.RootKept pf p stopped.1 := by
  intro stopped
  obtain ⟨M, hpath, hM⟩ := exists_stands pf clock p s n
  have hU := @applyAvailable_caughtUp pf p s _ clock rfl
  have hR := @applyAvailable_caughtUp pf p stopped.1.restart stopped.1.ledger clock' rfl
  exact hM.recovers_iff hK (keysWithin_ledgerKeys p s.ledger) hpath hU hR

section Sample

theorem registerNode_keys : ledgerKeys sampleProgram registerNode.ledger ⊆ { [7] } := by
  have hkeys : ∀ b ∈ registerBundles, ∀ w ∈ b.stateWrites, w.key = [7] := by decide +kernel
  rintro k (he | ⟨height, b, hb, w, hw, rfl⟩)
  · have hempty : registerNode.ledger.states.entries sampleProgram = ∅ := StateStore.entries_empty _
    rw [hempty] at he
    simp at he
  · simp only [registerNode, Node.ledger] at hb
    rcases mem_of_get_foldl_put hb with hm | hg
    · exact hkeys b hm w hw
    · rw [Keyed.get_empty] at hg
      cases hg

theorem registerNode_injOn :
    Set.InjOn registerRuntime.hashBytes (ledgerKeys sampleProgram registerNode.ledger) := by
  intro k hk k' hk' _
  rw [registerNode_keys hk, registerNode_keys hk']

instance (pf : Platform) (p : ProgramId) (s : Node) (x : ApplyPoint) : Decidable (x.RootKept pf p s) :=
  match x with
  | .write _ _ _ => inferInstanceAs (Decidable (_ = _))
  | .readApplied _ _ => inferInstanceAs (Decidable (_ = _))
  | .commit _ _ _ => inferInstanceAs (Decidable (_ = _))
  | .readCommittee | .readHeight _ | .loadBundle _ _ | .ingest _ | .readRoot _ | .predict _ _ | .done _ =>
    inferInstanceAs (Decidable True)

/-- Stopped right after the first commitment, the node comes to the same end. -/
theorem crash_recovers_iff_sample :
    let stopped := applySteps registerRuntime (fun _ => 0) sampleProgram 10 (registerNode, .readCommittee)
    SameResult sampleProgram
      (applyAvailableFinalizedTransitions registerRuntime (fun _ => 0) sampleProgram registerNode).1.ledger
      (applyAvailableFinalizedTransitions registerRuntime (fun _ => 1) sampleProgram
        stopped.1.restart).1.ledger := by
  exact (crash_recovers_iff registerNode_injOn (fun _ => 0) (fun _ => 1) 10).mpr (by decide +kernel)

/-- Stopped right after the one write of the first batch, the node never commits again. -/
theorem crash_inside_batch_blocks :
    let stopped := applySteps registerRuntime (fun _ => 0) sampleProgram 7 (registerNode, .readCommittee)
    ¬ SameResult sampleProgram
      (applyAvailableFinalizedTransitions registerRuntime (fun _ => 0) sampleProgram registerNode).1.ledger
      (applyAvailableFinalizedTransitions registerRuntime (fun _ => 0) sampleProgram
        stopped.1.restart).1.ledger := by
  intro stopped hsame
  have hheight := ProgramCatalog.committedHeight_eq_of_latest hsame.latest
  revert hheight
  decide +kernel

end Sample

end Onvm
