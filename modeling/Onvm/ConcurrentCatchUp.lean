import Onvm.CrashRecovery

/-! Two runs of the catch-up loop on one program, one store operation at a time. Neither takes the
program's lock; together they are a race of two writers through the stored batches. -/

namespace Onvm

open ByteString OrderedStore BatchRaces Runs Std

structure Duo where
  node : Node
  point : Bool → ApplyPoint

def duoStep (pf : Platform) (clock : Bool → UInt64 → UInt64) (p : ProgramId) (d : Duo) (i : Bool) :
    Option Duo :=
  let out := applyStep pf (clock i) p d.node (d.point i)
  some ⟨out.1, Function.update d.point i out.2⟩

def WriteInPlace (p : ProgramId) (d : Duo) (i : Bool) : Prop :=
  match d.point i with
  | .write b _ (w :: _) => b.receipt.receipt.height.toNat ≤ d.node.catalog.committedHeight p →
    d.node.states.getScoped p w.key = w.value
  | _ => True

instance (p : ProgramId) (d : Duo) (i : Bool) : Decidable (WriteInPlace p d i) := by
  unfold WriteInPlace
  split <;> infer_instance

def ApplyPoint.left : ApplyPoint → Option (Nat × List StateWrite)
  | .write b _ rest => some (b.receipt.receipt.height.toNat, rest)
  | .readApplied b _ => some (b.receipt.receipt.height.toNat, [])
  | .commit b _ _ => some (b.receipt.receipt.height.toNat, [])
  | _ => none

def Duo.race (p : ProgramId) (d : Duo) : Race (ByteTree Bytes) StateWrite StateRoot where
  state := d.node.states.entries p
  height := d.node.catalog.committedHeight p
  latest := (d.node.catalog.latestStateCommitment p).map (·.root)
  batch := ApplyPoint.left ∘ d.point

section Heights

variable {cat : ProgramCatalog} {p : ProgramId} {c : StateCommitment}

theorem ProgramCatalog.latestStateCommitment_store_of_le (hc : c.programId = p)
    (h : cat.committedHeight p ≤ c.height.toNat) :
    (cat.storeStateCommitment c).latestStateCommitment p = some c := by
  apply latestStateCommitment_of_getStateCommitment
  · rw [getStateCommitment_storeStateCommitment, if_pos ⟨hc, rfl⟩]
  · intro height hs
    rw [getStateCommitment_storeStateCommitment] at hs
    split at hs
    · rename_i he
      exact he.2 ▸ UInt64.le_refl _
    · have hle := toNat_le_committedHeight hs
      exact UInt64.le_iff_toNat_le.mpr (hle.trans h)

theorem ProgramCatalog.latestStateCommitment_store_of_lt (h : c.height.toNat < cat.committedHeight p) :
    (cat.storeStateCommitment c).latestStateCommitment p = cat.latestStateCommitment p := by
  cases hl : cat.latestStateCommitment p with
  | none =>
    rw [committedHeight_of_none hl] at h
    exact absurd h (Nat.not_lt_zero _)
  | some d =>
    rw [committedHeight_of_some hl] at h
    obtain ⟨-, hd, hmax⟩ := latestStateCommitment_eq_some hl
    apply latestStateCommitment_of_getStateCommitment
    · rw [getStateCommitment_storeStateCommitment, if_neg, hd]
      rintro ⟨-, he⟩
      rw [he] at h
      exact Nat.lt_irrefl _ h
    · intro height hs
      rw [getStateCommitment_storeStateCommitment] at hs
      split at hs
      · rename_i he
        rw [← he.2]
        exact UInt64.le_iff_toNat_le.mpr h.le
      · exact hmax height hs

theorem ProgramCatalog.committedHeight_store (hc : c.programId = p) :
    (cat.storeStateCommitment c).committedHeight p = max (cat.committedHeight p) c.height.toNat := by
  rcases Nat.lt_or_ge c.height.toNat (cat.committedHeight p) with hlt | hge
  · rw [Nat.max_eq_left hlt.le]
    exact committedHeight_congr (latestStateCommitment_store_of_lt hlt)
  · rw [Nat.max_eq_right hge]
    exact committedHeight_of_some (latestStateCommitment_store_of_le hc hge)

end Heights

section Bundles

variable {p : ProgramId} {F : Keyed bundleKey} {b : AggregatedReceiptBundle}

def bundleAt (F : Keyed bundleKey) (p : ProgramId) (n : Nat) : Option AggregatedReceiptBundle :=
  F.get (heightKey p (UInt64.ofNat n))

def writesAt (F : Keyed bundleKey) (p : ProgramId) (n : Nat) : List StateWrite :=
  ((bundleAt F p n).map (·.stateWrites)).getD []

def targetAt (F : Keyed bundleKey) (p : ProgramId) (n : Nat) : StateRoot :=
  ((bundleAt F p n).map (·.receipt.receipt.stateRootOut)).getD smtEmpty

theorem bundleAt_of_get (h : F.get (heightKey p b.receipt.receipt.height) = some b) :
    bundleAt F p b.receipt.receipt.height.toNat = some b := by
  rw [bundleAt, UInt64.ofNat_toNat]
  exact h

theorem writesAt_of_get (h : F.get (heightKey p b.receipt.receipt.height) = some b) :
    writesAt F p b.receipt.receipt.height.toNat = b.stateWrites := by
  rw [writesAt, bundleAt_of_get h]
  rfl

theorem targetAt_of_get (h : F.get (heightKey p b.receipt.receipt.height) = some b) :
    targetAt F p b.receipt.receipt.height.toNat = b.receipt.receipt.stateRootOut := by
  rw [targetAt, bundleAt_of_get h]
  rfl

end Bundles

section Tracking

/-- A bundle of the store that a run has taken up: above the height at which the runs began, and at
most the next one. -/
structure Taken (p : ProgramId) (F : Keyed bundleKey) (start height : Nat) (b : AggregatedReceiptBundle) :
    Prop where
  stored : F.get (heightKey p b.receipt.receipt.height) = some b
  above : start < b.receipt.receipt.height.toNat
  next : b.receipt.receipt.height.toNat ≤ height + 1

/-- What holds of a run wherever it stands, `height` being committed. -/
def Placed (p : ProgramId) (F : Keyed bundleKey) (start height : Nat) : ApplyPoint → Prop
  | .readCommittee => True
  | .readHeight _ => True
  | .loadBundle _ h => start < h.toNat ∧ h.toNat ≤ height + 1
  | .ingest b => Taken p F start height b
  | .readRoot b => Taken p F start height b
  | .predict b _ => Taken p F start height b
  | .write b _ _ => Taken p F start height b
  | .readApplied b _ => Taken p F start height b
  | .commit b _ applied => Taken p F start height b ∧ applied = b.receipt.receipt.stateRootOut
  | .done _ => True

variable {pf : Platform} {clock : UInt64 → UInt64} {p : ProgramId} {F : Keyed bundleKey} {K : Set Bytes}
  {start height height' : Nat} {s : Node} {x : ApplyPoint} {b : AggregatedReceiptBundle}

theorem Taken.mono (h : Taken p F start height b) (hle : height ≤ height') : Taken p F start height' b :=
  ⟨h.stored, h.above, by have := h.next; omega⟩

theorem Placed.mono (h : Placed p F start height x) (hle : height ≤ height') :
    Placed p F start height' x := by
  cases x with
  | readCommittee => trivial
  | readHeight _ => trivial
  | loadBundle _ h' => exact ⟨h.1, by have := h.2; omega⟩
  | ingest b => exact Taken.mono h hle
  | readRoot b => exact Taken.mono h hle
  | predict b _ => exact Taken.mono h hle
  | write b _ _ => exact Taken.mono h hle
  | readApplied b _ => exact Taken.mono h hle
  | commit b _ _ => exact ⟨h.1.mono hle, h.2⟩
  | done _ => trivial

/-- What the runs leave alone, and what they keep true, in the stores of the node. -/
structure Tracked (p : ProgramId) (F : Keyed bundleKey) (K : Set Bytes) (start : Nat) (s : Node) : Prop where
  finalized : s.finalizedStore = F
  keys : KeysWithin p K s.ledger
  begun : start ≤ s.catalog.committedHeight p
  roots : ∀ h c, start < h.toNat → s.catalog.getStateCommitment p h = some c →
    c.root = targetAt F p h.toNat

theorem Tracked.of_same {s' : Node} (h : Tracked p F K start s) (hfin : s'.finalizedStore = s.finalizedStore)
    (hst : s'.states = s.states) (hcom : s'.catalog.commitments = s.catalog.commitments) :
    Tracked p F K start s' := by
  have hget : ∀ k, s'.catalog.getStateCommitment p k = s.catalog.getStateCommitment p k := by
    intro k
    rw [ProgramCatalog.getStateCommitment, ProgramCatalog.getStateCommitment, hcom]
  have hh : s'.catalog.committedHeight p = s.catalog.committedHeight p :=
    ProgramCatalog.committedHeight_congr (ProgramCatalog.latestStateCommitment_congr hget)
  refine ⟨hfin.trans h.finalized, ⟨?_, ?_⟩, by rw [hh]; exact h.begun, ?_⟩
  · intro k hk
    change k ∈ s'.states.entries p at hk
    rw [hst] at hk
    exact h.keys.entries k hk
  · intro k b hb
    change s'.finalizedStore.get _ = _ at hb
    rw [hfin] at hb
    exact h.keys.bundles k b hb
  · intro k c hk hc
    exact h.roots k c hk (by rw [← hget]; exact hc)

end Tracking

/-- The invariant of two runs: their stores, where they stand, and the race they are in. -/
structure Racing (pf : Platform) (p : ProgramId) (F : Keyed bundleKey) (K : Set Bytes) (start : Nat)
    (d : Duo) : Prop where
  tracked : Tracked p F K start d.node
  placed : ∀ i, Placed p F start (d.node.catalog.committedHeight p) (d.point i)
  sane : Sane entryStore (rootOf pf) (writesAt F p) (targetAt F p) (d.race p)

section Steps

variable {pf : Platform} {clock : Bool → UInt64 → UInt64} {p : ProgramId} {F : Keyed bundleKey}
  {K : Set Bytes} {start : Nat} {d : Duo} {i : Bool} {s : Node} {x : ApplyPoint}

theorem Duo.race_update (p : ProgramId) (d : Duo) (i : Bool) (s : Node) (x : ApplyPoint) :
    (⟨s, Function.update d.point i x⟩ : Duo).race p =
      ⟨s.states.entries p, s.catalog.committedHeight p, (s.catalog.latestStateCommitment p).map (·.root),
        Function.update (d.race p).batch i x.left⟩ := by
  rw [race, race, Function.comp_update]

theorem placed_update {height : Nat} (h : ∀ j, Placed p F start height (d.point j))
    (hx : Placed p F start height x) (j : Bool) :
    Placed p F start height (Function.update d.point i x j) := by
  by_cases hji : j = i
  · subst hji
    rw [Function.update_self]
    exact hx
  · rw [Function.update_of_ne hji]
    exact h j

theorem Racing.of_same (h : Racing pf p F K start d) (hfin : s.finalizedStore = d.node.finalizedStore)
    (hst : s.states = d.node.states) (hcom : s.catalog.commitments = d.node.catalog.commitments)
    (hx : Placed p F start (d.node.catalog.committedHeight p) x)
    (hsane : Sane entryStore (rootOf pf) (writesAt F p) (targetAt F p)
      { d.race p with batch := Function.update (d.race p).batch i x.left }) :
    Racing pf p F K start ⟨s, Function.update d.point i x⟩ := by
  have hlatest : s.catalog.latestStateCommitment p = d.node.catalog.latestStateCommitment p := by
    rw [ProgramCatalog.latestStateCommitment, ProgramCatalog.latestStateCommitment, hcom]
  have hheight : s.catalog.committedHeight p = d.node.catalog.committedHeight p :=
    ProgramCatalog.committedHeight_congr hlatest
  refine ⟨h.tracked.of_same hfin hst hcom, ?_, ?_⟩
  · dsimp only
    rw [hheight]
    exact placed_update h.placed hx
  · rw [Duo.race_update, hlatest, hheight, hst]
    exact hsane

theorem Racing.of_left (h : Racing pf p F K start d) (hfin : s.finalizedStore = d.node.finalizedStore)
    (hst : s.states = d.node.states) (hcom : s.catalog.commitments = d.node.catalog.commitments)
    (hx : Placed p F start (d.node.catalog.committedHeight p) x) {y : ApplyPoint} (hi : d.point i = y)
    (hleft : x.left = y.left) : Racing pf p F K start ⟨s, Function.update d.point i x⟩ := by
  refine h.of_same hfin hst hcom hx ?_
  rw [hleft, ← hi]
  have hid : Function.update (d.race p).batch i (d.point i).left = (d.race p).batch :=
    Function.update_eq_self i _
  rw [hid]
  exact h.sane

theorem Tracked.root_eq (hK : Set.InjOn pf.hashBytes K) (h : Tracked p F K start s)
    {b : AggregatedReceiptBundle} (hb : F.get (heightKey p b.receipt.receipt.height) = some b) :
    computeRootAfterWrites pf s.states p b.stateWrites =
      rootOf pf (writeEntries (s.states.entries p) b.stateWrites) := by
  have hstored : s.ledger.finalized.get (heightKey p b.receipt.receipt.height) = some b := by
    rw [show s.ledger.finalized = F from h.finalized]
    exact hb
  have hkeys : ∀ k ∈ (s.states.applyStateWrites p b.stateWrites).entries p, k ∈ K :=
    h.keys.applyStateWrites (h.keys.bundles _ b hstored)
  rw [← StateStore.sparseRootScoped_applyStateWrites s.states p pf hK hkeys]
  exact sparseRootScoped_eq_rootOf (StateStore.entries_applyStateWrites ..)

theorem Racing.write (h : Racing pf p F K start d) {b : AggregatedReceiptBundle} {root : StateRoot}
    {w : StateWrite} {ws : List StateWrite} (hi : d.point i = .write b root (w :: ws))
    (hw : WriteInPlace p d i) :
    Racing pf p F K start ⟨{ d.node with states := d.node.states.applyWrite p w },
      Function.update d.point i (.write b root ws)⟩ := by
  have htaken : Taken p F start (d.node.catalog.committedHeight p) b := by
    have hh := h.placed i
    rw [hi] at hh
    exact hh
  have hleft : (d.race p).batch i = some (b.receipt.receipt.height.toNat, w :: ws) :=
    congrArg ApplyPoint.left hi
  have hbound := (h.sane.bound i _ _ hleft).2
  have hmem : w ∈ b.stateWrites := by
    rw [writesAt_of_get htaken.stored] at hbound
    exact hbound.subset List.mem_cons_self
  have hplace : b.receipt.receipt.height.toNat ≤ (d.race p).height →
      entryStore.write (d.race p).state w = (d.race p).state := by
    intro hle
    rw [WriteInPlace, hi] at hw
    have hval := hw hle
    refine entryStore.ext _ _ fun k => ?_
    by_cases hk : w.key = k
    · subst hk
      have hget : entryStore.get (d.race p).state w.key = d.node.states.getScoped p w.key :=
        getElem?_view _ _ _
      exact (entryStore.get_write_self _ w).trans (hval.symm.trans hget.symm)
    · exact entryStore.get_write_of_ne _ _ _ hk
  refine ⟨⟨h.tracked.finalized, ⟨?_, h.tracked.keys.bundles⟩, h.tracked.begun, h.tracked.roots⟩, ?_, ?_⟩
  · intro k hk
    have hk' : k ∈ writeEntry (d.node.states.entries p) w := by
      rw [← StateStore.entries_applyWrite]
      exact hk
    rcases mem_writeEntry hk' with he | rfl
    · exact h.tracked.keys.entries k he
    · refine h.tracked.keys.bundles b.receipt.receipt.height b ?_ w hmem
      rw [show d.node.ledger.finalized = F from h.tracked.finalized]
      exact htaken.stored
  · exact placed_update h.placed htaken
  · rw [Duo.race_update]
    dsimp only
    rw [StateStore.entries_applyWrite]
    exact h.sane.step (.write i _ w ws hleft hplace)

theorem Tracked.latest_store (h : Tracked p F K start s) {c : StateCommitment} (hc : c.programId = p)
    (habove : start < c.height.toNat) (hroot : c.root = targetAt F p c.height.toNat) :
    ((s.catalog.storeStateCommitment c).latestStateCommitment p).map (·.root) =
      if s.catalog.committedHeight p < c.height.toNat then some (targetAt F p c.height.toNat)
      else (s.catalog.latestStateCommitment p).map (·.root) := by
  rcases Nat.lt_trichotomy (s.catalog.committedHeight p) c.height.toNat with hlt | heq | hgt
  · rw [if_pos hlt, ProgramCatalog.latestStateCommitment_store_of_le hc hlt.le, Option.map_some, hroot]
  · rw [if_neg (by omega), ProgramCatalog.latestStateCommitment_store_of_le hc heq.le, Option.map_some, hroot]
    cases hl : s.catalog.latestStateCommitment p with
    | none =>
      rw [ProgramCatalog.committedHeight_of_none hl] at heq
      omega
    | some e =>
      rw [ProgramCatalog.committedHeight_of_some hl] at heq
      have hheight : e.height = c.height := UInt64.toNat_inj.mp heq
      have he := h.roots e.height e (hheight ▸ habove)
        (ProgramCatalog.latestStateCommitment_eq_some hl).2.1
      rw [Option.map_some, he, hheight]
  · rw [if_neg (by omega), ProgramCatalog.latestStateCommitment_store_of_lt hgt]

theorem Racing.commit (h : Racing pf p F K start d) {b : AggregatedReceiptBundle} {root applied : StateRoot}
    (hi : d.point i = .commit b root applied) {c : StateCommitment} (hc : c.programId = p)
    (hheight : c.height = b.receipt.receipt.height) (hcroot : c.root = applied) :
    Racing pf p F K start ⟨{ d.node with catalog := d.node.catalog.storeStateCommitment c },
      Function.update d.point i .readCommittee⟩ := by
  obtain ⟨htaken, happlied⟩ : Taken p F start (d.node.catalog.committedHeight p) b ∧
      applied = b.receipt.receipt.stateRootOut := by
    have hh := h.placed i
    rw [hi] at hh
    exact hh
  have hleft : (d.race p).batch i = some (c.height.toNat, []) := by
    rw [hheight]
    exact congrArg ApplyPoint.left hi
  have hroot : c.root = targetAt F p c.height.toNat := by
    rw [hcroot, happlied, hheight, targetAt_of_get htaken.stored]
  have habove : start < c.height.toNat := hheight ▸ htaken.above
  have hmax := @ProgramCatalog.committedHeight_store d.node.catalog p c hc
  refine ⟨⟨h.tracked.finalized, ⟨h.tracked.keys.entries, h.tracked.keys.bundles⟩, ?_, ?_⟩, ?_, ?_⟩
  · have hb := h.tracked.begun
    dsimp only
    omega
  · intro k e hk he
    dsimp only at he
    rw [ProgramCatalog.getStateCommitment_storeStateCommitment] at he
    split at he
    · rename_i hcond
      rw [← Option.some.inj he, hroot, hcond.2]
    · exact h.tracked.roots k e hk he
  · refine placed_update (fun j => (h.placed j).mono ?_) trivial
    dsimp only
    omega
  · rw [Duo.race_update]
    dsimp only
    rw [hmax, h.tracked.latest_store hc habove hroot]
    exact h.sane.step (.commit i _ hleft)

theorem Racing.step {d' : Duo} (hK : Set.InjOn pf.hashBytes K) (h : Racing pf p F K start d)
    (hw : WriteInPlace p d i) (hd : duoStep pf clock p d i = some d') : Racing pf p F K start d' := by
  obtain rfl := Option.some.inj hd
  have hplaced := h.placed i
  cases hi : d.point i with
  | readCommittee =>
    simp only [applyStep]
    split
    · exact h.of_left rfl rfl rfl trivial hi rfl
    · exact h.of_left rfl rfl rfl trivial hi rfl
    · exact h.of_left rfl rfl rfl trivial hi rfl
  | readHeight expected =>
    simp only [applyStep]
    split
    · exact h.of_left rfl rfl rfl trivial hi rfl
    · rename_i height hh
      have hn := ProgramCatalog.toNat_of_expectedHeight hh
      have hb := h.tracked.begun
      refine h.of_left rfl rfl rfl ?_ hi rfl
      exact ⟨by omega, by omega⟩
  | loadBundle expected height =>
    rw [hi] at hplaced
    simp only [applyStep]
    split
    · exact h.of_left rfl rfl rfl trivial hi rfl
    · rename_i b hl
      have hbh := (Node.loadFinalizedTransition_eq_some hl).2
      have hstored : F.get (heightKey p b.receipt.receipt.height) = some b := by
        rw [hbh, ← h.tracked.finalized]
        exact hl
      split_ifs
      · exact h.of_left rfl rfl rfl trivial hi rfl
      · refine h.of_left rfl rfl rfl ?_ hi rfl
        exact ⟨hstored, hbh ▸ hplaced.1, hbh ▸ hplaced.2⟩
  | ingest b =>
    rw [hi] at hplaced
    simp only [applyStep]
    split
    · exact h.of_left rfl rfl rfl trivial hi rfl
    · rename_i s' hs'
      obtain ⟨-, rfl⟩ := ingestAggregatedReceipt_eq_ok hs'
      exact h.of_left rfl rfl rfl hplaced hi rfl
  | readRoot b =>
    rw [hi] at hplaced
    simp only [applyStep]
    split_ifs
    · exact h.of_left rfl rfl rfl trivial hi rfl
    · exact h.of_left rfl rfl rfl trivial hi rfl
    · exact h.of_left rfl rfl rfl hplaced hi rfl
  | predict b root =>
    rw [hi] at hplaced
    have hb : Taken p F start (d.node.catalog.committedHeight p) b := hplaced
    simp only [applyStep]
    split_ifs with hr
    · exact h.of_left rfl rfl rfl trivial hi rfl
    · refine h.of_same rfl rfl rfl hplaced ?_
      have hnone : (d.race p).batch i = none := congrArg ApplyPoint.left hi
      have hroot : rootOf pf (writeEntries (d.race p).state (writesAt F p b.receipt.receipt.height.toNat)) =
          targetAt F p b.receipt.receipt.height.toNat := by
        rw [writesAt_of_get hb.stored, targetAt_of_get hb.stored, ← not_not.mp hr]
        exact (h.tracked.root_eq hK hb.stored).symm
      have hs := h.sane.step (.start i _ hnone hb.next hroot)
      rw [writesAt_of_get hb.stored] at hs
      exact hs
  | write b root rest =>
    cases rest with
    | nil =>
      rw [hi] at hplaced
      exact h.of_left rfl rfl rfl hplaced hi rfl
    | cons w ws => exact h.write hi hw
  | readApplied b root =>
    rw [hi] at hplaced
    have hb : Taken p F start (d.node.catalog.committedHeight p) b := hplaced
    simp only [applyStep]
    split_ifs with hr
    · refine h.of_same rfl rfl rfl trivial ?_
      refine h.sane.step (.drop i _ (congrArg ApplyPoint.left hi) fun he => hr ?_)
      rw [sparseRootScoped_eq_rootOf rfl, ← targetAt_of_get hb.stored]
      exact he
    · exact h.of_left rfl rfl rfl ⟨hb, not_not.mp hr⟩ hi rfl
  | commit b root applied => exact h.commit hi rfl rfl rfl
  | done r => exact h.of_left rfl rfl rfl trivial hi rfl

end Steps

def Duo.start (s : Node) : Duo := ⟨s, fun _ => .readCommittee⟩

def RootIsLatest (pf : Platform) (p : ProgramId) (s : Node) : Prop :=
  ∀ c, s.catalog.latestStateCommitment p = some c → s.states.sparseRootScoped p pf = c.root

theorem racing_start {pf : Platform} {p : ProgramId} {s : Node} (hs : RootIsLatest pf p s) :
    Racing pf p s.finalizedStore (ledgerKeys p s.ledger) (s.catalog.committedHeight p) (.start s) := by
  refine ⟨⟨rfl, keysWithin_ledgerKeys p s.ledger, Nat.le_refl _, ?_⟩, fun _ => trivial, ?_⟩
  · intro h c hlt hc
    have hle : h.toNat ≤ s.catalog.committedHeight p :=
      ProgramCatalog.toNat_le_committedHeight (Option.isSome_iff_exists.mpr ⟨c, hc⟩)
    omega
  · refine sane_of_root (fun _ => rfl) ?_
    intro x hx
    obtain ⟨c, hc, rfl⟩ := Option.map_eq_some_iff.mp hx
    rw [← hs c hc]
    exact (sparseRootScoped_eq_rootOf rfl).symm

/-- Two runs of the catch-up loop, interleaved in any way. If no write of a height that the other run
has already committed changes the store, then when both have returned the root of the program's state
is the root of its highest commitment. -/
theorem concurrent_catch_up_root {pf : Platform} {p : ProgramId} {s : Node} {clock : Bool → UInt64 → UInt64}
    {schedule : List Bool} {d : Duo} (hK : Set.InjOn pf.hashBytes (ledgerKeys p s.ledger))
    (hs : RootIsLatest pf p s) (hrun : run (duoStep pf clock p) (.start s) schedule = some d)
    (hplace : Along (duoStep pf clock p) (WriteInPlace p) (.start s) schedule)
    (hdone : ∀ i, ∃ r, d.point i = .done r) : RootIsLatest pf p d.node := by
  have h := invariant_run (fun _ _ _ hd hw hstep => hd.step hK hw hstep) (racing_start hs) hplace hrun
  intro c hc
  rw [sparseRootScoped_eq_rootOf rfl]
  have hlatest : (d.race p).latest = some c.root := by rw [Duo.race, hc, Option.map_some]
  refine h.sane.root_eq (fun i => ?_) hlatest
  obtain ⟨r, hr⟩ := hdone i
  exact congrArg ApplyPoint.left hr

section Sample

instance (pf : Platform) (p : ProgramId) (s : Node) : Decidable (RootIsLatest pf p s) :=
  match h : s.catalog.latestStateCommitment p with
  | none => isTrue fun c hc => by rw [h] at hc; cases hc
  | some c =>
    if hr : s.states.sparseRootScoped p pf = c.root then
      isTrue fun c' hc' => by rw [h] at hc'; rw [← Option.some.inj hc']; exact hr
    else isFalse fun hh => hr (hh c h)

def ApplyPoint.isDone : ApplyPoint → Bool
  | .done _ => true
  | _ => false

theorem ApplyPoint.done_of_isDone {x : ApplyPoint} (h : x.isDone = true) : ∃ r, x = .done r := by
  cases x with
  | done r => exact ⟨r, rfl⟩
  | _ => cases h

def turns : List Bool := (List.replicate 24 [true, false]).flatten

def overtaken : List Bool := List.replicate 6 true ++ List.replicate 24 false ++ List.replicate 8 true

theorem concurrent_catch_up_root_sample :
    ∃ d, run (duoStep registerRuntime (fun _ _ => 0) sampleProgram) (.start registerNode) turns = some d ∧
      d.node.catalog.committedHeight sampleProgram = 2 ∧
      RootIsLatest registerRuntime sampleProgram d.node := by
  have hrun : ((run (duoStep registerRuntime (fun _ _ => 0) sampleProgram) (.start registerNode) turns).any
      fun d => d.node.catalog.committedHeight sampleProgram = 2 ∧ ∀ i, (d.point i).isDone = true) = true := by
    decide +kernel
  have hplace : Along (duoStep registerRuntime (fun _ _ => 0) sampleProgram) (WriteInPlace sampleProgram)
      (.start registerNode) turns := by decide +kernel
  have hs : RootIsLatest registerRuntime sampleProgram registerNode := by decide +kernel
  obtain ⟨d, hd, hheight, hdone⟩ := exists_of_any hrun
  exact ⟨d, hd, hheight, concurrent_catch_up_root registerNode_injOn hs hd hplace fun i =>
    ApplyPoint.done_of_isDone (hdone i)⟩

/-- The overtaken run writes the first batch over the state of the second height and commits the first
height again. -/
theorem overtaken_run_breaks_root :
    ∃ d, run (duoStep registerRuntime (fun _ _ => 0) sampleProgram) (.start registerNode) overtaken = some d ∧
      RootIsLatest registerRuntime sampleProgram registerNode ∧
      (∀ i, ∃ r, d.point i = .done r) ∧ ¬ RootIsLatest registerRuntime sampleProgram d.node := by
  have hrun : ((run (duoStep registerRuntime (fun _ _ => 0) sampleProgram) (.start registerNode)
      overtaken).any fun d => (∀ i, (d.point i).isDone = true) ∧
        ¬ RootIsLatest registerRuntime sampleProgram d.node) = true := by decide +kernel
  have hs : RootIsLatest registerRuntime sampleProgram registerNode := by decide +kernel
  obtain ⟨d, hd, hdone, hbad⟩ := exists_of_any hrun
  exact ⟨d, hd, hs, fun i => ApplyPoint.done_of_isDone (hdone i), hbad⟩

end Sample

end Onvm
