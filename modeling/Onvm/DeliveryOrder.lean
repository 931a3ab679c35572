import Onvm.ManifestEncoding
import Onvm.ProgramHeads

/-! Catching up does not depend on the order of deliveries: whatever the order in which the manifest
and the bundles of a chain reach a node, it ends with the longest part of the chain it was given. -/

namespace Onvm

open ByteString OrderedStore Runs Std

def rootOf (pf : Platform) (e : ByteTree Bytes) : StateRoot := pf.sparseRoot e.toList

def replayed (bs : List AggregatedReceiptBundle) : ByteTree Bytes :=
  bs.foldl (fun e b => writeEntries e b.stateWrites) ∅

def lastRoot (pf : Platform) (bs : List AggregatedReceiptBundle) : StateRoot :=
  match bs.getLast? with
  | none => rootOf pf ∅
  | some b => b.receipt.receipt.stateRootOut

/-- `b` continues the chain `pre` of the program `p` with committee `C`. -/
structure Continues (pf : Platform) (p : ProgramId) (C : CommitteeCertificate)
    (pre : List AggregatedReceiptBundle) (b : AggregatedReceiptBundle) : Prop where
  program : b.receipt.receipt.programId = p
  height : b.receipt.receipt.height.toNat = pre.length + 1
  committee : b.committee = C
  verified : verifyAggregatedReceipt pf b.receipt C = .ok ()
  digest : stateWritesDigest pf b.stateWrites = b.receipt.receipt.writeDigest
  rootIn : b.receipt.receipt.stateRootIn = lastRoot pf pre
  rootOut : b.receipt.receipt.stateRootOut = rootOf pf (replayed (pre ++ [b]))

def ValidChain (pf : Platform) (p : ProgramId) (C : CommitteeCertificate)
    (bs : List AggregatedReceiptBundle) : Prop :=
  ∀ pre b rest, bs = pre ++ b :: rest → Continues pf p C pre b

def chainKeys (bs : List AggregatedReceiptBundle) : Set Bytes :=
  { k | ∃ b ∈ bs, ∃ w ∈ b.stateWrites, w.key = k }

section Chain

variable {pf : Platform} {p : ProgramId} {C : CommitteeCertificate}
  {bs pre rest : List AggregatedReceiptBundle} {b : AggregatedReceiptBundle} {L L' : Ledger}

theorem replayed_append_singleton (pre : List AggregatedReceiptBundle) (b : AggregatedReceiptBundle) :
    replayed (pre ++ [b]) = writeEntries (replayed pre) b.stateWrites := by
  simp [replayed, List.foldl_append]

theorem mem_replayed {k : Bytes} (h : k ∈ replayed bs) : k ∈ chainKeys bs := by
  induction bs using List.reverseRecOn with
  | nil => simp [replayed] at h
  | append_singleton bs b ih =>
    rw [replayed_append_singleton] at h
    rcases mem_writeEntries h with he | ⟨w, hw, hk⟩
    · obtain ⟨b', hb', hw'⟩ := ih he
      exact ⟨b', by simp [hb'], hw'⟩
    · exact ⟨b, by simp, w, hw, hk⟩

theorem chainKeys_mono (h : pre ⊆ bs) : chainKeys pre ⊆ chainKeys bs := by
  rintro k ⟨b, hb, hw⟩
  exact ⟨b, h hb, hw⟩

theorem sparseRootScoped_eq_rootOf {st : StateStore} {e : ByteTree Bytes} (h : st.entries p = e) :
    st.sparseRootScoped p pf = rootOf pf e := by
  rw [StateStore.sparseRootScoped, ← StateStore.toList_entries, h, rootOf]

theorem ValidChain.lastRoot_eq (h : ValidChain pf p C bs) (hbs : bs = pre ++ rest) :
    lastRoot pf pre = rootOf pf (replayed pre) := by
  cases pre using List.reverseRecOn with
  | nil => rfl
  | append_singleton pre b =>
    have hb := h pre b rest (by simp [hbs])
    rw [lastRoot, List.getLast?_concat, ← hb.rootOut]

def rootAt (bs : List AggregatedReceiptBundle) (height : UInt64) : Option StateRoot :=
  if height = 0 then none else bs[height.toNat - 1]?.map (·.receipt.receipt.stateRootOut)

/-- The ledger has committed the bundles, in order, and nothing else of the program. -/
structure Holds (p : ProgramId) (bs : List AggregatedReceiptBundle) (L : Ledger) : Prop where
  entries : L.states.entries p = replayed bs
  commitments : ∀ height, (L.catalog.getStateCommitment p height).map (·.root) = rootAt bs height

theorem rootAt_isSome_iff {height : UInt64} :
    (rootAt bs height).isSome ↔ 1 ≤ height.toNat ∧ height.toNat ≤ bs.length := by
  have hz : height = 0 ↔ height.toNat = 0 := by
    rw [← UInt64.toNat_inj]
    rfl
  rw [rootAt]
  split_ifs with h0
  · simp [hz.mp h0]
  · have hne : height.toNat ≠ 0 := fun hh => h0 (hz.mpr hh)
    rw [Option.isSome_map, Option.isSome_iff_ne_none, ne_eq, List.getElem?_eq_none_iff]
    omega

theorem ValidChain.length_lt (h : ValidChain pf p C bs) : bs.length < 2 ^ 64 := by
  cases bs using List.reverseRecOn with
  | nil => simp
  | append_singleton pre b =>
    have hb := (h pre b [] rfl).height
    have hlt := b.receipt.receipt.height.toNat_lt
    simp only [List.length_append, List.length_singleton]
    omega

theorem Holds.committedHeight (h : Holds p bs L) (hlen : bs.length < 2 ^ 64) :
    L.catalog.committedHeight p = bs.length := by
  have hsome : ∀ height, (L.catalog.getStateCommitment p height).isSome ↔
      1 ≤ height.toNat ∧ height.toNat ≤ bs.length := by
    intro height
    rw [← rootAt_isSome_iff, ← h.commitments, Option.isSome_map]
  apply Nat.le_antisymm
  · cases hl : L.catalog.latestStateCommitment p with
    | none =>
      rw [ProgramCatalog.committedHeight_of_none hl]
      exact Nat.zero_le _
    | some c =>
      rw [ProgramCatalog.committedHeight_of_some hl]
      have hc := (ProgramCatalog.latestStateCommitment_eq_some hl).2.1
      exact ((hsome c.height).mp (by rw [hc]; rfl)).2
  · by_cases h0 : bs.length = 0
    · omega
    · have ht : (UInt64.ofNat bs.length).toNat = bs.length := UInt64.toNat_ofNat_of_lt' hlen
      have hs := (hsome (UInt64.ofNat bs.length)).mpr (by omega)
      have hle := ProgramCatalog.toNat_le_committedHeight hs
      rwa [ht] at hle

theorem ProgramCatalog.expectedHeight_eq_ok {cat : ProgramCatalog} {height : UInt64}
    (h : height.toNat = cat.committedHeight p + 1) : cat.expectedHeight p = .ok height := by
  have hlt := height.toNat_lt
  rw [expectedHeight]
  cases hl : cat.latestStateCommitment p with
  | none =>
    rw [committedHeight_of_none hl] at h
    have h1 : (1 : UInt64).toNat = height.toNat := h.symm
    exact congrArg _ (UInt64.toNat_inj.mp h1)
  | some c =>
    rw [committedHeight_of_some hl] at h
    dsimp only
    rw [if_pos (by omega)]
    refine congrArg _ (UInt64.toNat_inj.mp ?_)
    rw [UInt64.toNat_add, h]
    exact Nat.mod_eq_of_lt (by have h1 : (1 : UInt64).toNat = 1 := rfl; omega)

theorem Holds.appliable (hchain : ValidChain pf p C bs) (hK : Set.InjOn pf.hashBytes (chainKeys bs))
    (h : Holds p pre L) (hbs : bs = pre ++ b :: rest)
    (hc : L.catalog.committee pf p = .ok (some C))
    (hst : L.finalized.get (heightKey p b.receipt.receipt.height) = some b) :
    Appliable pf p L b ∧ AppliedRoot pf p L b := by
  have hb := hchain pre b rest hbs
  have hlen := hchain.length_lt
  have hpre : pre.length < 2 ^ 64 := by
    rw [hbs, List.length_append] at hlen
    omega
  have hafter : (L.states.applyStateWrites p b.stateWrites).entries p = replayed (pre ++ [b]) := by
    rw [StateStore.entries_applyStateWrites, h.entries, replayed_append_singleton]
  have hroot : AppliedRoot pf p L b := by
    rw [AppliedRoot, sparseRootScoped_eq_rootOf hafter, hb.rootOut]
  have hkeys : ∀ k ∈ (L.states.applyStateWrites p b.stateWrites).entries p, k ∈ chainKeys bs := by
    intro k hk
    rw [hafter] at hk
    refine chainKeys_mono ?_ (mem_replayed hk)
    rw [hbs]
    intro x hx
    rcases List.mem_append.mp hx with hx | hx
    · exact List.mem_append_left _ hx
    · rw [List.mem_singleton.mp hx]
      simp
  refine ⟨⟨hb.committee ▸ hc, ?_, hst, hb.committee ▸ hb.verified, ?_, hb.digest, ?_⟩, hroot⟩
  · apply ProgramCatalog.expectedHeight_eq_ok
    rw [h.committedHeight hpre, hb.height]
  · rw [hb.rootIn, hchain.lastRoot_eq hbs]
    exact (sparseRootScoped_eq_rootOf h.entries).symm
  · rw [← StateStore.sparseRootScoped_applyStateWrites L.states p pf hK hkeys]
    exact hroot

theorem Holds.commit (hb : b.receipt.receipt.height.toNat = pre.length + 1) (h : Holds p pre L)
    (now : UInt64) : Holds p (pre ++ [b]) (L.commit p b now) := by
  constructor
  · rw [replayed_append_singleton, ← h.entries]
    exact StateStore.entries_applyStateWrites L.states p b.stateWrites
  · intro height
    have hz : height = 0 ↔ height.toNat = 0 := by
      rw [← UInt64.toNat_inj]
      rfl
    rw [Ledger.commit, ProgramCatalog.getStateCommitment_storeStateCommitment]
    by_cases hh : b.receipt.receipt.height = height
    · have hne : height ≠ 0 := by
        rw [ne_eq, hz, ← hh, hb]
        omega
      rw [if_pos ⟨rfl, hh⟩, rootAt, if_neg hne, ← hh, hb]
      simp
    · have hne : height.toNat ≠ pre.length + 1 := by
        rw [← hb]
        exact fun he => hh (UInt64.toNat_inj.mp he).symm
      rw [if_neg (fun hc => hh hc.2), h.commitments, rootAt, rootAt]
      by_cases h0 : height = 0
      · rw [if_pos h0, if_pos h0]
      · rw [if_neg h0, if_neg h0]
        have h0' : height.toNat ≠ 0 := fun he => h0 (hz.mpr he)
        rcases Nat.lt_or_ge (height.toNat - 1) pre.length with hlt | hge
        · rw [List.getElem?_append_left hlt]
        · rw [List.getElem?_eq_none hge, List.getElem?_eq_none]
          rw [List.length_append, List.length_singleton]
          omega

theorem takeWhile_eq_of_split {α : Type} {q : α → Bool} {l r : List α} (hl : ∀ x ∈ l, q x = true)
    (hr : ∀ x, r.head? = some x → q x = false) : (l ++ r).takeWhile q = l := by
  rw [List.takeWhile_append_of_pos hl]
  cases r with
  | nil => simp
  | cons x r => simp [hr x rfl]

/-- What the deliveries `D` have put into the ledger: the committee and their bundles. -/
structure Supplied (pf : Platform) (p : ProgramId) (C : CommitteeCertificate)
    (D : List AggregatedReceiptBundle) (L : Ledger) : Prop where
  committee : L.catalog.committee pf p = .ok (some C)
  bundles : ∀ height b, L.finalized.get (heightKey p height) = some b ↔
    b ∈ D ∧ b.receipt.receipt.height = height

theorem Supplied.next {D : List AggregatedReceiptBundle} (hchain : ValidChain pf p C bs) (hD : D ⊆ bs)
    (hs : Supplied pf p C D L) (h : Holds p pre L) (hbs : bs = pre ++ rest) (hb : Appliable pf p L b) :
    b ∈ D ∧ ∃ rest', rest = b :: rest' := by
  have hmem := ((hs.bundles _ b).mp hb.stored).1
  obtain ⟨pre', rest', hbs'⟩ := List.append_of_mem (hD hmem)
  have hlen := hchain.length_lt
  have hpre : pre.length < 2 ^ 64 := by
    rw [hbs, List.length_append] at hlen
    omega
  have h1 := (hchain pre' b rest' hbs').height
  have h2 := ProgramCatalog.toNat_of_expectedHeight hb.height
  rw [h.committedHeight hpre] at h2
  have hsplit := List.append_inj (hbs.symm.trans hbs') (by omega)
  exact ⟨hmem, rest', hsplit.2⟩

theorem Supplied.of_frame {D : List AggregatedReceiptBundle} (h : Supplied pf p C D L)
    (hf : L'.catalog.manifests = L.catalog.manifests ∧ L'.finalized = L.finalized) :
    Supplied pf p C D L' :=
  ⟨(ProgramCatalog.committee_congr hf.1).trans h.committee, by rw [hf.2]; exact h.bundles⟩

theorem Holds.caughtUp {D : List AggregatedReceiptBundle} (hchain : ValidChain pf p C bs)
    (hK : Set.InjOn pf.hashBytes (chainKeys bs)) (hD : D ⊆ bs) (hs : Supplied pf p C D L)
    (h : Holds p pre L) (hbs : bs = pre ++ rest) (hpre : ∀ b ∈ pre, b ∈ D)
    (hcu : CaughtUp pf p L L') : Holds p (bs.takeWhile (· ∈ D)) L' := by
  obtain ⟨M, hpath, hex, hend⟩ := hcu
  have hM : ∃ pre' rest', bs = pre' ++ rest' ∧ (∀ b ∈ pre', b ∈ D) ∧ Holds p pre' M ∧
      Supplied pf p C D M := by
    clear hex hend
    induction hpath with
    | refl => exact ⟨pre, rest, hbs, hpre, h, hs⟩
    | tail _ hstep ih =>
      obtain ⟨pre', rest', hbs', hpre', h', hs'⟩ := ih
      obtain ⟨b, now, hb, -⟩ := hstep
      obtain ⟨hmem, rest'', rfl⟩ := hs'.next hchain hD h' hbs' hb
      refine ⟨pre' ++ [b], rest'', by simp [hbs'], ?_, h'.commit (hchain _ _ _ hbs').height now,
        hs'.of_frame ⟨rfl, rfl⟩⟩
      intro x hx
      rcases List.mem_append.mp hx with hx | hx
      · exact hpre' x hx
      · rw [List.mem_singleton.mp hx]
        exact hmem
  obtain ⟨pre', rest', hbs', hpre', h', hs'⟩ := hM
  have htake : bs.takeWhile (· ∈ D) = pre' := by
    rw [hbs']
    refine takeWhile_eq_of_split (by simpa using hpre') ?_
    intro b hb
    obtain ⟨rest'', rfl⟩ : ∃ rest'', rest' = b :: rest'' := by
      cases rest' with
      | nil => cases hb
      | cons x xs => exact ⟨xs, by rw [Option.some.inj hb]⟩
    rw [decide_eq_false_iff_not]
    intro hmem
    have hst := (hs'.bundles b.receipt.receipt.height b).mpr ⟨hmem, rfl⟩
    obtain ⟨happ, hroot⟩ := h'.appliable hchain hK hbs' hs'.committee hst
    exact hex b happ hroot
  rw [htake]
  rcases hend with rfl | hmis
  · exact h'
  · obtain ⟨b, hb, hr⟩ := hmis
    exact absurd hr (fun hr => by
      obtain ⟨-, rest'', rfl⟩ := hs'.next hchain hD h' hbs' hb
      exact hr (h'.appliable hchain hK hbs' hs'.committee hb.stored).2)

theorem ValidChain.eq_of_height (hchain : ValidChain pf p C bs) {b' : AggregatedReceiptBundle}
    (hb : b ∈ bs) (hb' : b' ∈ bs) (hh : b.receipt.receipt.height = b'.receipt.receipt.height) :
    b = b' := by
  obtain ⟨pre, rest, hbs⟩ := List.append_of_mem hb
  obtain ⟨pre', rest', hbs'⟩ := List.append_of_mem hb'
  have h1 := (hchain pre b rest hbs).height
  have h2 := (hchain pre' b' rest' hbs').height
  rw [hh] at h1
  exact (List.cons.inj (List.append_inj (hbs.symm.trans hbs') (by omega)).2).1

end Chain

section Handlers

variable {pf : Platform} {s : Node} {b : AggregatedReceiptBundle}

theorem handleFinalizedReceipt_of_unknown (clock : UInt64 → UInt64)
    (hc : s.catalog.committee pf b.receipt.receipt.programId = .ok none) :
    (handleFinalizedReceipt pf clock s b).1.ledger =
      { s.ledger with finalized := s.finalizedStore.put b } := by
  rw [handleFinalizedReceipt]
  simp only [hc]
  rfl

theorem handleFinalizedReceipt_caughtUp (clock : UInt64 → UInt64)
    (hc : s.catalog.committee pf b.receipt.receipt.programId = .ok (some b.committee))
    (hv : verifyAggregatedReceipt pf b.receipt b.committee = .ok ()) :
    CaughtUp pf b.receipt.receipt.programId { s.ledger with finalized := s.finalizedStore.put b }
      (handleFinalizedReceipt pf clock s b).1.ledger := by
  rw [handleFinalizedReceipt]
  simp only [hc, ne_eq, not_true_eq_false, if_false, Node.ingestAggregatedReceipt, hv, Except.map]
  split
  · rename_i hh
    refine ⟨_, .refl, ?_, .inl rfl⟩
    intro b' hb'
    have hok := hb'.height.symm.trans hh
    cases hok
  · split
    · exact applyAvailable_caughtUp clock rfl
    · exact applyAvailable_caughtUp clock rfl

theorem acceptManifest_caughtUp (clock : UInt64 → UInt64) {m : ProgramManifest}
    (hv : s.catalog.verifyInitialSync pf m = .ok ()) :
    CaughtUp pf m.programId { s.ledger with catalog := s.ledger.catalog.storeManifest m }
      (acceptManifest pf clock s m).ledger := by
  rw [acceptManifest, hv]
  exact applyAvailable_caughtUp clock rfl

end Handlers

inductive Delivery
  | manifest (clock : UInt64 → UInt64)
  | bundle (clock : UInt64 → UInt64) (b : AggregatedReceiptBundle)

def Delivery.isManifest : Delivery → Bool
  | manifest _ => true
  | bundle _ _ => false

def Delivery.bundle? : Delivery → Option AggregatedReceiptBundle
  | manifest _ => none
  | bundle _ b => some b

def deliver (pf : Platform) (m : ProgramManifest) (s : Node) : Delivery → Node
  | .manifest clock => handleProgramManifestResponse pf clock s ⟨m.programId, some m⟩
  | .bundle clock b => (handleFinalizedReceipt pf clock s b).1

structure Node.Lacks (s : Node) (p : ProgramId) : Prop where
  manifest : s.catalog.manifests[p.bytes.bytes]? = none
  commitments : ∀ height, s.catalog.getStateCommitment p height = none
  bundles : ∀ height, s.finalizedStore.get (heightKey p height) = none
  entries : s.states.entries p = ∅

/-- What the deliveries have led to: `D` are the bundles among them, `seen` says whether the manifest
was one of them. -/
structure Delivered (pf : Platform) (m : ProgramManifest) (bs D : List AggregatedReceiptBundle)
    (seen : Bool) (L : Ledger) : Prop where
  bundles : ∀ height b, L.finalized.get (heightKey m.programId height) = some b ↔
    b ∈ D ∧ b.receipt.receipt.height = height
  manifest : L.catalog.getManifest pf m.programId = .ok (if seen then some m else none)
  holds : Holds m.programId (if seen then bs.takeWhile (· ∈ D) else []) L

section Deliveries

variable {pf : Platform} {m : ProgramManifest} {C : CommitteeCertificate}
  {bs D : List AggregatedReceiptBundle} {b : AggregatedReceiptBundle} {seen : Bool} {L L' : Ledger}
  {s : Node} {ds : List Delivery}

theorem holds_nil_iff {p : ProgramId} : Holds p [] L ↔
    L.states.entries p = ∅ ∧ ∀ height, L.catalog.getStateCommitment p height = none := by
  have hr : ∀ height, rootAt [] height = none := by
    intro height
    simp [rootAt]
  constructor
  · intro h
    refine ⟨h.entries, fun height => ?_⟩
    have hh := h.commitments height
    rwa [hr, Option.map_eq_none_iff] at hh
  · rintro ⟨he, hc⟩
    exact ⟨he, fun height => by rw [hc, hr]; rfl⟩

theorem Node.Lacks.delivered (h : s.Lacks m.programId) :
    Delivered pf m bs [] false s.ledger := by
  refine ⟨fun height b => ?_, ?_, holds_nil_iff.mpr ⟨h.entries, h.commitments⟩⟩
  · have hb : s.ledger.finalized.get (heightKey m.programId height) = none := h.bundles height
    simp [hb]
  · have hm : s.ledger.catalog.manifests[m.programId.bytes.bytes]? = none := h.manifest
    rw [ProgramCatalog.getManifest, hm]
    rfl

theorem bundles_put (hchain : ValidChain pf m.programId C bs) (hD : D ⊆ bs) (hb : b ∈ bs)
    (h : ∀ height b, L.finalized.get (heightKey m.programId height) = some b ↔
      b ∈ D ∧ b.receipt.receipt.height = height) (height : UInt64) (b' : AggregatedReceiptBundle) :
    (L.finalized.put b).get (heightKey m.programId height) = some b' ↔
      b' ∈ D ++ [b] ∧ b'.receipt.receipt.height = height := by
  obtain ⟨pre, rest, hbs⟩ := List.append_of_mem hb
  have hp := (hchain pre b rest hbs).program
  rw [Keyed.get_put, List.mem_append, List.mem_singleton]
  by_cases hh : b.receipt.receipt.height = height
  · rw [if_pos (by rw [bundleKey, hp, hh])]
    constructor
    · intro he
      have he' := Option.some.inj he
      exact ⟨Or.inr he'.symm, he' ▸ hh⟩
    · rintro ⟨hmem | rfl, hh'⟩
      · exact congrArg some (hchain.eq_of_height hb (hD hmem) (hh.trans hh'.symm))
      · rfl
  · have hne : bundleKey b ≠ heightKey m.programId height := fun he => hh (heightKey_inj he).2
    rw [if_neg hne, h height b']
    constructor
    · exact fun ⟨hmem, hh'⟩ => ⟨Or.inl hmem, hh'⟩
    · rintro ⟨hmem | rfl, hh'⟩
      · exact ⟨hmem, hh'⟩
      · exact absurd hh' hh

theorem CaughtUp.frame {p : ProgramId} (h : CaughtUp pf p L L') :
    L'.catalog.manifests = L.catalog.manifests ∧ L'.finalized = L.finalized := by
  obtain ⟨M, hpath, -, hend⟩ := h
  exact CatchUp.frame ⟨M, hpath, hend⟩

theorem Delivered.caughtUp (hC : m.committee = some C) (hchain : ValidChain pf m.programId C bs)
    (hK : Set.InjOn pf.hashBytes (chainKeys bs)) (hD : D ⊆ bs) {pre rest : List AggregatedReceiptBundle}
    (hbs : bs = pre ++ rest) (hpre : ∀ b ∈ pre, b ∈ D)
    (hbundles : ∀ height b, L.finalized.get (heightKey m.programId height) = some b ↔
      b ∈ D ∧ b.receipt.receipt.height = height)
    (hmanifest : L.catalog.getManifest pf m.programId = .ok (some m)) (hholds : Holds m.programId pre L)
    (hcu : CaughtUp pf m.programId L L') : Delivered pf m bs D true L' := by
  have hs : Supplied pf m.programId C D L := by
    refine ⟨?_, hbundles⟩
    rw [ProgramCatalog.committee, hmanifest]
    exact congrArg _ hC
  refine ⟨by rw [hcu.frame.2]; exact hbundles, ?_, hholds.caughtUp hchain hK hD hs hbs hpre hcu⟩
  rw [ProgramCatalog.getManifest_congr hcu.frame.1]
  exact hmanifest

theorem Delivered.split (h : Delivered pf m bs D seen L) : ∃ pre rest, bs = pre ++ rest ∧
    (∀ b ∈ pre, b ∈ D) ∧ Holds m.programId pre L := by
  cases seen with
  | false => exact ⟨[], bs, rfl, by simp, h.holds⟩
  | true =>
    refine ⟨bs.takeWhile (· ∈ D), bs.dropWhile (· ∈ D), List.takeWhile_append_dropWhile.symm, ?_, h.holds⟩
    intro b hb
    simpa using List.mem_takeWhile_imp hb

theorem Delivered.manifest_step (hC : m.committee = some C) (hsub : m.subnetMembership.isSome)
    (hchain : ValidChain pf m.programId C bs) (hK : Set.InjOn pf.hashBytes (chainKeys bs)) (hD : D ⊆ bs)
    (h : Delivered pf m bs D seen s.ledger) (clock : UInt64 → UInt64) :
    Delivered pf m bs D true (deliver pf m s (.manifest clock)).ledger := by
  have hm : s.catalog.getManifest pf m.programId = .ok (if seen then some m else none) := h.manifest
  have hv : s.catalog.verifyInitialSync pf m = .ok () := by
    rw [ProgramCatalog.verifyInitialSync, hm]
    cases seen with
    | false => rfl
    | true => simp [hC]
  have hdec : ProgramManifest.decode m.encode = some m :=
    ProgramManifest.decode_encode_eq_iff.mpr ⟨by rw [hC]; rfl, hsub⟩
  obtain ⟨pre, rest, hbs, hpre, hholds⟩ := h.split
  have hman : (s.ledger.catalog.storeManifest m).getManifest pf m.programId = .ok (some m) := by
    rw [ProgramCatalog.getManifest_storeManifest, hdec]
  exact Delivered.caughtUp (L := { s.ledger with catalog := s.ledger.catalog.storeManifest m }) hC hchain hK
    hD hbs hpre h.bundles hman ⟨hholds.entries, hholds.commitments⟩ (acceptManifest_caughtUp clock hv)

theorem Delivered.bundle_step (hC : m.committee = some C) (hchain : ValidChain pf m.programId C bs)
    (hK : Set.InjOn pf.hashBytes (chainKeys bs)) (hD : D ⊆ bs) (hb : b ∈ bs)
    (h : Delivered pf m bs D seen s.ledger) (clock : UInt64 → UInt64) :
    Delivered pf m bs (D ++ [b]) seen (deliver pf m s (.bundle clock b)).ledger := by
  obtain ⟨pre, rest, hbs⟩ := List.append_of_mem hb
  have hcont := hchain pre b rest hbs
  have hput := bundles_put hchain hD hb h.bundles
  have hm : s.catalog.getManifest pf m.programId = .ok (if seen then some m else none) := h.manifest
  cases seen with
  | false =>
    have hc : s.catalog.committee pf b.receipt.receipt.programId = .ok none := by
      rw [hcont.program, ProgramCatalog.committee, hm]
      rfl
    rw [deliver, handleFinalizedReceipt_of_unknown clock hc]
    exact ⟨hput, h.manifest, h.holds.entries, h.holds.commitments⟩
  | true =>
    have hc : s.catalog.committee pf b.receipt.receipt.programId = .ok (some b.committee) := by
      rw [hcont.program, hcont.committee, ProgramCatalog.committee, hm]
      exact congrArg _ hC
    have hcu := handleFinalizedReceipt_caughtUp clock hc (hcont.committee ▸ hcont.verified)
    rw [hcont.program] at hcu
    obtain ⟨pre', rest', hbs', hpre', hholds⟩ := h.split
    refine Delivered.caughtUp (L := { s.ledger with finalized := s.finalizedStore.put b }) hC hchain hK ?_
      hbs' ?_ hput h.manifest ⟨hholds.entries, hholds.commitments⟩ hcu
    · intro x hx
      rcases List.mem_append.mp hx with hx | hx
      · exact hD hx
      · rw [List.mem_singleton.mp hx]
        exact hb
    · exact fun x hx => List.mem_append_left _ (hpre' x hx)

theorem delivered_of_deliveries (hC : m.committee = some C) (hsub : m.subnetMembership.isSome)
    (hchain : ValidChain pf m.programId C bs) (hK : Set.InjOn pf.hashBytes (chainKeys bs))
    (hs : s.Lacks m.programId) (hds : ∀ b ∈ ds.filterMap Delivery.bundle?, b ∈ bs) :
    Delivered pf m bs (ds.filterMap Delivery.bundle?) (ds.any Delivery.isManifest)
      (ds.foldl (deliver pf m) s).ledger := by
  induction ds using List.reverseRecOn with
  | nil => exact hs.delivered
  | append_singleton ds d ih =>
    rw [List.filterMap_append] at hds ⊢
    rw [List.foldl_append, List.any_append]
    have hprev := ih fun b hb => hds b (List.mem_append_left _ hb)
    have hD : ds.filterMap Delivery.bundle? ⊆ bs := fun b hb => hds b (List.mem_append_left _ hb)
    cases d with
    | manifest clock =>
      have hnone : [Delivery.manifest clock].filterMap Delivery.bundle? = [] := rfl
      have hsome : [Delivery.manifest clock].any Delivery.isManifest = true := rfl
      rw [hnone, hsome, List.append_nil, Bool.or_true]
      exact hprev.manifest_step hC hsub hchain hK hD clock
    | bundle clock b =>
      have hb : b ∈ bs := hds b (List.mem_append_right _ (by simp [Delivery.bundle?]))
      have hsome : [Delivery.bundle clock b].filterMap Delivery.bundle? = [b] := rfl
      have hnone : [Delivery.bundle clock b].any Delivery.isManifest = false := rfl
      rw [hsome, hnone, Bool.or_false]
      exact hprev.bundle_step hC hchain hK hD hb clock

end Deliveries

/-- Whatever the order, the repetitions and the gaps in which manifest and bundles are delivered, the
node ends with the commitments and the state of the longest part of the chain that was delivered. -/
theorem catch_up_order_independent {pf : Platform} {m : ProgramManifest} {C : CommitteeCertificate}
    {bs : List AggregatedReceiptBundle} {s : Node} {ds : List Delivery} (hC : m.committee = some C)
    (hsub : m.subnetMembership.isSome) (hchain : ValidChain pf m.programId C bs)
    (hK : Set.InjOn pf.hashBytes (chainKeys bs)) (hs : s.Lacks m.programId)
    (hds : ∀ b ∈ ds.filterMap Delivery.bundle?, b ∈ bs) (hm : ds.any Delivery.isManifest = true) :
    let s' := ds.foldl (deliver pf m) s
    let front := bs.takeWhile (· ∈ ds.filterMap Delivery.bundle?)
    (∀ height, (s'.catalog.getStateCommitment m.programId height).map (·.root) =
      if height = 0 then none
      else front[height.toNat - 1]?.map (·.receipt.receipt.stateRootOut)) ∧
    s'.states.entries m.programId = front.foldl (fun e b => writeEntries e b.stateWrites) ∅ := by
  intro s' front
  have h := delivered_of_deliveries hC hsub hchain hK hs hds
  rw [hm] at h
  exact ⟨h.holds.commitments, h.holds.entries⟩

section Sample

theorem validChain_iff {pf : Platform} {p : ProgramId} {C : CommitteeCertificate}
    {bs : List AggregatedReceiptBundle} :
    ValidChain pf p C bs ↔ ∀ i : Fin bs.length, Continues pf p C (bs.take i) bs[i] := by
  constructor
  · intro h i
    exact h (bs.take i) bs[i] (bs.drop (i + 1)) (by simp)
  · intro h pre b rest hbs
    have hi : pre.length < bs.length := by simp [hbs]
    have hh := h ⟨pre.length, hi⟩
    simpa [hbs] using hh

instance (pf : Platform) (p : ProgramId) (C : CommitteeCertificate) (pre : List AggregatedReceiptBundle)
    (b : AggregatedReceiptBundle) : Decidable (Continues pf p C pre b) :=
  decidable_of_iff
    (b.receipt.receipt.programId = p ∧ b.receipt.receipt.height.toNat = pre.length + 1 ∧
      b.committee = C ∧ verifyAggregatedReceipt pf b.receipt C = .ok () ∧
      stateWritesDigest pf b.stateWrites = b.receipt.receipt.writeDigest ∧
      b.receipt.receipt.stateRootIn = lastRoot pf pre ∧
      b.receipt.receipt.stateRootOut = rootOf pf (replayed (pre ++ [b])))
    ⟨fun ⟨h1, h2, h3, h4, h5, h6, h7⟩ => ⟨h1, h2, h3, h4, h5, h6, h7⟩,
      fun h => ⟨h.program, h.height, h.committee, h.verified, h.digest, h.rootIn, h.rootOut⟩⟩

theorem sampleStart_lacks (b : UInt8) : (sampleStart b).Lacks sampleProgram :=
  ⟨rfl, fun _ => by simp [sampleStart, Node.fresh, ProgramCatalog.getStateCommitment, ProgramCatalog.empty],
    fun _ => by simp [sampleStart, Node.fresh], StateStore.entries_empty _⟩

/-- The second bundle comes first, then the manifest, then both bundles. -/
theorem catch_up_order_independent_sample :
    let C := sampleCommittee sampleProgram [1] 1
    let ds := (publishedBundles.drop 1).map (Delivery.bundle fun _ => 0) ++
      .manifest (fun _ => 0) :: publishedBundles.map (Delivery.bundle fun _ => 0)
    publishedBundles.length = 2 ∧
      (ds.foldl (deliver sampleRuntime (sampleManifest C)) (sampleStart 2)).states.entries sampleProgram =
        replayed publishedBundles := by
  intro C ds
  have hchain : ValidChain sampleRuntime sampleProgram C publishedBundles :=
    validChain_iff.mpr (by decide +kernel)
  have hkeys : ∀ b ∈ publishedBundles, ∀ w ∈ b.stateWrites, w.key = [1] := by decide +kernel
  have hK : Set.InjOn sampleRuntime.hashBytes (chainKeys publishedBundles) := by
    rintro k ⟨b, hb, w, hw, rfl⟩ k' ⟨b', hb', w', hw', rfl⟩ -
    rw [hkeys b hb w hw, hkeys b' hb' w' hw']
  have hds : ∀ b ∈ ds.filterMap Delivery.bundle?, b ∈ publishedBundles := by decide +kernel
  have hall : publishedBundles.takeWhile (· ∈ ds.filterMap Delivery.bundle?) = publishedBundles := by
    decide +kernel
  have hm : ds.any Delivery.isManifest = true := by simp [ds, Delivery.isManifest]
  have h := (catch_up_order_independent (m := sampleManifest C) rfl rfl hchain hK (sampleStart_lacks 2) hds hm).2
  rw [hall] at h
  exact ⟨by decide +kernel, h⟩

end Sample

end Onvm
