import Onvm.Finalization
import Onvm.Limbs

/-! From collected signatures to an aggregated receipt and back: the bitmap that
`finalize_transition` writes, the signers that `select_signers` reads from it, and
the three computations of their weight. -/

namespace Onvm

open ByteString Limbs OrderedStore WeightedQuorum Std

theorem length_setBit (bitmap : Bytes) (idx : Nat) : (setBit bitmap idx).length = bitmap.length :=
  List.length_set

theorem bitmapBit_eq_readBit (bitmap : Bytes) (i : Nat) : bitmapBit bitmap i = readBit bitmap i :=
  testBit_of_shift _ (Nat.mod_lt _ (by decide))

theorem bitmapBit_setBit {bitmap : Bytes} {i : Nat} (hi : i / 8 < bitmap.length) (j : Nat) :
    bitmapBit (setBit bitmap i) j = (decide (i = j) || bitmapBit bitmap j) := by
  have hbyte : bitmap[i / 8]? = some (bitmap.getD (i / 8) 0) := by
    rw [List.getD_eq_getElem?_getD, List.getElem?_eq_getElem hi, Option.getD_some]
  rw [bitmapBit_eq_readBit, bitmapBit_eq_readBit, Bool.or_comm, decide_eq_decide.mpr eq_comm]
  exact readBit_set hbyte j

def PendingTransition.signers (e : PendingTransition) : List CommitteeMember :=
  e.committee.members.filter fun m => e.signatures.contains m.node

section Collecting

variable {signatures : ExtTreeMap NodeId BlsSignature}

theorem collectSigners_spec (idx : Nat) (ms : List CommitteeMember) (bitmap : Bytes)
    (sigs : List BlsSignature) (weight : UInt64) :
    let c := collectSigners signatures idx ms (bitmap, sigs, weight)
    c.1.length = bitmap.length ∧ c.2.1 = sigs ++ (ms.filterMap fun m => signatures[m.node]?) ∧
      c.2.2 = ((ms.filter fun m => signatures.contains m.node).map (·.weight)).foldl saturatingAdd weight := by
  induction ms generalizing idx bitmap sigs weight with
  | nil => exact ⟨rfl, (List.append_nil sigs).symm, rfl⟩
  | cons m ms ih =>
    intro c
    cases hm : signatures[m.node]? with
    | none =>
      have hc : c = collectSigners signatures (idx + 1) ms (bitmap, sigs, weight) := by
        simp only [c, collectSigners, hm]
      rw [hc, List.filterMap_cons, hm,
        List.filter_cons_of_neg (by simp [ExtTreeMap.contains_eq_isSome_getElem?, hm])]
      exact ih ..
    | some sig =>
      have hc : c = collectSigners signatures (idx + 1) ms
          (setBit bitmap idx, sigs ++ [sig], saturatingAdd weight m.weight) := by
        simp only [c, collectSigners, hm]
      obtain ⟨hlen, hsigs, hweight⟩ := ih (idx + 1) (setBit bitmap idx) (sigs ++ [sig])
        (saturatingAdd weight m.weight)
      rw [hc, hlen, hsigs, hweight, length_setBit, List.filterMap_cons, hm, List.append_assoc,
        List.singleton_append,
        List.filter_cons_of_pos (by simp [ExtTreeMap.contains_eq_isSome_getElem?, hm]),
        List.map_cons, List.foldl_cons]
      exact ⟨rfl, rfl, rfl⟩

theorem bitmapBit_collectSigners_of_lt {idx : Nat} {ms : List CommitteeMember} {bitmap : Bytes}
    (hlen : idx + ms.length ≤ 8 * bitmap.length) (sigs : List BlsSignature) (weight : UInt64) {j : Nat}
    (hj : j < idx) :
    bitmapBit (collectSigners signatures idx ms (bitmap, sigs, weight)).1 j = bitmapBit bitmap j := by
  induction ms generalizing idx bitmap sigs weight with
  | nil => rfl
  | cons m ms ih =>
    rw [List.length_cons] at hlen
    rw [collectSigners]
    split
    · exact ih (by omega) _ _ (by omega)
    · rw [ih (by rw [length_setBit]; omega) _ _ (by omega), bitmapBit_setBit (by omega),
        decide_eq_false (by omega), Bool.false_or]

theorem bitmapBit_collectSigners {idx : Nat} {ms : List CommitteeMember} {bitmap : Bytes}
    (hlen : idx + ms.length ≤ 8 * bitmap.length) (hclear : ∀ j, idx ≤ j → bitmapBit bitmap j = false)
    (sigs : List BlsSignature) (weight : UInt64) :
    ∀ e ∈ ms.zipIdx idx, bitmapBit (collectSigners signatures idx ms (bitmap, sigs, weight)).1 e.2 =
      signatures.contains e.1.node := by
  induction ms generalizing idx bitmap sigs weight with
  | nil => simp
  | cons m ms ih =>
    rw [List.length_cons] at hlen
    intro e he
    rw [List.zipIdx_cons, List.mem_cons] at he
    rw [collectSigners, ExtTreeMap.contains_eq_isSome_getElem?]
    split
    · rename_i hnone
      rcases he with rfl | he
      · rw [bitmapBit_collectSigners_of_lt (by omega) _ _ (by omega), hclear idx (Nat.le_refl idx), hnone]
        rfl
      · rw [ih (by omega) (fun j hj => hclear j (by omega)) _ _ e he, ExtTreeMap.contains_eq_isSome_getElem?]
    · rename_i sig hsome
      have hin : idx / 8 < bitmap.length := by omega
      rcases he with rfl | he
      · rw [bitmapBit_collectSigners_of_lt (by rw [length_setBit]; omega) _ _ (by omega),
          bitmapBit_setBit hin, decide_eq_true rfl, Bool.true_or, hsome]
        rfl
      · refine (ih (by rw [length_setBit]; omega) (fun j hj => ?_) _ _ e he).trans
          ExtTreeMap.contains_eq_isSome_getElem?
        rw [bitmapBit_setBit hin, decide_eq_false (by omega), hclear j (by omega), Bool.false_or]

end Collecting

section Bundles

variable {e : PendingTransition}

/-- What `finalize_transition` collects before it looks at the weight. -/
def PendingTransition.collected (e : PendingTransition) : Bytes × List BlsSignature × UInt64 :=
  collectSigners e.signatures 0 e.committee.members (List.replicate (bitmapSize e.committee) 0, [], 0)

theorem length_collected (e : PendingTransition) : e.collected.1.length = bitmapSize e.committee := by
  rw [PendingTransition.collected, (collectSigners_spec ..).1, List.length_replicate]

theorem bitmapBit_replicate (n j : Nat) : bitmapBit (List.replicate n 0) j = false := by
  rw [bitmapBit]
  by_cases hj : j / 8 < n
  · rw [List.getD_replicate _ hj]
    simp
  · rw [List.getD_eq_default _ _ (by simpa using hj)]
    simp

theorem selectFrom_collected (e : PendingTransition) :
    selectFrom e.collected.1 0 e.committee.members = e.signers := by
  have hlen : 0 + e.committee.members.length ≤
      8 * (List.replicate (bitmapSize e.committee) (0 : UInt8)).length := by
    rw [List.length_replicate, bitmapSize]
    omega
  have hbits : ∀ x ∈ e.committee.members.zipIdx 0,
      bitmapBit e.collected.1 x.2 = e.signatures.contains x.1.node :=
    bitmapBit_collectSigners hlen (fun j _ => bitmapBit_replicate _ j) [] 0
  rw [selectFrom_eq, List.filter_congr hbits, PendingTransition.signers]
  conv_rhs => rw [← List.zipIdx_map_fst 0 e.committee.members]
  rw [List.filter_map]
  rfl

theorem find?_node_eq_some {ms : List CommitteeMember} (hnodup : (ms.map (·.node)).Nodup) {n : NodeId}
    {m : CommitteeMember} : ms.find? (·.node == n) = some m ↔ m ∈ ms ∧ m.node = n := by
  constructor
  · exact fun h => ⟨List.mem_of_find?_eq_some h, by simpa using List.find?_some h⟩
  · rintro ⟨hm, rfl⟩
    have hsome : (ms.find? (·.node == m.node)).isSome := List.find?_isSome.mpr ⟨m, hm, by simp⟩
    obtain ⟨m', hm'⟩ := Option.isSome_iff_exists.mp hsome
    have hnode : m'.node = m.node := by simpa using List.find?_some hm'
    rw [hm', List.inj_on_of_nodup_map hnodup (List.mem_of_find?_eq_some hm') hm hnode]

theorem signerWeight_eq (hnodup : (e.committee.members.map (·.node)).Nodup) :
    signerWeight e.committee e.signatures.keys = saturatingSum (e.signers.map (·.weight)) := by
  have hperm : (e.signatures.keys.filterMap fun n => e.committee.members.find? (·.node == n)).Perm
      e.signers := by
    rw [List.perm_ext_iff_of_nodup]
    · intro m
      rw [List.mem_filterMap, PendingTransition.signers, List.mem_filter]
      constructor
      · rintro ⟨n, hn, hm⟩
        obtain ⟨hmem, rfl⟩ := (find?_node_eq_some hnodup).mp hm
        exact ⟨hmem, ExtTreeMap.contains_iff_mem.mpr (ExtTreeMap.mem_keys.mp hn)⟩
      · rintro ⟨hmem, hc⟩
        exact ⟨m.node, ExtTreeMap.mem_keys.mpr (ExtTreeMap.contains_iff_mem.mp hc), (find?_node_eq_some hnodup).mpr ⟨hmem, rfl⟩⟩
    · refine ExtTreeMap.nodup_keys.filterMap ?_
      intro n n' m hm hm'
      rw [← ((find?_node_eq_some hnodup).mp hm).2, ((find?_node_eq_some hnodup).mp hm').2]
    · exact hnodup.of_map.filter _
  rw [signerWeight, saturatingSum_perm (hperm.map _)]

theorem collected_weight (hnodup : (e.committee.members.map (·.node)).Nodup) :
    e.collected.2.2 = signerWeight e.committee e.signatures.keys := by
  rw [signerWeight_eq hnodup, PendingTransition.collected, (collectSigners_spec ..).2.2]
  rfl

def PendingTransition.votes (e : PendingTransition) : List (BlsPublicKey × BlsSignature) :=
  e.committee.members.filterMap fun m => e.signatures[m.node]?.map (m.blsPublicKey, ·)

theorem votes_keys (e : PendingTransition) : e.votes.map Prod.fst = e.signers.map (·.blsPublicKey) := by
  rw [PendingTransition.votes, PendingTransition.signers]
  induction e.committee.members with
  | nil => rfl
  | cons m ms ih =>
    rw [List.filterMap_cons, List.filter_cons, ExtTreeMap.contains_eq_isSome_getElem?]
    cases e.signatures[m.node]? with
    | none => exact ih
    | some sig => exact congrArg (m.blsPublicKey :: ·) ih

theorem votes_signatures (e : PendingTransition) : e.votes.map Prod.snd = e.collected.2.1 := by
  rw [PendingTransition.collected, (collectSigners_spec ..).2.1, List.nil_append, PendingTransition.votes,
    List.map_filterMap]
  congr 1
  funext m
  cases e.signatures[m.node]? <;> rfl

def BlsComplete (pf : Platform) : Prop :=
  ∀ (id : ReceiptId) (votes : List (BlsPublicKey × BlsSignature)), votes ≠ [] →
    (∀ v ∈ votes, pf.verify id.bytes v.1 v.2 dstReceipt = .ok ()) →
    ∃ aggregate, pf.aggregateSignatures (votes.map Prod.snd) = .ok aggregate ∧
      pf.fastAggregateVerify id.bytes (votes.map Prod.fst) aggregate dstReceipt = .ok ()

/-- A committee of program `p` whose members are told apart by their ids, of admissible size and
with a threshold that somebody has to reach. -/
structure SoundCommittee (p : ProgramId) (c : CommitteeCertificate) : Prop where
  program : c.programId = p
  distinct : (c.members.map (·.node)).Nodup
  size : c.members.length ≤ maxCommitteeSize
  threshold : 1 ≤ c.threshold.toNat

variable {pf : Platform}

theorem signers_ne_nil (hc : SoundCommittee e.receipt.programId e.committee)
    (hw : e.committee.threshold.toNat ≤ (signerWeight e.committee e.signatures.keys).toNat) :
    e.signers ≠ [] := by
  intro hnil
  have ht := hc.threshold
  rw [signerWeight_eq hc.distinct, hnil] at hw
  have hzero : (saturatingSum (([] : List CommitteeMember).map (·.weight))).toNat = 0 := rfl
  omega

theorem selectSigners_collected (hnodup : (e.committee.members.map (·.node)).Nodup) :
    selectSigners e.committee e.collected.1 =
      .ok (e.signers.map (·.blsPublicKey), signerWeight e.committee e.signatures.keys) := by
  rw [selectSigners, if_neg (by rw [length_collected]; omega), selectFrom_collected, signerWeight_eq hnodup]

theorem assembleBundle_verifies (hbls : BlsComplete pf)
    (hc : SoundCommittee e.receipt.programId e.committee)
    (hw : e.committee.threshold.toNat ≤ (signerWeight e.committee e.signatures.keys).toNat)
    (hvalid : ∀ v ∈ e.votes, pf.verify (e.receipt.id pf).bytes v.1 v.2 dstReceipt = .ok ()) :
    ∃ b, assembleBundle pf e = .ok (some b) ∧ b.receipt.signerBitmap = e.collected.1 ∧
      verifyAggregatedReceipt pf b.receipt b.committee = .ok () := by
  have hsome : e.votes ≠ [] := by
    intro hnil
    have hkeys := votes_keys e
    rw [hnil] at hkeys
    exact signers_ne_nil hc hw (List.map_eq_nil_iff.mp hkeys.symm)
  obtain ⟨aggregate, hagg, hverify⟩ := hbls (e.receipt.id pf) e.votes hsome hvalid
  rw [votes_signatures] at hagg
  rw [votes_keys] at hverify
  have hweight := collected_weight hc.distinct
  have ht := hc.threshold
  refine ⟨⟨⟨e.receipt, e.committee.epoch, e.collected.1, aggregate, e.committee.aggregatePublicKey⟩,
    e.committee, e.stateWrites⟩, ?_, rfl, ?_⟩
  · have hbuild : assembleBundle pf e =
        if e.collected.2.2.toNat < e.committee.threshold.toNat then .ok none
        else (pf.aggregateSignatures e.collected.2.1).map fun aggregate => some
          ⟨⟨e.receipt, e.committee.epoch, e.collected.1, aggregate, e.committee.aggregatePublicKey⟩,
            e.committee, e.stateWrites⟩ := rfl
    rw [hbuild, hweight, if_neg (by omega), hagg]
    rfl
  · have hsize : bitmapSize e.committee ≤ maxBitmapSize := by
      have hmax := hc.size
      rw [bitmapSize, maxBitmapSize]
      rw [maxCommitteeSize] at hmax
      omega
    have hkeys : ¬ ((e.signers.map (·.blsPublicKey)).isEmpty ∨
        signerWeight e.committee e.signatures.keys = 0) := by
      rintro (hnil | hzero)
      · rw [List.isEmpty_iff, List.map_eq_nil_iff] at hnil
        exact signers_ne_nil hc hw hnil
      · rw [hzero] at hw
        have : (0 : UInt64).toNat = 0 := rfl
        omega
    dsimp only
    rw [verifyAggregatedReceipt, if_neg (not_not.mpr hc.program.symm), if_neg (not_not.mpr rfl),
      if_neg (Nat.not_lt.mpr hc.size), if_neg (by rw [length_collected]; omega),
      selectSigners_collected hc.distinct]
    dsimp only
    rw [if_neg hkeys, if_neg (Nat.not_lt.mpr hw), hverify]
    rfl

end Bundles

end Onvm
