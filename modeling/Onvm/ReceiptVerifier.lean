import Onvm.Platform
import Onvm.WeightedQuorum

/-! Verification of aggregated receipts (`receipt_verifier.rs`): the signer
bitmap, the weight of the members it selects, and why two accepted receipts of
one committee share an honest signer. -/

namespace Onvm

open ByteString WeightedQuorum

def maxCommitteeSize : Nat := 1000

def maxBitmapSize : Nat := 128

def bitmapBit (bitmap : Bytes) (idx : Nat) : Bool :=
  (bitmap.getD (idx / 8) 0 >>> UInt8.ofNat (idx % 8)) &&& 1 == 1

/-- The members selected from position `idx` on. -/
def selectFrom (bitmap : Bytes) : (idx : Nat) → List CommitteeMember → List CommitteeMember
  | _, [] => []
  | idx, m :: ms =>
    if bitmap.length ≤ idx / 8 then []
    else if bitmapBit bitmap idx then m :: selectFrom bitmap (idx + 1) ms
    else selectFrom bitmap (idx + 1) ms

def bitmapSize (c : CommitteeCertificate) : Nat := (c.members.length + 7) / 8

def selectSigners (c : CommitteeCertificate) (bitmap : Bytes) :
    Except String (List BlsPublicKey × UInt64) :=
  if bitmap.length < bitmapSize c then
    .error ("bitmap too small: expected at least " ++ toString (bitmapSize c) ++ " bytes for " ++
      toString c.members.length ++ " members, got " ++ toString bitmap.length)
  else
    let selected := selectFrom bitmap 0 c.members
    .ok (selected.map (·.blsPublicKey), saturatingSum (selected.map (·.weight)))

def verifyAggregatedReceipt (pf : Platform) (a : AggregatedReceipt) (c : CommitteeCertificate) :
    Except String Unit :=
  if a.receipt.programId ≠ c.programId then .error "program mismatch between receipt and committee"
  else if a.committeeEpoch ≠ c.epoch then .error "committee epoch mismatch"
  else if maxCommitteeSize < c.members.length then
    .error ("committee size exceeds maximum allowed (" ++ toString maxCommitteeSize ++ ")")
  else if maxBitmapSize < a.signerBitmap.length ∨ a.signerBitmap.length < bitmapSize c then
    .error ("invalid signer bitmap size: expected " ++ toString (bitmapSize c) ++ " bytes, got " ++
      toString a.signerBitmap.length)
  else
    match selectSigners c a.signerBitmap with
    | .error _ => .error "extracting signer keys"
    | .ok (keys, weight) =>
      if keys.isEmpty ∨ weight = 0 then .error "no signers present in aggregate receipt"
      else if weight.toNat < c.threshold.toNat then
        .error ("insufficient signer weight for aggregate receipt (have " ++ toString weight ++
          ", need " ++ toString c.threshold ++ ")")
      else
        (pf.fastAggregateVerify (a.receipt.id pf).bytes keys a.aggregateSignature dstReceipt).mapError
          fun _ => "aggregate receipt verification failed"

theorem bitmapBit_of_le {bitmap : Bytes} {idx : Nat} (h : bitmap.length ≤ idx / 8) :
    bitmapBit bitmap idx = false := by
  rw [bitmapBit, List.getD_eq_default _ _ h]
  simp

theorem selectFrom_cons (bitmap : Bytes) (idx : Nat) (m : CommitteeMember) (ms : List CommitteeMember) :
    selectFrom bitmap idx (m :: ms) =
      if bitmapBit bitmap idx then m :: selectFrom bitmap (idx + 1) ms
      else selectFrom bitmap (idx + 1) ms := by
  have hnil : ∀ (ms : List CommitteeMember) (i : Nat), bitmap.length ≤ i / 8 →
      selectFrom bitmap i ms = [] := by
    intro ms i hi
    cases ms with
    | nil => rfl
    | cons m ms => rw [selectFrom, if_pos hi]
  rw [selectFrom]
  split
  · rename_i hi
    rw [bitmapBit_of_le hi, if_neg (by simp), hnil ms (idx + 1) (by omega)]
  · rfl

theorem selectFrom_eq (bitmap : Bytes) (idx : Nat) (ms : List CommitteeMember) :
    selectFrom bitmap idx ms =
      ((ms.zipIdx idx).filter fun e => bitmapBit bitmap e.2).map Prod.fst := by
  induction ms generalizing idx with
  | nil => rfl
  | cons m ms ih =>
    rw [selectFrom_cons, ih, List.zipIdx_cons]
    cases hb : bitmapBit bitmap idx <;> simp [hb]

def totalWeight (c : CommitteeCertificate) : Nat := (c.members.map fun m => m.weight.toNat).sum

open Classical in
/-- The weight of the members that satisfy `P`. -/
noncomputable def weightOf (c : CommitteeCertificate) (P : NodeId → Prop) : Nat :=
  ((c.members.filter fun m => P m.node).map fun m => m.weight.toNat).sum

section Quorum

variable {pf : Platform} {a b : AggregatedReceipt} {c : CommitteeCertificate}

def signerKeys (c : CommitteeCertificate) (bitmap : Bytes) : List BlsPublicKey :=
  (selectFrom bitmap 0 c.members).map (·.blsPublicKey)

/-- What an accepted receipt shows: its program, a selection that reaches the threshold, and an
aggregate signature of the selected keys on its id. -/
structure Accepted (pf : Platform) (a : AggregatedReceipt) (c : CommitteeCertificate) : Prop where
  program : a.receipt.programId = c.programId
  epoch : a.committeeEpoch = c.epoch
  quorum : c.threshold.toNat ≤ (saturatingSum ((selectFrom a.signerBitmap 0 c.members).map (·.weight))).toNat
  signature : pf.fastAggregateVerify (a.receipt.id pf).bytes (signerKeys c a.signerBitmap)
    a.aggregateSignature dstReceipt = .ok ()

theorem accepted_of_verify (h : verifyAggregatedReceipt pf a c = .ok ()) : Accepted pf a c := by
  rw [verifyAggregatedReceipt] at h
  split at h
  · cases h
  rename_i hprog
  split at h
  · cases h
  rename_i hepoch
  split at h
  · cases h
  split at h
  · cases h
  rename_i hsize
  rw [selectSigners, if_neg (by omega)] at h
  simp only at h
  split at h
  · cases h
  split at h
  · cases h
  rename_i hweight
  refine ⟨not_not.mp hprog, not_not.mp hepoch, by omega, ?_⟩
  cases hv : pf.fastAggregateVerify (a.receipt.id pf).bytes (signerKeys c a.signerBitmap)
    a.aggregateSignature dstReceipt with
  | ok _ => rfl
  | error e =>
    rw [signerKeys] at hv
    rw [hv] at h
    cases h

theorem Accepted.threshold_le (h : Accepted pf a c) :
    c.threshold.toNat ≤ weightIn (fun e => e.1.weight.toNat) c.members.zipIdx
      fun e => bitmapBit a.signerBitmap e.2 := by
  have hq := (le_saturatingSum_iff (c.threshold.toNat_lt.trans (by norm_num))).mp h.quorum
  rw [selectFrom_eq] at hq
  simpa [weightIn, Function.comp_def] using hq

theorem mem_signerKeys {bitmap : Bytes} {e : CommitteeMember × Nat} (he : e ∈ c.members.zipIdx)
    (hb : bitmapBit bitmap e.2 = true) : e.1.blsPublicKey ∈ signerKeys c bitmap := by
  rw [signerKeys, selectFrom_eq]
  exact List.mem_map_of_mem (List.mem_map_of_mem (List.mem_filter.mpr ⟨he, hb⟩))

theorem totalWeight_eq (c : CommitteeCertificate) :
    totalWeight c = weightIn (fun e => e.1.weight.toNat) c.members.zipIdx fun _ => true := by
  rw [totalWeight, weightIn, List.filter_true]
  conv_lhs => rw [← List.zipIdx_map_fst 0 c.members]
  rw [List.map_map]
  rfl

open Classical in
theorem weightOf_eq (c : CommitteeCertificate) (P : NodeId → Prop) :
    weightOf c P = weightIn (fun e => e.1.weight.toNat) c.members.zipIdx fun e => P e.1.node := by
  rw [weightOf, weightIn]
  conv_lhs => rw [← List.zipIdx_map_fst 0 c.members]
  rw [List.filter_map, List.map_map]
  rfl

theorem exists_common_signer {faulty : NodeId → Prop} {F : Nat} (ha : Accepted pf a c)
    (hb : Accepted pf b c) (hF : weightOf c faulty ≤ F)
    (hT : totalWeight c + F < 2 * c.threshold.toNat) :
    ∃ m ∈ c.members, ¬ faulty m.node ∧ m.blsPublicKey ∈ signerKeys c a.signerBitmap ∧
      m.blsPublicKey ∈ signerKeys c b.signerBitmap := by
  classical
  rw [weightOf_eq] at hF
  rw [totalWeight_eq] at hT
  obtain ⟨e, he, hea, heb, hef⟩ :=
    exists_common_not_faulty _ ha.threshold_le hb.threshold_le hF hT
  refine ⟨e.1, ?_, by simpa using hef, mem_signerKeys he hea, mem_signerKeys he heb⟩
  have hmem : e.1 ∈ c.members.zipIdx.map Prod.fst := List.mem_map_of_mem he
  rwa [List.zipIdx_map_fst] at hmem

/-- Quorum certificates are unique: if an aggregate signature is only accepted when the owner of
every selected key signed the id, and no member outside the faulty ones signs two receipts for one
height, then two accepted receipts for one program and height have one id. -/
theorem verifyAggregatedReceipt_id_unique {faulty : NodeId → Prop} {F : Nat}
    {signed : BlsPublicKey → ReceiptId → Prop} (hF : weightOf c faulty ≤ F)
    (hT : totalWeight c + F < 2 * c.threshold.toNat)
    (hauth : ∀ (id : ReceiptId) keys sig, pf.fastAggregateVerify id.bytes keys sig dstReceipt = .ok () →
      ∀ k ∈ keys, signed k id)
    (hone : ∀ m ∈ c.members, ¬ faulty m.node → ∀ r r' : ExecutionReceipt,
      signed m.blsPublicKey (r.id pf) → signed m.blsPublicKey (r'.id pf) →
      r.programId = r'.programId → r.height = r'.height → r.id pf = r'.id pf)
    (ha : verifyAggregatedReceipt pf a c = .ok ()) (hb : verifyAggregatedReceipt pf b c = .ok ())
    (hp : a.receipt.programId = b.receipt.programId) (hh : a.receipt.height = b.receipt.height) :
    a.receipt.id pf = b.receipt.id pf := by
  have ha := accepted_of_verify ha
  have hb := accepted_of_verify hb
  obtain ⟨m, hm, hf, hma, hmb⟩ := exists_common_signer ha hb hF hT
  exact hone m hm hf a.receipt b.receipt (hauth _ _ _ ha.signature _ hma)
    (hauth _ _ _ hb.signature _ hmb) hp hh

/-- Four members of weight one, one of them faulty, threshold three, and two bitmaps of different
lengths for one receipt. -/
theorem verifyAggregatedReceipt_id_unique_sample :
    let p : ProgramId := ⟨.ofByte 32 9⟩
    let z : Bytes32 := .ofByte 32 0
    let r : ExecutionReceipt :=
      ⟨p, 1, z, ⟨"main", [], z⟩, z, 0, z, z, z, none, z, 0, sampleNode 1⟩
    let base := samplePlatform fun _ => .error "trap"
    let pf : Platform := { base with
      fastAggregateVerifyRaw := fun _ message _ _ =>
        if message = (r.id base).bytes then .ok () else .error .verifyFail }
    let c := sampleCommittee p [1, 2, 3, 4] 3
    let a : AggregatedReceipt := ⟨r, 0, [7], ⟨.ofByte 48 0⟩, samplePublicKey 0⟩
    let b : AggregatedReceipt := ⟨r, 0, [254, 255], ⟨.ofByte 48 0⟩, samplePublicKey 0⟩
    verifyAggregatedReceipt pf a c = .ok () ∧ verifyAggregatedReceipt pf b c = .ok () ∧
      a.receipt.id pf = b.receipt.id pf := by
  intro p z r base pf c a b
  have ha : verifyAggregatedReceipt pf a c = .ok () := by decide +kernel
  have hb : verifyAggregatedReceipt pf b c = .ok () := by decide +kernel
  refine ⟨ha, hb, ?_⟩
  have hF : weightOf c (· = sampleNode 4) ≤ 1 := by simp [weightOf, c, sampleCommittee]
  refine @verifyAggregatedReceipt_id_unique pf a b c (· = sampleNode 4) 1
    (fun _ id => id = r.id base) hF (by decide) ?_ ?_ ha hb rfl rfl
  · intro id keys sig hv k hk
    by_contra hne
    have hraw : ¬ id.bytes = (r.id base).bytes := fun h => hne (FixedBytes.bytes_injective h)
    rw [Platform.fastAggregateVerify] at hv
    split at hv
    · cases hv
    · obtain ⟨-, -, hv⟩ := bind_eq_ok hv
      obtain ⟨-, -, hv⟩ := bind_eq_ok hv
      simp only [pf, if_neg hraw] at hv
      cases hv
  · intro m _ _ r₁ r₂ h₁ h₂ _ _
    exact h₁.trans h₂.symm

end Quorum

end Onvm
