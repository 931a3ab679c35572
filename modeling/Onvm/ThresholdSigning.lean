import Onvm.CurvePoints

/-! Threshold signing in `threshold_ecdsa.rs`: key generation, partial signatures, their aggregation and the
check of the result. Random bytes are arguments. -/

namespace Onvm

open ByteString Limbs Std

variable {lib : Secp256k1}

section Chains

variable {ε α β : Type} {x : Except ε α} {a b : α}

theorem bind_of_ok {f : α → Except ε β} (h : x = .ok a) : x.bind f = f a := by
  rw [h]
  rfl

theorem map_of_ok {f : α → β} (h : x = .ok a) : x.map f = .ok (f a) := by
  rw [h]
  rfl

theorem mapM_pair {f : α → Except ε β} {r s : β} (ha : f a = .ok r) (hb : f b = .ok s) :
    [a, b].mapM f = .ok [r, s] := by
  rw [List.mapM_cons, List.mapM_cons, List.mapM_nil, ha, hb]
  rfl

theorem foldlM_pair {f : β → α → Except ε β} {r s t : β} (ha : f r a = .ok s) (hb : f s b = .ok t) :
    [a, b].foldlM f r = .ok t := by
  rw [List.foldlM_cons, ha]
  change [b].foldlM f s = _
  rw [List.foldlM_cons, hb]
  rfl

end Chains

structure FrostContext where
  minSigners : Nat

def Scalar.random (lib : Secp256k1) (bytes : Bytes32) : Except Failure Scalar := unwrap (fromBytes lib bytes)

namespace SecretPolynomial

def new (lib : Secp256k1) (threshold : Nat) (draws : Nat → Bytes32) : Except Failure SecretPolynomial :=
  ((List.range (1 + (threshold - 1))).mapM fun i => Scalar.random lib (draws i)).map SecretPolynomial.mk

def secret (p : SecretPolynomial) : Except Failure Scalar :=
  match p.coefficients with
  | [] => .error (.panic "index out of bounds: the len is 0 but the index is 0")
  | a :: _ => .ok a

end SecretPolynomial

structure KeyShare (lib : Secp256k1) where
  index : UInt32
  secretShare : Scalar
  polynomialCommitment : PolynomialCommitment lib

structure ThresholdKeyMaterial (lib : Secp256k1) where
  secretKey : Scalar
  publicKey : Point lib
  shares : List (KeyShare lib)
  polynomialCommitment : PolynomialCommitment lib
  threshold : Nat
  numShares : Nat

def shareFor (p : SecretPolynomial) (c : PolynomialCommitment lib) (participant : UInt32) :
    Except Failure (KeyShare lib) :=
  (Scalar.fromU64 participant.toUInt64).bind fun index =>
  (p.evaluate index).map fun share => ⟨participant, share, c⟩

def ThresholdKeyMaterial.generate (lib : Secp256k1) (ctx : FrostContext) (participants : List UInt32)
    (draws : Nat → Bytes32) : Except Failure (ThresholdKeyMaterial lib) :=
  (SecretPolynomial.new lib ctx.minSigners draws).bind fun p =>
  (PolynomialCommitment.fromPolynomial p Point.generator).bind fun c =>
  (participants.mapM (shareFor p c)).bind fun shares =>
  p.secret.bind fun secret =>
  (Point.generator.multiply secret).map fun publicKey =>
  ⟨secret, publicKey, shares, c, ctx.minSigners, participants.length⟩

structure NoncePair where
  hidingNonce : Scalar
  bindingNonce : Scalar

namespace NoncePair

def random (lib : Secp256k1) (draws : Bytes32 × Bytes32) : Except Failure NoncePair :=
  (Scalar.random lib draws.1).bind fun first =>
  (Scalar.random lib draws.2).map fun second => ⟨first, second⟩

def commitment (nonce : NoncePair) (generator : Point lib) : Except Failure (Point lib × Point lib) :=
  (generator.multiply nonce.hidingNonce).bind fun hidingCommit =>
  (generator.multiply nonce.bindingNonce).map fun bindingCommit => (hidingCommit, bindingCommit)

end NoncePair

def frostDomain : Bytes := "FROST-secp256k1-schnorr".toUTF8.data.toList

/-- `NoncePair::challenge`, which does not read the nonce. -/
def frostChallenge (pf : Platform) (message : Bytes) (publicKey : Point lib)
    (commitments : List (Point lib × Point lib)) : Except Failure Scalar :=
  (commitments.foldlM (fun (agg : Point lib) c => agg.add c.1) Point.generator).bind fun aggHiding =>
  (commitments.foldlM (fun (agg : Point lib) c => agg.add c.2) Point.generator).bind fun aggBinding =>
  Scalar.fromBytes lib (pf.hashBytes (frostDomain ++ [0x02] ++ aggHiding.asBytes.bytes ++
    aggBinding.asBytes.bytes ++ publicKey.asBytes.bytes ++ message))

structure PartialSignature (lib : Secp256k1) where
  signerIndex : UInt32
  hidingCommitment : Point lib
  bindingCommitment : Point lib
  signatureShare : Scalar

structure ThresholdSignature (lib : Secp256k1) where
  rPoint : Point lib
  sValue : Scalar
  signers : List UInt32
  threshold : UInt32

structure FrostSigner (lib : Secp256k1) where
  keyShare : KeyShare lib
  publicKey : Point lib
  nonces : ExtTreeMap UInt64 NoncePair
  usedNonces : ExtTreeSet UInt64

namespace FrostSigner

def new (keyShare : KeyShare lib) (publicKey : Point lib) : FrostSigner lib := ⟨keyShare, publicKey, ∅, ∅⟩

def generateNonce (signer : FrostSigner lib) (session : UInt64) (draws : Bytes32 × Bytes32) :
    Except Failure (NoncePair × FrostSigner lib) :=
  if signer.usedNonces.contains session then .error (.error "nonce already used for this session")
  else
    (NoncePair.random lib draws).map fun nonce =>
      (nonce, { signer with
        nonces := signer.nonces.insert session nonce
        usedNonces := signer.usedNonces.insert session })

def sign (pf : Platform) (signer : FrostSigner lib) (message : Bytes) (session : UInt64)
    (signingIndices : List UInt32) (commitments : ExtTreeMap UInt32 (Point lib × Point lib))
    (lambda : ExtTreeMap UInt32 Scalar) : Except Failure (PartialSignature lib) :=
  match signer.nonces[session]? with
  | none => .error (.error ("no nonce for session " ++ toString session))
  | some nonce =>
    (nonce.commitment Point.generator).bind fun commit =>
    (frostChallenge pf message signer.publicKey (signingIndices.filterMap fun i => commitments[i]?)).bind
      fun challenge =>
    match lambda[signer.keyShare.index]? with
    | none => .error (.error ("no lagrange coefficient for signer " ++ toString signer.keyShare.index))
    | some lambdaI =>
      (lambdaI.multiply signer.keyShare.secretShare).bind fun weighted =>
      (weighted.multiply challenge).bind fun term2 =>
      (nonce.hidingNonce.add term2).map fun share => ⟨signer.keyShare.index, commit.1, commit.2, share⟩

/-- One factor of a Lagrange coefficient. The difference is taken as an `i64` and read as a `u64`. -/
def lagrangeStep (myIndex : UInt32) (lambda : Scalar) (j : UInt32) : Except Failure Scalar :=
  if j = myIndex then .ok lambda
  else
    (Scalar.fromU64 j.toUInt64).bind fun num =>
    (Scalar.fromU64 (UInt64.ofInt (j.toNat - myIndex.toNat))).bind fun denom =>
    (lambda.multiply num).bind fun scaled =>
    denom.invert.bind fun inverse => scaled.multiply inverse

def computeLagrangeCoefficients (signers : List UInt32) (myIndex : UInt32) :
    Except Failure (ExtTreeMap UInt32 Scalar) :=
  signers.foldlM (fun lambdas i =>
    if i = myIndex then
      (signers.foldlM (lagrangeStep myIndex) Scalar.one).map fun lambda => lambdas.insert i lambda
    else .ok lambdas) ∅

end FrostSigner

def aggregateSignatures (partialSigs : List (PartialSignature lib)) (challenge : Scalar) :
    Except Failure (ThresholdSignature lib) :=
  if partialSigs.isEmpty then .error (.error "no partial signatures")
  else
    (partialSigs.foldlM (fun (agg : Point lib) sig => agg.add sig.hidingCommitment) Point.generator).bind fun rAgg =>
    (partialSigs.foldlM (fun (s : Scalar) sig => s.add sig.signatureShare) Scalar.zero).bind fun s =>
    challenge.invert.bind fun inverse =>
    (s.multiply inverse).map fun sFinal =>
    ⟨rAgg, sFinal, partialSigs.map PartialSignature.signerIndex, UInt32.ofNat partialSigs.length⟩

/-- `verify_schnorr`, as BIP 340 has it: `r` and `s` are read with the most significant byte first. -/
def verifySchnorr (signature : Bytes) (message : Bytes32) (key : Point lib) : Except SecpError Unit :=
  let r := FixedBytes.resize 32 (signature.take 32)
  let s := value (signature.drop 32).reverse
  if curveOrder ≤ s then .error .incorrectSignature
  else
    let R := lib.multiply s lib.generator - lib.multiply (lib.challenge r key.asBytes message) key.point
    if R ≠ 0 ∧ lib.evenY R = true ∧ lib.serialize R = r then .ok () else .error .incorrectSignature

def ThresholdSignature.verify (signature : ThresholdSignature lib) (message : Bytes) (publicKey : Point lib) :
    Except Failure Unit :=
  let sigBytes := signature.rPoint.asBytes.bytes ++ signature.sValue.asBytes
  ((Point.fromSlice publicKey.asBytes).mapError fun e =>
    Failure.error ("invalid public key: " ++ lib.errorText e)).bind fun (xOnly : Point lib) =>
  if h : message.length = 32 then
    (verifySchnorr sigBytes ⟨message, h⟩ xOnly).mapError fun e =>
      .error ("signature verification failed: " ++ lib.errorText e)
  else .error (.error ("invalid message: " ++ lib.errorText .invalidMessage))

structure ThresholdPublicKey where
  key : Bytes

def ThresholdPublicKey.fromPoint (P : Point lib) : ThresholdPublicKey := ⟨P.asBytes.bytes⟩

/-- `verify_threshold_signature` copies all bytes of the key but the first into an array of 32. -/
def verifyThresholdSignature (signature : ThresholdSignature lib) (publicKey : ThresholdPublicKey)
    (messageHash : Bytes32) : Except Failure Unit :=
  if publicKey.key.isEmpty then .error (.panic "range start index 1 out of range for slice of length 0")
  else if h : (publicKey.key.drop 1).length = 32 then
    (Point.fromBytes ⟨publicKey.key.drop 1, h⟩).bind fun P => signature.verify messageHash.bytes P
  else .error (.panic "copy_from_slice: source slice length does not match destination slice length")

def quorumSigners (material : ThresholdKeyMaterial lib) (quorum : List UInt32) (session : UInt64)
    (draws : UInt32 → Bytes32 × Bytes32) : Except Failure (List (NoncePair × FrostSigner lib)) :=
  (material.shares.filter fun share => share.index ∈ quorum).mapM fun share =>
    (FrostSigner.new share material.publicKey).generateNonce session (draws share.index)

/-- Each member signs with its own coefficients and the commitments of all, and what they sign is put
together with the challenge that they have in common. -/
def quorumSignature (pf : Platform) (material : ThresholdKeyMaterial lib) (quorum : List UInt32)
    (session : UInt64) (draws : UInt32 → Bytes32 × Bytes32) (message : Bytes32) :
    Except Failure (ThresholdSignature lib) :=
  (quorumSigners material quorum session draws).bind fun signers =>
  (signers.mapM fun (member : NoncePair × FrostSigner lib) =>
    (member.1.commitment Point.generator).map fun commit => (member.2.keyShare.index, commit)).bind fun entries =>
  let commitments := ExtTreeMap.ofList entries
  (signers.mapM fun (member : NoncePair × FrostSigner lib) =>
    (FrostSigner.computeLagrangeCoefficients quorum member.2.keyShare.index).bind fun lambda =>
      member.2.sign pf message.bytes session quorum commitments lambda).bind fun partialSigs =>
  (frostChallenge pf message.bytes material.publicKey (quorum.filterMap fun i => commitments[i]?)).bind
    fun challenge => aggregateSignatures partialSigs challenge

/-- From the generation of the keys to the check of the quorum's signature under the group's key. -/
def signingRound (lib : Secp256k1) (pf : Platform) (ctx : FrostContext) (participants : List UInt32)
    (keyDraws : Nat → Bytes32) (quorum : List UInt32) (session : UInt64)
    (nonceDraws : UInt32 → Bytes32 × Bytes32) (message : Bytes32) : Except Failure Unit :=
  (ThresholdKeyMaterial.generate lib ctx participants keyDraws).bind fun material =>
  (quorumSignature pf material quorum session nonceDraws message).bind fun signature =>
  verifyThresholdSignature signature (.fromPoint material.publicKey) message

theorem verifyThresholdSignature_fromPoint (signature : ThresholdSignature lib) (P : Point lib)
    (message : Bytes32) : verifyThresholdSignature signature (.fromPoint P) message =
      .error (.panic "copy_from_slice: source slice length does not match destination slice length") := by
  have hlen : (ThresholdPublicKey.fromPoint P).key.length = 32 := P.asBytes.length_bytes
  have hempty : ¬ (ThresholdPublicKey.fromPoint P).key.isEmpty = true := by
    rw [List.isEmpty_iff, ← List.length_eq_zero_iff, hlen]
    decide
  have hdrop : ¬ ((ThresholdPublicKey.fromPoint P).key.drop 1).length = 32 := by
    rw [List.length_drop, hlen]
    decide
  rw [verifyThresholdSignature, if_neg hempty, dif_neg hdrop]

/-- No signature is ever accepted under the key of the group, whoever signs and whatever was drawn. -/
theorem threshold_signature_never_accepted (lib : Secp256k1) (pf : Platform) (ctx : FrostContext)
    (participants : List UInt32) (keyDraws : Nat → Bytes32) (quorum : List UInt32) (session : UInt64)
    (nonceDraws : UInt32 → Bytes32 × Bytes32) (message : Bytes32) :
    signingRound lib pf ctx participants keyDraws quorum session nonceDraws message ≠ .ok () := by
  intro h
  obtain ⟨material, -, h⟩ := bind_eq_ok h
  obtain ⟨signature, -, h⟩ := bind_eq_ok h
  rw [verifyThresholdSignature_fromPoint] at h
  cases h

theorem foldlM_add {α : Type} (l : List α) (f : α → Point lib) (P : Point lib) :
    l.foldlM (fun agg x => agg.add (f x)) P = .ok P := by
  induction l with
  | nil => rfl
  | cons x l ih =>
    rw [List.foldlM_cons]
    exact ih

theorem frostChallenge_eq (pf : Platform) (message : Bytes) (publicKey : Point lib)
    (commitments : List (Point lib × Point lib)) :
    frostChallenge pf message publicKey commitments = frostChallenge pf message publicKey [] := by
  rw [frostChallenge, foldlM_add commitments Prod.fst, foldlM_add commitments Prod.snd]
  rfl

def numberBytes (k : Nat) : Bytes32 := ⟨littleEndian 32 k, length_littleEndian 32 k⟩

def unitHash : Platform := { samplePlatform fun _ => .error "trap" with hashBytes := fun _ => numberBytes 1 }

def unitDraws (i : Nat) : Bytes32 := numberBytes (if i = 0 then 1 else 0)

def unitNonceDraws (_ : UInt32) : Bytes32 × Bytes32 := (numberBytes 1, numberBytes 1)

theorem double_generator_ne_zero : (2 : ZMod curveOrder) ≠ 0 := by decide +kernel

def groupKey : Point sampleCurve := Point.ofGroup (2 : ZMod curveOrder) double_generator_ne_zero

def unitShare (i : UInt32) : KeyShare sampleCurve :=
  ⟨i, Scalar.one, ⟨[Point.generator, Point.generator]⟩⟩

def unitMaterial : ThresholdKeyMaterial sampleCurve :=
  ⟨Scalar.one, groupKey, [unitShare 1, unitShare 2], ⟨[Point.generator, Point.generator]⟩, 2, 2⟩

theorem multiply_one_eq : (Point.generator : Point sampleCurve).multiply Scalar.one = .ok groupKey := by
  decide +kernel

theorem evaluate_constant (index square : Scalar) (h : index.toNat < 256)
    (hs : index.toNat * index.toNat = square.toNat) :
    SecretPolynomial.evaluate ⟨[Scalar.one, Scalar.zero]⟩ index = .ok Scalar.one := by
  have h1 : Scalar.one.multiply Scalar.one = .ok Scalar.one := Scalar.multiply_of_byte (.inl (by decide)) rfl
  have h2 : Scalar.zero.add Scalar.one = .ok Scalar.one := by decide +kernel
  have h3 : Scalar.one.multiply index = .ok index := Scalar.multiply_of_byte (.inl (by decide)) (one_mul _)
  have h4 : Scalar.zero.multiply index = .ok Scalar.zero :=
    Scalar.multiply_of_byte (.inl (by decide)) (zero_mul _)
  have h5 : Scalar.one.add Scalar.zero = .ok Scalar.one := by decide +kernel
  have h6 : index.multiply index = .ok square := Scalar.multiply_of_byte (.inl h) hs
  have hfirst : SecretPolynomial.evaluateStep index (Scalar.zero, Scalar.one) Scalar.one =
      .ok (Scalar.one, index) := (bind_of_ok h1).trans ((bind_of_ok h2).trans (map_of_ok h3))
  have hsecond : SecretPolynomial.evaluateStep index (Scalar.one, index) Scalar.zero =
      .ok (Scalar.one, square) := (bind_of_ok h4).trans ((bind_of_ok h5).trans (map_of_ok h6))
  exact map_of_ok (foldlM_pair hfirst hsecond)

theorem generate_unit :
    ThresholdKeyMaterial.generate sampleCurve ⟨2⟩ [1, 2] unitDraws = .ok unitMaterial := by
  have hnew : SecretPolynomial.new sampleCurve 2 unitDraws = .ok ⟨[Scalar.one, Scalar.zero]⟩ := by rfl
  have hcommit : PolynomialCommitment.fromPolynomial ⟨[Scalar.one, Scalar.zero]⟩
      (Point.generator : Point sampleCurve) = .ok ⟨[Point.generator, Point.generator]⟩ := by rfl
  have hfirst := evaluate_constant ⟨1, by decide⟩ ⟨1, by decide⟩ (by decide) rfl
  have hsecond := evaluate_constant ⟨2, by decide⟩ ⟨4, by decide⟩ (by decide) rfl
  have hone : Scalar.fromU64 (UInt32.toUInt64 1) = .ok ⟨1, by decide⟩ := by decide +kernel
  have htwo : Scalar.fromU64 (UInt32.toUInt64 2) = .ok ⟨2, by decide⟩ := by decide +kernel
  have hshares : [1, 2].mapM (shareFor ⟨[Scalar.one, Scalar.zero]⟩
      (⟨[Point.generator, Point.generator]⟩ : PolynomialCommitment sampleCurve)) =
      .ok [unitShare 1, unitShare 2] :=
    mapM_pair ((bind_of_ok hone).trans (map_of_ok hfirst)) ((bind_of_ok htwo).trans (map_of_ok hsecond))
  have hsecret : SecretPolynomial.secret ⟨[Scalar.one, Scalar.zero]⟩ = .ok Scalar.one := rfl
  rw [ThresholdKeyMaterial.generate, bind_of_ok hnew, bind_of_ok hcommit, bind_of_ok hshares,
    bind_of_ok hsecret]
  exact map_of_ok multiply_one_eq

def unitNonce : NoncePair := ⟨Scalar.one, Scalar.one⟩

def unitSigner (i : UInt32) : FrostSigner sampleCurve :=
  ⟨unitShare i, groupKey, (∅ : ExtTreeMap UInt64 NoncePair).insert 7 unitNonce,
    (∅ : ExtTreeSet UInt64).insert 7⟩

theorem generateNonce_unit (i : UInt32) :
    (FrostSigner.new (unitShare i) groupKey).generateNonce 7 (unitNonceDraws i) =
      .ok (unitNonce, unitSigner i) := by
  have hnonce : NoncePair.random sampleCurve (unitNonceDraws i) = .ok unitNonce := by rfl
  rw [FrostSigner.generateNonce, if_neg (by simp [FrostSigner.new]), hnonce]
  rfl

theorem commitment_unit :
    unitNonce.commitment (Point.generator : Point sampleCurve) = .ok (groupKey, groupKey) :=
  (bind_of_ok multiply_one_eq).trans (map_of_ok multiply_one_eq)

theorem challenge_unit (message : Bytes) (commitments : List (Point sampleCurve × Point sampleCurve)) :
    frostChallenge unitHash message groupKey commitments = .ok Scalar.one := by
  rw [frostChallenge_eq]
  rfl

section Members

variable {message : Bytes} {commitments : ExtTreeMap UInt32 (Point sampleCurve × Point sampleCurve)}
variable {i : UInt32} {lambda r : Scalar}

theorem sign_unit (hr : Scalar.one.add lambda = .ok r) :
    (unitSigner i).sign unitHash message 7 [1, 2] commitments ((∅ : ExtTreeMap UInt32 Scalar).insert i lambda) =
      .ok ⟨i, groupKey, groupKey, r⟩ := by
  have hmul : lambda.multiply Scalar.one = .ok lambda :=
    Scalar.multiply_of_byte (.inr (by decide)) (mul_one _)
  have hkey : (unitSigner i).publicKey = groupKey := rfl
  have hshare : (unitSigner i).keyShare.secretShare = Scalar.one := rfl
  have hlambda : ((∅ : ExtTreeMap UInt32 Scalar).insert i lambda)[(unitSigner i).keyShare.index]? =
      some lambda := ExtTreeMap.getElem?_insert_self
  have hnonce : (unitSigner i).nonces[(7 : UInt64)]? = some unitNonce := ExtTreeMap.getElem?_insert_self
  rw [FrostSigner.sign, hnonce]
  dsimp only
  rw [bind_of_ok commitment_unit, hkey, bind_of_ok (challenge_unit ..), hlambda]
  dsimp only
  rw [hshare, bind_of_ok hmul, bind_of_ok hmul]
  exact map_of_ok hr

theorem member_unit (hlambda : FrostSigner.computeLagrangeCoefficients [1, 2] i =
      .ok ((∅ : ExtTreeMap UInt32 Scalar).insert i lambda)) (hr : Scalar.one.add lambda = .ok r) :
    (FrostSigner.computeLagrangeCoefficients [1, 2] i).bind (fun lambda =>
      (unitSigner i).sign unitHash message 7 [1, 2] commitments lambda) = .ok ⟨i, groupKey, groupKey, r⟩ :=
  (bind_of_ok hlambda).trans (sign_unit hr)

end Members

/-- What the denominator `1 - 2` becomes as a `u64`. -/
def wrappedMinusOne : Scalar := ⟨2 ^ 64 - 1, by decide⟩

theorem lagrange_first : FrostSigner.computeLagrangeCoefficients [1, 2] 1 =
    .ok ((∅ : ExtTreeMap UInt32 Scalar).insert 1 ⟨2, by decide⟩) := by
  have hnum : Scalar.fromU64 (UInt32.toUInt64 2) = .ok ⟨2, by decide⟩ := by decide +kernel
  have hdenom : Scalar.fromU64 (UInt64.ofInt ((2 : UInt32).toNat - (1 : UInt32).toNat)) = .ok Scalar.one := by
    decide +kernel
  have hproduct : Scalar.one.multiply ⟨2, by decide⟩ = .ok ⟨2, by decide⟩ :=
    Scalar.multiply_of_byte (.inl (by decide)) rfl
  have hquotient : Scalar.multiply ⟨2, by decide⟩ Scalar.one = .ok ⟨2, by decide⟩ :=
    Scalar.multiply_of_byte (.inl (by decide)) rfl
  have hself : FrostSigner.lagrangeStep 1 Scalar.one 1 = .ok Scalar.one := if_pos rfl
  have hother : FrostSigner.lagrangeStep 1 Scalar.one 2 = .ok ⟨2, by decide⟩ := by
    rw [FrostSigner.lagrangeStep, if_neg (by decide), bind_of_ok hnum, bind_of_ok hdenom, bind_of_ok hproduct,
      bind_of_ok (Scalar.invert_eq _), hquotient]
  refine foldlM_pair ?_ (if_neg (by decide))
  rw [if_pos rfl]
  exact map_of_ok (foldlM_pair hself hother)

theorem lagrange_second : FrostSigner.computeLagrangeCoefficients [1, 2] 2 =
    .ok ((∅ : ExtTreeMap UInt32 Scalar).insert 2 wrappedMinusOne) := by
  have hnum : Scalar.fromU64 (UInt32.toUInt64 1) = .ok Scalar.one := by decide +kernel
  have hdenom : Scalar.fromU64 (UInt64.ofInt ((1 : UInt32).toNat - (2 : UInt32).toNat)) =
      .ok wrappedMinusOne := by decide +kernel
  have hproduct : Scalar.one.multiply Scalar.one = .ok Scalar.one :=
    Scalar.multiply_of_byte (.inl (by decide)) rfl
  have hquotient : Scalar.one.multiply wrappedMinusOne = .ok wrappedMinusOne :=
    Scalar.multiply_of_byte (.inl (by decide)) rfl
  have hself : FrostSigner.lagrangeStep 2 wrappedMinusOne 2 = .ok wrappedMinusOne := if_pos rfl
  have hother : FrostSigner.lagrangeStep 2 Scalar.one 1 = .ok wrappedMinusOne := by
    rw [FrostSigner.lagrangeStep, if_neg (by decide), bind_of_ok hnum, bind_of_ok hdenom, bind_of_ok hproduct,
      bind_of_ok (Scalar.invert_eq _), hquotient]
  refine foldlM_pair (if_neg (by decide)) ?_
  rw [if_pos rfl]
  exact map_of_ok (foldlM_pair hother hself)

def unitSigners : List (NoncePair × FrostSigner sampleCurve) :=
  [(unitNonce, unitSigner 1), (unitNonce, unitSigner 2)]

def unitPartials : List (PartialSignature sampleCurve) :=
  [⟨1, groupKey, groupKey, ⟨3, by decide⟩⟩, ⟨2, groupKey, groupKey, ⟨2 ^ 64, by decide⟩⟩]

theorem commitments_unit : (unitSigners.mapM fun (member : NoncePair × FrostSigner sampleCurve) =>
    (member.1.commitment Point.generator).map fun commit => (member.2.keyShare.index, commit)) =
    .ok [(1, groupKey, groupKey), (2, groupKey, groupKey)] :=
  mapM_pair (map_of_ok commitment_unit) (map_of_ok commitment_unit)

theorem partials_unit (message : Bytes)
    (commitments : ExtTreeMap UInt32 (Point sampleCurve × Point sampleCurve)) :
    (unitSigners.mapM fun (member : NoncePair × FrostSigner sampleCurve) =>
      (FrostSigner.computeLagrangeCoefficients [1, 2] member.2.keyShare.index).bind fun lambda =>
        member.2.sign unitHash message 7 [1, 2] commitments lambda) = .ok unitPartials := by
  have hfirst : Scalar.one.add ⟨2, by decide⟩ = .ok ⟨3, by decide⟩ := by decide +kernel
  have hsecond : Scalar.one.add wrappedMinusOne = .ok ⟨2 ^ 64, by decide⟩ := by decide +kernel
  exact mapM_pair (member_unit lagrange_first hfirst) (member_unit lagrange_second hsecond)

theorem aggregate_unit : ∃ signature, aggregateSignatures unitPartials Scalar.one = .ok signature := by
  have hne : ¬ unitPartials.isEmpty = true := Bool.false_ne_true
  have hfirst : Scalar.zero.add ⟨3, by decide⟩ = .ok ⟨3, by decide⟩ := by decide +kernel
  have hsecond : Scalar.add ⟨3, by decide⟩ ⟨2 ^ 64, by decide⟩ = .ok ⟨2 ^ 64 + 3, by decide⟩ := by
    decide +kernel
  have hsum : unitPartials.foldlM (fun (s : Scalar) sig => s.add sig.signatureShare) Scalar.zero =
      .ok ⟨2 ^ 64 + 3, by decide⟩ := foldlM_pair hfirst hsecond
  have hfinal : Scalar.multiply ⟨2 ^ 64 + 3, by decide⟩ Scalar.one = .ok ⟨2 ^ 64 + 3, by decide⟩ :=
    Scalar.multiply_of_byte (.inr (by decide)) rfl
  rw [aggregateSignatures, if_neg hne, bind_of_ok (foldlM_add _ PartialSignature.hidingCommitment _),
    bind_of_ok hsum, bind_of_ok (Scalar.invert_eq _), map_of_ok hfinal]
  exact ⟨_, rfl⟩

theorem quorumSignature_unit (message : Bytes32) :
    ∃ signature, quorumSignature unitHash unitMaterial [1, 2] 7 unitNonceDraws message = .ok signature := by
  have hsigners : quorumSigners unitMaterial [1, 2] 7 unitNonceDraws = .ok unitSigners :=
    mapM_pair (generateNonce_unit 1) (generateNonce_unit 2)
  have hkey : unitMaterial.publicKey = groupKey := rfl
  rw [quorumSignature, bind_of_ok hsigners, bind_of_ok commitments_unit]
  dsimp only
  rw [bind_of_ok (partials_unit ..), hkey, bind_of_ok (challenge_unit ..)]
  exact aggregate_unit

/-- The two of them get as far as a signature, and the check of it panics. -/
theorem honest_quorum_panics :
    ThresholdKeyMaterial.generate sampleCurve ⟨2⟩ [1, 2] unitDraws = .ok unitMaterial ∧
    (∃ signature,
      quorumSignature unitHash unitMaterial [1, 2] 7 unitNonceDraws (numberBytes 9) = .ok signature) ∧
    signingRound sampleCurve unitHash ⟨2⟩ [1, 2] unitDraws [1, 2] 7 unitNonceDraws (numberBytes 9) =
      .error (.panic "copy_from_slice: source slice length does not match destination slice length") := by
  refine ⟨generate_unit, quorumSignature_unit _, ?_⟩
  obtain ⟨signature, hsignature⟩ := quorumSignature_unit (numberBytes 9)
  rw [signingRound, bind_of_ok generate_unit, bind_of_ok hsignature, verifyThresholdSignature_fromPoint]

end Onvm
