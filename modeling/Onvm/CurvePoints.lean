import Onvm.CurveScalars
import Onvm.Platform

/-! The points of `threshold_ecdsa.rs`, over what the secp256k1 crate documents, and the commitments to a
secret polynomial. -/

namespace Onvm

open ByteString Limbs

inductive SecpError
  | invalidTweak | invalidPublicKey | invalidSignature | invalidMessage | incorrectSignature
deriving DecidableEq

/-- The x-coordinate that `Point::generator` names. -/
def generatorX : Bytes32 :=
  ⟨[0x79, 0xBE, 0x66, 0x7E, 0xF9, 0xDC, 0xBB, 0xAC, 0x55, 0xA0, 0x62, 0x95, 0xCE, 0x87,
    0x0B, 0x07, 0x02, 0x9B, 0xFC, 0xDB, 0x2D, 0xCE, 0x28, 0xD9, 0x59, 0xF2, 0x81, 0x5B,
    0x16, 0xF8, 0x17, 0x98], rfl⟩

/-- The secp256k1 crate: the group of the curve, and for each x-coordinate the point with an even `y`. -/
structure Secp256k1 where
  Group : Type
  [addCommGroup : AddCommGroup Group]
  [decidableEq : DecidableEq Group]
  generator : Group
  addOrderOf_generator : addOrderOf generator = curveOrder
  multiply : Nat → Group → Group
  multiply_eq : ∀ k P, multiply k P = k • P
  evenY : Group → Bool
  evenY_neg : ∀ P, P ≠ 0 → evenY (-P) = !evenY P
  serialize : Group → Bytes32
  fromSlice : Bytes32 → Option Group
  fromSlice_eq_some : ∀ x P, fromSlice x = some P ↔ P ≠ 0 ∧ evenY P = true ∧ serialize P = x
  fromSlice_generator : fromSlice generatorX = some generator
  /-- The hash of BIP 340 that a signature is checked with. -/
  challenge : (r key message : Bytes32) → Nat
  errorText : SecpError → String
  outOfRangeText : String

attribute [instance] Secp256k1.addCommGroup Secp256k1.decidableEq

variable {lib : Secp256k1}

/-- `XOnlyPublicKey`: the point with an even `y` stands for itself and its negative. -/
structure Point (lib : Secp256k1) where
  point : lib.Group
  nonzero : point ≠ 0
  even : lib.evenY point = true

namespace Point

theorem ext {P Q : Point lib} (h : P.point = Q.point) : P = Q := by
  cases P
  cases Q
  cases h
  rfl

instance : DecidableEq (Point lib) := fun P Q => decidable_of_iff (P.point = Q.point) ⟨ext, congrArg point⟩

def ofGroup (Q : lib.Group) (h : Q ≠ 0) : Point lib :=
  if he : lib.evenY Q = true then ⟨Q, h, he⟩
  else ⟨-Q, neg_ne_zero.mpr h, by rw [lib.evenY_neg Q h, Bool.eq_false_iff.mpr he]; rfl⟩

/-- `XOnlyPublicKey::from_slice` -/
def fromSlice (bytes : Bytes32) : Except SecpError (Point lib) :=
  match h : lib.fromSlice bytes with
  | some P => .ok ⟨P, ((lib.fromSlice_eq_some _ _).mp h).1, ((lib.fromSlice_eq_some _ _).mp h).2.1⟩
  | none => .error .invalidPublicKey

def fromBytes (bytes : Bytes32) : Except Failure (Point lib) :=
  (fromSlice bytes).mapError fun e => .error ("invalid point: " ++ lib.errorText e)

def generator : Point lib :=
  ⟨lib.generator, ((lib.fromSlice_eq_some _ _).mp lib.fromSlice_generator).1,
    ((lib.fromSlice_eq_some _ _).mp lib.fromSlice_generator).2.1⟩

def asBytes (P : Point lib) : Bytes32 := lib.serialize P.point

/-- `XOnlyPublicKey::add_tweak` -/
def addTweak (P : Point lib) (tweak : Scalar) : Except SecpError (Point lib) :=
  if h : P.point + lib.multiply tweak.toNat lib.generator = 0 then .error .invalidTweak
  else .ok (ofGroup _ h)

def add (P _other : Point lib) : Except Failure (Point lib) := .ok P

def multiply (P : Point lib) (scalar : Scalar) : Except Failure (Point lib) :=
  (P.addTweak scalar).mapError fun e => .error ("failed to multiply point: " ++ lib.errorText e)

end Point

def unwrap {α : Type} : Except Failure α → Except Failure α
  | .error (.error message) => .error (.panic message)
  | result => result

def Scalar.fromBytes (lib : Secp256k1) (bytes : Bytes32) : Except Failure Scalar :=
  match fromLeBytes bytes.bytes with
  | some a => .ok a
  | none => .error (.error ("invalid scalar: " ++ lib.outOfRangeText))

structure SecretPolynomial where
  coefficients : List Scalar

namespace SecretPolynomial

def evaluateStep (index : Scalar) (state : Scalar × Scalar) (coeff : Scalar) : Except Failure (Scalar × Scalar) :=
  (coeff.multiply state.2).bind fun term =>
  (state.1.add term).bind fun result =>
  (state.2.multiply index).map fun xPow => (result, xPow)

def evaluate (p : SecretPolynomial) (index : Scalar) : Except Failure Scalar :=
  (p.coefficients.foldlM (evaluateStep index) (Scalar.zero, Scalar.one)).map Prod.fst

def valueAt (p : SecretPolynomial) (x : Nat) : Nat :=
  Nat.ofDigits x (p.coefficients.map Scalar.toNat) % curveOrder

end SecretPolynomial

structure PolynomialCommitment (lib : Secp256k1) where
  commitments : List (Point lib)

namespace PolynomialCommitment

def fromPolynomial (p : SecretPolynomial) (generator : Point lib) : Except Failure (PolynomialCommitment lib) :=
  ((p.coefficients.drop 1).mapM fun coeff => unwrap (generator.multiply coeff)).map fun rest =>
    ⟨generator :: rest⟩

def evalStep (index : Scalar) (state : Point lib × Scalar) (coeff : Point lib) :
    Except Failure (Point lib × Scalar) :=
  (state.2.multiply index).bind fun xPow =>
  (coeff.multiply xPow).bind fun term =>
  (state.1.add term).map fun commitmentEval => (commitmentEval, xPow)

def verifyShare (c : PolynomialCommitment lib) (index share : Scalar) : Except Failure Unit :=
  (Point.generator.multiply share).bind fun gShare =>
  match c.commitments with
  | [] => .error (.panic "range start index 1 out of range for slice of length 0")
  | first :: rest =>
    (rest.foldlM (evalStep index) (Point.generator, Scalar.one)).bind fun state =>
    (first.multiply state.2).bind fun last =>
    (state.1.add last).bind fun commitmentEval =>
    if gShare ≠ commitmentEval then .error (.error "share verification failed") else .ok ()

end PolynomialCommitment

theorem Secp256k1.smul_generator_eq_zero (lib : Secp256k1) (k : Nat) :
    k • lib.generator = 0 ↔ curveOrder ∣ k := by
  rw [← lib.addOrderOf_generator, addOrderOf_dvd_iff_nsmul_eq_zero]

namespace Point

theorem ofGroup_eq_iff {Q : lib.Group} (h : Q ≠ 0) (P : Point lib) :
    ofGroup Q h = P ↔ Q = P.point ∨ Q = -P.point := by
  have hneg : lib.evenY (-P.point) = false := by rw [lib.evenY_neg _ P.nonzero, P.even]; rfl
  constructor
  · rintro rfl
    rw [ofGroup]
    split_ifs
    · exact .inl rfl
    · exact .inr (neg_neg Q).symm
  · rintro (rfl | rfl)
    · rw [ofGroup, dif_pos P.even]
    · rw [ofGroup, dif_neg (by rw [hneg]; exact Bool.false_ne_true)]
      exact ext (neg_neg P.point)

theorem multiply_eq_ok {P Q : Point lib} {s : Scalar} : P.multiply s = .ok Q ↔
    P.point + s.toNat • lib.generator = Q.point ∨ P.point + s.toNat • lib.generator = -Q.point := by
  rw [multiply, addTweak]
  simp only [lib.multiply_eq]
  split_ifs with hzero
  · refine iff_of_false nofun ?_
    rw [hzero, zero_eq_neg, eq_comm, or_self]
    exact Q.nonzero
  · rw [← ofGroup_eq_iff hzero]
    exact ⟨Except.ok.inj, congrArg Except.ok⟩

theorem multiply_generator_eq {s : Scalar} :
    (generator : Point lib).multiply s = .ok generator ↔ s.toNat = 0 ∨ s.toNat = curveOrder - 2 := by
  have hs := s.lt
  have hbig : 2 < curveOrder := by decide
  have hsame : lib.generator + s.toNat • lib.generator = lib.generator ↔ s.toNat = 0 := by
    rw [add_eq_left, lib.smul_generator_eq_zero]
    exact ⟨fun hdvd => Nat.eq_zero_of_dvd_of_lt hdvd hs, fun hzero => hzero ▸ dvd_zero _⟩
  have hneg : lib.generator + s.toNat • lib.generator = -lib.generator ↔ s.toNat = curveOrder - 2 := by
    rw [eq_neg_iff_add_eq_zero, add_right_comm, ← two_nsmul, ← add_nsmul, lib.smul_generator_eq_zero]
    constructor
    · intro hdvd
      have hle := Nat.le_of_dvd (by omega) hdvd
      have hrest := Nat.eq_zero_of_dvd_of_lt (Nat.dvd_sub hdvd (dvd_refl _)) (by omega)
      omega
    · intro heq
      rw [heq, Nat.add_sub_cancel' hbig.le]
  rw [multiply_eq_ok]
  exact or_congr hsame hneg

end Point

namespace PolynomialCommitment

theorem evalStep_eq_ok {index : Scalar} {state state' : Point lib × Scalar} {coeff : Point lib}
    (h : evalStep index state coeff = .ok state') : state'.1 = state.1 := by
  obtain ⟨xPow, -, h⟩ := bind_eq_ok h
  obtain ⟨term, -, h⟩ := bind_eq_ok h
  cases h
  rfl

theorem eval_unchanged {index : Scalar} {rest : List (Point lib)} {state state' : Point lib × Scalar}
    (h : rest.foldlM (evalStep index) state = .ok state') : state'.1 = state.1 := by
  induction rest generalizing state with
  | nil =>
    cases h
    rfl
  | cons coeff rest ih =>
    rw [List.foldlM_cons] at h
    obtain ⟨next, hnext, h⟩ := bind_eq_ok h
    exact (ih h).trans (evalStep_eq_ok hnext)

/-- No point on the way is the one at infinity, and no power panics. None of this depends on a share. -/
def Evaluates (c : PolynomialCommitment lib) (index : Scalar) : Prop :=
  ∃ first rest state last, c.commitments = first :: rest ∧
    rest.foldlM (evalStep index) (Point.generator, Scalar.one) = .ok state ∧ first.multiply state.2 = .ok last

theorem verifyShare_eq_ok {c : PolynomialCommitment lib} {index share : Scalar} :
    c.verifyShare index share = .ok () ↔
      c.Evaluates index ∧ (share.toNat = 0 ∨ share.toNat = curveOrder - 2) := by
  have hshares : (Point.generator : Point lib).multiply share = .ok Point.generator ↔
      share.toNat = 0 ∨ share.toNat = curveOrder - 2 := Point.multiply_generator_eq
  rw [← hshares]
  constructor
  · intro h
    obtain ⟨gShare, hshare, h⟩ := bind_eq_ok h
    cases hc : c.commitments with
    | nil =>
      rw [hc] at h
      cases h
    | cons first rest =>
      rw [hc] at h
      obtain ⟨state, hstate, h⟩ := bind_eq_ok h
      obtain ⟨last, hlast, h⟩ := bind_eq_ok h
      obtain ⟨commitmentEval, heval, h⟩ := bind_eq_ok h
      cases heval
      split_ifs at h with heq
      rw [not_not.mp heq, eval_unchanged hstate] at hshare
      exact ⟨⟨first, rest, state, last, hc, hstate, hlast⟩, hshare⟩
  · rintro ⟨⟨first, rest, state, last, hc, hstate, hlast⟩, hshare⟩
    have hunchanged := eval_unchanged hstate
    rw [verifyShare, hshare, hc]
    simp only [Except.bind, hstate, hlast, Point.add, hunchanged, ne_eq, not_true_eq_false, if_false]

end PolynomialCommitment

def VerifiesExactly (lib : Secp256k1) (p : SecretPolynomial) (index : Scalar) : Prop :=
  ∃ c : PolynomialCommitment lib, PolynomialCommitment.fromPolynomial p Point.generator = .ok c ∧
    ∀ share, c.verifyShare index share = .ok () ↔ share.toNat = p.valueAt index.toNat

/-- The verification is exact for no polynomial and no index: it never looks at what was committed to, and
accepts two shares or none. -/
theorem share_verification_never_exact (lib : Secp256k1) (p : SecretPolynomial) (index : Scalar) :
    ¬ VerifiesExactly lib p index := by
  rintro ⟨c, -, hexact⟩
  have hlt : p.valueAt index.toNat < curveOrder := Nat.mod_lt _ (by decide)
  obtain ⟨heval, -⟩ := PolynomialCommitment.verifyShare_eq_ok.mp ((hexact ⟨_, hlt⟩).mpr rfl)
  have hzero := (hexact ⟨0, by decide⟩).mp (PolynomialCommitment.verifyShare_eq_ok.mpr ⟨heval, .inl rfl⟩)
  have htwo := (hexact ⟨curveOrder - 2, by decide⟩).mp
    (PolynomialCommitment.verifyShare_eq_ok.mpr ⟨heval, .inr rfl⟩)
  exact absurd (hzero.trans htwo.symm) (by decide)

def exchangeX : Nat → Nat := Equiv.swap 1 (value generatorX.bytes.reverse)

theorem exchangeX_exchangeX (k : Nat) : exchangeX (exchangeX k) = k := Equiv.swap_apply_self _ _ k

theorem exchangeX_lt {k : Nat} (h : k < 256 ^ 32) : exchangeX k < 256 ^ 32 := by
  rw [exchangeX, Equiv.swap_apply_def]
  split_ifs
  · exact (value_lt _).trans_eq rfl
  · norm_num
  · exact h

def logBytes (k : ZMod curveOrder) : Bytes32 :=
  ⟨(littleEndian 32 (exchangeX k.val)).reverse, by rw [List.length_reverse, length_littleEndian]⟩

def logOfBytes (x : Bytes32) : Option (ZMod curveOrder) :=
  let k := exchangeX (value x.bytes.reverse)
  if k < curveOrder ∧ k % 2 = 1 then some k else none

instance : NeZero curveOrder := ⟨by decide⟩

theorem logOfBytes_eq_some (x : Bytes32) (k : ZMod curveOrder) :
    logOfBytes x = some k ↔ k ≠ 0 ∧ (k.val % 2 == 1) = true ∧ logBytes k = x := by
  have hx : littleEndian 32 (value x.bytes.reverse) = x.bytes.reverse := by
    have h := littleEndian_value x.bytes.reverse
    rwa [List.length_reverse, FixedBytes.length_bytes] at h
  rw [logOfBytes, beq_iff_eq]
  constructor
  · intro h
    split_ifs at h with hodd
    cases h
    have hval := ZMod.val_natCast_of_lt hodd.1
    refine ⟨fun hzero => ?_, by rw [hval]; exact hodd.2, ?_⟩
    · rw [← ZMod.val_eq_zero, hval] at hzero
      omega
    · apply FixedBytes.bytes_injective
      change (littleEndian 32 (exchangeX (ZMod.val _))).reverse = _
      rw [hval, exchangeX_exchangeX, hx, List.reverse_reverse]
  · rintro ⟨-, hodd, rfl⟩
    have hlt : k.val < 256 ^ 32 := (ZMod.val_lt k).trans (by decide)
    have hval : exchangeX (value (logBytes k).bytes.reverse) = k.val := by
      change exchangeX (value (littleEndian 32 (exchangeX k.val)).reverse.reverse) = _
      rw [List.reverse_reverse, value_littleEndian, Nat.mod_eq_of_lt (exchangeX_lt hlt), exchangeX_exchangeX]
    rw [hval, if_pos ⟨ZMod.val_lt k, hodd⟩, ZMod.natCast_zmod_val]

theorem odd_neg (k : ZMod curveOrder) (h : k ≠ 0) : ((-k).val % 2 == 1) = !(k.val % 2 == 1) := by
  have hlt := ZMod.val_lt k
  have hodd := Scalar.curveOrder_odd
  have : NeZero k := ⟨h⟩
  rw [ZMod.val_neg_of_ne_zero]
  rcases Nat.mod_two_eq_zero_or_one k.val with hk | hk
  · have hflip : (curveOrder - k.val) % 2 = 1 := by omega
    rw [hk, hflip]
    rfl
  · have hflip : (curveOrder - k.val) % 2 = 0 := by omega
    rw [hk, hflip]
    rfl

def sampleCurve : Secp256k1 where
  Group := ZMod curveOrder
  generator := 1
  addOrderOf_generator := ZMod.addOrderOf_one curveOrder
  multiply k P := k * P
  multiply_eq k P := (nsmul_eq_mul k P).symm
  evenY k := k.val % 2 == 1
  evenY_neg := odd_neg
  serialize := logBytes
  fromSlice := logOfBytes
  fromSlice_eq_some := logOfBytes_eq_some
  fromSlice_generator := by
    rw [logOfBytes_eq_some]
    refine ⟨by decide +kernel, by decide +kernel, ?_⟩
    decide +kernel
  challenge r key message := value (r.bytes ++ key.bytes ++ message.bytes)
  errorText
    | .invalidTweak => "bad tweak"
    | .invalidPublicKey => "malformed public key"
    | .invalidSignature => "malformed signature"
    | .invalidMessage => "malformed message"
    | .incorrectSignature => "signature failed verification"
  outOfRangeText := "out of range"

/-- The constant polynomial 5: its share 5 is refused, and 0 passes. -/
theorem genuine_share_refused :
    let five : Scalar := ⟨5, by decide⟩
    let c : PolynomialCommitment sampleCurve := ⟨[Point.generator]⟩
    PolynomialCommitment.fromPolynomial ⟨[five]⟩ (Point.generator : Point sampleCurve) = .ok c ∧
      SecretPolynomial.valueAt ⟨[five]⟩ 1 = 5 ∧
      c.verifyShare Scalar.one five = .error (.error "share verification failed") ∧
      c.verifyShare Scalar.one Scalar.zero = .ok () := by
  refine ⟨rfl, by decide +kernel, ?_, ?_⟩
  · decide +kernel
  · decide +kernel

end Onvm
