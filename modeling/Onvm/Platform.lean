import Onvm.SparseMerkle
import Onvm.Wire

/-! The code the node calls and does not define: blake3, blst, ed25519, the
WASM engine and the iteration order of hash maps; and the wrappers of
`crypto/bls.rs` over blst. -/

namespace Onvm

open ByteString OrderedStore

theorem bind_eq_ok {ε α β : Type*} {x : Except ε α} {f : α → Except ε β} {b : β}
    (h : x.bind f = .ok b) : ∃ a, x = .ok a ∧ f a = .ok b := by
  cases x with
  | error e => cases h
  | ok a => exact ⟨a, rfl, h⟩

theorem map_eq_ok {ε α β : Type*} {x : Except ε α} {f : α → β} {b : β}
    (h : x.map f = .ok b) : ∃ a, x = .ok a ∧ f a = b := by
  cases x with
  | error e => cases h
  | ok a => exact ⟨a, rfl, Except.ok.inj h⟩

theorem mapError_eq_ok {ε ε' α : Type*} {x : Except ε α} {f : ε → ε'} {a : α} (h : x.mapError f = .ok a) :
    x = .ok a := by
  cases x with
  | error e => cases h
  | ok b => exact congrArg Except.ok (Except.ok.inj h)

theorem eq_ok_of_toOption {ε α : Type} {x : Except ε α} {a : α} (h : x.toOption = some a) : x = .ok a := by
  cases x with
  | error e => cases h
  | ok b => exact congrArg Except.ok (Option.some.inj h)

inductive BlstError
  | badEncoding | pointNotOnCurve | pointNotInGroup | aggrTypeMismatch | verifyFail | pkIsInfinity
  | badScalar
deriving DecidableEq

def BlstError.toText : BlstError → String
  | badEncoding => "BLST_BAD_ENCODING"
  | pointNotOnCurve => "BLST_POINT_NOT_ON_CURVE"
  | pointNotInGroup => "BLST_POINT_NOT_IN_GROUP"
  | aggrTypeMismatch => "BLST_AGGR_TYPE_MISMATCH"
  | verifyFail => "BLST_VERIFY_FAIL"
  | pkIsInfinity => "BLST_PK_IS_INFINITY"
  | badScalar => "BLST_BAD_SCALAR"

/-- The trees of `unified_store.rs`. -/
structure UnifiedStore where
  objects : Keyed fun o : Object => o.id.bytes.bytes
  manifests : Keyed fun m : Manifest => m.objectId.bytes.bytes
  chunks : ByteTree Bytes
  manifestIndex : ByteTree ObjectId

/-- What a guest run is started on. -/
structure GuestCall where
  wasm : Bytes
  entrypoint : String
  programId : ProgramId
  input : Bytes
  entries : List (Bytes × Bytes)
  store : UnifiedStore
  maxFuel : UInt64

/-- What a guest run that did not trap leaves behind. -/
structure GuestResult where
  returnData : Bytes
  pendingWrites : ByteTree (Option Bytes)
  remainingFuel : UInt64

/-- External code. `world` stands for everything a guest run may observe besides
its call: clock, random source, environment, standard streams. -/
structure Platform where
  hashBytes : Bytes → Bytes32
  parseSecret : BlsSecretKey → Except BlstError Unit
  parsePublic : BlsPublicKey → Except BlstError Unit
  parseSignature : BlsSignature → Except BlstError Unit
  signRaw : BlsSecretKey → (message dst : Bytes) → BlsSignature
  verifyRaw : BlsSignature → (message dst : Bytes) → BlsPublicKey → Except BlstError Unit
  fastAggregateVerifyRaw :
    BlsSignature → (message dst : Bytes) → List BlsPublicKey → Except BlstError Unit
  aggregateRaw : List BlsSignature → Except BlstError BlsSignature
  parseEd25519Public : Bytes32 → Except String Unit
  parseEd25519Signature : Bytes → Except String Unit
  verifyStrict : Bytes32 → (message signature : Bytes) → Except String Unit
  peerIdOf : Bytes32 → Except String PeerId
  runGuest : (world : Nat) → GuestCall → Except String GuestResult
  decodeError : Bytes → String
  mapOrder : {α : Type} → List α → List α
  mapOrder_perm : ∀ {α : Type} (l : List α), (mapOrder l).Perm l

def dstReceipt : Bytes := "ONVM:RECEIPT:V1".toUTF8.data.toList

namespace Platform

variable (pf : Platform)

def blst {α : Type} (what : String) (r : Except BlstError α) : Except String α :=
  r.mapError fun e => what ++ ": " ++ e.toText

def sign (message : Bytes) (secret : BlsSecretKey) (dst : Bytes) : Except String BlsSignature :=
  (blst "bls sk parse" (pf.parseSecret secret)).map fun _ => pf.signRaw secret message dst

def verify (message : Bytes) (pk : BlsPublicKey) (signature : BlsSignature) (dst : Bytes) :
    Except String Unit :=
  (blst "bls pk parse" (pf.parsePublic pk)).bind fun _ =>
  (blst "bls sig parse" (pf.parseSignature signature)).bind fun _ =>
  blst "bls verification failed" (pf.verifyRaw signature message dst pk)

def parseAll {α : Type} (parse : α → Except String Unit) : List α → Except String Unit
  | [] => .ok ()
  | x :: xs => (parse x).bind fun _ => parseAll parse xs

def fastAggregateVerify (message : Bytes) (publicKeys : List BlsPublicKey)
    (signature : BlsSignature) (dst : Bytes) : Except String Unit :=
  if publicKeys.isEmpty then .error "missing public keys for aggregate verify"
  else
    (blst "bls sig parse" (pf.parseSignature signature)).bind fun _ =>
    (parseAll (fun pk => blst "bls pk parse" (pf.parsePublic pk)) publicKeys).bind fun _ =>
    blst "bls fast aggregate verify failed" (pf.fastAggregateVerifyRaw signature message dst publicKeys)

def aggregateSignatures (signatures : List BlsSignature) : Except String BlsSignature :=
  if signatures.isEmpty then .error "no signatures to aggregate"
  else
    (parseAll (fun sig => blst "bls sig parse" (pf.parseSignature sig)) signatures).bind fun _ =>
    blst "aggregate signature" (pf.aggregateRaw signatures)

def sparseRoot (pairs : List (Bytes × Bytes)) : Bytes32 :=
  sparseMerkleRoot pf.hashBytes pf.mapOrder pairs

theorem sparseRoot_congr {K : Set Bytes} (hK : Set.InjOn pf.hashBytes K) {p q : List (Bytes × Bytes)}
    (hp : ∀ e ∈ p, e.1 ∈ K) (hq : ∀ e ∈ q, e.1 ∈ K) (hpq : lastWins p = lastWins q) :
    pf.sparseRoot p = pf.sparseRoot q :=
  sparseMerkleRoot_congr pf.mapOrder_perm hK hp hq hpq

theorem lastWins_eq_of_sparseRoot_eq {p q : List (Bytes × Bytes)}
    (hX : Binding pf.hashBytes { x | x ∈ smtInputs pf.hashBytes p ∨ x ∈ smtInputs pf.hashBytes q })
    (he : pf.sparseRoot p = pf.sparseRoot q) : lastWins p = lastWins q :=
  lastWins_eq_of_sparseMerkleRoot_eq pf.mapOrder_perm hX he

end Platform

def ExecutionReceipt.id (pf : Platform) (r : ExecutionReceipt) : ReceiptId :=
  pf.hashBytes (ExecutionReceipt.codec.enc r)

def ProgramManifest.digest (pf : Platform) (m : ProgramManifest) : Bytes32 :=
  pf.hashBytes ({ m with signature := [] } : ProgramManifest).encode

def stateWritesDigest (pf : Platform) (writes : List StateWrite) : StateDeltaRoot :=
  pf.hashBytes (stateWritesCodec.enc writes)

/-- A hash that is cheap to evaluate: inner nodes of a tree all have one value, short strings are
padded, anything else is summed up. -/
def sampleHash (x : Bytes) : Bytes32 :=
  if x.take 4 = [110, 111, 100, 101] then .ofByte 32 7
  else if x.length ≤ 31 then .resize 32 (x ++ [255])
  else .resize 32 (bigEndian 8 (x.foldl (fun a b => (a * 257 + b.toNat) % (2 ^ 61 - 1)) 7))

/-- A platform to run the model on. A signature is the start of the message under the first byte
of the key; an aggregate is its first signature; every node is its own peer. -/
def samplePlatform (guest : GuestCall → Except String GuestResult) : Platform where
  hashBytes := sampleHash
  parseSecret _ := .ok ()
  parsePublic _ := .ok ()
  parseSignature _ := .ok ()
  signRaw sk message _ := ⟨.resize 48 (sk.bytes.bytes.take 1 ++ message)⟩
  verifyRaw sig message _ pk :=
    if sig = ⟨.resize 48 (pk.bytes.bytes.take 1 ++ message)⟩ then .ok () else .error .verifyFail
  fastAggregateVerifyRaw sig message _ pks :=
    if (sig.bytes.bytes.drop 1).take 32 = message ∧ pks ≠ [] then .ok () else .error .verifyFail
  aggregateRaw sigs := (sigs.head?.map Except.ok).getD (.error .badEncoding)
  parseEd25519Public _ := .ok ()
  parseEd25519Signature s := if s.length = 64 then .ok () else .error "signature"
  verifyStrict _ message signature := if message <+: signature then .ok () else .error "signature"
  peerIdOf node := .ok ⟨node.bytes⟩
  runGuest _ := guest
  decodeError _ := "decode"
  mapOrder l := l
  mapOrder_perm l := .refl l

def sampleNode (b : UInt8) : NodeId := ⟨.ofByte 32 b⟩

def samplePublicKey (b : UInt8) : BlsPublicKey := ⟨.ofByte 96 b⟩

def sampleCommittee (p : ProgramId) (nodes : List UInt8) (threshold : UInt32) : CommitteeCertificate :=
  ⟨p, 0, nodes.map fun b => ⟨sampleNode b, 1, samplePublicKey b⟩, threshold, samplePublicKey 0, none⟩

@[simp] theorem sampleNode_inj {a b : UInt8} : sampleNode a = sampleNode b ↔ a = b := by
  refine ⟨fun h => ?_, fun h => by rw [h]⟩
  have hb : List.replicate 32 a = List.replicate 32 b := congrArg (fun n : NodeId => n.bytes.bytes) h
  simpa using hb

end Onvm
