import Onvm.Bytes

/-! The data model of `types.rs` and `unified_protocol.rs`: identifiers,
receipts, committees, manifests, objects, and the messages of the consensus
core. Field order is the declaration order of the source, which is also the
order on the wire. -/

namespace Onvm

open ByteString

abbrev Bytes32 := FixedBytes 32

structure SubnetId where
  bytes : Bytes32
deriving DecidableEq

structure ObjectId where
  bytes : Bytes32
deriving DecidableEq

structure ChunkId where
  bytes : Bytes32
deriving DecidableEq

structure ManifestId where
  bytes : Bytes32
deriving DecidableEq

structure ProgramId where
  bytes : Bytes32
deriving DecidableEq

structure NodeId where
  bytes : Bytes32
deriving DecidableEq

structure PeerId where
  bytes : Bytes
deriving DecidableEq

abbrev StateRoot := Bytes32
abbrev StateDeltaRoot := Bytes32
abbrev WasmEnvHash := Bytes32
abbrev ReceiptId := Bytes32

structure BlsPublicKey where
  bytes : FixedBytes 96
deriving DecidableEq

structure BlsSignature where
  bytes : FixedBytes 48
deriving DecidableEq

structure BlsSecretKey where
  bytes : FixedBytes 32
deriving DecidableEq

instance : Ord NodeId := ⟨compareOn NodeId.bytes⟩

instance : Std.TransOrd NodeId := inferInstanceAs (Std.TransCmp (compareOn NodeId.bytes))

instance : Std.LawfulEqOrd NodeId where
  eq_of_compare {a b} h := by
    have hh : a.bytes = b.bytes := Std.LawfulEqOrd.eq_of_compare h
    cases a; cases b; simpa using hh

instance : Ord ProgramId := ⟨compareOn ProgramId.bytes⟩

instance : Std.TransOrd ProgramId := inferInstanceAs (Std.TransCmp (compareOn ProgramId.bytes))

theorem ProgramId.eq_of_bytes {p q : ProgramId} (h : p.bytes.bytes = q.bytes.bytes) : p = q := by
  cases p
  cases q
  exact congrArg _ (FixedBytes.bytes_injective h)

instance : Std.LawfulEqOrd ProgramId where
  eq_of_compare {a b} h := by
    have hh : a.bytes = b.bytes := Std.LawfulEqOrd.eq_of_compare h
    exact ProgramId.eq_of_bytes (congrArg _ hh)

theorem ObjectId.eq_of_bytes {a b : ObjectId} (h : a.bytes.bytes = b.bytes.bytes) : a = b := by
  cases a
  cases b
  exact congrArg _ (FixedBytes.bytes_injective h)

def hexDigit (k : Nat) : Char := if k < 10 then Char.ofNat (48 + k) else Char.ofNat (87 + k)

def hexEncode (bs : Bytes) : String :=
  String.ofList (bs.flatMap fun b => [hexDigit (b.toNat / 16), hexDigit (b.toNat % 16)])

def ProgramId.toText (p : ProgramId) : String := "prog" ++ hexEncode p.bytes.bytes

def NodeId.toText (n : NodeId) : String := hexEncode n.bytes.bytes

def ObjectId.toText (id : ObjectId) : String := hexEncode id.bytes.bytes

def ProgramId.toObjectId (p : ProgramId) : ObjectId := ⟨p.bytes⟩

structure CommitteeMember where
  node : NodeId
  weight : UInt64
  blsPublicKey : BlsPublicKey
deriving DecidableEq

structure CommitteeCertificate where
  programId : ProgramId
  epoch : UInt64
  members : List CommitteeMember
  threshold : UInt32
  aggregatePublicKey : BlsPublicKey
  signature : Option BlsSignature
deriving DecidableEq

structure ProgramManifest where
  programId : ProgramId
  subnetId : SubnetId
  version : UInt64
  deployer : NodeId
  wasmEnvHash : WasmEnvHash
  codeManifest : Option ManifestId
  metadataHash : Bytes32
  entrypoints : List String
  initialStateRoot : StateRoot
  dagParent : Option StateRoot
  timestampMs : UInt64
  committee : Option CommitteeCertificate
  subnetMembership : Option SubnetId
  signature : Bytes
deriving DecidableEq

structure ProgramAnnouncement where
  manifest : ProgramManifest
  chunkRoots : List ChunkId
  initialStateChunks : List ChunkId
deriving DecidableEq

structure StateCommitment where
  programId : ProgramId
  height : UInt64
  root : StateRoot
  parent : Option StateRoot
  stateDeltaRoot : Option StateDeltaRoot
  timestampMs : UInt64
deriving DecidableEq

structure ExecutionCall where
  entrypoint : String
  calldata : Bytes
  requestId : Bytes32
deriving DecidableEq

structure ExecutionReceipt where
  programId : ProgramId
  height : UInt64
  stateRootIn : StateRoot
  call : ExecutionCall
  inputsHash : Bytes32
  gasUsed : UInt64
  stateRootOut : StateRoot
  writeDigest : StateDeltaRoot
  eventsHash : Bytes32
  wasmCodeHash : Option Bytes32
  wasmEnvHash : WasmEnvHash
  nonce : UInt64
  executor : NodeId
deriving DecidableEq

structure AggregatedReceipt where
  receipt : ExecutionReceipt
  committeeEpoch : UInt64
  signerBitmap : Bytes
  aggregateSignature : BlsSignature
  aggregatePublicKey : BlsPublicKey
deriving DecidableEq

structure StateWrite where
  key : Bytes
  value : Option Bytes
deriving DecidableEq

inductive ObjectType
  | blob (mimeType : Option String) (uploadSalt : Bytes32)
  | wasmProgram (entrypoint : String) (wasmVersion sourceLanguage compiler : Option String)
      (blobRefs : List ObjectId) (deploySalt : Bytes)
deriving DecidableEq

structure Object where
  id : ObjectId
  objectType : ObjectType
  totalSize : UInt64
  chunkCount : UInt32
  manifestId : ManifestId
  publisher : NodeId
  createdAt : UInt64
deriving DecidableEq

structure ChunkDescriptor where
  chunkId : ChunkId
  size : UInt32
  offset : UInt64
deriving DecidableEq

structure Manifest where
  objectId : ObjectId
  contentHash : Bytes32
  chunks : List ChunkDescriptor
  version : UInt32
deriving DecidableEq

structure Chunk where
  id : ChunkId
  data : Bytes
deriving DecidableEq

structure ExecutionOutcome where
  programId : ProgramId
  returnData : Bytes
  fuelConsumed : UInt64
  stateWrites : List StateWrite
  stateRoot : StateRoot
deriving DecidableEq

structure AggregatedReceiptBundle where
  receipt : AggregatedReceipt
  committee : CommitteeCertificate
  stateWrites : List StateWrite
deriving DecidableEq

structure StateTransitionProposal where
  receipt : ExecutionReceipt
  committeeEpoch : UInt64
  stateWrites : List StateWrite
deriving DecidableEq

structure StateTransitionVote where
  programId : ProgramId
  committeeEpoch : UInt64
  receiptId : ReceiptId
  signer : NodeId
  signature : BlsSignature
deriving DecidableEq

structure ProgramHead where
  programId : ProgramId
  height : UInt64
  stateRoot : StateRoot
deriving DecidableEq

structure FinalizedTransitionResponse where
  programId : ProgramId
  height : UInt64
  bundle : Option AggregatedReceiptBundle
deriving DecidableEq

structure ProgramManifestResponse where
  programId : ProgramId
  manifest : Option ProgramManifest
deriving DecidableEq

structure StateResponse where
  programId : ProgramId
  stateRoot : StateRoot
  stateEntries : List (Bytes × Bytes)
deriving DecidableEq

end Onvm
