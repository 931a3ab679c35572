import Onvm.Bincode
import Onvm.Types

/-! Wire encodings of the records that are hashed, and of the program manifest,
whose serializer leaves out absent optional fields that its deserializer expects. -/

namespace Onvm

open ByteString Bincode

def ProgramId.codec : Codec ProgramId := (fixed 32).imap (⟨·⟩) (·.bytes) fun _ => rfl

def NodeId.codec : Codec NodeId := (fixed 32).imap (⟨·⟩) (·.bytes) fun _ => rfl

def ObjectId.codec : Codec ObjectId := (fixed 32).imap (⟨·⟩) (·.bytes) fun _ => rfl

def ChunkId.codec : Codec ChunkId := (fixed 32).imap (⟨·⟩) (·.bytes) fun _ => rfl

def ManifestId.codec : Codec ManifestId := (fixed 32).imap (⟨·⟩) (·.bytes) fun _ => rfl

def SubnetId.codec : Codec SubnetId := (fixed 32).imap (⟨·⟩) (·.bytes) fun _ => rfl

def BlsPublicKey.codec : Codec BlsPublicKey := (slice 96).imap (⟨·⟩) (·.bytes) fun _ => rfl

def BlsSignature.codec : Codec BlsSignature := (slice 48).imap (⟨·⟩) (·.bytes) fun _ => rfl

def StateWrite.codec : Codec StateWrite :=
  (bytes.prod (option bytes)).imap (fun (k, v) => ⟨k, v⟩) (fun w => (w.key, w.value)) fun _ => rfl

def stateWritesCodec : Codec (List StateWrite) := list StateWrite.codec

def ExecutionCall.codec : Codec ExecutionCall :=
  (string.prod (bytes.prod (fixed 32))).imap (fun (e, c, r) => ⟨e, c, r⟩)
    (fun c => (c.entrypoint, c.calldata, c.requestId)) fun _ => rfl

def ExecutionReceipt.codec : Codec ExecutionReceipt :=
  (ProgramId.codec.prod <| u64.prod <| (fixed 32).prod <| ExecutionCall.codec.prod <|
    (fixed 32).prod <| u64.prod <| (fixed 32).prod <| (fixed 32).prod <| (fixed 32).prod <|
    (option (fixed 32)).prod <| (fixed 32).prod <| u64.prod NodeId.codec).imap
    (fun (p, h, i, c, x, g, o, d, e, w, v, n, a) => ⟨p, h, i, c, x, g, o, d, e, w, v, n, a⟩)
    (fun r => (r.programId, r.height, r.stateRootIn, r.call, r.inputsHash, r.gasUsed,
      r.stateRootOut, r.writeDigest, r.eventsHash, r.wasmCodeHash, r.wasmEnvHash, r.nonce,
      r.executor)) fun _ => rfl

def CommitteeMember.codec : Codec CommitteeMember :=
  (NodeId.codec.prod (u64.prod BlsPublicKey.codec)).imap (fun (n, w, k) => ⟨n, w, k⟩)
    (fun m => (m.node, m.weight, m.blsPublicKey)) fun _ => rfl

def CommitteeCertificate.codec : Codec CommitteeCertificate :=
  (ProgramId.codec.prod <| u64.prod <| (list CommitteeMember.codec).prod <| u32.prod <|
    BlsPublicKey.codec.prod (option BlsSignature.codec)).imap
    (fun (p, e, m, t, a, s) => ⟨p, e, m, t, a, s⟩)
    (fun c => (c.programId, c.epoch, c.members, c.threshold, c.aggregatePublicKey, c.signature))
    fun _ => rfl

def ObjectType.codec : Codec ObjectType :=
  (variant ((option string).prod (fixed 32))
    (string.prod <| (option string).prod <| (option string).prod <| (option string).prod <|
      (list ObjectId.codec).prod bytes)).imap
    (fun v => match v with
      | .inl (m, s) => .blob m s
      | .inr (e, w, l, c, r, s) => .wasmProgram e w l c r s)
    (fun t => match t with
      | .blob m s => .inl (m, s)
      | .wasmProgram e w l c r s => .inr (e, w, l, c, r, s))
    fun t => by cases t <;> rfl

def ChunkDescriptor.codec : Codec ChunkDescriptor :=
  (ChunkId.codec.prod (u32.prod u64)).imap (fun (c, s, o) => ⟨c, s, o⟩)
    (fun d => (d.chunkId, d.size, d.offset)) fun _ => rfl

def Manifest.codec : Codec Manifest :=
  (ObjectId.codec.prod <| (fixed 32).prod <| (list ChunkDescriptor.codec).prod u32).imap
    (fun (o, h, c, v) => ⟨o, h, c, v⟩)
    (fun m => (m.objectId, m.contentHash, m.chunks, m.version)) fun _ => rfl

/-- The fields of a program manifest in front of the optional ones. -/
structure ManifestHead where
  programId : ProgramId
  subnetId : SubnetId
  version : UInt64
  deployer : NodeId
  wasmEnvHash : WasmEnvHash
  codeManifest : Option ManifestId
  metadataHash : Bytes32
  entrypoints : List String
  initialStateRoot : StateRoot
  dagParent : Option StateRoot
  timestampMs : UInt64
deriving DecidableEq

def ProgramManifest.head (m : ProgramManifest) : ManifestHead :=
  ⟨m.programId, m.subnetId, m.version, m.deployer, m.wasmEnvHash, m.codeManifest, m.metadataHash,
    m.entrypoints, m.initialStateRoot, m.dagParent, m.timestampMs⟩

def ManifestHead.codec : Codec ManifestHead :=
  (ProgramId.codec.prod <| SubnetId.codec.prod <| u64.prod <| NodeId.codec.prod <|
    (fixed 32).prod <| (option ManifestId.codec).prod <| (fixed 32).prod <|
    (list string).prod <| (fixed 32).prod <| (option (fixed 32)).prod u64).imap
    (fun (p, s, v, d, w, c, m, e, i, g, t) => ⟨p, s, v, d, w, c, m, e, i, g, t⟩)
    (fun h => (h.programId, h.subnetId, h.version, h.deployer, h.wasmEnvHash, h.codeManifest,
      h.metadataHash, h.entrypoints, h.initialStateRoot, h.dagParent, h.timestampMs)) fun _ => rfl

def encodeSkipping {α : Type} (c : Codec α) (v : Option α) : Bytes :=
  match v with
  | none => []
  | some a => (option c).enc (some a)

def ProgramManifest.encode (m : ProgramManifest) : Bytes :=
  ManifestHead.codec.enc m.head ++ (encodeSkipping CommitteeCertificate.codec m.committee ++
    (encodeSkipping SubnetId.codec m.subnetMembership ++ bytes.enc m.signature))

def ProgramManifest.decode (raw : Bytes) : Option ProgramManifest :=
  (ManifestHead.codec.dec raw).bind fun (h, r) =>
  ((option CommitteeCertificate.codec).dec r).bind fun (c, r) =>
  ((option SubnetId.codec).dec r).bind fun (s, r) =>
  (bytes.dec r).map fun (g, _) =>
    ⟨h.programId, h.subnetId, h.version, h.deployer, h.wasmEnvHash, h.codeManifest, h.metadataHash,
      h.entrypoints, h.initialStateRoot, h.dagParent, h.timestampMs, c, s, g⟩

theorem ProgramManifest.head_of_decode_encode {m m' : ProgramManifest}
    (h : decode m.encode = some m') : m'.head = m.head := by
  simp only [decode, encode, ManifestHead.codec.dec_enc, Option.bind_some] at h
  obtain ⟨⟨c, r⟩, -, h⟩ := Option.bind_eq_some_iff.mp h
  obtain ⟨⟨s, r'⟩, -, h⟩ := Option.bind_eq_some_iff.mp h
  obtain ⟨⟨g, r''⟩, -, h⟩ := Option.map_eq_some_iff.mp h
  simp only at h
  rw [← h]
  rfl

theorem ProgramManifest.committee_of_decode_encode {m m' : ProgramManifest}
    {c : CommitteeCertificate} (hc : m.committee = some c) (h : decode m.encode = some m') :
    m'.committee = some c := by
  simp only [decode, encode, ManifestHead.codec.dec_enc, Option.bind_some, hc, encodeSkipping,
    (option CommitteeCertificate.codec).dec_enc] at h
  obtain ⟨⟨s, r'⟩, -, h⟩ := Option.bind_eq_some_iff.mp h
  obtain ⟨⟨g, r''⟩, -, h⟩ := Option.map_eq_some_iff.mp h
  simp only at h
  rw [← h]

theorem ProgramManifest.decode_encode {m : ProgramManifest} {c : CommitteeCertificate}
    {s : SubnetId} (hc : m.committee = some c) (hs : m.subnetMembership = some s) :
    decode m.encode = some m := by
  have hg : bytes.dec (bytes.enc m.signature) = some (m.signature, []) := by
    simpa using bytes.dec_enc m.signature []
  simp only [decode, encode, ManifestHead.codec.dec_enc, Option.bind_some, hc, hs, encodeSkipping,
    (option CommitteeCertificate.codec).dec_enc, (option SubnetId.codec).dec_enc, hg, Option.map_some]
  cases m
  simp only at hc hs
  subst hc hs
  rfl

end Onvm
