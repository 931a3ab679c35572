import Onvm.Platform

/-! The object store of `unified_store.rs`: objects, manifests and chunks, the
local write path that computes ids, and the paths on which peers supply records. -/

namespace Onvm

open ByteString OrderedStore Std

def chunkSizeSmall : Nat := 250 * 1024

def chunkSizeLarge : Nat := 2 * 1024 * 1024

def largeObjectThresholdBytes : Nat := 2 * 1024 * 1024

def divCeilU64 (n d : UInt64) : UInt64 :=
  if d = 0 then 0 else n / d + (if n % d ≠ 0 then 1 else 0)

def topLevelChunkCountForTotalSize (totalSize : UInt64) : UInt64 :=
  if totalSize = 0 then 0
  else if UInt64.ofNat largeObjectThresholdBytes < totalSize then
    divCeilU64 totalSize (UInt64.ofNat chunkSizeLarge)
  else divCeilU64 totalSize (UInt64.ofNat chunkSizeSmall)

def Chunk.verify (pf : Platform) (c : Chunk) : Except String Unit :=
  if pf.hashBytes c.data ≠ c.id.bytes then .error "chunk hash mismatch" else .ok ()

def Manifest.id (pf : Platform) (m : Manifest) : ManifestId := ⟨pf.hashBytes (Manifest.codec.enc m)⟩

def validateChunks : (index : Nat) → (expectedOffset : UInt64) → List ChunkDescriptor → Except String Unit
  | _, _, [] => .ok ()
  | i, off, d :: ds =>
    if d.offset ≠ off then
      .error ("chunk " ++ toString i ++ " offset mismatch: expected " ++ toString off ++ ", got " ++
        toString d.offset)
    else validateChunks (i + 1) (off + d.size.toUInt64) ds

def Manifest.validate (m : Manifest) : Except String Unit := validateChunks 0 0 m.chunks

def Manifest.totalSize (m : Manifest) : UInt64 := (m.chunks.map fun d => d.size.toUInt64).sum

/-- `[T]::chunks`; `fuel` is at least the number of pieces. -/
def splitEvery (size : Nat) : (fuel : Nat) → Bytes → List Bytes
  | 0, _ => []
  | _ + 1, [] => []
  | fuel + 1, x :: xs => (x :: xs).take size :: splitEvery size fuel ((x :: xs).drop size)

def chunkData (pf : Platform) (data : Bytes) : List Chunk :=
  let size := if largeObjectThresholdBytes < data.length then chunkSizeLarge else chunkSizeSmall
  (splitEvery size data.length data).map fun piece => ⟨⟨pf.hashBytes piece⟩, piece⟩

def describeChunks : (offset : Nat) → List Chunk → List ChunkDescriptor
  | _, [] => []
  | off, c :: cs =>
    ⟨c.id, UInt32.ofNat c.data.length, UInt64.ofNat off⟩ :: describeChunks (off + c.data.length) cs

/-- The id of an object with content hash `content` and type `t`. -/
def objectIdFor (pf : Platform) (content : Bytes32) (t : ObjectType) : ObjectId :=
  ⟨pf.hashBytes (content.bytes ++ (pf.hashBytes (ObjectType.codec.enc t)).bytes)⟩

namespace UnifiedStore

def empty : UnifiedStore := ⟨.empty, .empty, ∅, ∅⟩

variable (pf : Platform) (u : UnifiedStore)

def storeObject (o : Object) : UnifiedStore := { u with objects := u.objects.put o }

def getObjectMetadata (id : ObjectId) : Option Object := u.objects.get id.bytes.bytes

def storeManifest (m : Manifest) : UnifiedStore :=
  { u with
    manifests := u.manifests.put m
    manifestIndex := u.manifestIndex.insert (m.id pf).bytes.bytes m.objectId }

def getManifestByObject (id : ObjectId) : Option Manifest := u.manifests.get id.bytes.bytes

def storeChunk (c : Chunk) : Except String UnifiedStore :=
  (c.verify pf).map fun _ => { u with chunks := u.chunks.insert c.id.bytes.bytes c.data }

def tryStoreChunk (c : Chunk) : UnifiedStore :=
  match u.storeChunk pf c with
  | .ok u' => u'
  | .error _ => u

def getChunk (id : ChunkId) : Except String (Option Chunk) :=
  match u.chunks[id.bytes.bytes]? with
  | none => .ok none
  | some raw => ((⟨id, raw⟩ : Chunk).verify pf).map fun _ => some ⟨id, raw⟩

def hasChunk (id : ChunkId) : Bool := u.chunks.contains id.bytes.bytes

def getMissingChunks (m : Manifest) : List ChunkId :=
  (m.chunks.filter fun d => !u.hasChunk d.chunkId).map (·.chunkId)

def isComplete (id : ObjectId) : Bool :=
  match u.getManifestByObject id with
  | none => false
  | some m => (u.getMissingChunks m).isEmpty

def storeAll (u : UnifiedStore) : List Chunk → Except String UnifiedStore
  | [] => .ok u
  | c :: cs => (u.storeChunk pf c).bind fun u' => storeAll u' cs

def putObject (data : Bytes) (objectType : ObjectType) (publisher : NodeId) (now : UInt64) :
    Except String (UnifiedStore × Object) :=
  if data.isEmpty then .error "cannot store empty object"
  else
    let chunks := chunkData pf data
    let contentHash := pf.hashBytes data
    let objectId := objectIdFor pf contentHash objectType
    let manifest : Manifest := ⟨objectId, contentHash, describeChunks 0 chunks, 1⟩
    manifest.validate.bind fun _ =>
      let object : Object :=
        ⟨objectId, objectType, UInt64.ofNat data.length, UInt32.ofNat chunks.length, manifest.id pf,
          publisher, now⟩
      (((u.storeObject object).storeManifest pf manifest).storeAll pf chunks).map fun u' => (u', object)

def collectChunks : List ChunkDescriptor → Except String Bytes
  | [] => .ok []
  | d :: ds =>
    match u.getChunk pf d.chunkId with
    | .error e => .error e
    | .ok none => .error ("chunk " ++ hexEncode d.chunkId.bytes.bytes ++ " not found")
    | .ok (some c) =>
      if c.data.length ≠ d.size.toNat then
        .error ("chunk size mismatch: expected " ++ toString d.size ++ ", got " ++ toString c.data.length)
      else (collectChunks ds).map fun rest => c.data ++ rest

def getObject (id : ObjectId) : Except String Bytes :=
  match u.getManifestByObject id with
  | none => .error "manifest not found for object"
  | some m =>
    m.validate.bind fun _ =>
    (u.collectChunks pf m.chunks).bind fun data =>
    if pf.hashBytes data ≠ m.contentHash then
      .error ("content hash mismatch after reassembly: expected " ++ hexEncode m.contentHash.bytes ++
        ", got " ++ hexEncode (pf.hashBytes data).bytes)
    else .ok data

/-- The byte buffers that `get_object` asks for while it collects chunks: each chunk as it is copied
from the store, and the data with the chunk appended. It stops at the first chunk that it refuses. -/
def collectBuffers : (gathered : Nat) → List ChunkDescriptor → List Nat
  | _, [] => []
  | gathered, d :: ds =>
    match u.chunks[d.chunkId.bytes.bytes]? with
    | none => []
    | some raw =>
      if pf.hashBytes raw ≠ d.chunkId.bytes ∨ raw.length ≠ d.size.toNat then [raw.length]
      else raw.length :: (gathered + raw.length) :: collectBuffers (gathered + raw.length) ds

/-- The byte buffers that `get_object` asks for: `Vec::with_capacity` of the size that a valid manifest
states, before any chunk is read, and those of the chunks. -/
def getObjectBuffers (id : ObjectId) : List Nat :=
  match u.getManifestByObject id with
  | none => []
  | some m =>
    match m.validate with
    | .error _ => []
    | .ok _ => m.totalSize.toNat :: u.collectBuffers pf 0 m.chunks

end UnifiedStore

/-- What can happen to the object store: a local write, or a record from a peer. -/
inductive StoreEvent
  | putObject (data : Bytes) (objectType : ObjectType) (publisher : NodeId) (now : UInt64)
  | manifestResponse (m : Manifest)
  | manifestFetched (m : Manifest)
  | chunkResponse (c : Chunk)
  | chunksResponse (cs : List (ChunkId × Option Bytes))
  | objectMetadataResponse (o : Object)
  | objectMetadataFetched (o : Object)
  | manifestGossip (m : Manifest)
  | objectMetadataGossip (o : Object)

namespace UnifiedStore

def storeChunks (pf : Platform) (u : UnifiedStore) : List (ChunkId × Option Bytes) → UnifiedStore
  | [] => u
  | (_, none) :: cs => storeChunks pf u cs
  | (id, some data) :: cs => storeChunks pf (u.tryStoreChunk pf ⟨id, data⟩) cs

def handle (pf : Platform) (u : UnifiedStore) : StoreEvent → UnifiedStore
  | .putObject data t publisher now =>
    match u.putObject pf data t publisher now with
    | .ok (u', _) => u'
    | .error _ => u
  | .manifestResponse m => u.storeManifest pf m
  | .manifestFetched m => u.storeManifest pf m
  | .chunkResponse c => u.tryStoreChunk pf c
  | .chunksResponse cs => u.storeChunks pf cs
  | .objectMetadataResponse o => u.storeObject o
  | .objectMetadataFetched o => u.storeObject o
  | .manifestGossip m => if (u.getManifestByObject m.objectId).isNone then u.storeManifest pf m else u
  | .objectMetadataGossip o => if (u.getObjectMetadata o.id).isNone then u.storeObject o else u

end UnifiedStore

end Onvm
