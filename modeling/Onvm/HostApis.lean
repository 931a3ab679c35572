import Onvm.Runtime
import Onvm.IdText

/-! The host functions of `host_apis.rs`, over the linear memory of the guest. What they can see is
split in two: the context of the run, and what lies outside of it. -/

namespace Onvm

open ByteString OrderedStore Std

abbrev Memory := Bytes

namespace Memory

def read (mem : Memory) (ptr len : Nat) : Option Bytes :=
  if ptr + len ≤ mem.length then some ((mem.drop ptr).take len) else none

def write (mem : Memory) (ptr : Nat) (data : Bytes) : Option Memory :=
  if ptr + data.length ≤ mem.length then some (mem.take ptr ++ data ++ mem.drop (ptr + data.length))
  else none

end Memory

/-- `as usize`, which extends the sign. -/
def usize (x : Int32) : Nat := (x.toInt % 2 ^ 64).toNat

/-- How a host function leaves early: with a code for the guest, or by a panic. -/
inductive Fault
  | code (c : Int64)
  | panic (message : String)
deriving DecidableEq

/-- How a range of guest memory is copied: by pointer and length, with the code for one that is not in
memory. -/
abbrev Reader := Int32 → Int32 → Int64 → Except Fault Bytes

/-- `vec![0u8; len as usize]` filled from memory. -/
def readVec (mem : Memory) : Reader := fun ptr len code =>
  if len < 0 then .error (.panic "capacity overflow")
  else
    match mem.read (usize ptr) (usize len) with
    | none => .error (.code code)
    | some buf => .ok buf

def writeBytes (mem : Memory) (ptr : Int32) (data : Bytes) (code : Int64) : Except Fault Memory :=
  match mem.write (usize ptr) data with
  | none => .error (.code code)
  | some mem' => .ok mem'

def fromUtf8 (buf : Bytes) : Option String := String.fromUTF8? ⟨buf.toArray⟩

def readObjectId (read : Reader) (idPtr idLen : Int32) : Except Fault ObjectId :=
  (read idPtr idLen (-2)).bind fun buf =>
    if h : buf.length = 32 then .ok ⟨⟨buf, h⟩⟩
    else
      match fromUtf8 buf with
      | none => .error (.code (-3))
      | some text =>
        match IdText.parseBlobIdStr (fun _ => "") text with
        | .error _ => .error (.code (-4))
        | .ok id => .ok id.toObjectId

structure WasiRequest where
  function : String
  args : List Int64
  memory : Memory

inductive WasiReply
  | answer (value : Int64) (memory : Memory)
  | exit (message : String)

/-- Libraries that the host functions call. `wasi` answers a request after earlier ones; it is
linked with the environment variables and standard streams of the process (`Env`), its clocks and
its random source. -/
structure HostLib where
  sha256 : Bytes → Bytes32
  keccak256 : Bytes → Bytes32
  messageOk : Bytes → Bool
  signatureOk : Bytes → Bool
  publicKeyOk : Bytes → Bool
  verifyEcdsa : (message signature publicKey : Bytes) → Bool
  recoverableOk : (signature : Bytes) → (recoveryId : Nat) → Bool
  recoverEcdsa : (message signature : Bytes) → (recoveryId : Nat) → Option Bytes
  Env : Type
  env_nonempty : Nonempty Env
  wasi : Env → (past : List WasiRequest) → WasiRequest → WasiReply

/-- What the host functions read from the machine: the clock in milliseconds since the epoch, if it
is past it, and the random source, reading by reading. -/
structure World (lib : HostLib) where
  clock : Nat → Option Nat
  random : Nat → Nat → UInt8
  env : lib.Env

/-- What lies outside of a run: the machine and the local object store. -/
structure Outside (lib : HostLib) where
  world : World lib
  store : UnifiedStore

/-- The context of a run; `message_queue` is absent in `execute`. -/
structure ExecutionContext where
  programId : ProgramId
  entries : ByteTree Bytes
  pendingWrites : ByteTree (Option Bytes)
  clockReads : Nat
  randomReads : Nat
  wasiPast : List WasiRequest

inductive HostCall
  | blobAddr (idPtr idLen outPtr : Int32)
  | blobExists (idPtr idLen : Int32)
  | blobLen (idPtr idLen : Int32)
  | blobHash (idPtr idLen outPtr : Int32)
  | blobRead (idPtr idLen outPtr outCapacity : Int32)
  | stateExists (keyPtr keyLen : Int32)
  | stateLen (keyPtr keyLen : Int32)
  | stateDel (keyPtr keyLen : Int32)
  | stateList (frontPtr frontLen outPtr outCap : Int32)
  | statePut (keyPtr keyLen valPtr valLen : Int32)
  | stateGet (keyPtr keyLen outPtr outCap : Int32)
  | stateRoot (outPtr : Int32)
  | log (level msgPtr msgLen : Int32)
  | nowMs
  | randomBytes (outPtr outLen : Int32)
  | call (targetIdPtr targetIdLen methodPtr methodLen payloadPtr payloadLen outMsgIdPtr : Int32)
  | callResult (msgIdPtr outPtr outCap : Int32)
  | msgCyclesAvailable
  | cryptoHash (algo inPtr inLen outPtr outCap : Int32)
  | secp256k1Verify (msgPtr sigPtr pubkeyPtr : Int32)
  | secp256k1Recover (msgPtr sigPtr outPubkeyPtr : Int32)
  | wasi (function : String) (args : List Int64)

inductive Import
  | blobAddr | blobExists | blobLen | blobHash | blobRead
  | stateExists | stateLen | stateDel | stateList | statePut | stateGet | stateRoot
  | log | nowMs | randomBytes | call | callResult | msgCyclesAvailable
  | cryptoHash | secp256k1Verify | secp256k1Recover
  | wasi (function : String)
deriving DecidableEq

abbrev HostEffect := Int64 × Memory × ExecutionContext

section Functions

variable (pf : Platform) (lib : HostLib) (out : Outside lib) (ctx : ExecutionContext) (mem : Memory)
  (read : Reader)

/-- A result that is copied to the guest if its length, as an `i32`, is within the capacity. -/
def copyOut (result : Bytes) (outPtr outCap : Int32) (small failed : Int64) : Except Fault HostEffect :=
  let len := Int32.ofNat result.length
  if outCap < len then .error (.code small)
  else do
    let mem' ← writeBytes mem outPtr result failed
    .ok (len.toInt64, mem', ctx)

def onvmBlobAddr (idPtr idLen outPtr : Int32) : Except Fault HostEffect := do
  let id ← readObjectId read idPtr idLen
  let mem' ← writeBytes mem outPtr id.bytes.bytes (-2)
  .ok (0, mem', ctx)

def onvmBlobExists (idPtr idLen : Int32) : Except Fault HostEffect := do
  let id ← readObjectId read idPtr idLen
  .ok (if (out.store.getManifestByObject id).isSome then 1 else 0, mem, ctx)

def onvmBlobLen (idPtr idLen : Int32) : Except Fault HostEffect := do
  let id ← readObjectId read idPtr idLen
  match out.store.getObjectMetadata id with
  | some o => .ok (o.totalSize.toInt64, mem, ctx)
  | none =>
    match out.store.getManifestByObject id with
    | some m => .ok (m.totalSize.toInt64, mem, ctx)
    | none => .ok (-1, mem, ctx)

def onvmBlobHash (idPtr idLen outPtr : Int32) : Except Fault HostEffect := do
  let id ← readObjectId read idPtr idLen
  match out.store.getManifestByObject id with
  | none => .error (.code (-2))
  | some m =>
    let mem' ← writeBytes mem outPtr m.contentHash.bytes (-4)
    .ok (0, mem', ctx)

def onvmBlobRead (idPtr idLen outPtr outCapacity : Int32) : Except Fault HostEffect := do
  let id ← readObjectId read idPtr idLen
  if (out.store.getObjectBuffers pf id).any (2 ^ 63 ≤ ·) then .error (.panic "capacity overflow")
  else
    match out.store.getObject pf id with
    | .error _ => .error (.code (-6))
    | .ok data => copyOut ctx mem data outPtr outCapacity (-7) (-8)

def onvmStateExists (keyPtr keyLen : Int32) : Except Fault HostEffect := do
  let key ← read keyPtr keyLen (-2)
  match ctx.pendingWrites[key]? with
  | some entry => .ok (if entry.isSome then 1 else 0, mem, ctx)
  | none => .ok (if ctx.entries[key]?.isSome then 1 else 0, mem, ctx)

def onvmStateLen (keyPtr keyLen : Int32) : Except Fault HostEffect := do
  let key ← read keyPtr keyLen (-2)
  let lengthOf : Option Bytes → Int64
    | some v => Int64.ofNat v.length
    | none => -1
  match ctx.pendingWrites[key]? with
  | some entry => .ok (lengthOf entry, mem, ctx)
  | none => .ok (lengthOf ctx.entries[key]?, mem, ctx)

def onvmStateDel (keyPtr keyLen : Int32) : Except Fault HostEffect := do
  let key ← read keyPtr keyLen (-2)
  .ok (0, mem, { ctx with pendingWrites := ctx.pendingWrites.insert key none })

def listedKeys (front : Bytes) : List Bytes :=
  let pending := (ctx.pendingWrites.toList.filter fun e => e.2.isSome && front.isPrefixOf e.1).map (·.1)
  let stored := (ctx.entries.toList.filter fun e =>
    front.isPrefixOf e.1 && ctx.pendingWrites[e.1]? != some none).map (·.1)
  (ExtTreeMap.ofList ((pending ++ stored).map fun k => (k, ())) compare).keys

def writeKeys : Memory → (cursor : Nat) → List Bytes → Memory × Option Int64
  | mem, _, [] => (mem, none)
  | mem, cursor, key :: keys =>
    match mem.write cursor (littleEndian 4 (key.length % 2 ^ 32)) with
    | none => (mem, some (-4))
    | some mem =>
      match mem.write (cursor + 4) key with
      | none => (mem, some (-5))
      | some mem => writeKeys mem (cursor + 4 + key.length) keys

def onvmStateList (frontPtr frontLen outPtr outCap : Int32) : Except Fault HostEffect := do
  let front ← read frontPtr frontLen (-2)
  let keys := listedKeys ctx front
  let total := (keys.map fun k => 4 + k.length).sum
  if usize outCap < total then .error (.code (-(Int32.ofNat total)).toInt64)
  else
    let (mem', failed) := writeKeys mem (usize outPtr) keys
    .ok (failed.getD (Int32.ofNat total).toInt64, mem', ctx)

def onvmStatePut (keyPtr keyLen valPtr valLen : Int32) : Except Fault HostEffect := do
  let key ← read keyPtr keyLen (-2)
  let val ← read valPtr valLen (-3)
  .ok (0, mem, { ctx with pendingWrites := ctx.pendingWrites.insert key (some val) })

def onvmStateGet (keyPtr keyLen outPtr outCap : Int32) : Except Fault HostEffect := do
  let key ← read keyPtr keyLen (-2)
  let found := (ctx.pendingWrites[key]?).getD ctx.entries[key]?
  match found with
  | none => .ok (0, mem, ctx)
  | some v => copyOut ctx mem v outPtr outCap (-(Int32.ofNat v.length)).toInt64 (-4)

def onvmStateRoot (outPtr : Int32) : Except Fault HostEffect := do
  let writes := ctx.pendingWrites.toList.map fun e => (⟨e.1, e.2⟩ : StateWrite)
  let mem' ← writeBytes mem outPtr (rootOfMap pf (writeEntries ctx.entries writes)).bytes (-3)
  .ok (0, mem', ctx)

def onvmLog (level msgPtr msgLen : Int32) : Except Fault HostEffect := do
  let buf ← read msgPtr msgLen (-2)
  match fromUtf8 buf with
  | none => .error (.code (-3))
  | some _ => if 0 ≤ level ∧ level ≤ 3 then .ok (0, mem, ctx) else .error (.code (-4))

def onvmNowMs : HostEffect :=
  let now : Int64 :=
    match out.world.clock ctx.clockReads with
    | some ms => Int64.ofNat ms
    | none => -1
  (now, mem, { ctx with clockReads := ctx.clockReads + 1 })

def onvmRandomBytes (outPtr outLen : Int32) : Except Fault HostEffect :=
  if outLen < 0 then .error (.code (-2))
  else
    let buf := (List.range (usize outLen)).map (out.world.random ctx.randomReads)
    let ctx' := { ctx with randomReads := ctx.randomReads + 1 }
    match mem.write (usize outPtr) buf with
    | none => .ok (-3, mem, ctx')
    | some mem' => .ok (0, mem', ctx')

def onvmCall (targetIdPtr targetIdLen methodPtr methodLen payloadPtr payloadLen : Int32) :
    Except Fault HostEffect := do
  let targetId ← read targetIdPtr targetIdLen (-2)
  let method ← read methodPtr methodLen (-3)
  let _ ← read payloadPtr payloadLen (-4)
  if targetId.length ≠ 32 then .error (.code (-5))
  else
    match fromUtf8 method with
    | none => .error (.code (-6))
    | some _ => .error (.code (-9))

def onvmCallResult (msgIdPtr : Int32) : Except Fault HostEffect := do
  let _ ← read msgIdPtr 32 (-2)
  .error (.code (-9))

def onvmCryptoHash (algo inPtr inLen outPtr outCap : Int32) : Except Fault HostEffect := do
  let input ← read inPtr inLen (-2)
  let digest : Bytes32 ←
    if algo = 1 then .ok (lib.sha256 input)
    else if algo = 2 then .ok (lib.keccak256 input)
    else .error (.code (-3))
  if outCap < 32 then .error (.code (-32))
  else
    let mem' ← writeBytes mem outPtr digest.bytes (-4)
    .ok (32, mem', ctx)

def onvmCryptoSecp256k1Verify (msgPtr sigPtr pubkeyPtr : Int32) : Except Fault HostEffect := do
  let msg ← read msgPtr 32 (-2)
  let sig ← read sigPtr 65 (-3)
  let key ← read pubkeyPtr 64 (-4)
  if !lib.messageOk msg then .error (.code (-5))
  else if !lib.signatureOk (sig.take 64) then .error (.code (-6))
  else if !lib.publicKeyOk (4 :: key) then .error (.code (-7))
  else .ok (if lib.verifyEcdsa msg (sig.take 64) (4 :: key) then 0 else 1, mem, ctx)

def onvmCryptoSecp256k1Recover (msgPtr sigPtr outPubkeyPtr : Int32) : Except Fault HostEffect := do
  let msg ← read msgPtr 32 (-2)
  let sig ← read sigPtr 65 (-3)
  let recoveryId := (sig.getD 64 0).toNat % 4
  if !lib.recoverableOk (sig.take 64) recoveryId then .error (.code (-5))
  else if !lib.messageOk msg then .error (.code (-6))
  else
    match lib.recoverEcdsa msg (sig.take 64) recoveryId with
    | none => .error (.code (-7))
    | some key =>
      if key.length ≠ 65 then .error (.code (-8))
      else
        let mem' ← writeBytes mem outPubkeyPtr (key.drop 1) (-9)
        .ok (0, mem', ctx)

def wasiCall (function : String) (args : List Int64) : Except String HostEffect :=
  let request : WasiRequest := ⟨function, args, mem⟩
  match lib.wasi out.world.env ctx.wasiPast request with
  | .exit message => .error message
  | .answer value mem' => .ok (value, mem', { ctx with wasiPast := ctx.wasiPast ++ [request] })

def withMemory (exported : Bool) (f : Except Fault HostEffect) : Except String HostEffect :=
  if !exported then .ok (-1, mem, ctx)
  else
    match f with
    | .ok effect => .ok effect
    | .error (.code c) => .ok (c, mem, ctx)
    | .error (.panic message) => .error message

/-- A call of a host function that copies its arguments with `read`. -/
def hostCallVia (exported : Bool) : HostCall → Except String HostEffect
  | .blobAddr idPtr idLen outPtr => withMemory ctx mem exported (onvmBlobAddr ctx mem read idPtr idLen outPtr)
  | .blobExists idPtr idLen => withMemory ctx mem exported (onvmBlobExists lib out ctx mem read idPtr idLen)
  | .blobLen idPtr idLen => withMemory ctx mem exported (onvmBlobLen lib out ctx mem read idPtr idLen)
  | .blobHash idPtr idLen outPtr =>
    withMemory ctx mem exported (onvmBlobHash lib out ctx mem read idPtr idLen outPtr)
  | .blobRead idPtr idLen outPtr outCapacity =>
    withMemory ctx mem exported (onvmBlobRead pf lib out ctx mem read idPtr idLen outPtr outCapacity)
  | .stateExists keyPtr keyLen => withMemory ctx mem exported (onvmStateExists ctx mem read keyPtr keyLen)
  | .stateLen keyPtr keyLen => withMemory ctx mem exported (onvmStateLen ctx mem read keyPtr keyLen)
  | .stateDel keyPtr keyLen => withMemory ctx mem exported (onvmStateDel ctx mem read keyPtr keyLen)
  | .stateList frontPtr frontLen outPtr outCap =>
    withMemory ctx mem exported (onvmStateList ctx mem read frontPtr frontLen outPtr outCap)
  | .statePut keyPtr keyLen valPtr valLen =>
    withMemory ctx mem exported (onvmStatePut ctx mem read keyPtr keyLen valPtr valLen)
  | .stateGet keyPtr keyLen outPtr outCap =>
    withMemory ctx mem exported (onvmStateGet ctx mem read keyPtr keyLen outPtr outCap)
  | .stateRoot outPtr => withMemory ctx mem exported (onvmStateRoot pf ctx mem outPtr)
  | .log level msgPtr msgLen => withMemory ctx mem exported (onvmLog ctx mem read level msgPtr msgLen)
  | .nowMs => .ok (onvmNowMs lib out ctx mem)
  | .randomBytes outPtr outLen => withMemory ctx mem exported (onvmRandomBytes lib out ctx mem outPtr outLen)
  | .call targetIdPtr targetIdLen methodPtr methodLen payloadPtr payloadLen _ =>
    withMemory ctx mem exported
      (onvmCall read targetIdPtr targetIdLen methodPtr methodLen payloadPtr payloadLen)
  | .callResult msgIdPtr _ _ => withMemory ctx mem exported (onvmCallResult read msgIdPtr)
  | .msgCyclesAvailable => .ok (0, mem, ctx)
  | .cryptoHash algo inPtr inLen outPtr outCap =>
    withMemory ctx mem exported (onvmCryptoHash lib ctx mem read algo inPtr inLen outPtr outCap)
  | .secp256k1Verify msgPtr sigPtr pubkeyPtr =>
    withMemory ctx mem exported (onvmCryptoSecp256k1Verify lib ctx mem read msgPtr sigPtr pubkeyPtr)
  | .secp256k1Recover msgPtr sigPtr outPubkeyPtr =>
    withMemory ctx mem exported (onvmCryptoSecp256k1Recover lib ctx mem read msgPtr sigPtr outPubkeyPtr)
  | .wasi function args =>
    if exported then wasiCall lib out ctx mem function args else .error "missing required memory export"

def hostCall (exported : Bool) (c : HostCall) : Except String HostEffect :=
  hostCallVia pf lib out ctx mem (readVec mem) exported c

end Functions

def HostCall.function : HostCall → Import
  | .blobAddr .. => .blobAddr
  | .blobExists .. => .blobExists
  | .blobLen .. => .blobLen
  | .blobHash .. => .blobHash
  | .blobRead .. => .blobRead
  | .stateExists .. => .stateExists
  | .stateLen .. => .stateLen
  | .stateDel .. => .stateDel
  | .stateList .. => .stateList
  | .statePut .. => .statePut
  | .stateGet .. => .stateGet
  | .stateRoot .. => .stateRoot
  | .log .. => .log
  | .nowMs => .nowMs
  | .randomBytes .. => .randomBytes
  | .call .. => .call
  | .callResult .. => .callResult
  | .msgCyclesAvailable => .msgCyclesAvailable
  | .cryptoHash .. => .cryptoHash
  | .secp256k1Verify .. => .secp256k1Verify
  | .secp256k1Recover .. => .secp256k1Recover
  | .wasi function _ => .wasi function

def HostCall.reads : HostCall → List (Int32 × Int32)
  | .blobAddr idPtr idLen _ | .blobExists idPtr idLen | .blobLen idPtr idLen | .blobHash idPtr idLen _
  | .blobRead idPtr idLen _ _ => [(idPtr, idLen)]
  | .stateExists keyPtr keyLen | .stateLen keyPtr keyLen | .stateDel keyPtr keyLen
  | .stateGet keyPtr keyLen _ _ => [(keyPtr, keyLen)]
  | .stateList frontPtr frontLen _ _ => [(frontPtr, frontLen)]
  | .statePut keyPtr keyLen valPtr valLen => [(keyPtr, keyLen), (valPtr, valLen)]
  | .log _ msgPtr msgLen => [(msgPtr, msgLen)]
  | .call targetIdPtr targetIdLen methodPtr methodLen payloadPtr payloadLen _ =>
    [(targetIdPtr, targetIdLen), (methodPtr, methodLen), (payloadPtr, payloadLen)]
  | .callResult msgIdPtr _ _ => [(msgIdPtr, 32)]
  | .cryptoHash _ inPtr inLen _ _ => [(inPtr, inLen)]
  | .secp256k1Verify msgPtr sigPtr pubkeyPtr => [(msgPtr, 32), (sigPtr, 65), (pubkeyPtr, 64)]
  | .secp256k1Recover msgPtr sigPtr _ => [(msgPtr, 32), (sigPtr, 65)]
  | .stateRoot _ | .nowMs | .randomBytes _ _ | .msgCyclesAvailable | .wasi _ _ => []

end Onvm
