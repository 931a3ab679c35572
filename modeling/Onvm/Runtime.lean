import Onvm.Engine
import Onvm.UnifiedStore

/-! Running a program (`execution_adapter.rs`, `runtime.rs`) and the receipt
that `submit_execution` makes of the outcome. -/

namespace Onvm

open ByteString OrderedStore WeightedQuorum Std

def validateWasm (wasm : Bytes) : Except String Unit :=
  if wasm.length < 8 then .error "WASM binary too short"
  else if wasm.take 4 ≠ [0, 97, 115, 109] then .error "invalid WASM magic number"
  else .ok ()

def loadWasmByObjectId (pf : Platform) (u : UnifiedStore) (id : ObjectId) : Except String Bytes :=
  match u.getObjectMetadata id with
  | none => .error "object not found"
  | some o =>
    match o.objectType with
    | .blob .. => .error "object is not a WASM program"
    | .wasmProgram .. =>
      if !u.isComplete id then .error "WASM program not fully available"
      else (u.getObject pf id).bind fun wasm => (validateWasm wasm).map fun _ => wasm

def getEntrypoint (u : UnifiedStore) (id : ObjectId) : Except String String :=
  match u.getObjectMetadata id with
  | none => .error "object not found"
  | some o =>
    match o.objectType with
    | .wasmProgram entrypoint .. => .ok entrypoint
    | .blob .. => .error "object is not a WASM program"

/-- `ExecutionEngine::execute`. The pending writes of the guest are sorted by key. -/
def execute (pf : Platform) (world : Nat) (maxFuel : UInt64) (u : UnifiedStore) (st : StateStore)
    (p : ProgramId) (input : Bytes) : Except String ExecutionOutcome :=
  ((loadWasmByObjectId pf u p.toObjectId).mapError fun _ => "load program " ++ p.toText).bind fun wasm =>
  (getEntrypoint u p.toObjectId).bind fun entrypoint =>
  (pf.runGuest world ⟨wasm, entrypoint, p, input, st.getAllScoped p, u, maxFuel⟩).map fun r =>
    let writes := r.pendingWrites.toList.map fun e => (⟨e.1, e.2⟩ : StateWrite)
    { programId := p
      returnData := r.returnData
      fuelConsumed := UInt64.ofNat (maxFuel.toNat - r.remainingFuel.toNat)
      stateWrites := writes
      stateRoot := rootOfMap pf (writeEntries (ExtTreeMap.ofList (st.getAllScoped p) compare) writes) }

theorem execute_stateRoot {pf : Platform} {world : Nat} {maxFuel : UInt64} {u : UnifiedStore}
    {st : StateStore} {p : ProgramId} {input : Bytes} {o : ExecutionOutcome}
    (h : execute pf world maxFuel u st p input = .ok o) :
    o.stateRoot = computeRootAfterWrites pf st p o.stateWrites := by
  obtain ⟨wasm, -, h⟩ := bind_eq_ok h
  obtain ⟨entrypoint, -, h⟩ := bind_eq_ok h
  obtain ⟨r, -, rfl⟩ := map_eq_ok h
  rfl

def wasmEnvHashV1 (pf : Platform) : WasmEnvHash := pf.hashBytes "wasm_env_v1".toUTF8.data.toList

/-- The receipt `submit_execution` builds from an outcome. -/
def buildReceipt (pf : Platform) (u : UnifiedStore) (executor : NodeId) (p : ProgramId) (input : Bytes)
    (height : UInt64) (stateRootIn : StateRoot) (o : ExecutionOutcome) : ExecutionReceipt :=
  let requestId := pf.hashBytes input
  { programId := p
    height := height
    stateRootIn := stateRootIn
    call :=
      { entrypoint :=
          match getEntrypoint u p.toObjectId with
          | .ok e => e
          | .error _ => "unknown"
        calldata := input
        requestId := requestId }
    inputsHash := pf.hashBytes input
    gasUsed := o.fuelConsumed
    stateRootOut := o.stateRoot
    writeDigest := stateWritesDigest pf o.stateWrites
    eventsHash := .ofByte 32 0
    wasmCodeHash := (u.getManifestByObject p.toObjectId).map (·.contentHash)
    wasmEnvHash := wasmEnvHashV1 pf
    nonce := UInt64.ofNat (requestId.bytes.getD 0 0).toNat
    executor := executor }

end Onvm
