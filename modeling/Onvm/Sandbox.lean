import Onvm.HostApis
import Onvm.Machine
import Onvm.MeteredPrograms

/-! `ExecutionEngine::execute` down to its host calls. A module that wasmtime has compiled is a
metered program; which of its imports let it see more than the consensus inputs is the question. -/

namespace Onvm

open ByteString Metered OrderedStore Std

abbrev GuestRequest (imports : Set Import) := { c : HostCall // c.function ∈ imports } × Memory

/-- What an exported function leaves when it returns. A pair of results is `returned`, a single one
its first component. -/
structure Halt (κ : Type) where
  control : κ
  memory : Memory
  returned : Int64 × Int64

inductive EntryPoint
  | multi
  | packed
  | sret

/-- A compiled module, as wasmtime runs it: where it goes on depends on nothing but its control
state, its memory and the last reply. -/
structure Guest where
  imports : Set Import
  exportsMemory : Bool
  Control : Type
  instantiate : Burst Control (GuestRequest imports) (Halt Control) String
  entry : String → Option EntryPoint
  invoke : Control → (entrypoint : String) → (args : List Int32) → Memory →
    Burst Control (GuestRequest imports) (Halt Control) String
  resume : Control → Int64 × Memory → Burst Control (GuestRequest imports) (Halt Control) String

section Run

variable (pf : Platform) (lib : HostLib) (g : Guest) (out : Outside lib)

def Guest.host (ctx : ExecutionContext) (request : GuestRequest g.imports) :
    Except String ((Int64 × Memory) × ExecutionContext) :=
  (hostCall pf lib out ctx request.2 g.exportsMemory request.1.1).map fun (v, mem, ctx') => ((v, mem), ctx')

def Guest.drive (fuel : Nat) (ctx : ExecutionContext)
    (b : Burst g.Control (GuestRequest g.imports) (Halt g.Control) String) :
    Except String (Halt g.Control × Nat × ExecutionContext) :=
  Metered.drive (g.host pf lib out) g.resume "all fuel consumed by WebAssembly" fuel ctx b

def outOfBounds {α : Type} (r : Option α) : Except String α :=
  match r with
  | none => .error "out of bounds memory access"
  | some a => .ok a

def callEntry (fuel : Nat) (ctx : ExecutionContext) (control : g.Control) (entrypoint : String)
    (inputLen : Int32) (mem : Memory) :
    EntryPoint → Except String (Int32 × Int32 × Memory × Nat × ExecutionContext)
  | .multi =>
    (g.drive pf lib out fuel ctx (g.invoke control entrypoint [0, inputLen] mem)).map fun (h, n, ctx') =>
      (h.returned.1.toInt32, h.returned.2.toInt32, h.memory, n, ctx')
  | .packed =>
    (g.drive pf lib out fuel ctx (g.invoke control entrypoint [0, inputLen] mem)).map fun (h, n, ctx') =>
      ((h.returned.1 >>> 32).toInt32, h.returned.1.toInt32, h.memory, n, ctx')
  | .sret =>
    let scratch := inputLen + 64
    (outOfBounds (mem.write (usize scratch) (List.replicate 8 0))).bind fun mem' =>
    (g.drive pf lib out fuel ctx (g.invoke control entrypoint [scratch, 0, inputLen] mem')).bind
      fun (h, n, ctx') =>
    (outOfBounds (h.memory.read (usize scratch) 8)).map fun buf =>
      let word (bs : Bytes) : Int32 := Int32.ofNat (((readLittleEndian 4 bs).map (·.1)).getD 0)
      (word (buf.take 4), word (buf.drop 4), h.memory, n, ctx')

/-- `execute` from the instantiation of the module to the output it leaves. -/
def runModule (call : GuestCall) : Except String GuestResult :=
  let ctx₀ : ExecutionContext := ⟨call.programId, ExtTreeMap.ofList call.entries compare, ∅, 0, 0, []⟩
  (g.drive pf lib out call.maxFuel.toNat ctx₀ g.instantiate).bind fun (h, fuel, ctx) =>
  if !g.exportsMemory then .error "program missing exported memory"
  else
    match g.entry call.entrypoint with
    | none => .error ("program must export " ++ call.entrypoint ++
        " as (i32,i32)->(i32,i32), (i32,i32)->i64, or (i32,i32,i32)->() with sret")
    | some entry =>
      (outOfBounds (h.memory.write 0 call.input)).bind fun mem =>
      (callEntry pf lib g out fuel ctx h.control call.entrypoint (Int32.ofNat call.input.length) mem
        entry).bind fun (outPtr, outLen, mem', fuel', ctx') =>
      if outLen < 0 then .error "capacity overflow"
      else (outOfBounds (mem'.read (usize outPtr) (usize outLen))).map fun buf =>
        ⟨buf, ctx'.pendingWrites, UInt64.ofNat fuel'⟩

def sandbox (compile : Bytes → Except String Guest) (worlds : Nat → World lib) : Platform :=
  { pf with
    runGuest := fun w call =>
      ((compile call.wasm).mapError fun _ =>
        "compile module for object " ++ call.programId.toObjectId.toText).bind fun g =>
      runModule pf lib g ⟨worlds w, call.store⟩ call }

end Run

def Import.observesHost : Import → Bool
  | .nowMs | .randomBytes | .blobExists | .blobLen | .blobHash | .blobRead => true
  | _ => false

def Lives (lib : HostLib) (env : lib.Env) (past : List WasiRequest) : Prop :=
  ∀ front r back, past = front ++ r :: back → ∀ message, lib.wasi env front r ≠ .exit message

/-- The functions in `F` do not observe the host, those of WASI in no sequence of requests that a
run can make. -/
structure Blind (lib : HostLib) (F : Set Import) : Prop where
  internal : ∀ f ∈ F, f.observesHost = false
  wasi : ∀ (env env' : lib.Env) (past : List WasiRequest) (r : WasiRequest),
    past.length + 1 < 2 ^ 64 → (∀ q ∈ past ++ [r], .wasi q.function ∈ F) → Lives lib env past →
    Lives lib env' past → lib.wasi env past r = lib.wasi env' past r

theorem UnifiedStore.collectChunks_congr {pf pf' : Platform} (h : pf'.hashBytes = pf.hashBytes)
    (u : UnifiedStore) (ds : List ChunkDescriptor) : u.collectChunks pf' ds = u.collectChunks pf ds := by
  induction ds with
  | nil => rfl
  | cons d ds ih => simp only [collectChunks, getChunk, Chunk.verify, h, ih]

theorem loadWasmByObjectId_congr {pf pf' : Platform} (h : pf'.hashBytes = pf.hashBytes) (u : UnifiedStore)
    (id : ObjectId) : loadWasmByObjectId pf' u id = loadWasmByObjectId pf u id := by
  simp only [loadWasmByObjectId, UnifiedStore.getObject, UnifiedStore.collectChunks_congr h, h]

/-- The program `p` has these bytes and this entry point in the store. -/
def Loads (pf : Platform) (u : UnifiedStore) (p : ProgramId) (wasm : Bytes) (entrypoint : String) : Prop :=
  loadWasmByObjectId pf u p.toObjectId = .ok wasm ∧ getEntrypoint u p.toObjectId = .ok entrypoint

section Sufficient

variable {pf : Platform} {lib : HostLib} {F : Set Import} {out out' : Outside lib} {ctx : ExecutionContext}

theorem Lives.append {env : lib.Env} {past : List WasiRequest} {r : WasiRequest} (h : Lives lib env past)
    (hr : ∀ message, lib.wasi env past r ≠ .exit message) : Lives lib env (past ++ [r]) := by
  intro front q back he
  rcases List.eq_nil_or_concat back with rfl | ⟨back, x, rfl⟩
  · obtain ⟨rfl, hq⟩ := List.append_inj' he rfl
    cases hq
    exact hr
  · have he' : past ++ [r] = (front ++ q :: back) ++ [x] := by simpa using he
    obtain ⟨rfl, -⟩ := List.append_inj' he' rfl
    exact h front q back rfl

theorem hostCall_of_not_wasi {mem : Memory} {exported : Bool} {c : HostCall}
    (hc : c.function.observesHost = false) (hw : ∀ function args, c ≠ .wasi function args) :
    hostCall pf lib out ctx mem exported c = hostCall pf lib out' ctx mem exported c := by
  cases c with
  | nowMs | randomBytes | blobExists | blobLen | blobHash | blobRead => cases hc
  | wasi function args => exact absurd rfl (hw function args)
  | _ => rfl

def Requestless {ε : Type} (ctx : ExecutionContext) (f : Except ε HostEffect) : Prop :=
  ∀ e, f = .ok e → e.2.2.wasiPast = ctx.wasiPast

theorem requestless_ok {ε : Type} {e : HostEffect} (he : e.2.2.wasiPast = ctx.wasiPast) :
    Requestless ctx (.ok e : Except ε HostEffect) := by
  intro e' h
  cases h
  exact he

theorem requestless_error {ε : Type} {e : ε} : Requestless ctx (.error e) := by
  intro e' h
  cases h

theorem requestless_bind {ε α : Type} {x : Except ε α} {f : α → Except ε HostEffect}
    (hf : ∀ a, Requestless ctx (f a)) : Requestless ctx (x >>= f) := by
  intro e h
  cases x with
  | error e' => cases h
  | ok a => exact hf a e h

theorem requestless_withMemory {mem : Memory} {exported : Bool} {f : Except Fault HostEffect}
    (hf : Requestless ctx f) : Requestless ctx (withMemory ctx mem exported f) := by
  unfold withMemory
  split
  · exact requestless_ok rfl
  split
  · exact requestless_ok (hf _ rfl)
  · exact requestless_ok rfl
  · exact requestless_error

theorem hostCall_requestless {mem : Memory} {exported : Bool} {c : HostCall}
    (hw : ∀ function args, c ≠ .wasi function args) :
    Requestless ctx (hostCall pf lib out ctx mem exported c) := by
  cases c with
  | wasi function args => exact absurd rfl (hw function args)
  | nowMs => exact requestless_ok rfl
  | msgCyclesAvailable => exact requestless_ok rfl
  | _ =>
    refine requestless_withMemory ?_
    simp only [onvmBlobAddr, onvmBlobExists, onvmBlobLen, onvmBlobHash, onvmBlobRead, onvmStateExists,
      onvmStateLen, onvmStateDel, onvmStateList, onvmStatePut, onvmStateGet, onvmStateRoot, onvmLog,
      onvmRandomBytes, onvmCall, onvmCallResult, onvmCryptoHash, onvmCryptoSecp256k1Verify,
      onvmCryptoSecp256k1Recover, copyOut]
    repeat' with_reducible first
      | exact requestless_ok rfl
      | exact requestless_error
      | refine requestless_bind fun _ => ?_
      | split

/-- The requests of a run so far: within the fuel, to functions in `F`, and answered in both worlds. -/
structure Unseen (lib : HostLib) (F : Set Import) (env env' : lib.Env) (fuel : Nat)
    (ctx : ExecutionContext) : Prop where
  fuel : ctx.wasiPast.length + fuel < 2 ^ 64
  imported : ∀ q ∈ ctx.wasiPast, .wasi q.function ∈ F
  lives : Lives lib env ctx.wasiPast
  lives' : Lives lib env' ctx.wasiPast

theorem Unseen.le {env env' : lib.Env} {n m : Nat} (h : Unseen lib F env env' m ctx) (hn : n ≤ m) :
    Unseen lib F env env' n ctx :=
  ⟨by have := h.fuel; omega, h.imported, h.lives, h.lives'⟩

theorem Unseen.hostCall (pf : Platform) (hF : Blind lib F) {n : Nat} (mem : Memory) (exported : Bool)
    {c : HostCall} (h : Unseen lib F out.world.env out'.world.env (n + 1) ctx) (hc : c.function ∈ F) :
    hostCall pf lib out ctx mem exported c = hostCall pf lib out' ctx mem exported c ∧
      ∀ v m ctx', hostCall pf lib out ctx mem exported c = .ok (v, m, ctx') →
        Unseen lib F out.world.env out'.world.env n ctx' := by
  by_cases hw : ∀ function args, c ≠ .wasi function args
  · refine ⟨hostCall_of_not_wasi (hF.internal _ hc) hw, fun v m ctx' he => ?_⟩
    have hpast := hostCall_requestless hw _ he
    dsimp only at hpast
    exact ⟨by have := h.fuel; rw [hpast]; omega, hpast ▸ h.imported, hpast ▸ h.lives, hpast ▸ h.lives'⟩
  · push Not at hw
    obtain ⟨function, args, rfl⟩ := hw
    let r : WasiRequest := ⟨function, args, mem⟩
    have himp : ∀ q ∈ ctx.wasiPast ++ [r], .wasi q.function ∈ F := by
      intro q hq
      rcases List.mem_append.mp hq with hq | hq
      · exact h.imported q hq
      · rw [List.mem_singleton.mp hq]
        exact hc
    have hsame : lib.wasi out.world.env ctx.wasiPast r = lib.wasi out'.world.env ctx.wasiPast r :=
      hF.wasi _ _ _ _ (by have := h.fuel; omega) himp h.lives h.lives'
    cases exported with
    | false => exact ⟨rfl, fun v m ctx' he => by cases he⟩
    | true =>
      simp only [Onvm.hostCall, hostCallVia, wasiCall, if_true]
      rw [← hsame]
      refine ⟨rfl, fun v m ctx' he => ?_⟩
      cases hr : lib.wasi out.world.env ctx.wasiPast r with
      | exit message => rw [hr] at he; cases he
      | answer value mem' =>
        rw [hr] at he
        cases he
        refine ⟨?_, himp, h.lives.append ?_, h.lives'.append ?_⟩
        · have hf := h.fuel
          simp only [List.length_append, List.length_singleton]
          omega
        · rw [hr]
          simp
        · rw [← hsame, hr]
          simp

end Sufficient

/-- Programs that import functions in `F` only have the same outcome in any two worlds, with any
two local stores, if bytes, entry point, calldata, state and fuel are the same. -/
def Deterministic (lib : HostLib) (F : Set Import) : Prop :=
  ∀ (pf : Platform) (compile : Bytes → Except String Guest) (worlds : Nat → World lib),
    (∀ wasm g, compile wasm = .ok g → g.imports ⊆ F) →
    ∀ (w w' : Nat) (maxFuel : UInt64) (u u' : UnifiedStore) (st st' : StateStore) (p : ProgramId)
      (input wasm : Bytes) (entrypoint : String), Loads pf u p wasm entrypoint →
      Loads pf u' p wasm entrypoint → st.entries p = st'.entries p →
      execute (sandbox pf lib compile worlds) w maxFuel u st p input =
        execute (sandbox pf lib compile worlds) w' maxFuel u' st' p input

theorem Blind.mono {lib : HostLib} {F G : Set Import} (h : Blind lib F) (hG : G ⊆ F) : Blind lib G :=
  ⟨fun f hf => h.internal f (hG hf),
    fun env env' past r hlen hq => h.wasi env env' past r hlen fun q hm => hG (hq q hm)⟩

section Necessary

variable {lib : HostLib} {F : Set Import}

/-- A module that makes some calls, each with a memory of its own, and returns one byte that depends
on the last reply. -/
def scriptGuest (F : Set Import) (first : GuestRequest F) (rest : List (GuestRequest F))
    (verdict : Int64 × Memory → UInt8) : Guest where
  imports := F
  exportsMemory := true
  Control := List (GuestRequest F)
  instantiate := ⟨0, .done ⟨rest, [], (0, 0)⟩⟩
  entry _ := some .multi
  invoke _ _ _ _ := ⟨0, .call first rest⟩
  resume := script fun r => ⟨[], verdict r :: r.2.drop 1, (0, 1)⟩

def blankContext (p : ProgramId) : ExecutionContext := ⟨p, ∅, ∅, 0, 0, []⟩

theorem runModule_scriptGuest {pf : Platform} {past : List (GuestRequest F)} {c first : GuestRequest F}
    {rest : List (GuestRequest F)} {verdict : Int64 × Memory → UInt8} {out : Outside lib} {call : GuestCall}
    {t : ExecutionContext} (hpast : past ++ [c] = first :: rest) (hentries : call.entries = [])
    (hinput : call.input = []) (hfuel : call.maxFuel.toNat = past.length + 1)
    (ht : serve ((scriptGuest F first rest verdict).host pf lib out) (blankContext call.programId) past =
      .ok t) :
    runModule pf lib (scriptGuest F first rest verdict) out call =
      ((scriptGuest F first rest verdict).host pf lib out t c).map fun r =>
        ⟨[verdict r.1], r.2.pendingWrites, 0⟩ := by
  have hdrive := drive_script ((scriptGuest F first rest verdict).host pf lib out)
    (fun r => (⟨[], verdict r :: r.2.drop 1, (0, 1)⟩ : Halt (List (GuestRequest F))))
    "all fuel consumed by WebAssembly" hpast ht 0
  rw [Nat.zero_add] at hdrive
  have hentry : callEntry pf lib (scriptGuest F first rest verdict) out (past.length + 1)
      (blankContext call.programId) rest call.entrypoint 0 [] .multi =
      ((scriptGuest F first rest verdict).host pf lib out t c).map fun r =>
        (0, 1, verdict r.1 :: r.1.2.drop 1, 0, r.2) := by
    refine (congrArg (Except.map _) hdrive).trans ?_
    cases (scriptGuest F first rest verdict).host pf lib out t c with
    | error e => rfl
    | ok r => rfl
  have hread : ∀ (b : UInt8) (mem : Memory),
      outOfBounds (Memory.read (b :: mem) (usize 0) (usize 1)) = .ok [b] := by
    intro b mem
    have hz : usize 0 = 0 := by decide
    have ho : usize 1 = 1 := by decide
    rw [hz, ho, Memory.read, if_pos (by simp)]
    rfl
  rw [runModule, hentries, hinput, hfuel]
  change (callEntry pf lib (scriptGuest F first rest verdict) out (past.length + 1)
    (blankContext call.programId) rest call.entrypoint 0 [] .multi).bind _ = _
  rw [hentry]
  cases (scriptGuest F first rest verdict).host pf lib out t c with
  | error e => rfl
  | ok r =>
    have hlen : ¬ (1 : Int32) < 0 := by decide
    simp only [Except.map, Except.bind, if_neg hlen, hread]
    rfl

def served (F : Set Import) (out : Outside lib) (ctx : ExecutionContext) (request : GuestRequest F) :
    Except String ((Int64 × Memory) × ExecutionContext) :=
  (hostCall sampleRuntime lib out ctx request.2 true request.1.1).map fun (v, mem, ctx') => ((v, mem), ctx')

theorem execute_sandbox {pf : Platform} {u : UnifiedStore} {p : ProgramId} {wasm : Bytes}
    {entrypoint : String} (g : Guest) (worlds : Nat → World lib) (w : Nat) (maxFuel : UInt64)
    (st : StateStore) (input : Bytes) (hu : Loads pf u p wasm entrypoint) :
    ∃ f : GuestResult → ExecutionOutcome, (∀ r, (f r).returnData = r.returnData) ∧
      execute (sandbox pf lib (fun _ => .ok g) worlds) w maxFuel u st p input =
        (runModule pf lib g ⟨worlds w, u⟩
          ⟨wasm, entrypoint, p, input, st.getAllScoped p, u, maxFuel⟩).map f := by
  have hash : (sandbox pf lib (fun _ => .ok g) worlds).hashBytes = pf.hashBytes := rfl
  rw [execute, loadWasmByObjectId_congr hash, hu.1, hu.2]
  exact ⟨_, fun _ => rfl, rfl⟩

theorem not_deterministic_of_served {out out' : Outside lib} {past : List (GuestRequest F)}
    {c : GuestRequest F} {t t' : ExecutionContext}
    (hu : Loads sampleRuntime out.store sampleProgram sampleWasm "main")
    (hu' : Loads sampleRuntime out'.store sampleProgram sampleWasm "main") (hlen : past.length + 1 < 2 ^ 64)
    (ht : serve (served F out) (blankContext sampleProgram) past = .ok t)
    (ht' : serve (served F out') (blankContext sampleProgram) past = .ok t')
    (hne : (served F out t c).map Prod.fst ≠ (served F out' t' c).map Prod.fst) :
    ¬ Deterministic lib F := by
  classical
  intro hdet
  obtain ⟨first, rest, hpast⟩ : ∃ first rest, past ++ [c] = first :: rest := by
    cases past with
    | nil => exact ⟨c, [], rfl⟩
    | cons x xs => exact ⟨x, xs ++ [c], rfl⟩
  let verdict : Int64 × Memory → UInt8 := fun r => if (served F out t c).map Prod.fst = .ok r then 1 else 0
  let g := scriptGuest F first rest verdict
  let worlds : Nat → World lib := fun w => if w = 0 then out.world else out'.world
  let maxFuel := UInt64.ofNat (past.length + 1)
  have hfuel : maxFuel.toNat = past.length + 1 := by simp [maxFuel]; omega
  have heq := hdet sampleRuntime (fun _ => .ok g) worlds (fun _ h hh => by cases hh; exact subset_rfl) 0 1
    maxFuel out.store out'.store .empty .empty sampleProgram [] sampleWasm "main" hu hu' rfl
  obtain ⟨f, hf, he⟩ := execute_sandbox g worlds 0 maxFuel .empty [] hu
  obtain ⟨f', hf', he'⟩ := execute_sandbox g worlds 1 maxFuel .empty [] hu'
  have hrun : ∀ (o : Outside lib) (u : UnifiedStore) (t : ExecutionContext),
      serve (served F o) (blankContext sampleProgram) past = .ok t →
      runModule sampleRuntime lib g o
        ⟨sampleWasm, "main", sampleProgram, [], StateStore.empty.getAllScoped sampleProgram, u, maxFuel⟩ =
        (served F o t c).map fun r => ⟨[verdict r.1], r.2.pendingWrites, 0⟩ :=
    fun o u t hs => runModule_scriptGuest hpast rfl rfl hfuel hs
  rw [he, he'] at heq
  have h0 := hrun ⟨worlds 0, out.store⟩ out.store t ht
  have h1 := hrun ⟨worlds 1, out'.store⟩ out'.store t' ht'
  rw [h0, h1] at heq
  change ((served F out t c).map _).map f = ((served F out' t' c).map _).map f' at heq
  cases hr : served F out t c with
  | error e =>
    cases hr' : served F out' t' c with
    | error e' =>
      rw [hr, hr'] at heq hne
      exact hne (congrArg Except.error (Except.error.inj heq))
    | ok r' => rw [hr, hr'] at heq; cases heq
  | ok r =>
    cases hr' : served F out' t' c with
    | error e' => rw [hr, hr'] at heq; cases heq
    | ok r' =>
      rw [hr, hr'] at heq hne
      have hret := congrArg ExecutionOutcome.returnData (Except.ok.inj heq)
      rw [hf, hf'] at hret
      have hv : verdict r.1 = verdict r'.1 := List.head_eq_of_cons_eq hret
      have h1 : verdict r.1 = 1 := if_pos (by rw [hr]; rfl)
      have h0 : verdict r'.1 = 0 := if_neg (by rw [hr]; exact hne)
      rw [h1, h0] at hv
      cases hv

def sampleBlobType : ObjectType := .blob none (.ofByte 32 0)

def sampleBlob : ObjectId := objectIdFor sampleRuntime (sampleHash [5]) sampleBlobType

def sampleStoreWithBlob : UnifiedStore :=
  sampleStore.handle sampleRuntime (.putObject [5] sampleBlobType (sampleNode 9) 0)

theorem loads_sampleStore : Loads sampleRuntime sampleStore sampleProgram sampleWasm "main" :=
  ⟨eq_ok_of_toOption (by decide +kernel), eq_ok_of_toOption (by decide +kernel)⟩

theorem loads_sampleStoreWithBlob :
    Loads sampleRuntime sampleStoreWithBlob sampleProgram sampleWasm "main" :=
  ⟨eq_ok_of_toOption (by decide +kernel), eq_ok_of_toOption (by decide +kernel)⟩

def blobMemory : Memory := sampleBlob.bytes.bytes

theorem readObjectId_blobMemory : readObjectId (readVec blobMemory) 0 32 = .ok sampleBlob :=
  eq_ok_of_toOption (by decide +kernel)

theorem getManifestByObject_sampleStore : sampleStore.getManifestByObject sampleBlob = none := by
  decide +kernel

theorem getManifestByObject_sampleStoreWithBlob :
    ∃ m, sampleStoreWithBlob.getManifestByObject sampleBlob = some m := by
  refine Option.isSome_iff_exists.mp ?_
  decide +kernel

def Discerns (lib : HostLib) (f : Import) : Prop :=
  ∃ (c : HostCall) (mem : Memory) (out out' : Outside lib), c.function = f ∧
    Loads sampleRuntime out.store sampleProgram sampleWasm "main" ∧
    Loads sampleRuntime out'.store sampleProgram sampleWasm "main" ∧
    ∃ e e', hostCall sampleRuntime lib out (blankContext sampleProgram) mem true c = .ok e ∧
      hostCall sampleRuntime lib out' (blankContext sampleProgram) mem true c = .ok e' ∧
      (e.1, e.2.1) ≠ (e'.1, e'.2.1)

theorem discerns_of_store {world : World lib} {c : HostCall} {v v' : Int64} {mem mem' : Memory}
    (he : hostCall sampleRuntime lib ⟨world, sampleStore⟩ (blankContext sampleProgram) blobMemory true c =
      .ok (v, mem, blankContext sampleProgram))
    (he' : hostCall sampleRuntime lib ⟨world, sampleStoreWithBlob⟩ (blankContext sampleProgram) blobMemory
      true c = .ok (v', mem', blankContext sampleProgram)) (hv : v ≠ v') : Discerns lib c.function :=
  ⟨c, blobMemory, ⟨world, sampleStore⟩, ⟨world, sampleStoreWithBlob⟩, rfl, loads_sampleStore,
    loads_sampleStoreWithBlob, _, _, he, he', fun hh => hv (congrArg Prod.fst hh)⟩

theorem discerns_of_observesHost (lib : HostLib) {f : Import} (hf : f.observesHost = true) :
    Discerns lib f := by
  obtain ⟨env⟩ := lib.env_nonempty
  let world (b : Nat) : World lib := ⟨fun _ => some b, fun _ _ => UInt8.ofNat b, env⟩
  obtain ⟨m, hm⟩ := getManifestByObject_sampleStoreWithBlob
  have hid := readObjectId_blobMemory
  have hno := getManifestByObject_sampleStore
  cases f with
  | nowMs =>
    exact ⟨.nowMs, [], ⟨world 0, sampleStore⟩, ⟨world 1, sampleStore⟩, rfl, loads_sampleStore,
      loads_sampleStore, _, _, rfl, rfl, by simp [onvmNowMs, world]⟩
  | randomBytes =>
    have hwrite : ∀ b : Nat, hostCall sampleRuntime lib ⟨world b, sampleStore⟩ (blankContext sampleProgram)
        [0] true (.randomBytes 0 1) =
        .ok (0, [UInt8.ofNat b], { blankContext sampleProgram with randomReads := 1 }) := fun b => rfl
    exact ⟨.randomBytes 0 1, [0], ⟨world 0, sampleStore⟩, ⟨world 1, sampleStore⟩, rfl, loads_sampleStore,
      loads_sampleStore, _, _, hwrite 0, hwrite 1, by simp⟩
  | blobExists =>
    refine @discerns_of_store lib (world 0) (.blobExists 0 32) 0 1 blobMemory blobMemory ?_ ?_ (by decide)
    · simp [hostCall, hostCallVia, withMemory, onvmBlobExists, hid, hno, bind, Except.bind]
    · simp [hostCall, hostCallVia, withMemory, onvmBlobExists, hid, hm, bind, Except.bind]
  | blobLen =>
    have hmeta : sampleStore.getObjectMetadata sampleBlob = none := by decide +kernel
    have hsize : (sampleStoreWithBlob.getObjectMetadata sampleBlob).map (·.totalSize) = some 1 := by
      decide +kernel
    obtain ⟨o, ho, hsz⟩ := Option.map_eq_some_iff.mp hsize
    refine @discerns_of_store lib (world 0) (.blobLen 0 32) (-1) 1 blobMemory blobMemory ?_ ?_ (by decide)
    · simp [hostCall, hostCallVia, withMemory, onvmBlobLen, hid, hno, hmeta, bind, Except.bind]
    · simp [hostCall, hostCallVia, withMemory, onvmBlobLen, hid, ho, hsz, bind, Except.bind]
  | blobHash =>
    obtain ⟨mem', hw⟩ : ∃ mem', writeBytes blobMemory 0 m.contentHash.bytes (-4) = .ok mem' := by
      have hlen : usize 0 + m.contentHash.bytes.length ≤ blobMemory.length := by
        rw [m.contentHash.length_bytes]
        decide
      exact ⟨_, by rw [writeBytes, Memory.write, if_pos hlen]⟩
    refine @discerns_of_store lib (world 0) (.blobHash 0 32 0) (-2) 0 blobMemory mem' ?_ ?_ (by decide)
    · simp [hostCall, hostCallVia, withMemory, onvmBlobHash, hid, hno, bind, Except.bind]
    · simp [hostCall, hostCallVia, withMemory, onvmBlobHash, hid, hm, hw, bind, Except.bind]
  | blobRead =>
    have hdata : sampleStoreWithBlob.getObject sampleRuntime sampleBlob = .ok [5] :=
      eq_ok_of_toOption (by decide +kernel)
    have hmiss : sampleStore.getObject sampleRuntime sampleBlob = .error "manifest not found for object" := by
      rw [UnifiedStore.getObject, hno]
    have hsmall : (sampleStore.getObjectBuffers sampleRuntime sampleBlob).any (2 ^ 63 ≤ ·) = false := by
      decide +kernel
    have hsmall' : (sampleStoreWithBlob.getObjectBuffers sampleRuntime sampleBlob).any (2 ^ 63 ≤ ·) = false := by
      decide +kernel
    obtain ⟨mem', hw⟩ : ∃ mem', copyOut (blankContext sampleProgram) blobMemory [5] 0 32 (-7) (-8) =
        .ok (1, mem', blankContext sampleProgram) := ⟨_, rfl⟩
    refine @discerns_of_store lib (world 0) (.blobRead 0 32 0 32) (-6) 1 blobMemory mem' ?_ ?_ (by decide)
    · simp only [hostCall, hostCallVia, withMemory, onvmBlobRead, hid, hsmall, hmiss, bind, Except.bind]
      rfl
    · simp only [hostCall, hostCallVia, withMemory, onvmBlobRead, hid, hsmall', hdata, hw, bind, Except.bind]
      rfl
  | _ => cases hf

theorem Deterministic.internal (hdet : Deterministic lib F) (f : Import) (hf : f ∈ F) :
    f.observesHost = false := by
  by_contra ho
  obtain ⟨c, mem, out, out', rfl, hu, hu', e, e', he, he', hne⟩ :=
    discerns_of_observesHost lib (Bool.eq_true_of_not_eq_false ho)
  refine @not_deterministic_of_served lib F out out' [] (⟨c, hf⟩, mem) _ _ hu hu' (by simp) rfl rfl ?_ hdet
  simp only [served, he, he']
  exact fun hh => hne (Except.ok.inj hh)

def wasiRequests (past : List WasiRequest) (h : ∀ q ∈ past, .wasi q.function ∈ F) : List (GuestRequest F) :=
  past.pmap (fun q hq => (⟨.wasi q.function q.args, hq⟩, q.memory)) h

theorem served_wasi {out : Outside lib} {ctx : ExecutionContext} {q : WasiRequest}
    (hq : .wasi q.function ∈ F) :
    served F out ctx (⟨.wasi q.function q.args, hq⟩, q.memory) =
      match lib.wasi out.world.env ctx.wasiPast q with
      | .exit message => .error message
      | .answer v mem => .ok ((v, mem), { ctx with wasiPast := ctx.wasiPast ++ [q] }) := by
  simp only [served, hostCall, hostCallVia, if_true, wasiCall]
  cases lib.wasi out.world.env ctx.wasiPast q with
  | exit message => rfl
  | answer v mem => rfl

theorem serve_wasiRequests {out : Outside lib} {past : List WasiRequest}
    (h : ∀ q ∈ past, .wasi q.function ∈ F) {ctx : ExecutionContext}
    (hl : Lives lib out.world.env (ctx.wasiPast ++ past)) :
    serve (served F out) ctx (wasiRequests past h) =
      .ok { ctx with wasiPast := ctx.wasiPast ++ past } := by
  induction past generalizing ctx with
  | nil => simp [wasiRequests, serve]
  | cons q past ih =>
    have hq := hl ctx.wasiPast q past rfl
    rw [wasiRequests, List.pmap_cons, serve, served_wasi]
    cases hr : lib.wasi out.world.env ctx.wasiPast q with
    | exit message => exact absurd hr (hq message)
    | answer v mem =>
      have hrest := @ih (fun q' hq' => h q' (List.mem_cons_of_mem q hq'))
        { ctx with wasiPast := ctx.wasiPast ++ [q] } (by simpa using hl)
      simpa [wasiRequests] using hrest

theorem Deterministic.wasi (hdet : Deterministic lib F) (env env' : lib.Env) (past : List WasiRequest)
    (r : WasiRequest) (hlen : past.length + 1 < 2 ^ 64) (h : ∀ q ∈ past ++ [r], .wasi q.function ∈ F)
    (hl : Lives lib env past) (hl' : Lives lib env' past) : lib.wasi env past r = lib.wasi env' past r := by
  by_contra hne
  have hpast : ∀ q ∈ past, .wasi q.function ∈ F := fun q hq => h q (List.mem_append_left _ hq)
  have hr : .wasi r.function ∈ F := h r (by simp)
  let out (e : lib.Env) : Outside lib := ⟨⟨fun _ => none, fun _ _ => 0, e⟩, sampleStore⟩
  have hserve : ∀ (p : ProgramId) (e : lib.Env), Lives lib e past → serve (served F (out e)) (blankContext p)
      (wasiRequests past hpast) = .ok { blankContext p with wasiPast := past } :=
    fun p e he => @serve_wasiRequests lib F (out e) past hpast (blankContext p) he
  refine @not_deterministic_of_served lib F (out env) (out env') (wasiRequests past hpast)
    (⟨.wasi r.function r.args, hr⟩, r.memory) _ _ loads_sampleStore loads_sampleStore
    (by simpa [wasiRequests] using hlen) (hserve _ env hl) (hserve _ env' hl') ?_ hdet
  rw [served_wasi, served_wasi]
  intro hh
  apply hne
  dsimp only [out] at hh
  cases h1 : lib.wasi env past r with
  | exit message =>
    rw [h1] at hh
    cases h2 : lib.wasi env' past r with
    | exit message' => rw [h2] at hh; exact congrArg _ (Except.error.inj hh)
    | answer v mem => rw [h2] at hh; cases hh
  | answer v mem =>
    rw [h1] at hh
    cases h2 : lib.wasi env' past r with
    | exit message' => rw [h2] at hh; cases hh
    | answer v' mem' =>
      rw [h2] at hh
      obtain ⟨rfl, rfl⟩ := Prod.mk.inj (Except.ok.inj hh)
      rfl

end Necessary

section Sample

def sampleLib : HostLib where
  sha256 := sampleHash
  keccak256 := sampleHash
  messageOk _ := true
  signatureOk _ := false
  publicKeyOk _ := false
  verifyEcdsa _ _ _ := false
  recoverableOk _ _ := false
  recoverEcdsa _ _ _ := none
  Env := Unit
  env_nonempty := ⟨()⟩
  wasi _ _ _ := .exit "exit"

def sampleWorld (now : Nat) : World sampleLib := ⟨fun _ => some now, fun _ _ => 0, ()⟩

end Sample

end Onvm
