import Onvm.Overlays
import Onvm.Sandbox

/-! The state functions of `host_apis.rs` against a plain map. A guest sees the stored entries
through its pending writes; every call in bounds answers as the map does that it sees, and what
`execute` commits is that map. -/

namespace Onvm

open ByteString Metered OrderedStore Std

section Plain

/-- What is said to a plain map. -/
inductive MapOp
  | put (key value : Bytes)
  | del (key : Bytes)
  | get (key : Bytes)
  | has (key : Bytes)
  | len (key : Bytes)
  | list (front : Bytes)
  | root

def encodeKeys (keys : List Bytes) : Bytes := keys.flatMap fun k => littleEndian 4 k.length ++ k

namespace MapOp

variable (m : ByteTree Bytes)

def written (pf : Platform) : MapOp → Bytes
  | .get key => (m[key]?).getD []
  | .list front => encodeKeys (m.keys.filter front.isPrefixOf)
  | .root => (rootOfMap pf m).bytes
  | _ => []

def value (pf : Platform) : MapOp → Int64
  | .get key => Int64.ofNat ((MapOp.get key).written m pf).length
  | .list front => Int64.ofNat ((MapOp.list front).written m pf).length
  | .has key => if m.contains key then 1 else 0
  | .len key =>
    match m[key]? with
    | some v => Int64.ofNat v.length
    | none => -1
  | _ => 0

def after : MapOp → ByteTree Bytes
  | .put key value => m.insert key value
  | .del key => m.erase key
  | _ => m

end MapOp

def Memory.slice (mem : Memory) (ptr len : Int32) : Bytes := (mem.drop (usize ptr)).take (usize len)

/-- The memory with `data` from `ptr` on. -/
def Memory.blit (mem : Memory) (ptr : Nat) (data : Bytes) : Memory :=
  mem.take ptr ++ data ++ mem.drop (ptr + data.length)

def InMemory (mem : Memory) (r : Int32 × Int32) : Prop :=
  0 ≤ r.1 ∧ 0 ≤ r.2 ∧ usize r.1 + usize r.2 ≤ mem.length

def HasRoom (mem : Memory) (written : Bytes) (o : Int32 × Int) : Prop :=
  0 ≤ o.1 ∧ (written.length : Int) ≤ o.2 ∧ usize o.1 + written.length ≤ mem.length

instance (mem : Memory) : DecidablePred (InMemory mem) := fun _ => inferInstanceAs (Decidable (_ ∧ _))

instance (mem : Memory) (written : Bytes) : DecidablePred (HasRoom mem written) :=
  fun _ => inferInstanceAs (Decidable (_ ∧ _))

namespace HostCall

def mapOp (mem : Memory) : HostCall → Option MapOp
  | .stateExists keyPtr keyLen => some (.has (mem.slice keyPtr keyLen))
  | .stateLen keyPtr keyLen => some (.len (mem.slice keyPtr keyLen))
  | .stateDel keyPtr keyLen => some (.del (mem.slice keyPtr keyLen))
  | .stateList frontPtr frontLen _ _ => some (.list (mem.slice frontPtr frontLen))
  | .statePut keyPtr keyLen valPtr valLen =>
    some (.put (mem.slice keyPtr keyLen) (mem.slice valPtr valLen))
  | .stateGet keyPtr keyLen _ _ => some (.get (mem.slice keyPtr keyLen))
  | .stateRoot _ => some .root
  | _ => none

def output : HostCall → Option (Int32 × Int)
  | .stateList _ _ outPtr outCap => some (outPtr, outCap.toInt)
  | .stateGet _ _ outPtr outCap => some (outPtr, outCap.toInt)
  | .stateRoot outPtr => some (outPtr, 32)
  | _ => none

def InBounds (mem : Memory) (written : Bytes) (c : HostCall) : Prop :=
  (∀ r ∈ c.reads, InMemory mem r) ∧ ∀ o ∈ c.output, HasRoom mem written o

instance (mem : Memory) (written : Bytes) (c : HostCall) : Decidable (c.InBounds mem written) :=
  @instDecidableAnd _ _ (List.decidableBAll _ _) inferInstance

def outAt (c : HostCall) : Nat := (c.output.map fun o => usize o.1).getD 0

end HostCall

def mapHost (pf : Platform) (m : ByteTree Bytes) (request : HostCall × Memory) :
    Except String ((Int64 × Memory) × ByteTree Bytes) :=
  match request.1.mapOp request.2 with
  | none => .error "not a state call"
  | some op =>
    if request.1.InBounds request.2 (op.written m pf) then
      .ok ((op.value m pf, request.2.blit request.1.outAt (op.written m pf)), op.after m)
    else .error "out of bounds"

end Plain

section Memory

variable {mem : Memory}

theorem usize_of_nonneg {x : Int32} (h : 0 ≤ x) : (usize x : Int) = x.toInt := by
  have hnonneg : 0 ≤ x.toInt := Int32.le_iff_toInt_le.mp h
  have hlt := x.toInt_lt
  unfold usize
  omega

theorem toInt64_ofNat {n : Nat} (h : n < 2 ^ 31) : (Int32.ofNat n).toInt64 = Int64.ofNat n := by
  apply Int64.toInt_inj.mp
  rw [Int32.toInt_toInt64, Int32.toInt_ofNat_of_lt h, Int64.toInt_ofNat_of_lt (by omega)]

theorem readVec_eq {ptr len : Int32} {code : Int64} (h : InMemory mem (ptr, len)) :
    readVec mem ptr len code = .ok (mem.slice ptr len) := by
  have hneg : ¬ len < 0 := Int32.not_lt.mpr h.2.1
  rw [readVec, if_neg hneg, Memory.read, if_pos h.2.2]
  rfl

theorem write_eq {ptr : Nat} {data : Bytes} (h : ptr + data.length ≤ mem.length) :
    mem.write ptr data = some (mem.blit ptr data) := by
  rw [Memory.write, if_pos h]
  rfl

theorem writeBytes_eq {ptr : Int32} {data : Bytes} {code : Int64}
    (h : usize ptr + data.length ≤ mem.length) :
    writeBytes mem ptr data code = .ok (mem.blit (usize ptr) data) := by
  rw [writeBytes, write_eq h]

@[simp] theorem blit_nil (ptr : Nat) : mem.blit ptr [] = mem := by
  simp [Memory.blit]

theorem length_blit {ptr : Nat} {data : Bytes} (h : ptr + data.length ≤ mem.length) :
    (mem.blit ptr data).length = mem.length := by
  simp only [Memory.blit, List.length_append, List.length_take, List.length_drop]
  omega

theorem blit_blit {ptr : Nat} {data data' : Bytes} (h : ptr + data.length ≤ mem.length) :
    (mem.blit ptr data).blit (ptr + data.length) data' = mem.blit ptr (data ++ data') := by
  have hlen : (mem.take ptr ++ data).length = ptr + data.length := by
    rw [List.length_append, List.length_take]
    omega
  have htake : (mem.blit ptr data).take (ptr + data.length) = mem.take ptr ++ data := by
    rw [Memory.blit, ← hlen, List.take_left]
  have hdrop : (mem.blit ptr data).drop (ptr + data.length + data'.length) =
      mem.drop (ptr + (data ++ data').length) := by
    rw [← List.drop_drop, Memory.blit, ← hlen, List.drop_left, hlen, List.drop_drop, List.length_append,
      Nat.add_assoc]
  rw [Memory.blit, htake, hdrop, Memory.blit]
  simp only [List.append_assoc]

theorem length_encodeKeys (keys : List Bytes) :
    (encodeKeys keys).length = (keys.map fun k => 4 + k.length).sum := by
  induction keys with
  | nil => rfl
  | cons k keys ih =>
    rw [encodeKeys, List.flatMap_cons, List.length_append, List.length_append, length_littleEndian,
      List.map_cons, List.sum_cons, ← ih, encodeKeys]

theorem writeKeys_eq {cursor : Nat} {keys : List Bytes}
    (h : cursor + (encodeKeys keys).length ≤ mem.length) (hsmall : (encodeKeys keys).length < 2 ^ 31) :
    writeKeys mem cursor keys = (mem.blit cursor (encodeKeys keys), none) := by
  induction keys generalizing mem cursor with
  | nil => rw [writeKeys, encodeKeys, List.flatMap_nil, blit_nil]
  | cons k keys ih =>
    have hcons : encodeKeys (k :: keys) = littleEndian 4 k.length ++ (k ++ encodeKeys keys) := by
      rw [encodeKeys, List.flatMap_cons, List.append_assoc]
      rfl
    have hfour : (littleEndian 4 k.length).length = 4 := length_littleEndian 4 _
    rw [hcons, List.length_append, List.length_append, hfour] at h hsmall
    have hmod : k.length % 2 ^ 32 = k.length := Nat.mod_eq_of_lt (by omega)
    have hlength : mem.write cursor (littleEndian 4 k.length) =
        some (mem.blit cursor (littleEndian 4 k.length)) := write_eq (by omega)
    have hsame : (mem.blit cursor (littleEndian 4 k.length)).length = mem.length := length_blit (by omega)
    have hjoin : (mem.blit cursor (littleEndian 4 k.length)).blit (cursor + (littleEndian 4 k.length).length) k =
        mem.blit cursor (littleEndian 4 k.length ++ k) := blit_blit (by omega)
    have hkey : (mem.blit cursor (littleEndian 4 k.length)).write (cursor + 4) k =
        some (mem.blit cursor (littleEndian 4 k.length ++ k)) := by
      rw [write_eq (by omega), ← hjoin, hfour]
    have hfront : (littleEndian 4 k.length ++ k).length = 4 + k.length := by
      rw [List.length_append, hfour]
    have hsame' : (mem.blit cursor (littleEndian 4 k.length ++ k)).length = mem.length :=
      length_blit (by omega)
    have hrest : (mem.blit cursor (littleEndian 4 k.length ++ k)).blit
        (cursor + (littleEndian 4 k.length ++ k).length) (encodeKeys keys) =
        mem.blit cursor ((littleEndian 4 k.length ++ k) ++ encodeKeys keys) := blit_blit (by omega)
    rw [hfront, ← Nat.add_assoc] at hrest
    simp only [writeKeys, hmod, hlength, hkey]
    rw [ih (by omega) (by omega), hrest, hcons, List.append_assoc]

end Memory

def ExecutionContext.current (ctx : ExecutionContext) : ByteTree Bytes :=
  overlay ctx.entries ctx.pendingWrites

def ExecutionContext.change (ctx : ExecutionContext) (key : Bytes) (value : Option Bytes) :
    ExecutionContext :=
  { ctx with pendingWrites := ctx.pendingWrites.insert key value }

theorem getElem?_current {ctx : ExecutionContext} (k : Bytes) :
    ctx.current[k]? = (ctx.pendingWrites[k]?).getD ctx.entries[k]? :=
  getElem?_overlay _ _ _

theorem current_change {ctx : ExecutionContext} (key : Bytes) (value : Option Bytes) :
    (ctx.change key value).current = patch ctx.current key value :=
  overlay_insert _ _ _ _

theorem writeEntries_pending (m : ByteTree Bytes) (d : ByteTree (Option Bytes)) :
    writeEntries m (d.toList.map fun e => (⟨e.1, e.2⟩ : StateWrite)) = overlay m d := by
  rw [writeEntries, List.foldl_map]
  simp only [writeEntry_eq_patch]
  rfl

section Listing

variable {ctx : ExecutionContext} {front k : Bytes}

theorem mem_listedKeys :
    k ∈ listedKeys ctx front ↔ front.isPrefixOf k = true ∧ ctx.current[k]?.isSome = true := by
  have hpending : k ∈ (ctx.pendingWrites.toList.filter fun e =>
      e.2.isSome && front.isPrefixOf e.1).map (·.1) ↔
      ∃ v, ctx.pendingWrites[k]? = some (some v) ∧ front.isPrefixOf k = true := by
    simp [Option.isSome_iff_exists, ExtTreeMap.mem_toList_iff_getElem?_eq_some]
  have hstored : k ∈ (ctx.entries.toList.filter fun e =>
      front.isPrefixOf e.1 && ctx.pendingWrites[e.1]? != some none).map (·.1) ↔
      ∃ v, ctx.entries[k]? = some v ∧ front.isPrefixOf k = true ∧ ctx.pendingWrites[k]? ≠ some none := by
    simp [ExtTreeMap.mem_toList_iff_getElem?_eq_some]
  have hfst : ∀ l : List Bytes, (l.map fun k => (k, ())).map Prod.fst = l := by
    intro l
    rw [List.map_map]
    exact List.map_id _
  rw [listedKeys, ExtTreeMap.mem_keys, ExtTreeMap.mem_ofList, hfst, List.contains_iff_mem, List.mem_append,
    hpending, hstored, getElem?_current]
  cases hp : ctx.pendingWrites[k]? with
  | none =>
    cases ctx.entries[k]? with
    | none => simp
    | some v => simp
  | some change =>
    cases change with
    | none => simp
    | some v => simp

theorem listedKeys_eq : listedKeys ctx front = ctx.current.keys.filter front.isPrefixOf := by
  have hlisted : (listedKeys ctx front).Pairwise fun a b => compare a b = .lt := ExtTreeMap.ordered_keys
  have hkeys : ctx.current.keys.Pairwise fun a b => compare a b = .lt := ExtTreeMap.ordered_keys
  refine ascending_ext id hlisted (hkeys.filter _) fun k => ?_
  rw [mem_listedKeys, List.mem_filter, ExtTreeMap.mem_keys, ExtTreeMap.mem_iff_isSome_getElem?]
  exact and_comm

end Listing

section Host

variable (pf : Platform) (lib : HostLib) (out : Outside lib)

def stateHost (ctx : ExecutionContext) (request : HostCall × Memory) :
    Except String ((Int64 × Memory) × ExecutionContext) :=
  (hostCall pf lib out ctx request.2 true request.1).map fun (v, mem, ctx') => ((v, mem), ctx')

variable {pf lib out} {ctx : ExecutionContext} {mem : Memory}

theorem onvmStateExists_eq {keyPtr keyLen : Int32} (h : InMemory mem (keyPtr, keyLen)) :
    onvmStateExists ctx mem (readVec mem) keyPtr keyLen =
      .ok ((MapOp.has (mem.slice keyPtr keyLen)).value ctx.current pf, mem, ctx) := by
  have hhas : ctx.current.contains (mem.slice keyPtr keyLen) =
      ((ctx.pendingWrites[mem.slice keyPtr keyLen]?).getD ctx.entries[mem.slice keyPtr keyLen]?).isSome := by
    rw [← getElem?_current, ExtTreeMap.isSome_getElem?_eq_contains]
  rw [onvmStateExists, readVec_eq h]
  dsimp only [bind, Except.bind, MapOp.value]
  rw [hhas]
  cases ctx.pendingWrites[mem.slice keyPtr keyLen]? with
  | none => rfl
  | some entry => rfl

theorem onvmStateLen_eq {keyPtr keyLen : Int32} (h : InMemory mem (keyPtr, keyLen)) :
    onvmStateLen ctx mem (readVec mem) keyPtr keyLen =
      .ok ((MapOp.len (mem.slice keyPtr keyLen)).value ctx.current pf, mem, ctx) := by
  rw [onvmStateLen, readVec_eq h]
  dsimp only [bind, Except.bind, MapOp.value]
  rw [getElem?_current]
  cases ctx.pendingWrites[mem.slice keyPtr keyLen]? with
  | none =>
    cases ctx.entries[mem.slice keyPtr keyLen]? with
    | none => rfl
    | some v => rfl
  | some entry =>
    cases entry with
    | none => rfl
    | some v => rfl

theorem onvmStateDel_eq {keyPtr keyLen : Int32} (h : InMemory mem (keyPtr, keyLen)) :
    onvmStateDel ctx mem (readVec mem) keyPtr keyLen = .ok (0, mem, ctx.change (mem.slice keyPtr keyLen) none) := by
  rw [onvmStateDel, readVec_eq h]
  rfl

theorem onvmStatePut_eq {keyPtr keyLen valPtr valLen : Int32} (h : InMemory mem (keyPtr, keyLen))
    (hval : InMemory mem (valPtr, valLen)) :
    onvmStatePut ctx mem (readVec mem) keyPtr keyLen valPtr valLen =
      .ok (0, mem, ctx.change (mem.slice keyPtr keyLen) (some (mem.slice valPtr valLen))) := by
  rw [onvmStatePut, readVec_eq h, readVec_eq hval]
  rfl

theorem onvmStateGet_eq {keyPtr keyLen outPtr outCap : Int32} (h : InMemory mem (keyPtr, keyLen))
    (hout : HasRoom mem ((MapOp.get (mem.slice keyPtr keyLen)).written ctx.current pf) (outPtr, outCap.toInt)) :
    onvmStateGet ctx mem (readVec mem) keyPtr keyLen outPtr outCap =
      .ok ((MapOp.get (mem.slice keyPtr keyLen)).value ctx.current pf,
        mem.blit (usize outPtr) ((MapOp.get (mem.slice keyPtr keyLen)).written ctx.current pf), ctx) := by
  obtain ⟨-, hcap, hroom⟩ := hout
  rw [onvmStateGet, readVec_eq h]
  dsimp only [bind, Except.bind, MapOp.value, MapOp.written] at hcap hroom ⊢
  rw [← getElem?_current]
  cases hv : ctx.current[mem.slice keyPtr keyLen]? with
  | none =>
    dsimp only [Option.getD]
    rw [blit_nil]
    rfl
  | some v =>
    simp only [hv, Option.getD_some] at hcap hroom ⊢
    have hsmall : v.length < 2 ^ 31 := by
      have hlt := outCap.toInt_lt
      omega
    have hfits : ¬ outCap < Int32.ofNat v.length := by
      rw [Int32.lt_iff_toInt_lt, Int32.toInt_ofNat_of_lt hsmall]
      omega
    rw [copyOut, if_neg hfits, writeBytes_eq hroom, toInt64_ofNat hsmall]
    rfl

theorem onvmStateList_eq {frontPtr frontLen outPtr outCap : Int32} (h : InMemory mem (frontPtr, frontLen))
    (hout : HasRoom mem ((MapOp.list (mem.slice frontPtr frontLen)).written ctx.current pf)
      (outPtr, outCap.toInt)) :
    onvmStateList ctx mem (readVec mem) frontPtr frontLen outPtr outCap =
      .ok ((MapOp.list (mem.slice frontPtr frontLen)).value ctx.current pf,
        mem.blit (usize outPtr) ((MapOp.list (mem.slice frontPtr frontLen)).written ctx.current pf), ctx) := by
  obtain ⟨-, hcap, hroom⟩ := hout
  dsimp only [MapOp.value, MapOp.written] at hcap hroom ⊢
  have hsmall : (encodeKeys (ctx.current.keys.filter (mem.slice frontPtr frontLen).isPrefixOf)).length <
      2 ^ 31 := by
    have hlt := outCap.toInt_lt
    omega
  have hnonneg : (0 : Int32) ≤ outCap := by
    rw [Int32.le_iff_toInt_le, Int32.toInt_zero]
    omega
  have hfits : ¬ usize outCap <
      (encodeKeys (ctx.current.keys.filter (mem.slice frontPtr frontLen).isPrefixOf)).length := by
    have hcapNat := usize_of_nonneg hnonneg
    omega
  rw [onvmStateList, readVec_eq h]
  dsimp only [bind, Except.bind]
  rw [listedKeys_eq, ← length_encodeKeys, if_neg hfits, writeKeys_eq hroom hsmall]
  dsimp only [Option.getD]
  rw [toInt64_ofNat hsmall]

theorem onvmStateRoot_eq {outPtr : Int32}
    (hout : HasRoom mem (MapOp.root.written ctx.current pf) (outPtr, 32)) :
    onvmStateRoot pf ctx mem outPtr =
      .ok (0, mem.blit (usize outPtr) (MapOp.root.written ctx.current pf), ctx) := by
  rw [onvmStateRoot, writeEntries_pending]
  dsimp only [bind, Except.bind]
  rw [← ExecutionContext.current]
  exact congrArg (Except.bind · fun mem' => Except.ok (0, mem', ctx)) (writeBytes_eq hout.2.2)

theorem mapHost_eq_ok {m m' : ByteTree Bytes} {c : HostCall} {r : Int64 × Memory}
    (h : mapHost pf m (c, mem) = .ok (r, m')) :
    ∃ op, c.mapOp mem = some op ∧ c.InBounds mem (op.written m pf) ∧
      r = (op.value m pf, mem.blit c.outAt (op.written m pf)) ∧ m' = op.after m := by
  unfold mapHost at h
  cases hop : c.mapOp mem with
  | none => simp only [hop] at h; cases h
  | some op =>
    simp only [hop] at h
    by_cases hb : c.InBounds mem (op.written m pf)
    · rw [if_pos hb] at h
      cases h
      exact ⟨op, rfl, hb, rfl, rfl⟩
    · rw [if_neg hb] at h
      cases h

theorem stateHost_of_ok {c : HostCall} {f : Except Fault HostEffect} {v : Int64} {mem' : Memory}
    {ctx' : ExecutionContext} (hc : hostCall pf lib out ctx mem true c = withMemory ctx mem true f)
    (hf : f = .ok (v, mem', ctx')) : stateHost pf lib out ctx (c, mem) = .ok ((v, mem'), ctx') := by
  rw [stateHost, hc, hf]
  rfl

theorem stateHost_of_silent {c : HostCall} {f : Except Fault HostEffect} {v : Int64} {n : Nat}
    {ctx' : ExecutionContext} (hc : hostCall pf lib out ctx mem true c = withMemory ctx mem true f)
    (hf : f = .ok (v, mem, ctx')) : stateHost pf lib out ctx (c, mem) = .ok ((v, mem.blit n []), ctx') := by
  rw [blit_nil]
  exact stateHost_of_ok hc hf

theorem stateHost_simulates (pf : Platform) (lib : HostLib) (out : Outside lib) (m₀ : ByteTree Bytes) :
    Simulates (stateHost pf lib out) (mapHost pf) fun ctx m => ctx.entries = m₀ ∧ ctx.current = m := by
  rintro ctx m ⟨c, mem⟩ r m' ⟨hentries, rfl⟩ h
  obtain ⟨op, hop, ⟨hreads, hout⟩, rfl, rfl⟩ := mapHost_eq_ok h
  cases c with
  | stateExists keyPtr keyLen =>
    cases hop
    exact ⟨ctx, stateHost_of_silent rfl (onvmStateExists_eq (hreads _ (.head _))), hentries, rfl⟩
  | stateLen keyPtr keyLen =>
    cases hop
    exact ⟨ctx, stateHost_of_silent rfl (onvmStateLen_eq (hreads _ (.head _))), hentries, rfl⟩
  | stateDel keyPtr keyLen =>
    cases hop
    exact ⟨_, stateHost_of_silent rfl (onvmStateDel_eq (hreads _ (.head _))), hentries, current_change _ _⟩
  | statePut keyPtr keyLen valPtr valLen =>
    cases hop
    have hkey : InMemory mem (keyPtr, keyLen) := hreads _ (.head _)
    have hval : InMemory mem (valPtr, valLen) := hreads _ (.tail _ (.head _))
    exact ⟨_, stateHost_of_silent rfl (onvmStatePut_eq hkey hval), hentries, current_change _ _⟩
  | stateGet keyPtr keyLen outPtr outCap =>
    cases hop
    exact ⟨ctx, stateHost_of_ok rfl (onvmStateGet_eq (hreads _ (.head _)) (hout _ rfl)), hentries, rfl⟩
  | stateList frontPtr frontLen outPtr outCap =>
    cases hop
    exact ⟨ctx, stateHost_of_ok rfl (onvmStateList_eq (hreads _ (.head _)) (hout _ rfl)), hentries, rfl⟩
  | stateRoot outPtr =>
    cases hop
    exact ⟨ctx, stateHost_of_ok rfl (onvmStateRoot_eq (hout _ rfl)), hentries, rfl⟩
  | _ => cases hop

end Host

section Calls

variable (pf : Platform) (lib : HostLib) (g : Guest) (out : Outside lib)

def startContext (p : ProgramId) (entries : ByteTree Bytes) : ExecutionContext := ⟨p, entries, ∅, 0, 0, []⟩

def Guest.calls (fuel : Nat) (ctx : ExecutionContext)
    (b : Burst g.Control (GuestRequest g.imports) (Halt g.Control) String) : List (GuestRequest g.imports) :=
  Metered.calls (g.host pf lib out) g.resume fuel ctx b

def invocation (inputLen : Int32) (mem : Memory) : EntryPoint → Option (List Int32 × Memory)
  | .multi => some ([0, inputLen], mem)
  | .packed => some ([0, inputLen], mem)
  | .sret =>
    (mem.write (usize (inputLen + 64)) (List.replicate 8 0)).map fun mem' =>
      ([inputLen + 64, 0, inputLen], mem')

def entryCalls (fuel : Nat) (ctx : ExecutionContext) (control : g.Control) (entrypoint : String)
    (inputLen : Int32) (mem : Memory) (entry : EntryPoint) : List (GuestRequest g.imports) :=
  match invocation inputLen mem entry with
  | none => []
  | some (args, mem') => g.calls pf lib out fuel ctx (g.invoke control entrypoint args mem')

/-- The calls that `runModule` serves. -/
def moduleCalls (call : GuestCall) : List (GuestRequest g.imports) :=
  let ctx₀ := startContext call.programId (ExtTreeMap.ofList call.entries compare)
  g.calls pf lib out call.maxFuel.toNat ctx₀ g.instantiate ++
    match g.drive pf lib out call.maxFuel.toNat ctx₀ g.instantiate with
    | .error _ => []
    | .ok (h, fuel, ctx) =>
      match g.entry call.entrypoint, h.memory.write 0 call.input with
      | some entry, some mem =>
        entryCalls pf lib g out fuel ctx h.control call.entrypoint (Int32.ofNat call.input.length) mem entry
      | _, _ => []

/-- The host calls of `execute` in the sandbox. -/
def executeCalls (compile : Bytes → Except String Guest) (worlds : Nat → World lib) (world : Nat)
    (maxFuel : UInt64) (u : UnifiedStore) (st : StateStore) (p : ProgramId) (input : Bytes) :
    List (HostCall × Memory) :=
  match loadWasmByObjectId pf u p.toObjectId, getEntrypoint u p.toObjectId with
  | .ok wasm, .ok entrypoint =>
    match compile wasm with
    | .error _ => []
    | .ok g =>
      (moduleCalls pf lib g ⟨worlds world, u⟩
        ⟨wasm, entrypoint, p, input, st.getAllScoped p, u, maxFuel⟩).map fun r => (r.1.1, r.2)
  | _, _ => []

variable {pf lib g out}

theorem outOfBounds_eq_ok {α : Type} {r : Option α} {a : α} (h : outOfBounds r = .ok a) : r = some a := by
  cases r with
  | none => cases h
  | some b => exact congrArg some (Except.ok.inj h)

theorem serve_entryCalls {fuel fuel' : Nat} {ctx ctx' : ExecutionContext} {control : g.Control}
    {entrypoint : String} {inputLen outPtr outLen : Int32} {mem mem' : Memory} {entry : EntryPoint}
    (h : callEntry pf lib g out fuel ctx control entrypoint inputLen mem entry =
      .ok (outPtr, outLen, mem', fuel', ctx')) :
    serve (g.host pf lib out) ctx
      (entryCalls pf lib g out fuel ctx control entrypoint inputLen mem entry) = .ok ctx' := by
  cases entry with
  | multi =>
    obtain ⟨r, hdrive, he⟩ := map_eq_ok h
    cases he
    exact serve_calls hdrive
  | packed =>
    obtain ⟨r, hdrive, he⟩ := map_eq_ok h
    cases he
    exact serve_calls hdrive
  | sret =>
    obtain ⟨mem₁, hmem, h⟩ := bind_eq_ok h
    obtain ⟨r, hdrive, h⟩ := bind_eq_ok h
    obtain ⟨buf, -, he⟩ := map_eq_ok h
    cases he
    rw [entryCalls, invocation, outOfBounds_eq_ok hmem]
    exact serve_calls hdrive

theorem serve_moduleCalls {call : GuestCall} {r : GuestResult} (h : runModule pf lib g out call = .ok r) :
    g.exportsMemory = true ∧ ∃ ctx,
      serve (g.host pf lib out) (startContext call.programId (ExtTreeMap.ofList call.entries compare))
        (moduleCalls pf lib g out call) = .ok ctx ∧ r.pendingWrites = ctx.pendingWrites := by
  obtain ⟨⟨halt, fuel, ctx⟩, hdrive, h⟩ := bind_eq_ok h
  have hserve := serve_calls hdrive
  dsimp only at h
  cases hmem : g.exportsMemory with
  | false => rw [hmem] at h; cases h
  | true =>
    refine ⟨rfl, ?_⟩
    rw [hmem] at h
    cases hentry : g.entry call.entrypoint with
    | none => rw [hentry] at h; cases h
    | some entry =>
      rw [hentry] at h
      obtain ⟨mem, hwrite, h⟩ := bind_eq_ok h
      obtain ⟨⟨outPtr, outLen, mem', fuel', ctx'⟩, hcall, h⟩ := bind_eq_ok h
      dsimp only at h
      split at h
      · cases h
      · obtain ⟨buf, -, rfl⟩ := map_eq_ok h
        refine ⟨ctx', ?_, rfl⟩
        rw [moduleCalls, startContext, hdrive]
        dsimp only
        rw [hentry, outOfBounds_eq_ok hwrite, serve_append]
        exact (congrArg (Except.bind · _) hserve).trans (serve_entryCalls hcall)

end Calls

section Commit

variable {pf : Platform} {lib : HostLib} {compile : Bytes → Except String Guest} {worlds : Nat → World lib}

theorem serve_executeCalls {world : Nat} {maxFuel : UInt64} {u : UnifiedStore} {st : StateStore}
    {p : ProgramId} {input : Bytes} {o : ExecutionOutcome}
    (h : execute (sandbox pf lib compile worlds) world maxFuel u st p input = .ok o) :
    ∃ ctx, serve (stateHost pf lib ⟨worlds world, u⟩) (startContext p (st.entries p))
        (executeCalls pf lib compile worlds world maxFuel u st p input) = .ok ctx ∧
      o.stateWrites = ctx.pendingWrites.toList.map fun e => (⟨e.1, e.2⟩ : StateWrite) := by
  have hash : (sandbox pf lib compile worlds).hashBytes = pf.hashBytes := rfl
  obtain ⟨wasm, hload, h⟩ := bind_eq_ok h
  obtain ⟨entrypoint, hentry, h⟩ := bind_eq_ok h
  obtain ⟨r, hrun, rfl⟩ := map_eq_ok h
  dsimp only [sandbox] at hrun
  obtain ⟨g, hcompile, hrun⟩ := bind_eq_ok hrun
  have hload := mapError_eq_ok hload
  rw [loadWasmByObjectId_congr hash] at hload
  obtain ⟨hexports, ctx, hserve, hpending⟩ := serve_moduleCalls hrun
  refine ⟨ctx, ?_, congrArg (fun d => d.toList.map fun e => (⟨e.1, e.2⟩ : StateWrite)) hpending⟩
  have hhost : ∀ (c : ExecutionContext) (r : GuestRequest g.imports),
      stateHost pf lib ⟨worlds world, u⟩ c (r.1.1, r.2) = g.host pf lib ⟨worlds world, u⟩ c r := by
    intro c r
    rw [stateHost, Guest.host, hexports]
  rw [executeCalls, hload, hentry]
  dsimp only
  rw [mapError_eq_ok hcompile]
  dsimp only
  rw [serve_map hhost]
  exact hserve

end Commit

/-- For every sequence of state calls in bounds, the host functions answer as a plain map does that
starts at the program's state. A run of `execute` that makes these calls lists its writes in ascending
order; applying them gives the final map, and its root is in the outcome. -/
theorem state_calls_act_on_map (pf : Platform) (lib : HostLib) (st : StateStore) (p : ProgramId)
    {requests : List (HostCall × Memory)} {replies : List (Int64 × Memory)} {final : ByteTree Bytes}
    (h : transcript (mapHost pf) (st.entries p) requests = .ok (replies, final)) :
    (∀ out, ∃ ctx, transcript (stateHost pf lib out) (startContext p (st.entries p)) requests =
      .ok (replies, ctx)) ∧
    ∀ (compile : Bytes → Except String Guest) (worlds : Nat → World lib) (world : Nat) (maxFuel : UInt64)
      (u : UnifiedStore) (input : Bytes) (o : ExecutionOutcome),
      executeCalls pf lib compile worlds world maxFuel u st p input = requests →
      execute (sandbox pf lib compile worlds) world maxFuel u st p input = .ok o →
      (o.stateWrites.Pairwise fun a b => compare a.key b.key = .lt) ∧
        (st.applyStateWrites p o.stateWrites).entries p = final ∧ o.stateRoot = rootOfMap pf final := by
  have hstart : (startContext p (st.entries p)).entries = st.entries p ∧
      (startContext p (st.entries p)).current = st.entries p := ⟨rfl, overlay_empty _⟩
  have hsim := fun out => (stateHost_simulates pf lib out (st.entries p)).transcript hstart h
  refine ⟨fun out => ?_, ?_⟩
  · obtain ⟨ctx, hctx, -⟩ := hsim out
    exact ⟨ctx, hctx⟩
  · rintro compile worlds world maxFuel u input o rfl hexec
    obtain ⟨ctx, hctx, hentries, hfinal⟩ := hsim ⟨worlds world, u⟩
    obtain ⟨ctx', hserve, hwrites⟩ := serve_executeCalls hexec
    obtain rfl : ctx = ctx' := Except.ok.inj ((serve_of_transcript hctx).symm.trans hserve)
    have happly : writeEntries (st.entries p) o.stateWrites = final := by
      rw [hwrites, writeEntries_pending, ← hentries]
      exact hfinal
    refine ⟨?_, ?_, ?_⟩
    · rw [hwrites]
      exact List.pairwise_map.mpr ExtTreeMap.ordered_keys_toList
    · rw [StateStore.entries_applyStateWrites, happly]
    · rw [execute_stateRoot hexec, StateStore.computeRootAfterWrites_eq, happly]
      rfl

section Sample

/-- Beside the entry that the program has, two entries are made; one is read, all are listed, and two are deleted. -/
def sampleStateCalls : List (HostCall × Memory) :=
  [(.statePut 0 1 1 0, [3]), (.stateGet 0 1 1 2, [7, 0, 0]), (.stateList 0 0 0 15, List.replicate 15 0),
    (.stateDel 0 1, [3]), (.stateDel 0 1, [9]), (.stateExists 0 1, [9]), (.stateLen 0 1, [7]),
    (.stateRoot 0, List.replicate 32 0)]

def stateGuest : Guest :=
  scriptGuest Set.univ (⟨.statePut 0 1 1 2, trivial⟩, [7, 5, 6])
    (sampleStateCalls.map fun r => (⟨r.1, trivial⟩, r.2)) fun _ => 1

def heldState : StateStore := StateStore.empty.applyStateWrites sampleProgram [⟨[9], some [8]⟩]

theorem state_calls_act_on_map_sample :
    let pf := sandbox sampleRuntime sampleLib (fun _ => .ok stateGuest) sampleWorld
    let requests := executeCalls sampleRuntime sampleLib (fun _ => .ok stateGuest) sampleWorld 0 100
      sampleStore heldState sampleProgram []
    ∃ r o, transcript (mapHost sampleRuntime) (heldState.entries sampleProgram) requests = .ok r ∧
      r.1.map Prod.fst = [0, 0, 2, 15, 0, 0, 0, 2, 0] ∧
      execute pf 0 100 sampleStore heldState sampleProgram [] = .ok o ∧
      o.stateWrites = [⟨[3], none⟩, ⟨[7], some [5, 6]⟩, ⟨[9], none⟩] ∧
      (heldState.applyStateWrites sampleProgram o.stateWrites).entries sampleProgram = r.2 := by
  intro pf requests
  have hmap : ((transcript (mapHost sampleRuntime) (heldState.entries sampleProgram)
      requests).toOption.map fun r => r.1.map Prod.fst) = some [0, 0, 2, 15, 0, 0, 0, 2, 0] := by
    decide +kernel
  have hexec : (execute pf 0 100 sampleStore heldState sampleProgram []).toOption.map (·.stateWrites) =
      some [⟨[3], none⟩, ⟨[7], some [5, 6]⟩, ⟨[9], none⟩] := by
    decide +kernel
  obtain ⟨r, hr, hvalues⟩ := Option.map_eq_some_iff.mp hmap
  obtain ⟨o, ho, hwrites⟩ := Option.map_eq_some_iff.mp hexec
  have hr := eq_ok_of_toOption hr
  have ho := eq_ok_of_toOption ho
  have h := (state_calls_act_on_map sampleRuntime sampleLib heldState sampleProgram hr).2 _ _ _ _ _ _ o rfl ho
  exact ⟨r, o, hr, hvalues, ho, hwrites, h.2.1⟩

end Sample

end Onvm
