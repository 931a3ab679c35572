import Onvm.GuestArguments

/-! What the host functions with an output buffer do to guest memory, and what their numbers tell the
guest. -/

namespace Onvm

open ByteString OrderedStore Std

section Blit

variable {mem : Memory} {ptr : Nat} {data : Bytes}

end Blit

section Pieces

/-- Pieces that are written one behind the other into `room` bytes, up to the first that does not fit. -/
def fitting : (room : Nat) → List Bytes → Bytes
  | _, [] => []
  | room, piece :: pieces =>
    if piece.length ≤ room then piece ++ fitting (room - piece.length) pieces else []

def keyPieces (keys : List Bytes) : List Bytes := keys.flatMap fun k => [littleEndian 4 (k.length % 2 ^ 32), k]

end Pieces

namespace HostCall

variable (pf : Platform) {lib : HostLib} (out : Outside lib) (ctx : ExecutionContext) (mem : Memory)

def buffer : HostCall → Option (Int32 × Int32)
  | .stateGet _ _ outPtr outCap | .stateList _ _ outPtr outCap | .blobRead _ _ outPtr outCap =>
    some (outPtr, outCap)
  | _ => none

def pieces : HostCall → Option (List Bytes)
  | .stateGet keyPtr keyLen _ _ => (readVec mem keyPtr keyLen (-2)).toOption.bind fun key =>
    (ctx.current[key]?).map fun v => [v]
  | .stateList frontPtr frontLen _ _ => (readVec mem frontPtr frontLen (-2)).toOption.map fun front =>
    keyPieces (ctx.current.keys.filter front.isPrefixOf)
  | .blobRead idPtr idLen _ _ => (readObjectId (readVec mem) idPtr idLen).toOption.bind fun id =>
    (out.store.getObject pf id).toOption.map fun data => [data]
  | _ => none

def result (c : HostCall) : Option Bytes := (c.pieces pf out ctx mem).map List.flatten

def refuses (r : Bytes) : HostCall → Bool
  | .stateList _ _ _ outCap => usize outCap < r.length
  | .stateGet _ _ _ outCap | .blobRead _ _ _ outCap => outCap < Int32.ofNat r.length
  | _ => false

def refusal (r : Bytes) : HostCall → Int64
  | .blobRead .. => -7
  | _ => (-(Int32.ofNat r.length)).toInt64

/-- The bytes that a call writes from `outPtr` on. -/
def placed (outPtr : Int32) (c : HostCall) : Bytes :=
  match c.pieces pf out ctx mem with
  | none => []
  | some pieces =>
    if c.refuses pieces.flatten then [] else fitting (mem.length - usize outPtr) pieces

/-- How a call ends that has the exported memory. -/
structure Ended (outPtr : Int32) (c : HostCall) (value : Int64) (mem' : Memory) : Prop where
  memory : mem' = mem.blit (usize outPtr) (c.placed pf out ctx mem outPtr)
  refused : ∀ r, c.result pf out ctx mem = some r → c.refuses r = true → value = c.refusal r
  whole : 0 ≤ value → ∀ r, c.result pf out ctx mem = some r → c.refuses r = false →
    c.placed pf out ctx mem outPtr = r

end HostCall

section Ends

variable {pf : Platform} {lib : HostLib} {out : Outside lib} {ctx ctx' : ExecutionContext} {mem mem' : Memory}
  {exported : Bool} {c : HostCall} {outPtr outCap : Int32} {value : Int64}

theorem HostCall.Ended.unread (h : c.pieces pf out ctx mem = none) :
    c.Ended pf out ctx mem outPtr value mem := by
  have hresult : c.result pf out ctx mem = none := congrArg (Option.map List.flatten) h
  refine ⟨?_, fun r hr => ?_, fun _ r hr => ?_⟩
  · rw [placed, h]
    exact (blit_nil _).symm
  · cases hresult.symm.trans hr
  · cases hresult.symm.trans hr

theorem readVec_code {ptr len : Int32} {code c : Int64} (h : readVec mem ptr len code = .error (.code c)) :
    c = code := by
  unfold readVec at h
  split at h
  · cases h
  · split at h
    · cases h
      rfl
    · cases h

theorem toInt_neg_ofNat {n : Nat} (h : n < 2 ^ 31) : (-(Int32.ofNat n)).toInt64.toInt = -n := by
  rw [Int32.toInt_toInt64, Int32.toInt_neg, Int32.toInt_ofNat_of_lt h]
  exact Int.bmod_eq_of_le (by omega) (by omega)

end Ends

section Numbers

/-- A call of `onvm_state_get`, with a capacity without a sign and a memory of at most 4 GiB. -/
structure StateGetCall where
  ctx : ExecutionContext
  mem : Memory
  exported : Bool
  keyPtr : Int32
  keyLen : Int32
  outPtr : Int32
  outCap : Int32
  length_mem : mem.length ≤ 2 ^ 32
  cap_nonneg : 0 ≤ outCap

inductive GetOutcome
  | missing
  | copied (length : Nat)
  | tooSmall (needed : Nat)
  | memoryError
deriving DecidableEq

namespace StateGetCall

variable (pf : Platform) (lib : HostLib) (out : Outside lib) (a : StateGetCall)

def returned : Option Int64 :=
  (hostCall pf lib out a.ctx a.mem a.exported (.stateGet a.keyPtr a.keyLen a.outPtr a.outCap)).toOption.map
    Prod.fst

def value : Option Bytes :=
  if a.exported then (readVec a.mem a.keyPtr a.keyLen (-2)).toOption.bind fun key => a.ctx.current[key]?
  else none

def outcome : GetOutcome :=
  match a.value with
  | some v =>
    if a.outCap < Int32.ofNat v.length then .tooSmall v.length
    else if usize a.outPtr + v.length ≤ a.mem.length then .copied v.length
    else .memoryError
  | none =>
    if a.exported ∧ (readVec a.mem a.keyPtr a.keyLen (-2)).isOk then .missing else .memoryError

/-- A value that passes for too large is below 2 GiB and its length is not the absolute value of an
error code. One that is copied is not empty, and of 2 GiB at most. -/
def Clear : Prop :=
  ∀ v, a.value = some v →
    (a.outCap < Int32.ofNat v.length → v.length < 2 ^ 31 ∧ v.length ≠ 1 ∧ v.length ≠ 2 ∧ v.length ≠ 4) ∧
      (¬ a.outCap < Int32.ofNat v.length → usize a.outPtr + v.length ≤ a.mem.length →
        0 < v.length ∧ v.length ≤ 2 ^ 31)

end StateGetCall

def decodeGet (n : Int64) : GetOutcome :=
  if n.toInt = 0 then .missing
  else if 0 < n.toInt then .copied n.toInt.toNat
  else if n.toInt = -1 ∨ n.toInt = -2 ∨ n.toInt = -4 then .memoryError
  else if n.toInt = -2 ^ 31 then .copied (2 ^ 31)
  else .tooSmall (-n.toInt).toNat

namespace StateGetCall

variable {pf : Platform} {lib : HostLib} {out : Outside lib} {a : StateGetCall} {n : Int64}

/-- What is returned, and what it stands for. -/
inductive Answers (a : StateGetCall) : Int64 → GetOutcome → Prop
  | hidden (h : a.value = none) : Answers a (-1) .memoryError
  | unread (h : a.value = none) : Answers a (-2) .memoryError
  | missing (h : a.value = none) : Answers a 0 .missing
  | tooSmall (v : Bytes) (h : a.value = some v) (hcap : a.outCap < Int32.ofNat v.length) :
    Answers a (-(Int32.ofNat v.length)).toInt64 (.tooSmall v.length)
  | copied (v : Bytes) (h : a.value = some v) (hcap : ¬ a.outCap < Int32.ofNat v.length)
    (hfits : usize a.outPtr + v.length ≤ a.mem.length) :
    Answers a (Int32.ofNat v.length).toInt64 (.copied v.length)
  | outside (v : Bytes) (h : a.value = some v) (hcap : ¬ a.outCap < Int32.ofNat v.length)
    (hfits : ¬ usize a.outPtr + v.length ≤ a.mem.length) : Answers a (-4) .memoryError

theorem returned_of_value {v : Bytes} (h : a.value = some v) :
    a.returned pf lib out = (withMemory a.ctx a.mem true (copyOut a.ctx a.mem v a.outPtr a.outCap
      (-(Int32.ofNat v.length)).toInt64 (-4))).toOption.map Prod.fst := by
  unfold value at h
  split at h
  · rename_i hx
    obtain ⟨key, hkey, hv⟩ := Option.bind_eq_some_iff.mp h
    have hread : readVec a.mem a.keyPtr a.keyLen (-2) = .ok key := by
      cases hr : readVec a.mem a.keyPtr a.keyLen (-2) with
      | error e => rw [hr] at hkey; cases hkey
      | ok buf => rw [hr] at hkey; cases hkey; rfl
    rw [getElem?_current] at hv
    rw [returned, hostCall, hostCallVia, onvmStateGet, hx, hread]
    dsimp only [bind, Except.bind]
    rw [hv]
  · cases h

theorem answers (h : a.returned pf lib out = some n) : a.Answers n a.outcome := by
  rw [outcome]
  cases hv : a.value with
  | some v =>
    rw [returned_of_value hv, copyOut] at h
    dsimp only at h ⊢
    by_cases hcap : a.outCap < Int32.ofNat v.length
    · rw [if_pos hcap] at h ⊢
      cases h
      exact .tooSmall v hv hcap
    · rw [if_neg hcap] at h ⊢
      by_cases hfits : usize a.outPtr + v.length ≤ a.mem.length
      · rw [writeBytes_eq hfits] at h
        rw [if_pos hfits]
        cases h
        exact .copied v hv hcap hfits
      · rw [writeBytes, Memory.write, if_neg hfits] at h
        rw [if_neg hfits]
        cases h
        exact .outside v hv hcap hfits
  | none =>
    have hnone := hv
    rw [value] at hv
    rw [returned, hostCall, hostCallVia, onvmStateGet] at h
    cases hx : a.exported with
    | false =>
      rw [hx] at h
      cases h
      exact .hidden hnone
    | true =>
      rw [hx, if_pos rfl] at hv
      rw [hx] at h
      cases hread : readVec a.mem a.keyPtr a.keyLen (-2) with
      | error fault =>
        rw [hread] at h
        cases fault with
        | panic message => cases h
        | code c =>
          cases h
          rw [readVec_code hread]
          exact .unread hnone
      | ok key =>
        rw [hread] at h hv
        change ctx a |>.current[key]? = none at hv
        rw [getElem?_current] at hv
        dsimp only [bind, Except.bind] at h
        rw [hv] at h
        cases h
        exact .missing hnone

theorem toInt_length (v : Bytes) : (Int32.ofNat v.length).toInt = (v.length : Int).bmod (2 ^ 32) :=
  Int32.toInt_ofNat'

theorem toInt_tooSmall {v : Bytes} (hcap : a.outCap < Int32.ofNat v.length) :
    (-(Int32.ofNat v.length)).toInt64.toInt = -(Int32.ofNat v.length).toInt ∧
      0 < (Int32.ofNat v.length).toInt := by
  have hpos : a.outCap.toInt < (Int32.ofNat v.length).toInt := Int32.lt_iff_toInt_lt.mp hcap
  have hnonneg := Int32.le_iff_toInt_le.mp a.cap_nonneg
  have hlt := (Int32.ofNat v.length).toInt_lt
  rw [Int32.toInt_zero] at hnonneg
  refine ⟨?_, by omega⟩
  rw [Int32.toInt_toInt64, Int32.toInt_neg]
  exact Int.bmod_eq_of_le (by omega) (by omega)

theorem decodes {o : GetOutcome} (hclear : a.Clear) (h : a.Answers n o) : decodeGet n = o := by
  cases h with
  | hidden => rfl
  | unread => rfl
  | missing => rfl
  | outside => rfl
  | tooSmall v hv hcap =>
    obtain ⟨hneg, hpos⟩ := toInt_tooSmall hcap
    obtain ⟨hlt, hcodes⟩ := (hclear v hv).1 hcap
    rw [Int32.toInt_ofNat_of_lt hlt] at hneg hpos
    rw [decodeGet, hneg, if_neg (by omega), if_neg (by omega), if_neg (by omega), if_neg (by omega)]
    congr 1
    omega
  | copied v hv hcap hfits =>
    obtain ⟨hpos, hle⟩ := (hclear v hv).2 hcap hfits
    rw [decodeGet, Int32.toInt_toInt64, toInt_length, Int.bmod_def]
    split
    · rw [if_neg (by omega), if_pos (by omega)]
      congr 1
      omega
    · have hmax : v.length = 2 ^ 31 := by omega
      rw [if_neg (by omega), if_neg (by omega), if_neg (by omega), if_pos (by omega), hmax]

theorem misleads {o : GetOutcome} (hclear : ¬ a.Clear) (h : a.Answers n o) :
    decodeGet n ≠ o ∧ -2 ^ 31 < n.toInt ∧ n.toInt ≤ 0 := by
  have hunclear : ∃ v, a.value = some v ∧
      ¬ ((a.outCap < Int32.ofNat v.length → v.length < 2 ^ 31 ∧ v.length ≠ 1 ∧ v.length ≠ 2 ∧ v.length ≠ 4) ∧
        (¬ a.outCap < Int32.ofNat v.length → usize a.outPtr + v.length ≤ a.mem.length →
          0 < v.length ∧ v.length ≤ 2 ^ 31)) := by
    unfold Clear at hclear
    push Not at hclear ⊢
    exact hclear
  obtain ⟨w, hw, hbad⟩ := hunclear
  cases h with
  | hidden hv => cases hw.symm.trans hv
  | unread hv => cases hw.symm.trans hv
  | missing hv => cases hw.symm.trans hv
  | outside v hv hcap hfits =>
    cases hw.symm.trans hv
    exact absurd ⟨fun h => absurd h hcap, fun _ h => absurd h hfits⟩ hbad
  | tooSmall v hv hcap =>
    cases hw.symm.trans hv
    obtain ⟨hneg, hpos⟩ := toInt_tooSmall hcap
    have hlt := (Int32.ofNat w.length).toInt_lt
    refine ⟨fun hsame => hbad ⟨fun _ => ?_, fun h => absurd hcap h⟩, by omega, by omega⟩
    rw [decodeGet, hneg, if_neg (by omega), if_neg (by omega)] at hsame
    split at hsame
    · cases hsame
    · rw [if_neg (by omega)] at hsame
      have hlength : (- -(Int32.ofNat w.length).toInt).toNat = w.length := GetOutcome.tooSmall.inj hsame
      omega
  | copied v hv hcap hfits =>
    cases hw.symm.trans hv
    have hmem := a.length_mem
    have hrange : w.length = 0 ∨ 2 ^ 31 < w.length := by
      by_contra hin
      exact hbad ⟨fun h => absurd h hcap, fun _ _ => by omega⟩
    have hint : (Int32.ofNat w.length).toInt64.toInt = if w.length = 0 then 0 else (w.length : Int) - 2 ^ 32 := by
      rw [Int32.toInt_toInt64, toInt_length, Int.bmod_def]
      split <;> split <;> omega
    refine ⟨fun hsame => ?_, ?_, ?_⟩
    · rw [decodeGet, hint] at hsame
      split_ifs at hsame <;> first | cases hsame | omega
    · rw [hint]
      split <;> omega
    · rw [hint]
      split <;> omega

end StateGetCall

end Numbers

section Sample

def oneEntry (value : Bytes) : ExecutionContext := startContext sampleProgram ((∅ : ByteTree Bytes).insert [5] value)

def sampleOutside : Outside sampleLib := ⟨sampleWorld 0, sampleStore⟩

theorem getElem?_oneEntry (value : Bytes) : (oneEntry value).current[([5] : Bytes)]? = some value := by
  rw [getElem?_current]
  simp [oneEntry, startContext]

theorem readVec_oneByte (b : UInt8) (rest : Bytes) : readVec (b :: rest) 0 1 (-2) = .ok [b] := by
  have h0 : usize 0 = 0 := by decide
  have h1 : usize 1 = 1 := by decide
  rw [readVec, if_neg (by decide), h0, h1, Memory.read, if_pos (by simp)]
  rfl

def sampleGet (value : Bytes) (mem : Memory) (h : mem.length ≤ 2 ^ 32) : StateGetCall :=
  ⟨oneEntry value, mem, true, 0, 1, 0, 0, h, by decide⟩

theorem value_sampleGet (value rest : Bytes) (h : (5 :: rest : Memory).length ≤ 2 ^ 32) :
    (sampleGet value (5 :: rest) h).value = some value := by
  simp only [StateGetCall.value, sampleGet, if_true, readVec_oneByte]
  exact getElem?_oneEntry value

variable {pf : Platform} {lib : HostLib} {out : Outside lib}

theorem clear_of_range {n : Int64} (hlo : -2 ^ 31 < n.toInt) (hhi : n.toInt ≤ 0) :
    ∃ b : StateGetCall, b.Clear ∧ b.returned pf lib out = some n := by
  have hcode : ∀ (b : StateGetCall) (k : Int64), b.value = none → b.returned pf lib out = some k →
      n.toInt = k.toInt → ∃ b : StateGetCall, b.Clear ∧ b.returned pf lib out = some n := by
    intro b k hv hb hk
    refine ⟨b, fun v hv' => ?_, Int64.toInt_inj.mp hk ▸ hb⟩
    cases hv.symm.trans hv'
  by_cases h0 : n.toInt = 0
  · exact hcode (sampleGet [] [4] (by decide)) 0 (by decide +kernel) rfl h0
  by_cases h1 : n.toInt = -1
  · exact hcode ⟨oneEntry [], [], false, 0, 0, 0, 0, by decide, by decide⟩ (-1) rfl rfl h1
  by_cases h2 : n.toInt = -2
  · exact hcode (sampleGet [] [] (by decide)) (-2) rfl rfl h2
  by_cases h4 : n.toInt = -4
  · let b : StateGetCall := ⟨oneEntry [9], [5], true, 0, 1, 1, 1, by decide, by decide⟩
    have hv : b.value = some [9] := value_sampleGet [9] [] (by decide)
    have hcap : ¬ b.outCap < Int32.ofNat [(9 : UInt8)].length := by decide
    have hfits : ¬ usize b.outPtr + [(9 : UInt8)].length ≤ b.mem.length := by decide
    refine ⟨b, fun v hv' => ?_, ?_⟩
    · cases hv.symm.trans hv'
      exact ⟨fun h => absurd h hcap, fun _ h => absurd h hfits⟩
    · rw [StateGetCall.returned_of_value hv, copyOut, if_neg hcap, writeBytes, Memory.write, if_neg hfits,
        ← Int64.toInt_inj.mp (h4.trans (show -4 = (-4 : Int64).toInt by decide))]
      rfl
  · obtain ⟨m, hm⟩ : ∃ m : Nat, n.toInt = -m := ⟨(-n.toInt).toNat, by omega⟩
    have hlen : (List.replicate m (9 : UInt8)).length = m := List.length_replicate
    have hlt : m < 2 ^ 31 := by omega
    have hv := value_sampleGet (List.replicate m 9) [] (by decide)
    have hcap : (sampleGet (List.replicate m 9) [5] (by decide)).outCap <
        Int32.ofNat (List.replicate m (9 : UInt8)).length := by
      rw [Int32.lt_iff_toInt_lt, hlen, Int32.toInt_ofNat_of_lt hlt]
      exact Int.natCast_pos.mpr (by omega)
    refine ⟨sampleGet (List.replicate m 9) [5] (by decide), fun v hv' => ?_, ?_⟩
    · cases hv.symm.trans hv'
      rw [hlen]
      exact ⟨fun _ => by omega, fun h => absurd (hlen ▸ hcap) h⟩
    · rw [StateGetCall.returned_of_value hv, copyOut, if_pos hcap, hlen]
      exact congrArg some (Int64.toInt_inj.mp ((toInt_neg_ofNat hlt).trans hm.symm))

end Sample

/-- Two clear calls that return one number had the same outcome. A call that is not clear returns the
number of a clear one with another outcome. -/
theorem stateGet_decodable (pf : Platform) (lib lib' : HostLib) (out : Outside lib) (out' : Outside lib') :
    (∀ (a b : StateGetCall) (n : Int64), a.Clear → b.Clear → a.returned pf lib out = some n →
      b.returned pf lib' out' = some n → a.outcome = b.outcome) ∧
    ∀ (a : StateGetCall) (n : Int64), ¬ a.Clear → a.returned pf lib out = some n →
      ∃ b : StateGetCall, b.Clear ∧ b.returned pf lib' out' = some n ∧ b.outcome ≠ a.outcome := by
  constructor
  · intro a b n ha hb hna hnb
    exact (StateGetCall.decodes ha (StateGetCall.answers hna)).symm.trans
      (StateGetCall.decodes hb (StateGetCall.answers hnb))
  · intro a n ha hna
    obtain ⟨hmislead, hlo, hhi⟩ := StateGetCall.misleads ha (StateGetCall.answers hna)
    obtain ⟨b, hb, hnb⟩ := @clear_of_range pf lib' out' n hlo hhi
    exact ⟨b, hb, hnb, fun hsame => hmislead ((StateGetCall.decodes hb (StateGetCall.answers hnb)).trans hsame)⟩

/-- A missing key and an empty value are both 0. A value of two bytes that does not fit and a key
outside of memory are both -2. -/
theorem stateGet_ambiguous :
    let missing := sampleGet [] [4] (by decide)
    let empty := sampleGet [] [5] (by decide)
    let large := sampleGet [6, 6] [5] (by decide)
    let outside := sampleGet [6, 6] [] (by decide)
    (missing.returned sampleRuntime sampleLib sampleOutside = some 0 ∧
      empty.returned sampleRuntime sampleLib sampleOutside = some 0 ∧
      missing.outcome = .missing ∧ empty.outcome = .copied 0) ∧
    large.returned sampleRuntime sampleLib sampleOutside = some (-2) ∧
      outside.returned sampleRuntime sampleLib sampleOutside = some (-2) ∧
      large.outcome = .tooSmall 2 ∧ outside.outcome = .memoryError := by
  intro missing empty large outside
  refine ⟨⟨?_, ?_, ?_, ?_⟩, ?_, ?_, ?_, ?_⟩ <;> decide +kernel

end Onvm
