import Onvm.ContentAddressing

/-! What is written to the object store locally is read back: over every sequence of `put_object`
calls, whatever chunks and whatever objects they share. -/

namespace Onvm

open ByteString OrderedStore Std

section Splitting

variable {size fuel : Nat} {data : Bytes}

theorem flatten_splitEvery (hs : 0 < size) (hf : data.length ≤ fuel) :
    (splitEvery size fuel data).flatten = data := by
  induction fuel generalizing data with
  | zero => simp_all [splitEvery]
  | succ fuel ih =>
    cases data with
    | nil => rfl
    | cons x xs =>
      have hd : ((x :: xs).drop size).length ≤ fuel := by
        simp only [List.length_drop, List.length_cons] at hf ⊢
        omega
      rw [splitEvery, List.flatten_cons, ih hd, List.take_append_drop]

theorem length_of_mem_splitEvery {piece : Bytes} (h : piece ∈ splitEvery size fuel data) :
    piece.length ≤ size := by
  induction fuel generalizing data with
  | zero => simp [splitEvery] at h
  | succ fuel ih =>
    cases data with
    | nil => simp [splitEvery] at h
    | cons x xs =>
      rcases List.mem_cons.mp h with rfl | h
      · exact List.length_take_le _ _
      · exact ih h

theorem sum_splitEvery (f : Nat → Nat) (hs : 0 < size) (hf : data.length ≤ fuel) :
    ((splitEvery size fuel data).map fun piece => f piece.length).sum =
      data.length / size * f size + if data.length % size ≠ 0 then f (data.length % size) else 0 := by
  induction fuel generalizing data with
  | zero =>
    have h0 : data.length = 0 := by omega
    simp [splitEvery, h0]
  | succ fuel ih =>
    cases data with
    | nil => simp [splitEvery]
    | cons x xs =>
      have hd : ((x :: xs).drop size).length ≤ fuel := by
        simp only [List.length_drop, List.length_cons] at hf ⊢
        omega
      rw [splitEvery, List.map_cons, List.sum_cons, ih hd, List.length_drop, List.length_take]
      generalize hn : (x :: xs).length = n
      have hpos : 0 < n := by rw [← hn]; simp
      by_cases hle : size ≤ n
      · have hdiv : n / size = (n - size) / size + 1 := by rw [Nat.div_eq_sub_div hs hle]
        rw [Nat.min_eq_left hle, hdiv, Nat.mod_eq_sub_mod hle, Nat.add_mul]
        omega
      · have hlt : n < size := by omega
        simp [Nat.min_eq_right hlt.le, Nat.sub_eq_zero_of_le hlt.le, Nat.div_eq_of_lt hlt,
          Nat.mod_eq_of_lt hlt, hpos.ne']

theorem div_add_ite_mod {n d : Nat} (hd : 0 < d) :
    (n / d + if n % d ≠ 0 then 1 else 0) = (n + d - 1) / d := by
  have hdm := Nat.div_add_mod n d
  have hlt := Nat.mod_lt n hd
  by_cases hr : n % d = 0
  · have he : n + d - 1 = d * (n / d) + (d - 1) := by omega
    rw [he, Nat.mul_add_div hd, Nat.div_eq_of_lt (by omega : d - 1 < d), if_neg (by simp [hr])]
  · have he : n + d - 1 = d * (n / d + 1) + (n % d - 1) := by rw [Nat.mul_add]; omega
    rw [he, Nat.mul_add_div hd, Nat.div_eq_of_lt (by omega : n % d - 1 < d), if_pos hr]

theorem length_splitEvery (hs : 0 < size) (hf : data.length ≤ fuel) :
    (splitEvery size fuel data).length = (data.length + size - 1) / size := by
  have hsum := sum_splitEvery (fun _ => 1) hs hf
  rw [List.map_const', List.sum_replicate_nat, Nat.mul_one, Nat.mul_one, div_add_ite_mod hs] at hsum
  exact hsum

end Splitting

section Chunks

variable (pf : Platform) (data : Bytes)

theorem chunkData_flatMap : (chunkData pf data).flatMap Chunk.data = data := by
  rw [chunkData, List.flatMap_map]
  change (splitEvery _ _ data).flatMap id = data
  rw [List.flatMap_id]
  exact flatten_splitEvery (by split <;> decide) (Nat.le_refl _)

variable {pf data}

theorem id_of_mem_chunkData {c : Chunk} (h : c ∈ chunkData pf data) : c.id.bytes = pf.hashBytes c.data := by
  obtain ⟨piece, -, rfl⟩ := List.mem_map.mp h
  rfl

theorem verify_of_mem_chunkData {c : Chunk} (h : c ∈ chunkData pf data) : c.verify pf = .ok () := by
  rw [Chunk.verify, if_neg (by rw [id_of_mem_chunkData h]; simp)]

theorem length_of_mem_chunkData {c : Chunk} (h : c ∈ chunkData pf data) : c.data.length < 2 ^ 32 := by
  obtain ⟨piece, hp, rfl⟩ := List.mem_map.mp h
  have hl := length_of_mem_splitEvery hp
  have hsize : (if largeObjectThresholdBytes < data.length then chunkSizeLarge else chunkSizeSmall) < 2 ^ 32 := by
    split <;> decide
  exact hl.trans_lt hsize

theorem length_chunkData : (chunkData pf data).length =
    if largeObjectThresholdBytes < data.length then (data.length + chunkSizeLarge - 1) / chunkSizeLarge
    else (data.length + chunkSizeSmall - 1) / chunkSizeSmall := by
  rw [chunkData, List.length_map, length_splitEvery (by split <;> decide) (Nat.le_refl _)]
  split <;> rfl

theorem validateChunks_describeChunks {i off : Nat} {cs : List Chunk}
    (hc : ∀ c ∈ cs, c.data.length < 2 ^ 32) :
    validateChunks i (UInt64.ofNat off) (describeChunks off cs) = .ok () := by
  induction cs generalizing i off with
  | nil => rfl
  | cons c cs ih =>
    have hsize : (UInt32.ofNat c.data.length).toUInt64 = UInt64.ofNat c.data.length := by
      apply UInt64.toNat_inj.mp
      have hl := hc c (by simp)
      rw [UInt32.toNat_toUInt64, UInt32.toNat_ofNat_of_lt' hl,
        UInt64.toNat_ofNat_of_lt' (show c.data.length < 2 ^ 64 by omega)]
    rw [describeChunks, validateChunks, if_neg (by simp), hsize, ← UInt64.ofNat_add]
    exact ih fun c' hc' => hc c' (by simp [hc'])

end Chunks

namespace UnifiedStore

variable {pf : Platform} {u u' : UnifiedStore}

section Stored

theorem storeAll_ok {cs : List Chunk} (hv : ∀ c ∈ cs, c.verify pf = .ok ()) :
    ∃ u', u.storeAll pf cs = .ok u' := by
  induction cs generalizing u with
  | nil => exact ⟨u, rfl⟩
  | cons c cs ih =>
    rw [storeAll, storeChunk, hv c (by simp)]
    exact ih fun c' hc' => hv c' (by simp [hc'])

theorem storeAll_keeps {cs : List Chunk} (h : u.storeAll pf cs = .ok u') {k d : Bytes}
    (hk : u.chunks[k]? = some d) (hsame : ∀ c ∈ cs, c.id.bytes.bytes = k → c.data = d) :
    u'.chunks[k]? = some d := by
  induction cs generalizing u with
  | nil => cases h; exact hk
  | cons c cs ih =>
    obtain ⟨u₁, hc, h⟩ := bind_eq_ok h
    refine ih h ?_ fun c' hc' => hsame c' (by simp [hc'])
    rw [storeChunk_eq_ok hc, ExtTreeMap.getElem?_insert]
    split
    · rename_i heq
      rw [hsame c (by simp) (LawfulEqOrd.eq_of_compare heq)]
    · exact hk

theorem storeAll_stores {cs : List Chunk} (h : u.storeAll pf cs = .ok u') {c : Chunk} (hc : c ∈ cs)
    (hsame : ∀ c' ∈ cs, c'.id.bytes.bytes = c.id.bytes.bytes → c'.data = c.data) :
    u'.chunks[c.id.bytes.bytes]? = some c.data := by
  induction cs generalizing u with
  | nil => cases hc
  | cons d cs ih =>
    obtain ⟨u₁, hd, hrest⟩ := bind_eq_ok h
    rcases List.mem_cons.mp hc with rfl | hc
    · have hown : u₁.chunks[c.id.bytes.bytes]? = some c.data := by
        rw [storeChunk_eq_ok hd]
        exact ExtTreeMap.getElem?_insert_self
      exact storeAll_keeps hrest hown fun c' hc' => hsame c' (by simp [hc'])
    · exact ih hrest hc fun c' hc' => hsame c' (by simp [hc'])

variable {cs : List Chunk} (hstored : ∀ c ∈ cs, u.chunks[c.id.bytes.bytes]? = some c.data)
include hstored

theorem collectChunks_describeChunks (hv : ∀ c ∈ cs, c.verify pf = .ok ())
    (hl : ∀ c ∈ cs, c.data.length < 2 ^ 32) (off : Nat) :
    u.collectChunks pf (describeChunks off cs) = .ok (cs.flatMap Chunk.data) := by
  induction cs generalizing off with
  | nil => rfl
  | cons c cs ih =>
    have hget : u.getChunk pf c.id = .ok (some c) := by
      rw [getChunk, hstored c (by simp)]
      change ((⟨c.id, c.data⟩ : Chunk).verify pf).map _ = _
      rw [show (⟨c.id, c.data⟩ : Chunk) = c from rfl, hv c (by simp)]
      rfl
    have hsize : (UInt32.ofNat c.data.length).toNat = c.data.length :=
      UInt32.toNat_ofNat_of_lt' (hl c (by simp))
    rw [describeChunks, collectChunks]
    simp only [hget, hsize, ne_eq, not_true_eq_false, if_false]
    rw [ih (fun c' hc' => hstored c' (by simp [hc'])) (fun c' hc' => hv c' (by simp [hc']))
      (fun c' hc' => hl c' (by simp [hc']))]
    rfl

theorem hasChunk_describeChunks {off : Nat} {d : ChunkDescriptor} (hd : d ∈ describeChunks off cs) :
    u.hasChunk d.chunkId = true := by
  induction cs generalizing off with
  | nil => cases hd
  | cons c cs ih =>
    rcases List.mem_cons.mp hd with rfl | hd
    · rw [hasChunk, ExtTreeMap.contains_eq_isSome_getElem?]
      dsimp only
      rw [hstored c (by simp)]
      rfl
    · exact ih (fun c' hc' => hstored c' (by simp [hc'])) hd

end Stored

end UnifiedStore

/-- A call of `put_object`, with the time at which it reads the clock. -/
structure ObjectPut where
  data : Bytes
  objectType : ObjectType
  publisher : NodeId
  now : UInt64

namespace ObjectPut

variable (pf : Platform) (p : ObjectPut)

def objectId : ObjectId := objectIdFor pf (pf.hashBytes p.data) p.objectType

def manifest : Manifest :=
  ⟨p.objectId pf, pf.hashBytes p.data, describeChunks 0 (chunkData pf p.data), 1⟩

def object : Object :=
  ⟨p.objectId pf, p.objectType, UInt64.ofNat p.data.length, UInt32.ofNat (chunkData pf p.data).length,
    (p.manifest pf).id pf, p.publisher, p.now⟩

def hashed : List Bytes :=
  (chunkData pf p.data).map (·.data) ++
    [p.data, ObjectType.codec.enc p.objectType,
      (pf.hashBytes p.data).bytes ++ (pf.hashBytes (ObjectType.codec.enc p.objectType)).bytes,
      Manifest.codec.enc (p.manifest pf)]

end ObjectPut

def putObjects (pf : Platform) (u : UnifiedStore) :
    List ObjectPut → Except String (UnifiedStore × List Object)
  | [] => .ok (u, [])
  | p :: ps =>
    (u.putObject pf p.data p.objectType p.publisher p.now).bind fun (u', o) =>
    (putObjects pf u' ps).map fun (u'', os) => (u'', o :: os)

/-- The manifest and the chunks of a call are in the store. -/
structure ObjectPut.Held (pf : Platform) (u : UnifiedStore) (p : ObjectPut) : Prop where
  manifest : u.getManifestByObject (p.objectId pf) = some (p.manifest pf)
  chunks : ∀ c ∈ chunkData pf p.data, u.chunks[c.id.bytes.bytes]? = some c.data

def CollisionFree (pf : Platform) (ps : List ObjectPut) : Prop :=
  Set.InjOn pf.hashBytes { x | ∃ p ∈ ps, x ∈ p.hashed pf }

section Puts

variable {pf : Platform} {u u' : UnifiedStore} {p q : ObjectPut} {ps : List ObjectPut}

theorem ObjectPut.Held.getObject (h : p.Held pf u) :
    u.getObject pf (p.objectId pf) = .ok p.data := by
  have hl : ∀ c ∈ chunkData pf p.data, c.data.length < 2 ^ 32 := fun c hc => length_of_mem_chunkData hc
  have hvalid : (p.manifest pf).validate = .ok () :=
    @validateChunks_describeChunks 0 0 _ hl
  have hcollect : u.collectChunks pf (p.manifest pf).chunks = .ok p.data := by
    rw [ObjectPut.manifest,
      UnifiedStore.collectChunks_describeChunks h.chunks (fun c hc => verify_of_mem_chunkData hc) hl,
      chunkData_flatMap]
  rw [UnifiedStore.getObject, h.manifest]
  simp only [hvalid, hcollect, Except.bind]
  rw [if_neg (by simp [ObjectPut.manifest])]

theorem ObjectPut.Held.isComplete (h : p.Held pf u) : u.isComplete (p.objectId pf) = true := by
  rw [UnifiedStore.isComplete, h.manifest]
  simp only [UnifiedStore.getMissingChunks, List.isEmpty_iff, List.map_eq_nil_iff, List.filter_eq_nil_iff]
  intro d hd
  simp [UnifiedStore.hasChunk_describeChunks h.chunks hd]

theorem CollisionFree.manifest_eq (h : CollisionFree pf ps) (hp : p ∈ ps) (hq : q ∈ ps)
    (he : p.objectId pf = q.objectId pf) : p.manifest pf = q.manifest pf := by
  have hcomb := h ⟨p, hp, by simp [ObjectPut.hashed]⟩ ⟨q, hq, by simp [ObjectPut.hashed]⟩
    (congrArg ObjectId.bytes he)
  have hdata : p.data = q.data :=
    h ⟨p, hp, by simp [ObjectPut.hashed]⟩ ⟨q, hq, by simp [ObjectPut.hashed]⟩ (FixedBytes.append_inj hcomb).1
  rw [ObjectPut.manifest, ObjectPut.manifest, he, hdata]

theorem CollisionFree.chunk_eq (h : CollisionFree pf ps) (hp : p ∈ ps) (hq : q ∈ ps) {c d : Chunk}
    (hc : c ∈ chunkData pf p.data) (hd : d ∈ chunkData pf q.data)
    (he : c.id.bytes.bytes = d.id.bytes.bytes) : c.data = d.data := by
  refine h ⟨p, hp, ?_⟩ ⟨q, hq, ?_⟩ ?_
  · exact List.mem_append_left _ (List.mem_map.mpr ⟨c, hc, rfl⟩)
  · exact List.mem_append_left _ (List.mem_map.mpr ⟨d, hd, rfl⟩)
  · rw [← id_of_mem_chunkData hc, ← id_of_mem_chunkData hd]
    exact FixedBytes.bytes_injective he

theorem putObject_eq_ok (hne : p.data ≠ []) :
    ∃ u', u.putObject pf p.data p.objectType p.publisher p.now = .ok (u', p.object pf) ∧
      ((u.storeObject (p.object pf)).storeManifest pf (p.manifest pf)).storeAll pf (chunkData pf p.data) =
        .ok u' := by
  have hvalid : (p.manifest pf).validate = .ok () :=
    @validateChunks_describeChunks 0 0 _ fun c hc => length_of_mem_chunkData hc
  obtain ⟨u', hu'⟩ := UnifiedStore.storeAll_ok
    (u := (u.storeObject (p.object pf)).storeManifest pf (p.manifest pf))
    fun c (hc : c ∈ chunkData pf p.data) => verify_of_mem_chunkData hc
  refine ⟨u', ?_, hu'⟩
  rw [UnifiedStore.putObject, if_neg (by simpa using hne)]
  change (p.manifest pf).validate.bind (fun _ =>
    (((u.storeObject (p.object pf)).storeManifest pf (p.manifest pf)).storeAll pf (chunkData pf p.data)).map
      fun u' => (u', p.object pf)) = _
  rw [hvalid, hu']
  rfl

theorem CollisionFree.held_put (h : CollisionFree pf ps) (hp : p ∈ ps)
    (hu' : ((u.storeObject (p.object pf)).storeManifest pf (p.manifest pf)).storeAll pf
      (chunkData pf p.data) = .ok u') :
    p.Held pf u' ∧ ∀ q ∈ ps, q.Held pf u → q.Held pf u' := by
  have hman : ∀ id, u'.getManifestByObject id =
      if (p.objectId pf).bytes.bytes = id.bytes.bytes then some (p.manifest pf)
      else u.getManifestByObject id := by
    intro id
    rw [UnifiedStore.getManifestByObject, (UnifiedStore.storeAll_records hu').2]
    exact Keyed.get_put _ _ _
  constructor
  · refine ⟨by rw [hman, if_pos rfl], fun c hc => ?_⟩
    exact UnifiedStore.storeAll_stores hu' hc fun c' hc' he => h.chunk_eq hp hp hc' hc he
  · intro q hq hheld
    refine ⟨?_, fun c hc => ?_⟩
    · rw [hman]
      split
      · rename_i he
        rw [h.manifest_eq hp hq (ObjectId.eq_of_bytes he)]
      · exact hheld.manifest
    · refine UnifiedStore.storeAll_keeps hu' (hheld.chunks c hc) fun c' hc' he => ?_
      exact h.chunk_eq hp hq hc' hc he

theorem putObjects_held (rest : List ObjectPut) (h : CollisionFree pf ps) (hrest : ∀ p ∈ rest, p ∈ ps)
    (hne : ∀ p ∈ rest, p.data ≠ []) :
    ∃ u', putObjects pf u rest = .ok (u', rest.map (ObjectPut.object pf)) ∧
      (∀ q ∈ ps, q.Held pf u → q.Held pf u') ∧ ∀ q ∈ rest, q.Held pf u' := by
  induction rest generalizing u with
  | nil => exact ⟨u, rfl, fun q _ hq => hq, fun q hq => by cases hq⟩
  | cons p rest ih =>
    obtain ⟨u₁, hput, hstore⟩ := @putObject_eq_ok pf u p (hne p (by simp))
    obtain ⟨hown, hkeep⟩ := h.held_put (hrest p (by simp)) hstore
    obtain ⟨u₂, hputs, hkeep₂, hrest₂⟩ := ih (u := u₁) (fun q hq => hrest q (by simp [hq]))
      fun q hq => hne q (by simp [hq])
    refine ⟨u₂, ?_, fun q hq hh => hkeep₂ q hq (hkeep q hq hh), fun q hq => ?_⟩
    · rw [putObjects, hput]
      change (putObjects pf u₁ rest).map _ = _
      rw [hputs]
      rfl
    · rcases List.mem_cons.mp hq with rfl | hq
      · exact hkeep₂ q (hrest q (by simp)) hown
      · exact hrest₂ q hq

theorem toNat_divCeilU64 {n d : Nat} (hn : n < 2 ^ 64) (hd : 1 < d) (hd32 : d < 2 ^ 32) :
    (divCeilU64 (UInt64.ofNat n) (UInt64.ofNat d)).toNat = (n + d - 1) / d := by
  have h1 : (UInt64.ofNat n).toNat = n := UInt64.toNat_ofNat_of_lt' hn
  have h2 : (UInt64.ofNat d).toNat = d := UInt64.toNat_ofNat_of_lt' (show d < 2 ^ 64 by omega)
  have hne : UInt64.ofNat d ≠ 0 := by
    rw [ne_eq, ← UInt64.toNat_inj, h2]
    exact (Nat.zero_lt_of_lt hd).ne'
  have hmod : UInt64.ofNat n % UInt64.ofNat d ≠ 0 ↔ n % d ≠ 0 := by
    rw [ne_eq, ← UInt64.toNat_inj, UInt64.toNat_mod, h1, h2]
    rfl
  have hle : n / d ≤ n / 2 := Nat.div_le_div_left hd (by decide)
  rw [divCeilU64, if_neg hne, ← div_add_ite_mod (Nat.zero_lt_of_lt hd), UInt64.toNat_add,
    UInt64.toNat_div, h1, h2]
  by_cases hr : n % d = 0
  · rw [if_neg (by rw [hmod]; simp [hr]), if_neg (by simp [hr])]
    exact Nat.mod_eq_of_lt (show n / d + 0 < 2 ^ 64 by omega)
  · rw [if_pos (hmod.mpr hr), if_pos hr]
    exact Nat.mod_eq_of_lt (show n / d + 1 < 2 ^ 64 by omega)

theorem toNat_topLevelChunkCount (hne : p.data ≠ []) (hlen : p.data.length < 2 ^ 63) :
    (topLevelChunkCountForTotalSize (UInt64.ofNat p.data.length)).toNat = (chunkData pf p.data).length := by
  have hsize : (UInt64.ofNat p.data.length).toNat = p.data.length :=
    UInt64.toNat_ofNat_of_lt' (show p.data.length < 2 ^ 64 by omega)
  have hpos := List.length_pos_iff.mpr hne
  have hnz : UInt64.ofNat p.data.length ≠ 0 := by
    rw [ne_eq, ← UInt64.toNat_inj, hsize]
    exact hpos.ne'
  have hlarge : UInt64.ofNat largeObjectThresholdBytes < UInt64.ofNat p.data.length ↔
      largeObjectThresholdBytes < p.data.length := by
    rw [UInt64.lt_iff_toNat_lt, hsize]
    rfl
  rw [topLevelChunkCountForTotalSize, if_neg hnz, length_chunkData]
  by_cases hl : largeObjectThresholdBytes < p.data.length
  · rw [if_pos (hlarge.mpr hl), if_pos hl, toNat_divCeilU64 (by omega) (by decide) (by decide)]
  · rw [if_neg (mt hlarge.mp hl), if_neg hl, toNat_divCeilU64 (by omega) (by decide) (by decide)]

theorem chunkCount_eq_iff (hne : p.data ≠ []) (hlen : p.data.length < 2 ^ 63) :
    (p.object pf).chunkCount.toNat = (topLevelChunkCountForTotalSize (p.object pf).totalSize).toNat ↔
      p.data.length ≤ (2 ^ 32 - 1) * chunkSizeLarge := by
  have hcount : (p.object pf).chunkCount.toNat = (chunkData pf p.data).length % 2 ^ 32 := UInt32.toNat_ofNat'
  have hfits : (chunkData pf p.data).length < 2 ^ 32 ↔ p.data.length ≤ (2 ^ 32 - 1) * chunkSizeLarge := by
    rw [length_chunkData]
    by_cases hl : largeObjectThresholdBytes < p.data.length
    · rw [if_pos hl, chunkSizeLarge]
      omega
    · rw [if_neg hl, chunkSizeLarge, chunkSizeSmall]
      rw [largeObjectThresholdBytes] at hl
      omega
  rw [hcount, ObjectPut.object, @toNat_topLevelChunkCount pf p hne hlen, ← hfits]
  omega

/-- After any sequence of local writes without a hash collision, every object that was returned is
read back as it was given. The count of its chunks is right up to 2^32 - 1 chunks of the large size. -/
theorem object_round_trip (pf : Platform) (ps : List ObjectPut) (hne : ∀ p ∈ ps, p.data ≠ [])
    (hlen : ∀ p ∈ ps, p.data.length < 2 ^ 63) (hfree : CollisionFree pf ps) :
    ∃ u os, putObjects pf .empty ps = .ok (u, os) ∧
      List.Forall₂ (fun p o => u.getObject pf o.id = .ok p.data ∧ u.isComplete o.id = true ∧
        o.totalSize.toNat = p.data.length ∧
        (o.chunkCount.toNat = (topLevelChunkCountForTotalSize o.totalSize).toNat ↔
          p.data.length ≤ (2 ^ 32 - 1) * chunkSizeLarge)) ps os := by
  obtain ⟨u, hputs, -, hheld⟩ := putObjects_held (u := .empty) ps hfree (fun p hp => hp) hne
  refine ⟨u, _, hputs, ?_⟩
  rw [List.forall₂_map_right_iff, List.forall₂_same]
  intro p hp
  refine ⟨(hheld p hp).getObject, (hheld p hp).isComplete, ?_,
    chunkCount_eq_iff (hne p hp) (hlen p hp)⟩
  exact UInt64.toNat_ofNat_of_lt' ((hlen p hp).trans (by norm_num))

end Puts

theorem object_round_trip_sample :
    let pf := samplePlatform fun _ => .error "trap"
    let t := ObjectType.blob none (.ofByte 32 0)
    let ps : List ObjectPut := [⟨[1, 2, 3], t, ⟨.ofByte 32 7⟩, 5⟩, ⟨[1, 2], t, ⟨.ofByte 32 7⟩, 6⟩]
    ∃ u os, putObjects pf .empty ps = .ok (u, os) ∧
      List.Forall₂ (fun p o => u.getObject pf o.id = .ok p.data) ps os := by
  intro pf t ps
  have hinj : ∀ x ∈ ps.flatMap (ObjectPut.hashed pf), ∀ y ∈ ps.flatMap (ObjectPut.hashed pf),
      pf.hashBytes x = pf.hashBytes y → x = y := by
    decide +kernel
  have hfree : CollisionFree pf ps := by
    rintro x ⟨p, hp, hx⟩ y ⟨q, hq, hy⟩ he
    exact hinj x (List.mem_flatMap.mpr ⟨p, hp, hx⟩) y (List.mem_flatMap.mpr ⟨q, hq, hy⟩) he
  obtain ⟨u, os, hputs, hall⟩ := object_round_trip pf ps (by decide) (by decide) hfree
  exact ⟨u, os, hputs, hall.imp fun p o h => h.1⟩

def listHash (l : List Bytes) (x : Bytes) : Bytes32 := .ofByte 32 (UInt8.ofNat (l.idxOf x))

theorem listHash_injOn {l : List Bytes} (hl : l.length < 256) (y : Bytes) :
    Set.InjOn (listHash l) { x | x ∈ l ∨ x = y } := by
  have hidx : ∀ a b, listHash l a = listHash l b → l.idxOf a = l.idxOf b := by
    intro a b h
    have hb : List.replicate 32 (UInt8.ofNat (l.idxOf a)) = List.replicate 32 (UInt8.ofNat (l.idxOf b)) :=
      congrArg FixedBytes.bytes h
    have hn := congrArg UInt8.toNat (List.replicate_right_injective (by decide) hb)
    have ha := List.idxOf_le_length (a := a) (l := l)
    have hb := List.idxOf_le_length (a := b) (l := l)
    rwa [UInt8.toNat_ofNat_of_lt' (show l.idxOf a < 2 ^ 8 by omega),
      UInt8.toNat_ofNat_of_lt' (show l.idxOf b < 2 ^ 8 by omega)] at hn
  intro a ha b hb h
  rcases ha with ha | rfl
  · exact (List.idxOf_inj ha).mp (hidx a b h)
  rcases hb with hb | rfl
  · exact ((List.idxOf_inj hb).mp (hidx b a h.symm)).symm
  · rfl

theorem splitEvery_replicate {size fuel k : Nat} (hs : 0 < size) (hf : k ≤ fuel) (a : UInt8) :
    splitEvery size fuel (List.replicate (k * size) a) = List.replicate k (List.replicate size a) := by
  induction k generalizing fuel with
  | zero =>
    rw [Nat.zero_mul]
    cases fuel <;> rfl
  | succ k ih =>
    cases fuel with
    | zero => omega
    | succ fuel =>
      obtain ⟨n, hn⟩ : ∃ n, (k + 1) * size = n + 1 :=
        Nat.exists_eq_succ_of_ne_zero (Nat.mul_pos (Nat.succ_pos k) hs).ne'
      have hsub : n + 1 - size = k * size := by rw [← hn, Nat.succ_mul]; omega
      have hle : size ≤ n + 1 := by rw [← hn, Nat.succ_mul]; omega
      rw [hn, List.replicate_succ, splitEvery, ← List.replicate_succ, List.take_replicate,
        List.drop_replicate, hsub, Nat.min_eq_left hle, ih (by omega), List.replicate_succ]

theorem zeros_put {k : Nat} (hk : 2 ≤ k) (hk' : k < 2 ^ 42) :
    ∃ (pf : Platform) (p : ObjectPut) (u : UnifiedStore) (o : Object),
      p.data.length = k * chunkSizeLarge ∧ CollisionFree pf [p] ∧ putObjects pf .empty [p] = .ok (u, [o]) ∧
      u.getObject pf o.id = .ok p.data ∧ o.chunkCount.toNat = k % 2 ^ 32 ∧
      (topLevelChunkCountForTotalSize o.totalSize).toNat = k := by
  let t := ObjectType.blob none (.ofByte 32 0)
  let p : ObjectPut := ⟨List.replicate (k * chunkSizeLarge) 0, t, ⟨.ofByte 32 7⟩, 5⟩
  let piece : Bytes := List.replicate chunkSizeLarge 0
  let both : Bytes := (FixedBytes.ofByte 32 0).bytes ++ (FixedBytes.ofByte 32 2).bytes
  let l : List Bytes := [p.data, piece, ObjectType.codec.enc t, both]
  let pf : Platform := { samplePlatform (fun _ => .error "trap") with hashBytes := listHash l }
  have hlen : p.data.length = k * chunkSizeLarge := List.length_replicate
  have hlarge : largeObjectThresholdBytes < p.data.length := by
    rw [hlen, largeObjectThresholdBytes, chunkSizeLarge]
    omega
  have hpieces : chunkData pf p.data = List.replicate k ⟨⟨pf.hashBytes piece⟩, piece⟩ := by
    rw [chunkData, if_pos hlarge, hlen, splitEvery_replicate (by decide), List.map_replicate]
    rw [chunkSizeLarge]
    omega
  have htype : (ObjectType.codec.enc t).length = 34 := by decide +kernel
  have hdata : pf.hashBytes p.data = .ofByte 32 0 := by
    change listHash l p.data = _
    rw [listHash, List.idxOf_cons_self]
    rfl
  have henc : pf.hashBytes (ObjectType.codec.enc t) = .ofByte 32 2 := by
    have h1 : p.data ≠ ObjectType.codec.enc t := by
      intro he
      have := congrArg List.length he
      rw [hlen, htype, chunkSizeLarge] at this
      omega
    have h2 : piece ≠ ObjectType.codec.enc t := by
      intro he
      have hh : piece.length = (ObjectType.codec.enc t).length := congrArg List.length he
      rw [htype, show piece.length = chunkSizeLarge from List.length_replicate, chunkSizeLarge] at hh
      omega
    change listHash l _ = _
    rw [listHash, List.idxOf_cons_ne _ h1, List.idxOf_cons_ne _ h2, List.idxOf_cons_self]
    rfl
  have hfree : CollisionFree pf [p] := by
    refine (listHash_injOn (l := l) (show 4 < 256 by decide) (Manifest.codec.enc (p.manifest pf))).mono ?_
    rintro x ⟨q, hq, hx⟩
    rw [List.mem_singleton.mp hq] at hx
    rcases List.mem_append.mp hx with hx | hx
    · obtain ⟨c, hc, rfl⟩ := List.mem_map.mp hx
      rw [hpieces] at hc
      rw [(List.mem_replicate.mp hc).2]
      exact .inl (by simp [l])
    · change x ∈ [p.data, ObjectType.codec.enc t,
        (pf.hashBytes p.data).bytes ++ (pf.hashBytes (ObjectType.codec.enc t)).bytes,
        Manifest.codec.enc (p.manifest pf)] at hx
      rw [hdata, henc] at hx
      simp only [List.mem_cons, List.not_mem_nil, or_false] at hx
      rcases hx with rfl | rfl | rfl | rfl
      · exact .inl (by simp [l])
      · exact .inl (by simp [l])
      · exact .inl (by simp [l, both])
      · exact .inr rfl
  have hlt : p.data.length < 2 ^ 63 := by
    rw [hlen, chunkSizeLarge]
    omega
  have hne : p.data ≠ [] := by
    rw [← List.length_pos_iff]
    omega
  obtain ⟨u, hputs, -, hheld⟩ := putObjects_held (u := .empty) [p] hfree (fun q hq => hq)
    fun q hq => List.mem_singleton.mp hq ▸ hne
  have hcount : (chunkData pf p.data).length = k := by rw [hpieces, List.length_replicate]
  refine ⟨pf, p, u, p.object pf, hlen, hfree, hputs, (hheld p (by simp)).getObject, ?_, ?_⟩
  · exact UInt32.toNat_ofNat'.trans (by rw [hcount])
  · exact (toNat_topLevelChunkCount hne hlt).trans hcount

/-- 2^53 bytes are 2^32 chunks, and the object says that it has none. -/
theorem chunk_count_wraps :
    ∃ (pf : Platform) (p : ObjectPut) (u : UnifiedStore) (o : Object),
      p.data.length = 2 ^ 53 ∧ CollisionFree pf [p] ∧ putObjects pf .empty [p] = .ok (u, [o]) ∧
      u.getObject pf o.id = .ok p.data ∧ o.chunkCount.toNat = 0 ∧
      (topLevelChunkCountForTotalSize o.totalSize).toNat = 2 ^ 32 :=
  @zeros_put (2 ^ 32) (by norm_num) (by norm_num)

end Onvm
