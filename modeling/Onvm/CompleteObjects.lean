import Onvm.ManifestLookup
import Onvm.ObjectRoundTrip

/-! Objects that count as complete (`is_complete`) and objects that can be read
(`get_object`). Completeness looks at the presence of chunks only; reading also
checks offsets, sizes and the content hash of the manifest, which peers supply
and nobody checks when it is stored. -/

namespace Onvm

open ByteString OrderedStore Std Runs

def ChunkDescriptor.Fits (pf : Platform) (d : ChunkDescriptor) (piece : Bytes) : Prop :=
  d.chunkId.bytes = pf.hashBytes piece ∧ d.size.toNat = piece.length

/-- The manifest of the data that `pieces` make up. -/
structure Describes (pf : Platform) (m : Manifest) (pieces : List Bytes) : Prop where
  valid : m.validate = .ok ()
  fits : List.Forall₂ (ChunkDescriptor.Fits pf) m.chunks pieces
  content : m.contentHash = pf.hashBytes pieces.flatten

def StoreEvent.contents (pf : Platform) : StoreEvent → List Bytes
  | .putObject data _ _ _ => (chunkData pf data).map Chunk.data
  | .chunkResponse c => [c.data]
  | .chunksResponse cs => cs.filterMap Prod.snd
  | _ => []

def StoreEvent.suppliedManifest : StoreEvent → Option Manifest
  | .manifestResponse m | .manifestFetched m | .manifestGossip m => some m
  | _ => none

/-- Every stored chunk stands under its hash and is one of `D`. -/
def ChunksIn (pf : Platform) (D : Set Bytes) (u : UnifiedStore) : Prop :=
  ∀ (id : ChunkId) data, u.chunks[id.bytes.bytes]? = some data → data ∈ D ∧ id.bytes = pf.hashBytes data

/-- Every stored manifest describes data of `D`. -/
def ManifestsDescribe (pf : Platform) (D : Set Bytes) (u : UnifiedStore) : Prop :=
  ∀ id m, u.getManifestByObject id = some m → ∃ pieces, (∀ x ∈ pieces, x ∈ D) ∧ Describes pf m pieces

section Reading

variable {pf : Platform} {D : Set Bytes} {u : UnifiedStore}

theorem getChunk_of_stored (hu : ChunksIn pf D u) {id : ChunkId} {data : Bytes}
    (h : u.chunks[id.bytes.bytes]? = some data) : u.getChunk pf id = .ok (some ⟨id, data⟩) := by
  have hv : (⟨id, data⟩ : Chunk).verify pf = .ok () := by
    rw [Chunk.verify, if_neg (by simp [(hu id data h).2])]
  rw [UnifiedStore.getChunk, h]
  simp only [hv, Except.map]

theorem collectChunks_of_fits (hD : Set.InjOn pf.hashBytes D) (hu : ChunksIn pf D u)
    {ds : List ChunkDescriptor} {pieces : List Bytes} (hp : ∀ x ∈ pieces, x ∈ D)
    (hf : List.Forall₂ (ChunkDescriptor.Fits pf) ds pieces)
    (hhas : ∀ d ∈ ds, u.hasChunk d.chunkId = true) : u.collectChunks pf ds = .ok pieces.flatten := by
  induction hf with
  | nil => rfl
  | @cons d piece ds pieces hd _ ih =>
    have hstored := hhas d (by simp)
    rw [UnifiedStore.hasChunk, ExtTreeMap.contains_eq_isSome_getElem?] at hstored
    obtain ⟨data, hdata⟩ := Option.isSome_iff_exists.mp hstored
    obtain ⟨hmem, hid⟩ := hu d.chunkId data hdata
    have heq : data = piece := hD hmem (hp piece (by simp)) (hid.symm.trans hd.1)
    have hget := getChunk_of_stored hu hdata
    rw [UnifiedStore.collectChunks, hget, heq]
    simp only [hd.2, ne_eq, not_true_eq_false, if_false]
    rw [ih (fun x hx => hp x (by simp [hx])) (fun d' hd' => hhas d' (by simp [hd']))]
    rfl

theorem exists_fits_of_collectChunks (hu : ChunksIn pf D u) {ds : List ChunkDescriptor} {data : Bytes}
    (h : u.collectChunks pf ds = .ok data) :
    ∃ pieces, (∀ x ∈ pieces, x ∈ D) ∧ List.Forall₂ (ChunkDescriptor.Fits pf) ds pieces ∧
      data = pieces.flatten := by
  induction ds generalizing data with
  | nil =>
    cases h
    exact ⟨[], by simp, .nil, rfl⟩
  | cons d ds ih =>
    rw [UnifiedStore.collectChunks] at h
    cases hdata : u.chunks[d.chunkId.bytes.bytes]? with
    | none =>
      rw [UnifiedStore.getChunk, hdata] at h
      cases h
    | some piece =>
      rw [getChunk_of_stored hu hdata] at h
      simp only at h
      split at h
      · cases h
      · rename_i hsize
        obtain ⟨rest, hrest, hcat⟩ := map_eq_ok h
        obtain ⟨pieces, hp, hf, rfl⟩ := ih hrest
        obtain ⟨hmem, hid⟩ := hu d.chunkId piece hdata
        refine ⟨piece :: pieces, ?_, .cons ⟨hid, (not_not.mp hsize).symm⟩ hf, hcat.symm⟩
        intro x hx
        rcases List.mem_cons.mp hx with rfl | hx
        · exact hmem
        · exact hp x hx

theorem hasChunk_of_isComplete {id : ObjectId} {m : Manifest} (hm : u.getManifestByObject id = some m)
    (hc : u.isComplete id = true) {d : ChunkDescriptor} (hd : d ∈ m.chunks) :
    u.hasChunk d.chunkId = true := by
  rw [UnifiedStore.isComplete, hm] at hc
  have hnil : u.getMissingChunks m = [] := List.isEmpty_iff.mp hc
  rw [UnifiedStore.getMissingChunks, List.map_eq_nil_iff, List.filter_eq_nil_iff] at hnil
  simpa using hnil d hd

theorem getObject_iff_describes (hD : Set.InjOn pf.hashBytes D) (hu : ChunksIn pf D u) {id : ObjectId}
    (hc : u.isComplete id = true) :
    (∃ data, u.getObject pf id = .ok data) ↔
      ∃ m pieces, u.getManifestByObject id = some m ∧ (∀ x ∈ pieces, x ∈ D) ∧ Describes pf m pieces := by
  constructor
  · rintro ⟨data, h⟩
    obtain ⟨m, hm, hcontent⟩ := UnifiedStore.getObject_eq_ok h
    rw [UnifiedStore.getObject, hm] at h
    obtain ⟨⟨⟩, hvalid, h⟩ := bind_eq_ok h
    obtain ⟨data', hcollect, h⟩ := bind_eq_ok h
    split at h
    · cases h
    cases h
    obtain ⟨pieces, hp, hf, rfl⟩ := exists_fits_of_collectChunks hu hcollect
    exact ⟨m, pieces, hm, hp, hvalid, hf, hcontent⟩
  · rintro ⟨m, pieces, hm, hp, hdesc⟩
    have hcollect := collectChunks_of_fits hD hu hp hdesc.fits fun d hd => hasChunk_of_isComplete hm hc hd
    refine ⟨pieces.flatten, ?_⟩
    rw [UnifiedStore.getObject, hm]
    simp only [hdesc.valid, Except.bind, hcollect, hdesc.content, ne_eq, not_true_eq_false, if_false]

end Reading

section Steps

variable {pf : Platform} {D : Set Bytes} {u u' : UnifiedStore}

theorem ChunksIn.storeChunk (hu : ChunksIn pf D u) {c : Chunk} (hc : c.data ∈ D)
    (h : u.storeChunk pf c = .ok u') : ChunksIn pf D u' := by
  obtain ⟨⟨⟩, hv, rfl⟩ := map_eq_ok h
  intro id data hdata
  rw [ExtTreeMap.getElem?_insert] at hdata
  split at hdata
  · rename_i heq
    cases hdata
    rw [Chunk.verify] at hv
    split at hv
    · cases hv
    · rename_i hhash
      have hid : c.id.bytes = id.bytes := FixedBytes.bytes_injective (LawfulEqOrd.eq_of_compare heq)
      exact ⟨hc, by rw [← hid, ← not_not.mp hhash]⟩
  · exact hu id data hdata

theorem ChunksIn.tryStoreChunk (hu : ChunksIn pf D u) {c : Chunk} (hc : c.data ∈ D) :
    ChunksIn pf D (u.tryStoreChunk pf c) := by
  rw [UnifiedStore.tryStoreChunk]
  cases h : u.storeChunk pf c with
  | ok u' => exact hu.storeChunk hc h
  | error e => exact hu

theorem ChunksIn.storeAll (hu : ChunksIn pf D u) {cs : List Chunk} (hcs : ∀ c ∈ cs, c.data ∈ D)
    (h : u.storeAll pf cs = .ok u') : ChunksIn pf D u' := by
  induction cs generalizing u with
  | nil =>
    cases h
    exact hu
  | cons c cs ih =>
    obtain ⟨u₁, hc, h⟩ := bind_eq_ok h
    exact ih (hu.storeChunk (hcs c (by simp)) hc) (fun c' hc' => hcs c' (by simp [hc'])) h

theorem ChunksIn.storeChunks (hu : ChunksIn pf D u) {cs : List (ChunkId × Option Bytes)}
    (hcs : ∀ x ∈ cs.filterMap Prod.snd, x ∈ D) : ChunksIn pf D (u.storeChunks pf cs) := by
  induction cs generalizing u with
  | nil => exact hu
  | cons c cs ih =>
    obtain ⟨id, data⟩ := c
    cases data with
    | none => exact ih hu fun x hx => hcs x (by simpa using hx)
    | some data =>
      refine ih (hu.tryStoreChunk (hcs data (by simp))) fun x hx => hcs x ?_
      rw [List.filterMap_cons]
      exact List.mem_cons_of_mem _ hx

theorem forall₂_describeChunks {cs : List Chunk} (hid : ∀ c ∈ cs, c.id.bytes = pf.hashBytes c.data)
    (hl : ∀ c ∈ cs, c.data.length < 2 ^ 32) (off : Nat) :
    List.Forall₂ (ChunkDescriptor.Fits pf) (describeChunks off cs) (cs.map Chunk.data) := by
  induction cs generalizing off with
  | nil => exact .nil
  | cons c cs ih =>
    refine .cons ⟨hid c (by simp), UInt32.toNat_ofNat_of_lt' (hl c (by simp))⟩ ?_
    exact ih (fun c' hc' => hid c' (by simp [hc'])) (fun c' hc' => hl c' (by simp [hc'])) _

theorem putObject_spec {data : Bytes} {t : ObjectType} {publisher : NodeId} {now : UInt64} {o : Object}
    (h : u.putObject pf data t publisher now = .ok (u', o)) :
    (∃ m, u'.manifests = u.manifests.put m ∧ Describes pf m ((chunkData pf data).map Chunk.data)) ∧
      ∃ u₁ : UnifiedStore, u₁.chunks = u.chunks ∧ u₁.storeAll pf (chunkData pf data) = .ok u' := by
  rw [UnifiedStore.putObject] at h
  split at h
  · cases h
  obtain ⟨⟨⟩, hvalid, h⟩ := bind_eq_ok h
  obtain ⟨w, hw, he⟩ := map_eq_ok h
  obtain ⟨rfl, -⟩ := Prod.mk.inj he
  refine ⟨⟨_, (UnifiedStore.storeAll_records hw).2, hvalid, ?_, ?_⟩, _, ?_, hw⟩
  · exact forall₂_describeChunks (fun c hc => id_of_mem_chunkData hc)
      (fun c hc => length_of_mem_chunkData hc) 0
  · rw [← List.flatMap_def, chunkData_flatMap]
  · rfl

theorem ChunksIn.handle (hu : ChunksIn pf D u) {e : StoreEvent} (he : ∀ x ∈ e.contents pf, x ∈ D) :
    ChunksIn pf D (u.handle pf e) := by
  cases e with
  | putObject data t publisher now =>
    rw [UnifiedStore.handle]
    cases hp : u.putObject pf data t publisher now with
    | error e => exact hu
    | ok r =>
      obtain ⟨-, u₁, hchunks, hall⟩ := putObject_spec hp
      have hu₁ : ChunksIn pf D u₁ := by
        rw [ChunksIn, hchunks]
        exact hu
      exact hu₁.storeAll (fun c hc => he _ (List.mem_map_of_mem hc)) hall
  | chunkResponse c => exact hu.tryStoreChunk (he c.data (by simp [StoreEvent.contents]))
  | chunksResponse cs => exact hu.storeChunks he
  | manifestResponse m => exact hu
  | manifestFetched m => exact hu
  | objectMetadataResponse o => exact hu
  | objectMetadataFetched o => exact hu
  | manifestGossip m =>
    rw [UnifiedStore.handle]
    split <;> exact hu
  | objectMetadataGossip o =>
    rw [UnifiedStore.handle]
    split <;> exact hu

theorem ManifestsDescribe.put (hu : ManifestsDescribe pf D u) {m : Manifest}
    (hm : ∃ pieces, (∀ x ∈ pieces, x ∈ D) ∧ Describes pf m pieces)
    (h : u'.manifests = u.manifests.put m) : ManifestsDescribe pf D u' := by
  intro id m' hget
  rw [UnifiedStore.getManifestByObject, h, Keyed.get_put] at hget
  split at hget
  · cases hget
    exact hm
  · exact hu id m' hget

theorem ManifestsDescribe.congr (hu : ManifestsDescribe pf D u) (h : u'.manifests = u.manifests) :
    ManifestsDescribe pf D u' := by
  intro id m hget
  rw [UnifiedStore.getManifestByObject, h] at hget
  exact hu id m hget

theorem ManifestsDescribe.handle (hu : ManifestsDescribe pf D u) {e : StoreEvent}
    (hcontents : ∀ x ∈ e.contents pf, x ∈ D)
    (hsupplied : ∀ m, e.suppliedManifest = some m →
      ∃ pieces, (∀ x ∈ pieces, x ∈ D) ∧ Describes pf m pieces) :
    ManifestsDescribe pf D (u.handle pf e) := by
  cases e with
  | putObject data t publisher now =>
    rw [UnifiedStore.handle]
    cases hp : u.putObject pf data t publisher now with
    | error e => exact hu
    | ok r =>
      obtain ⟨⟨m, hman, hdesc⟩, -⟩ := putObject_spec hp
      exact hu.put ⟨_, hcontents, hdesc⟩ hman
  | chunkResponse c => exact hu.congr (UnifiedStore.tryStoreChunk_records c).2
  | chunksResponse cs => exact hu.congr (UnifiedStore.storeChunks_records cs).2
  | manifestResponse m => exact hu.put (hsupplied m rfl) rfl
  | manifestFetched m => exact hu.put (hsupplied m rfl) rfl
  | objectMetadataResponse o => exact hu.congr rfl
  | objectMetadataFetched o => exact hu.congr rfl
  | manifestGossip m =>
    rw [UnifiedStore.handle]
    split
    · exact hu.put (hsupplied m rfl) rfl
    · exact hu
  | objectMetadataGossip o =>
    rw [UnifiedStore.handle]
    split
    · exact hu.congr rfl
    · exact hu

end Steps

/-- In every run in which each manifest that a peer supplies describes some data, a complete object
can be read, if chunks do not collide. -/
theorem complete_object_readable (pf : Platform) (D : Set Bytes) (hD : Set.InjOn pf.hashBytes D)
    (events : List StoreEvent) (hcontents : ∀ e ∈ events, ∀ x ∈ e.contents pf, x ∈ D)
    (hsupplied : ∀ e ∈ events, ∀ m, e.suppliedManifest = some m →
      ∃ pieces, (∀ x ∈ pieces, x ∈ D) ∧ Describes pf m pieces)
    (u : UnifiedStore) (hrun : run (storeStep pf) .empty events = some u) (id : ObjectId)
    (hc : u.isComplete id = true) : ∃ data, u.getObject pf id = .ok data := by
  have hempty : ChunksIn pf D .empty ∧ ManifestsDescribe pf D .empty := by
    refine ⟨fun id data h => ?_, fun id m h => ?_⟩
    · simp [UnifiedStore.empty] at h
    · simp [UnifiedStore.getManifestByObject, UnifiedStore.empty] at h
  have hu : ChunksIn pf D u ∧ ManifestsDescribe pf D u := by
    refine invariant_run (I := fun u => ChunksIn pf D u ∧ ManifestsDescribe pf D u)
      (P := fun _ e => e ∈ events) ?_ hempty (along_of_forall fun e he => he) hrun
    intro s e t hs he ht
    cases ht
    exact ⟨hs.1.handle (hcontents e he), hs.2.handle (hcontents e he) (hsupplied e he)⟩
  cases hm : u.getManifestByObject id with
  | none =>
    rw [UnifiedStore.isComplete, hm] at hc
    cases hc
  | some m =>
    obtain ⟨pieces, hp, hdesc⟩ := hu.2 id m hm
    exact (getObject_iff_describes hD hu.1 hc).mpr ⟨m, pieces, hm, hp, hdesc⟩

/-- A peer supplies a manifest of the object, then its one chunk. -/
theorem complete_object_readable_sample :
    let id : ObjectId := ⟨.ofByte 32 5⟩
    let chunk : Chunk := ⟨⟨sampleHash [9]⟩, [9]⟩
    let events : List StoreEvent :=
      [.putObject [1, 2, 3] (.blob none (.ofByte 32 0)) ⟨.ofByte 32 7⟩ 5,
        .manifestResponse ⟨id, sampleHash [9], describeChunks 0 [chunk], 1⟩, .chunkResponse chunk]
    ∃ u, run (storeStep sampleStorage) .empty events = some u ∧ u.isComplete id = true ∧
      ∃ data, u.getObject sampleStorage id = .ok data := by
  intro id chunk events
  obtain ⟨u, hu, hc⟩ : ∃ u, run (storeStep sampleStorage) .empty events = some u ∧ u.isComplete id = true :=
    exists_of_any (o := run (storeStep sampleStorage) .empty events) (Q := fun u => u.isComplete id = true)
      (by decide +kernel)
  refine ⟨u, hu, hc, ?_⟩
  have hinj : ∀ x ∈ ([[1, 2, 3], [9]] : List Bytes), ∀ y ∈ ([[1, 2, 3], [9]] : List Bytes),
      sampleHash x = sampleHash y → x = y := by
    decide
  have hcontents : ∀ e ∈ events, ∀ x ∈ e.contents sampleStorage, x ∈ ([[1, 2, 3], [9]] : List Bytes) := by
    decide +kernel
  refine complete_object_readable sampleStorage { x | x ∈ ([[1, 2, 3], [9]] : List Bytes) }
    (fun x hx y hy hxy => hinj x hx y hy hxy) events hcontents ?_ u hu id hc
  intro e he m hm
  refine ⟨[[9]], by simp, ?_⟩
  have hevents : m = ⟨id, sampleHash [9], describeChunks 0 [chunk], 1⟩ := by
    simp only [events, List.mem_cons, List.not_mem_nil, or_false] at he
    rcases he with rfl | rfl | rfl
    · cases hm
    · exact (Option.some.inj hm).symm
    · cases hm
  rw [hevents]
  exact ⟨by decide, .cons ⟨rfl, rfl⟩ .nil, by simp [sampleStorage, samplePlatform]⟩

/-- A manifest without chunks makes its object complete, whatever content it promises. -/
theorem complete_object_unreadable :
    let u := UnifiedStore.empty.handle sampleStorage (.manifestResponse (sampleRecord 1))
    run (storeStep sampleStorage) .empty [.manifestResponse (sampleRecord 1)] = some u ∧
      u.isComplete (sampleRecord 1).objectId = true ∧
      ∀ data, u.getObject sampleStorage (sampleRecord 1).objectId ≠ .ok data := by
  intro u
  refine ⟨rfl, by decide +kernel, ?_⟩
  have herr : (u.getObject sampleStorage (sampleRecord 1).objectId).toOption = none := by decide +kernel
  intro data hdata
  rw [hdata] at herr
  cases herr

end Onvm
