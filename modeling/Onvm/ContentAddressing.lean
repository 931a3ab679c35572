import Onvm.Runs
import Onvm.UnifiedStore

/-! Content addressing of the object store: what a readable object's id says
about its bytes and its type, over every sequence of local writes and peer records. -/

namespace Onvm

open ByteString OrderedStore Std Runs

namespace UnifiedStore

variable {pf : Platform} {u u' : UnifiedStore}

theorem storeChunk_eq_ok {c : Chunk} (h : u.storeChunk pf c = .ok u') :
    u' = { u with chunks := u.chunks.insert c.id.bytes.bytes c.data } := by
  obtain ⟨-, -, he⟩ := map_eq_ok h
  exact he.symm

theorem storeAll_records {cs : List Chunk} (h : u.storeAll pf cs = .ok u') :
    u'.objects = u.objects ∧ u'.manifests = u.manifests := by
  induction cs generalizing u with
  | nil => cases h; exact ⟨rfl, rfl⟩
  | cons c cs ih =>
    obtain ⟨u₁, hc, h⟩ := bind_eq_ok h
    rw [(ih h).1, (ih h).2, storeChunk_eq_ok hc]
    exact ⟨rfl, rfl⟩

theorem tryStoreChunk_records (c : Chunk) :
    (u.tryStoreChunk pf c).objects = u.objects ∧ (u.tryStoreChunk pf c).manifests = u.manifests := by
  rw [tryStoreChunk]
  cases hc : u.storeChunk pf c with
  | error e => exact ⟨rfl, rfl⟩
  | ok u₁ => rw [storeChunk_eq_ok hc]; exact ⟨rfl, rfl⟩

theorem storeChunks_records (cs : List (ChunkId × Option Bytes)) :
    (u.storeChunks pf cs).objects = u.objects ∧ (u.storeChunks pf cs).manifests = u.manifests := by
  induction cs generalizing u with
  | nil => exact ⟨rfl, rfl⟩
  | cons c cs ih =>
    obtain ⟨id, data⟩ := c
    cases data with
    | none => exact ih
    | some data =>
      rw [storeChunks, ih.1, ih.2]
      exact tryStoreChunk_records _

theorem putObject_records {data : Bytes} {t : ObjectType} {publisher : NodeId} {now : UInt64}
    {o : Object} (h : u.putObject pf data t publisher now = .ok (u', o)) :
    ∃ m : Manifest, u'.objects = u.objects.put o ∧ u'.manifests = u.manifests.put m ∧
      o.id = objectIdFor pf (pf.hashBytes data) t ∧ o.objectType = t ∧ m.objectId = o.id ∧
      m.contentHash = pf.hashBytes data := by
  rw [putObject] at h
  split at h
  · cases h
  · obtain ⟨-, -, h⟩ := bind_eq_ok h
    obtain ⟨w, hw, he⟩ := map_eq_ok h
    obtain ⟨rfl, rfl⟩ := Prod.mk.inj he
    exact ⟨_, (storeAll_records hw).1, (storeAll_records hw).2, rfl, rfl, rfl, rfl⟩

theorem getObject_eq_ok {id : ObjectId} {data : Bytes} (h : u.getObject pf id = .ok data) :
    ∃ m, u.getManifestByObject id = some m ∧ m.contentHash = pf.hashBytes data := by
  rw [getObject] at h
  cases hm : u.getManifestByObject id with
  | none => rw [hm] at h; cases h
  | some m =>
    rw [hm] at h
    obtain ⟨-, -, h⟩ := bind_eq_ok h
    obtain ⟨d, -, h⟩ := bind_eq_ok h
    split at h
    · cases h
    · rename_i heq
      refine ⟨m, rfl, ?_⟩
      rw [← Except.ok.inj h]
      exact (not_not.mp heq).symm

end UnifiedStore

def RecordsAgree (pf : Platform) (u : UnifiedStore) : Prop :=
  ∀ id o m, u.getObjectMetadata id = some o → u.getManifestByObject id = some m →
    id = objectIdFor pf m.contentHash o.objectType

/-- A record from a peer that is stored implies, with its counterpart already there, its own id. -/
def SuppliesMatching (pf : Platform) (u : UnifiedStore) : StoreEvent → Prop
  | .manifestResponse m | .manifestFetched m =>
    ∀ o, u.getObjectMetadata m.objectId = some o → m.objectId = objectIdFor pf m.contentHash o.objectType
  | .manifestGossip m =>
    u.getManifestByObject m.objectId = none →
      ∀ o, u.getObjectMetadata m.objectId = some o → m.objectId = objectIdFor pf m.contentHash o.objectType
  | .objectMetadataResponse o | .objectMetadataFetched o =>
    ∀ m, u.getManifestByObject o.id = some m → o.id = objectIdFor pf m.contentHash o.objectType
  | .objectMetadataGossip o =>
    u.getObjectMetadata o.id = none →
      ∀ m, u.getManifestByObject o.id = some m → o.id = objectIdFor pf m.contentHash o.objectType
  | .putObject .. | .chunkResponse _ | .chunksResponse _ => True

section Agreement

variable {pf : Platform} {u : UnifiedStore}

theorem RecordsAgree.congr {u' : UnifiedStore} (hu : RecordsAgree pf u)
    (h : u'.objects = u.objects ∧ u'.manifests = u.manifests) : RecordsAgree pf u' := by
  intro id o m ho hm
  rw [UnifiedStore.getObjectMetadata, h.1] at ho
  rw [UnifiedStore.getManifestByObject, h.2] at hm
  exact hu id o m ho hm

theorem RecordsAgree.storeManifest (hu : RecordsAgree pf u) {m : Manifest}
    (h : ∀ o, u.getObjectMetadata m.objectId = some o →
      m.objectId = objectIdFor pf m.contentHash o.objectType) :
    RecordsAgree pf (u.storeManifest pf m) := by
  intro id o m' ho hm
  change u.objects.get id.bytes.bytes = some o at ho
  rw [UnifiedStore.getManifestByObject, UnifiedStore.storeManifest, Keyed.get_put] at hm
  split at hm
  · rename_i he
    have hid := ObjectId.eq_of_bytes he
    cases hm
    rw [← hid]
    exact h o (hid ▸ ho)
  · exact hu id o m' ho hm

theorem RecordsAgree.storeObject (hu : RecordsAgree pf u) {o : Object}
    (h : ∀ m, u.getManifestByObject o.id = some m →
      o.id = objectIdFor pf m.contentHash o.objectType) :
    RecordsAgree pf (u.storeObject o) := by
  intro id o' m ho hm
  change u.manifests.get id.bytes.bytes = some m at hm
  rw [UnifiedStore.getObjectMetadata, UnifiedStore.storeObject, Keyed.get_put] at ho
  split at ho
  · rename_i he
    have hid := ObjectId.eq_of_bytes he
    cases ho
    rw [← hid]
    exact h m (hid ▸ hm)
  · exact hu id o' m ho hm

theorem RecordsAgree.putObject (hu : RecordsAgree pf u) {data : Bytes} {t : ObjectType}
    {publisher : NodeId} {now : UInt64} {u' : UnifiedStore} {o : Object}
    (h : u.putObject pf data t publisher now = .ok (u', o)) : RecordsAgree pf u' := by
  obtain ⟨m, hos, hms, hid, ht, hmid, hch⟩ := UnifiedStore.putObject_records h
  intro id o' m' ho hm
  rw [UnifiedStore.getObjectMetadata, hos, Keyed.get_put] at ho
  rw [UnifiedStore.getManifestByObject, hms, Keyed.get_put, hmid] at hm
  by_cases he : o.id.bytes.bytes = id.bytes.bytes
  · rw [if_pos he] at ho hm
    cases ho
    cases hm
    rw [← ObjectId.eq_of_bytes he, hch, ht]
    exact hid
  · rw [if_neg he] at ho hm
    exact hu id o' m' ho hm

theorem RecordsAgree.handle (hu : RecordsAgree pf u) {e : StoreEvent} (he : SuppliesMatching pf u e) :
    RecordsAgree pf (u.handle pf e) := by
  cases e with
  | putObject data t publisher now =>
    rw [UnifiedStore.handle]
    cases hp : u.putObject pf data t publisher now with
    | error e => exact hu
    | ok r => exact hu.putObject hp
  | manifestResponse m => exact hu.storeManifest he
  | manifestFetched m => exact hu.storeManifest he
  | chunkResponse c => exact hu.congr (UnifiedStore.tryStoreChunk_records c)
  | chunksResponse cs => exact hu.congr (UnifiedStore.storeChunks_records cs)
  | objectMetadataResponse o => exact hu.storeObject he
  | objectMetadataFetched o => exact hu.storeObject he
  | manifestGossip m =>
    rw [UnifiedStore.handle]
    split
    · rename_i hn
      exact hu.storeManifest (he (Option.isNone_iff_eq_none.mp hn))
    · exact hu
  | objectMetadataGossip o =>
    rw [UnifiedStore.handle]
    split
    · rename_i hn
      exact hu.storeObject (he (Option.isNone_iff_eq_none.mp hn))
    · exact hu

end Agreement

def storeStep (pf : Platform) (u : UnifiedStore) (e : StoreEvent) : Option UnifiedStore :=
  some (u.handle pf e)

/-- In every run in which each peer record that is stored matches its counterpart, a readable
object is stored under the hash of its bytes and its type. -/
theorem getObject_id {pf : Platform} {events : List StoreEvent} {u : UnifiedStore} {id : ObjectId}
    {data : Bytes} {o : Object} (hmatch : Along (storeStep pf) (SuppliesMatching pf) .empty events)
    (hrun : run (storeStep pf) .empty events = some u) (hdata : u.getObject pf id = .ok data)
    (hmeta : u.getObjectMetadata id = some o) :
    id = objectIdFor pf (pf.hashBytes data) o.objectType := by
  have hinit : RecordsAgree pf .empty := fun _ _ _ ho _ => by
    rw [UnifiedStore.getObjectMetadata, UnifiedStore.empty, Keyed.get_empty] at ho
    cases ho
  have hu : RecordsAgree pf u := invariant_run
    (fun s e t hs he ht => by cases ht; exact hs.handle he) hinit hmatch hrun
  obtain ⟨m, hm, hch⟩ := UnifiedStore.getObject_eq_ok hdata
  rw [← hch]
  exact hu id o m hmeta hm

instance (pf : Platform) (u : UnifiedStore) : (e : StoreEvent) → Decidable (SuppliesMatching pf u e)
  | .manifestResponse m | .manifestFetched m =>
    inferInstanceAs (Decidable (∀ o ∈ u.getObjectMetadata m.objectId, _))
  | .manifestGossip m =>
    inferInstanceAs (Decidable (_ → ∀ o ∈ u.getObjectMetadata m.objectId, _))
  | .objectMetadataResponse o | .objectMetadataFetched o =>
    inferInstanceAs (Decidable (∀ m ∈ u.getManifestByObject o.id, _))
  | .objectMetadataGossip o =>
    inferInstanceAs (Decidable (_ → ∀ m ∈ u.getManifestByObject o.id, _))
  | .putObject .. | .chunkResponse _ | .chunksResponse _ => isTrue trivial

/-- A peer's records of one object, each twice and by another path, and its chunk. -/
theorem getObject_id_fetched :
    let pf := samplePlatform fun _ => .error "trap"
    let t := ObjectType.blob none (.ofByte 32 0)
    let id := objectIdFor pf (pf.hashBytes [1, 2, 3]) t
    let c : Chunk := ⟨⟨pf.hashBytes [1, 2, 3]⟩, [1, 2, 3]⟩
    let o : Object := ⟨id, t, 3, 1, ⟨.ofByte 32 0⟩, ⟨.ofByte 32 7⟩, 5⟩
    let m : Manifest := ⟨id, pf.hashBytes [1, 2, 3], [⟨c.id, 3, 0⟩], 1⟩
    let events := [StoreEvent.objectMetadataGossip o, .manifestResponse m, .objectMetadataResponse { o with createdAt := 6 },
      .manifestGossip m, .manifestFetched m, .chunkResponse c]
    ∃ u o', run (storeStep pf) .empty events = some u ∧ u.getObject pf id = .ok [1, 2, 3] ∧
      u.getObjectMetadata id = some o' ∧ id = objectIdFor pf (pf.hashBytes [1, 2, 3]) o'.objectType := by
  intro pf t id c o m events
  have hrun : (run (storeStep pf) .empty events).any (fun u =>
      u.getObject pf id = .ok [1, 2, 3] ∧ (u.getObjectMetadata id).isSome) = true := by decide +kernel
  obtain ⟨u, hu, hdata, hmeta⟩ := exists_of_any hrun
  obtain ⟨o', ho'⟩ := Option.isSome_iff_exists.mp hmeta
  have hmatch : Along (storeStep pf) (SuppliesMatching pf) .empty events := by decide +kernel
  exact ⟨u, o', hu, hdata, ho', getObject_id hmatch hu hdata ho'⟩

/-- Whatever the hash function, peers can make an object readable under an id that its bytes and
its type do not imply: a record, a manifest and a chunk that agree on nothing but the id. -/
theorem getObject_id_unchecked : ¬ ∃ pf : Platform,
    ∀ (events : List StoreEvent) (u : UnifiedStore) (id : ObjectId) (data : Bytes) (o : Object),
      run (storeStep pf) .empty events = some u → u.getObject pf id = .ok data →
      u.getObjectMetadata id = some o → id = objectIdFor pf (pf.hashBytes data) o.objectType := by
  rintro ⟨pf, hall⟩
  let t := ObjectType.blob none (.ofByte 32 0)
  obtain ⟨id, hid⟩ : ∃ id, id ≠ objectIdFor pf (pf.hashBytes [1]) t := by
    by_cases hz : (⟨.ofByte 32 0⟩ : ObjectId) = objectIdFor pf (pf.hashBytes [1]) t
    · exact ⟨⟨.ofByte 32 1⟩, by rw [← hz]; decide⟩
    · exact ⟨_, hz⟩
  let o : Object := ⟨id, t, 1, 1, ⟨.ofByte 32 0⟩, ⟨.ofByte 32 0⟩, 0⟩
  let m : Manifest := ⟨id, pf.hashBytes [1], [⟨⟨pf.hashBytes [1]⟩, 1, 0⟩], 1⟩
  let u := ((UnifiedStore.empty.storeObject o).storeManifest pf m).tryStoreChunk pf ⟨⟨pf.hashBytes [1]⟩, [1]⟩
  have hmeta : u.getObjectMetadata id = some o := by
    simp only [u, UnifiedStore.getObjectMetadata, (UnifiedStore.tryStoreChunk_records _).1]
    exact Keyed.get_put_self _ o
  have hman : u.getManifestByObject id = some m := by
    simp only [u, UnifiedStore.getManifestByObject, (UnifiedStore.tryStoreChunk_records _).2]
    exact Keyed.get_put_self _ m
  have hchunk : u.getChunk pf ⟨pf.hashBytes [1]⟩ = .ok (some ⟨⟨pf.hashBytes [1]⟩, [1]⟩) := by
    simp [u, UnifiedStore.getChunk, UnifiedStore.tryStoreChunk, UnifiedStore.storeChunk, Chunk.verify,
      Except.map]
  have hdata : u.getObject pf id = .ok [1] := by
    rw [UnifiedStore.getObject, hman]
    simp [m, Manifest.validate, validateChunks, UnifiedStore.collectChunks, hchunk, Except.map,
      Except.bind]
  exact hid (hall [.objectMetadataResponse o, .manifestResponse m,
    .chunkResponse ⟨⟨pf.hashBytes [1]⟩, [1]⟩] u id [1] o rfl hdata hmeta)

end Onvm
