import Onvm.UnifiedStore

/-! Looking a manifest up by its id (`UnifiedStore::get_manifest`). The index
leads from a manifest id to an object id, under which another manifest may stand
by then; a lookup that misses the index scans the manifests and repairs it. -/

namespace Onvm

open ByteString OrderedStore Std

namespace UnifiedStore

variable (pf : Platform) (u : UnifiedStore)

def scanManifests (mid : ManifestId) : UnifiedStore × Option Manifest :=
  match (u.manifests.tree.toList.map Prod.snd).find? fun m => m.id pf = mid with
  | some m => ({ u with manifestIndex := u.manifestIndex.insert mid.bytes.bytes m.objectId }, some m)
  | none => (u, none)

def getManifest (mid : ManifestId) : UnifiedStore × Option Manifest :=
  match u.manifestIndex[mid.bytes.bytes]? with
  | none => u.scanManifests pf mid
  | some id =>
    match u.getManifestByObject id with
    | some m => (u, some m)
    | none => u.scanManifests pf mid

end UnifiedStore

inductive ManifestCall
  | store (m : Manifest)
  | get (mid : ManifestId)

def ManifestCall.run (pf : Platform) (u : UnifiedStore) : ManifestCall → UnifiedStore
  | .store m => u.storeManifest pf m
  | .get mid => (u.getManifest pf mid).1

def runCalls (pf : Platform) (u : UnifiedStore) (calls : List ManifestCall) : UnifiedStore :=
  calls.foldl (fun u c => c.run pf u) u

def storedManifests (calls : List ManifestCall) : List Manifest :=
  calls.filterMap fun
    | .store m => some m
    | .get _ => none

theorem ManifestId.eq_of_bytes {a b : ManifestId} (h : a.bytes.bytes = b.bytes.bytes) : a = b := by
  cases a
  cases b
  congr 1
  exact FixedBytes.bytes_injective h

section Lookup

variable {pf : Platform} {u : UnifiedStore}

/-- The three ways a lookup can end. -/
inductive Looked (pf : Platform) (u : UnifiedStore) (mid : ManifestId) :
    UnifiedStore × Option Manifest → Prop
  | indexed {id : ObjectId} {m : Manifest} (hi : u.manifestIndex[mid.bytes.bytes]? = some id)
    (hm : u.getManifestByObject id = some m) : Looked pf u mid (u, some m)
  | scanned {m : Manifest} (hid : m.id pf = mid) (hm : u.getManifestByObject m.objectId = some m) :
    Looked pf u mid
      ({ u with manifestIndex := u.manifestIndex.insert mid.bytes.bytes m.objectId }, some m)
  | missing : Looked pf u mid (u, none)

theorem scanManifests_looked (pf : Platform) (u : UnifiedStore) (mid : ManifestId) :
    Looked pf u mid (u.scanManifests pf mid) := by
  rw [UnifiedStore.scanManifests]
  split
  · rename_i m hfind
    have hid : m.id pf = mid := by simpa using List.find?_some hfind
    obtain ⟨e, he, rfl⟩ := List.mem_map.mp (List.mem_of_find?_eq_some hfind)
    have hget : u.manifests.get e.1 = some e.2 := ExtTreeMap.mem_toList_iff_getElem?_eq_some.mp he
    have hkey := u.manifests.key_of_get hget
    refine .scanned hid ?_
    rw [UnifiedStore.getManifestByObject, hkey]
    exact hget
  · exact .missing

theorem getManifest_looked (pf : Platform) (u : UnifiedStore) (mid : ManifestId) :
    Looked pf u mid (u.getManifest pf mid) := by
  rw [UnifiedStore.getManifest]
  split
  · exact scanManifests_looked pf u mid
  · rename_i id hi
    split
    · rename_i m hm
      exact .indexed hi hm
    · exact scanManifests_looked pf u mid

theorem objectId_of_getManifestByObject {id : ObjectId} {m : Manifest}
    (h : u.getManifestByObject id = some m) : m.objectId = id :=
  ObjectId.eq_of_bytes (u.manifests.key_of_get h)

/-- Everything in the two trees goes back to manifests of `P`. -/
structure Originates (pf : Platform) (P : Set Manifest) (u : UnifiedStore) : Prop where
  index : ∀ (mid : ManifestId) id, u.manifestIndex[mid.bytes.bytes]? = some id →
    ∃ m ∈ P, m.id pf = mid ∧ m.objectId = id
  manifests : ∀ id m, u.getManifestByObject id = some m → m ∈ P

variable {P : Set Manifest}

theorem Originates.insert {m : Manifest} (h : Originates pf P u) (hm : m ∈ P) :
    Originates pf P { u with manifestIndex := u.manifestIndex.insert (m.id pf).bytes.bytes m.objectId } := by
  refine ⟨fun mid id hi => ?_, h.manifests⟩
  rw [ExtTreeMap.getElem?_insert] at hi
  split at hi
  · rename_i hc
    exact ⟨m, hm, ManifestId.eq_of_bytes (LawfulEqOrd.eq_of_compare hc), Option.some.inj hi⟩
  · exact h.index mid id hi

theorem Originates.call (h : Originates pf P u) {c : ManifestCall}
    (hc : ∀ m, c = .store m → m ∈ P) : Originates pf P (c.run pf u) := by
  cases c with
  | store m =>
    have hm := hc m rfl
    refine ⟨(h.insert hm).index, fun id m' hget => ?_⟩
    rw [ManifestCall.run, UnifiedStore.getManifestByObject, UnifiedStore.storeManifest, Keyed.get_put] at hget
    split at hget
    · cases hget
      exact hm
    · exact h.manifests id m' hget
  | get mid =>
    rw [ManifestCall.run]
    have hlooked := getManifest_looked pf u mid
    generalize u.getManifest pf mid = found at hlooked ⊢
    cases hlooked with
    | indexed hi hm => exact h
    | @scanned m hid hm =>
      rw [← hid]
      exact h.insert (h.manifests _ m hm)
    | missing => exact h

theorem Originates.exact (h : Originates pf P u)
    (hone : ∀ m ∈ P, ∀ m' ∈ P, m.objectId = m'.objectId → m.id pf = m'.id pf) {mid : ManifestId}
    {m : Manifest} (hget : (u.getManifest pf mid).2 = some m) : m.id pf = mid := by
  have hlooked := getManifest_looked pf u mid
  generalize u.getManifest pf mid = found at hlooked hget
  cases hlooked with
  | indexed hi hm =>
    cases hget
    obtain ⟨m₀, hm₀, hmid, hobj⟩ := h.index mid _ hi
    have hsame := hobj.trans (objectId_of_getManifestByObject hm).symm
    rw [← hmid]
    exact (hone m₀ hm₀ m (h.manifests _ m hm) hsame).symm
  | scanned hid hm =>
    cases hget
    exact hid
  | missing => cases hget

/-- The manifests of `S` are in the index, and there is one for the object of each of them. -/
structure Entered (pf : Platform) (S : Set Manifest) (u : UnifiedStore) : Prop where
  index : ∀ m ∈ S, u.manifestIndex[(m.id pf).bytes.bytes]? = some m.objectId
  present : ∀ m ∈ S, ∃ m', u.getManifestByObject m.objectId = some m'

variable {S : Set Manifest}

theorem Entered.insert {m : Manifest} (hinj : Set.InjOn (Manifest.id pf) P) (he : Entered pf S u)
    (hS : S ⊆ P) (hm : m ∈ P) :
    Entered pf S { u with manifestIndex := u.manifestIndex.insert (m.id pf).bytes.bytes m.objectId } := by
  refine ⟨fun m' hm' => ?_, he.present⟩
  rw [ExtTreeMap.getElem?_insert]
  split
  · rename_i hc
    rw [hinj hm (hS hm') (ManifestId.eq_of_bytes (LawfulEqOrd.eq_of_compare hc))]
  · exact he.index m' hm'

theorem Entered.call (hinj : Set.InjOn (Manifest.id pf) P) (ho : Originates pf P u)
    (he : Entered pf S u) (hS : S ⊆ P) {c : ManifestCall} (hc : ∀ m, c = .store m → m ∈ P) :
    Entered pf { m | m ∈ S ∨ c = .store m } (c.run pf u) := by
  cases c with
  | store m =>
    have hm := hc m rfl
    have hi := (he.insert hinj hS hm).index
    constructor
    · rintro m' (hm' | heq)
      · exact hi m' hm'
      · cases heq
        exact ExtTreeMap.getElem?_insert_self
    · intro m' hm'
      rw [ManifestCall.run, UnifiedStore.getManifestByObject, UnifiedStore.storeManifest, Keyed.get_put]
      split
      · exact ⟨m, rfl⟩
      · rename_i hne
        rcases hm' with hm' | heq
        · exact he.present m' hm'
        · cases heq
          exact absurd rfl hne
  | get mid =>
    have hset : { m | m ∈ S ∨ ManifestCall.get mid = .store m } = S := by simp
    rw [hset, ManifestCall.run]
    have hlooked := getManifest_looked pf u mid
    generalize u.getManifest pf mid = found at hlooked ⊢
    cases hlooked with
    | indexed hi hm => exact he
    | @scanned m hid hm =>
      rw [← hid]
      exact he.insert hinj hS (ho.manifests _ m hm)
    | missing => exact he

theorem Entered.id_eq (he : Entered pf S u)
    (hexact : ∀ mid m, (u.getManifest pf mid).2 = some m → m.id pf = mid) {m m' : Manifest}
    (hm : m ∈ S) (hm' : m' ∈ S) (hobj : m.objectId = m'.objectId) : m.id pf = m'.id pf := by
  obtain ⟨found, hfound⟩ := he.present m hm
  have hlook : ∀ n ∈ S, n.objectId = m.objectId → found.id pf = n.id pf := by
    intro n hn hnobj
    refine hexact (n.id pf) found ?_
    rw [UnifiedStore.getManifest, he.index n hn]
    simp only [hnobj, hfound]
  exact (hlook m hm rfl).symm.trans (hlook m' hm' hobj.symm)

end Lookup

section Calls

variable {pf : Platform} {P S : Set Manifest} {u : UnifiedStore} {calls : List ManifestCall}

theorem mem_storedManifests {m : Manifest} : m ∈ storedManifests calls ↔ .store m ∈ calls := by
  rw [storedManifests, List.mem_filterMap]
  constructor
  · rintro ⟨c, hc, hm⟩
    cases c with
    | store m' =>
      cases hm
      exact hc
    | get mid => cases hm
  · exact fun hm => ⟨_, hm, rfl⟩

theorem Originates.runCalls (h : Originates pf P u) (hP : ∀ m ∈ storedManifests calls, m ∈ P) :
    Originates pf P (runCalls pf u calls) := by
  induction calls generalizing u with
  | nil => exact h
  | cons c calls ih =>
    have hc : ∀ m, c = .store m → m ∈ P := fun m hm => hP m (mem_storedManifests.mpr (by simp [hm]))
    refine ih (h.call hc) fun m hm => hP m (mem_storedManifests.mpr ?_)
    exact List.mem_cons_of_mem c (mem_storedManifests.mp hm)

theorem Entered.runCalls (hinj : Set.InjOn (Manifest.id pf) P) (ho : Originates pf P u)
    (he : Entered pf S u) (hS : S ⊆ P) (hP : ∀ m ∈ storedManifests calls, m ∈ P) :
    Entered pf { m | m ∈ S ∨ m ∈ storedManifests calls } (runCalls pf u calls) := by
  induction calls generalizing u S with
  | nil =>
    have hset : { m | m ∈ S ∨ m ∈ storedManifests [] } = S := by simp [storedManifests]
    rw [hset]
    exact he
  | cons c calls ih =>
    have hc : ∀ m, c = .store m → m ∈ P := fun m hm => hP m (mem_storedManifests.mpr (by simp [hm]))
    have hrest : ∀ m ∈ storedManifests calls, m ∈ P := fun m hm =>
      hP m (mem_storedManifests.mpr (List.mem_cons_of_mem c (mem_storedManifests.mp hm)))
    have hsub : { m | m ∈ S ∨ c = .store m } ⊆ P := by
      rintro m (hm | hm)
      · exact hS hm
      · exact hc m hm
    have hnext := ih (ho.call hc) (he.call hinj ho hS hc) hsub hrest
    have hset : { m | m ∈ S ∨ m ∈ storedManifests (c :: calls) } =
        { m | m ∈ { m | m ∈ S ∨ c = .store m } ∨ m ∈ storedManifests calls } := by
      ext m
      simp only [Set.mem_ofPred_eq, mem_storedManifests, List.mem_cons]
      constructor
      · rintro (hm | hm | hm)
        · exact .inl (.inl hm)
        · exact .inl (.inr hm.symm)
        · exact .inr hm
      · rintro ((hm | hm) | hm)
        · exact .inl hm
        · exact .inr (.inl hm.symm)
        · exact .inr (.inr hm)
    rw [hset]
    exact hnext

end Calls

/-- Lookups are exact if all manifests that name one object have one id. Two stored manifests that
differ and name one object break this, unless ids collide. The database may be one without an index. -/
theorem getManifest_exact (pf : Platform) (u : UnifiedStore) (hindex : u.manifestIndex = ∅)
    (calls : List ManifestCall) :
    let P : Set Manifest := { m | (∃ id, u.getManifestByObject id = some m) ∨ m ∈ storedManifests calls }
    let idsMatch := ∀ mid m, ((runCalls pf u calls).getManifest pf mid).2 = some m → m.id pf = mid
    ((∀ m ∈ P, ∀ m' ∈ P, m.objectId = m'.objectId → m.id pf = m'.id pf) → idsMatch) ∧
      (Set.InjOn (Manifest.id pf) P → idsMatch →
        ∀ m ∈ storedManifests calls, ∀ m' ∈ storedManifests calls,
          m.objectId = m'.objectId → m.id pf = m'.id pf) := by
  intro P idsMatch
  have hstart : Originates pf P u := by
    refine ⟨fun mid id hi => ?_, fun id m hm => .inl ⟨id, hm⟩⟩
    rw [hindex] at hi
    simp at hi
  have hP : ∀ m ∈ storedManifests calls, m ∈ P := fun m hm => .inr hm
  constructor
  · intro hone mid m hget
    exact (hstart.runCalls hP).exact hone hget
  · intro hinj hexact m hm m' hm' hobj
    have hnone : Entered pf ∅ u := ⟨fun m hm => hm.elim, fun m hm => hm.elim⟩
    exact (hnone.runCalls hinj hstart (Set.empty_subset P) hP).id_eq hexact (.inr hm) (.inr hm') hobj

section Sample

def sampleStorage : Platform := samplePlatform fun _ => .error "trap"

def sampleRecord (version : UInt32) : Manifest := ⟨⟨.ofByte 32 5⟩, .ofByte 32 6, [], version⟩

def otherRecord : Manifest := { sampleRecord 1 with objectId := ⟨.ofByte 32 7⟩ }

def unindexedRecord : Manifest := { sampleRecord 1 with objectId := ⟨.ofByte 32 8⟩ }

/-- Two manifests are stored beside one that an older version left without an index entry. -/
theorem getManifest_exact_sample :
    let u : UnifiedStore := { UnifiedStore.empty with manifests := Keyed.empty.put unindexedRecord }
    let held := [sampleRecord 1, otherRecord, unindexedRecord]
    let calls := .store (sampleRecord 1) :: .store otherRecord ::
      held.map fun m => ManifestCall.get (m.id sampleStorage)
    let u' := runCalls sampleStorage u calls
    u.manifestIndex = ∅ ∧
      (∀ m ∈ held, (u'.getManifest sampleStorage (m.id sampleStorage)).2 = some m) ∧
      ∀ mid m, (u'.getManifest sampleStorage mid).2 = some m → m.id sampleStorage = mid := by
  intro u held calls u'
  refine ⟨rfl, by decide +kernel, ?_⟩
  refine (getManifest_exact sampleStorage u rfl calls).1 ?_
  have hheld : ∀ m, (∃ id, u.getManifestByObject id = some m) ∨ m ∈ storedManifests calls → m ∈ held := by
    rintro m (⟨id, hid⟩ | hm)
    · rw [UnifiedStore.getManifestByObject, Keyed.get_put] at hid
      split at hid
      · cases hid
        simp [held]
      · simp at hid
    · have hstored : ∀ m ∈ storedManifests calls, m ∈ held := by decide +kernel
      exact hstored m hm
  have hdistinct : ∀ m ∈ held, ∀ m' ∈ held, m.objectId = m'.objectId → m.id sampleStorage = m'.id sampleStorage := by
    decide +kernel
  intro m hm m' hm'
  exact hdistinct m (hheld m hm) m' (hheld m' hm')

/-- The id of a manifest that was replaced leads to its successor. -/
theorem getManifest_returns_successor :
    let u := runCalls sampleStorage .empty [.store (sampleRecord 1), .store (sampleRecord 2)]
    (u.getManifest sampleStorage ((sampleRecord 1).id sampleStorage)).2 = some (sampleRecord 2) ∧
      (sampleRecord 2).id sampleStorage ≠ (sampleRecord 1).id sampleStorage := by
  decide +kernel

end Sample

end Onvm
