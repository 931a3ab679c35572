import Onvm.ChunkFallback
import Onvm.CompleteObjects
import Onvm.Runs

/-! `fetch_object` (`chunk_distributor.rs`) as a process: metadata and manifest from the first peers
that have them, or from gossip, then the missing chunks, up to eight at a time, and the assembly. Its
steps fall between whatever else the node does with its object store. -/

namespace Onvm

open ByteString OrderedStore Runs Std

def maxConcurrentChunkFetches : Nat := 8

def maxPeersAsked : Nat := 5

/-- A running `fetch_single_chunk`, with the attempts that have failed. -/
structure FetchTask where
  desc : ChunkDescriptor
  attempt : Nat
  deriving DecidableEq

/-- What a fetch asks for before the chunks. -/
inductive Sought
  | metadata
  | manifest
  deriving DecidableEq

inductive FetchPhase
  | begin
  | seek (k : Sought)
  | ask (k : Sought) (peers : List PeerId)
  | polls (k : Sought) (left : Nat)
  | chunks (waiting : List ChunkDescriptor) (running : List FetchTask)
  | done (result : Except String Bytes)
  deriving DecidableEq

/-- The fetch and the store it shares with the rest of the node. `provided` says that the node has
announced itself as a provider. -/
structure ObjectFetch where
  store : UnifiedStore
  phase : FetchPhase
  provided : Bool

def ObjectFetch.start (u : UnifiedStore) : ObjectFetch := ⟨u, .begin, false⟩

inductive FetchEvent
  | begin
  | peers (providers connected : List PeerId)
  | reply (answer : Except String UnifiedResponse)
  | poll
  | launch
  | attempt (i : Nat) (lookup : ProviderLookup) (answers : PeerAnswers)
  | assemble
  /-- Another task of the node. -/
  | other (e : StoreEvent)

section Steps

variable (pf : Platform) (id : ObjectId) (s : ObjectFetch)

def ObjectFetch.fail (e : String) : ObjectFetch := { s with phase := .done (.error e) }

def enterChunks (m : Manifest) : ObjectFetch :=
  match m.validate with
  | .error e => s.fail e
  | .ok _ =>
    let missing := m.chunks.filter fun d => !s.store.hasChunk d.chunkId
    if missing.isEmpty then
      match s.store.getObject pf id with
      | .error e => s.fail e
      | .ok data => { s with phase := .done (.ok data), provided := true }
    else { s with phase := .chunks missing [] }

def enterManifest : ObjectFetch :=
  match s.store.getManifestByObject id with
  | some m => enterChunks pf id s m
  | none => { s with phase := .seek .manifest }

def enterWith : Sought → Option ObjectFetch
  | .metadata => (s.store.getObjectMetadata id).map fun _ => enterManifest pf id s
  | .manifest => (s.store.getManifestByObject id).map (enterChunks pf id s)

def beginFetch : ObjectFetch :=
  if s.store.isComplete id then { s with phase := .done (s.store.getObject pf id) }
  else (enterWith pf id s .metadata).getD { s with phase := .seek .metadata }

def candidates (providers connected : List PeerId) : List PeerId :=
  if providers.isEmpty then connected else providers

def Sought.polls : Sought → Nat
  | .metadata => 6
  | .manifest => 10

def askPeers (k : Sought) (peers : List PeerId) : FetchPhase :=
  if peers.isEmpty then .polls k k.polls else .ask k peers

/-- The fetch with a record that a peer has sent. The id in an answer with metadata is not looked at. -/
def received (answer : Except String UnifiedResponse) : Sought → Option ObjectFetch
  | .metadata =>
    match answer with
    | .ok (.objectMetadata _ (some o)) => some (enterManifest pf id { s with store := s.store.storeObject o })
    | _ => none
  | .manifest =>
    match answer with
    | .ok (.manifest (some m)) => some (enterChunks pf id { s with store := s.store.storeManifest pf m } m)
    | _ => none

def takeReply (k : Sought) (rest : List PeerId) (answer : Except String UnifiedResponse) : ObjectFetch :=
  (received pf id s answer k).getD { s with phase := askPeers k rest }

def Sought.failure : Sought → String
  | .metadata => "no peer provided metadata"
  | .manifest => "no peer provided manifest"

def pollStore (k : Sought) (left : Nat) : ObjectFetch :=
  (enterWith pf id s k).getD (if left = 0 then s.fail k.failure else { s with phase := .polls k left })

def launchChunk (d : ChunkDescriptor) (waiting : List ChunkDescriptor) (running : List FetchTask) :
    ObjectFetch :=
  if s.store.hasChunk d.chunkId then { s with phase := .chunks waiting running }
  else { s with phase := .chunks waiting (running ++ [⟨d, 0⟩]) }

/-- One attempt of the running task `task`, which is number `i`. -/
def attemptChunk (waiting : List ChunkDescriptor) (running : List FetchTask) (i : Nat) (task : FetchTask)
    (providers : List PeerId) (answers : PeerAnswers) : ObjectFetch :=
  if providers.isEmpty then s.fail ("no providers available for " ++ id.toText)
  else
    match (fetchChunkDataFromProviders answers providers task.desc.chunkId task.desc.size.toNat []).1 with
    | .ok data =>
      let chunk : Chunk := ⟨task.desc.chunkId, data⟩
      match (chunk.verify pf).mapError fun _ => "chunk verification failed" with
      | .error e => s.fail e
      | .ok _ =>
        match s.store.storeChunk pf chunk with
        | .error e => s.fail e
        | .ok u => { s with store := u, phase := .chunks waiting (running.eraseIdx i) }
    | .error e =>
      if task.attempt + 1 < maxChunkFetchAttempts then
        { s with phase := .chunks waiting (running.set i ⟨task.desc, task.attempt + 1⟩) }
      else s.fail e

def assemble : ObjectFetch :=
  match (s.store.getObject pf id).mapError fun _ => "reassembling object after chunk fetch" with
  | .error e => s.fail e
  | .ok data => { s with phase := .done (.ok data), provided := true }

def fetchStep : FetchEvent → Option ObjectFetch
  | .begin =>
    match s.phase with
    | .begin => some (beginFetch pf id s)
    | _ => none
  | .peers providers connected =>
    let peers := candidates providers connected
    match s.phase with
    | .seek k =>
      some (if k = .metadata ∧ peers.isEmpty then s.fail "no connected peers"
        else { s with phase := askPeers k (peers.take maxPeersAsked) })
    | _ => none
  | .reply answer =>
    match s.phase with
    | .ask k (_ :: rest) => some (takeReply pf id s k rest answer)
    | _ => none
  | .poll =>
    match s.phase with
    | .polls k (left + 1) => some (pollStore pf id s k left)
    | _ => none
  | .launch =>
    match s.phase with
    | .chunks (d :: waiting) running =>
      if running.length < maxConcurrentChunkFetches then some (launchChunk s d waiting running) else none
    | _ => none
  | .attempt i lookup answers =>
    match s.phase with
    | .chunks waiting running =>
      running[i]?.map fun task => attemptChunk pf id s waiting running i task lookup.providers answers
    | _ => none
  | .assemble =>
    match s.phase with
    | .chunks [] [] => some (assemble pf id s)
    | _ => none
  | .other e => some { s with store := s.store.handle pf e }

end Steps

def StoreEvent.manifest? (pf : Platform) : StoreEvent → Option Manifest
  | .putObject data t publisher now => some (ObjectPut.manifest pf ⟨data, t, publisher, now⟩)
  | .manifestResponse m | .manifestFetched m | .manifestGossip m => some m
  | _ => none

def FetchEvent.manifest? (pf : Platform) : FetchEvent → Option Manifest
  | .reply (.ok (.manifest m)) => m
  | .other e => e.manifest? pf
  | _ => none

section Records

variable {pf : Platform} {u u' : UnifiedStore} {id : ObjectId}

theorem putObject_manifests {data : Bytes} {t : ObjectType} {publisher : NodeId} {now : UInt64} {o : Object}
    (h : u.putObject pf data t publisher now = .ok (u', o)) :
    u'.manifests = u.manifests.put (ObjectPut.manifest pf ⟨data, t, publisher, now⟩) := by
  rw [UnifiedStore.putObject] at h
  split at h
  · cases h
  obtain ⟨⟨⟩, -, h⟩ := bind_eq_ok h
  obtain ⟨w, hw, he⟩ := map_eq_ok h
  obtain ⟨rfl, -⟩ := Prod.mk.inj he
  exact (UnifiedStore.storeAll_records hw).2

theorem handle_manifests (u : UnifiedStore) (e : StoreEvent) :
    (u.handle pf e).manifests = u.manifests ∨
      ∃ m, e.manifest? pf = some m ∧ (u.handle pf e).manifests = u.manifests.put m := by
  cases e with
  | putObject data t publisher now =>
    rw [UnifiedStore.handle]
    cases hp : u.putObject pf data t publisher now with
    | error e => exact Or.inl rfl
    | ok r => exact Or.inr ⟨_, rfl, putObject_manifests hp⟩
  | chunkResponse c => exact Or.inl (UnifiedStore.tryStoreChunk_records c).2
  | chunksResponse cs => exact Or.inl (UnifiedStore.storeChunks_records cs).2
  | manifestResponse m => exact Or.inr ⟨m, rfl, rfl⟩
  | manifestFetched m => exact Or.inr ⟨m, rfl, rfl⟩
  | objectMetadataResponse o => exact Or.inl rfl
  | objectMetadataFetched o => exact Or.inl rfl
  | manifestGossip m =>
    rw [UnifiedStore.handle]
    split
    · exact Or.inr ⟨m, rfl, rfl⟩
    · exact Or.inl rfl
  | objectMetadataGossip o =>
    rw [UnifiedStore.handle]
    split <;> exact Or.inl rfl

theorem getManifest_put {m m' : Manifest} (hu : u'.manifests = u.manifests.put m)
    (h : u'.getManifestByObject id = some m') :
    (m.objectId = id ∧ m' = m) ∨ u.getManifestByObject id = some m' := by
  rw [UnifiedStore.getManifestByObject, hu, Keyed.get_put] at h
  split_ifs at h with he
  · exact Or.inl ⟨ObjectId.eq_of_bytes he, (Option.some.inj h).symm⟩
  · exact Or.inr h

theorem getManifest_congr (hu : u'.manifests = u.manifests) :
    u'.getManifestByObject id = u.getManifestByObject id := by
  rw [UnifiedStore.getManifestByObject, hu, UnifiedStore.getManifestByObject]

end Records

/-- Deciding on the next phase leaves the store alone, and what it returns is read from the store. -/
structure Settles (pf : Platform) (id : ObjectId) (s s' : ObjectFetch) : Prop where
  store : s'.store = s.store
  result : ∀ data, s'.phase = .done (.ok data) → s.store.getObject pf id = .ok data
  provided : s'.provided = true → s.provided = true ∨ ∃ data, s'.phase = .done (.ok data)

def FetchPhase.isDone : FetchPhase → Bool
  | .done _ => true
  | _ => false

section Settling

variable {pf : Platform} {id : ObjectId} {s : ObjectFetch}

theorem settles_fail (e : String) : Settles pf id s (s.fail e) :=
  ⟨rfl, fun _ h => (by cases h), Or.inl⟩

theorem settles_phase {ph : FetchPhase} (h : ph.isDone = false) : Settles pf id s { s with phase := ph } := by
  refine ⟨rfl, fun data hd => ?_, Or.inl⟩
  have hph : ph = .done (.ok data) := hd
  rw [hph] at h
  cases h

theorem settles_read {data : Bytes} (h : s.store.getObject pf id = .ok data) :
    Settles pf id s { s with phase := .done (.ok data), provided := true } := by
  refine ⟨rfl, fun data' hd => ?_, fun _ => Or.inr ⟨data, rfl⟩⟩
  cases hd
  exact h

theorem enterChunks_settles (m : Manifest) : Settles pf id s (enterChunks pf id s m) := by
  rw [enterChunks]
  cases m.validate with
  | error e => exact settles_fail e
  | ok u =>
    dsimp only
    split_ifs
    · cases hg : s.store.getObject pf id with
      | error e => exact settles_fail e
      | ok data => exact settles_read hg
    · exact settles_phase rfl

theorem enterManifest_settles : Settles pf id s (enterManifest pf id s) := by
  rw [enterManifest]
  cases s.store.getManifestByObject id with
  | none => exact settles_phase rfl
  | some m => exact enterChunks_settles m

theorem enterWith_settles {k : Sought} {s' : ObjectFetch} (h : enterWith pf id s k = some s') : Settles pf id s s' := by
  cases k with
  | metadata =>
    obtain ⟨-, -, rfl⟩ := Option.map_eq_some_iff.mp h
    exact enterManifest_settles
  | manifest =>
    obtain ⟨m, -, rfl⟩ := Option.map_eq_some_iff.mp h
    exact enterChunks_settles m

theorem askPeers_isDone (k : Sought) (peers : List PeerId) : (askPeers k peers).isDone = false := by
  rw [askPeers]
  split_ifs <;> rfl

theorem beginFetch_settles : Settles pf id s (beginFetch pf id s) := by
  rw [beginFetch]
  split_ifs
  · exact ⟨rfl, fun data hd => FetchPhase.done.inj hd, Or.inl⟩
  · cases h : enterWith pf id s .metadata with
    | none => exact settles_phase rfl
    | some s' => exact enterWith_settles h

theorem pollStore_settles (k : Sought) (left : Nat) : Settles pf id s (pollStore pf id s k left) := by
  rw [pollStore]
  cases h : enterWith pf id s k with
  | some s' => exact enterWith_settles h
  | none =>
    rw [Option.getD_none]
    split_ifs
    · exact settles_fail _
    · exact settles_phase rfl

theorem assemble_settles : Settles pf id s (assemble pf id s) := by
  rw [assemble]
  cases hg : s.store.getObject pf id with
  | error e => exact settles_fail _
  | ok data => exact settles_read hg

theorem received_cases {answer : Except String UnifiedResponse} {k : Sought} {s' : ObjectFetch}
    (h : received pf id s answer k = some s') :
    (∃ i o, k = .metadata ∧ answer = .ok (.objectMetadata i (some o)) ∧
      s' = enterManifest pf id { s with store := s.store.storeObject o }) ∨
    ∃ m, k = .manifest ∧ answer = .ok (.manifest (some m)) ∧
      s' = enterChunks pf id { s with store := s.store.storeManifest pf m } m := by
  unfold received at h
  split at h
  · split at h <;> cases h
    exact Or.inl ⟨_, _, rfl, rfl, rfl⟩
  · split at h <;> cases h
    exact Or.inr ⟨_, rfl, rfl, rfl⟩

theorem attemptChunk_cases (waiting : List ChunkDescriptor) (running : List FetchTask) (i : Nat)
    (task : FetchTask) (providers : List PeerId) (answers : PeerAnswers) :
    (∃ e, attemptChunk pf id s waiting running i task providers answers = s.fail e) ∨
    (∃ data u, s.store.storeChunk pf ⟨task.desc.chunkId, data⟩ = .ok u ∧
      attemptChunk pf id s waiting running i task providers answers =
        { s with store := u, phase := .chunks waiting (running.eraseIdx i) }) ∨
    attemptChunk pf id s waiting running i task providers answers =
      { s with phase := .chunks waiting (running.set i ⟨task.desc, task.attempt + 1⟩) } := by
  rw [attemptChunk]
  by_cases hp : providers.isEmpty
  · exact Or.inl ⟨_, by rw [if_pos hp]⟩
  rw [if_neg hp]
  cases (fetchChunkDataFromProviders answers providers task.desc.chunkId task.desc.size.toNat []).1 with
  | error e =>
    dsimp only
    split_ifs
    · exact Or.inr (Or.inr rfl)
    · exact Or.inl ⟨e, rfl⟩
  | ok data =>
    dsimp only
    cases ((⟨task.desc.chunkId, data⟩ : Chunk).verify pf).mapError fun _ => "chunk verification failed" with
    | error e => exact Or.inl ⟨e, rfl⟩
    | ok _ =>
      cases hu : s.store.storeChunk pf ⟨task.desc.chunkId, data⟩ with
      | error e => exact Or.inl ⟨e, rfl⟩
      | ok u => exact Or.inr (Or.inl ⟨data, u, hu, rfl⟩)

end Settling

def FetchEvent.own : FetchEvent → Bool
  | .other _ => false
  | _ => true

/-- The steps there are, each with the phase it belongs to. -/
inductive FetchMove (pf : Platform) (id : ObjectId) (s : ObjectFetch) : FetchEvent → ObjectFetch → Prop
  | begin (hp : s.phase = .begin) : FetchMove pf id s .begin (beginFetch pf id s)
  | noPeers {providers connected : List PeerId} (hp : s.phase = .seek .metadata)
      (hnone : (candidates providers connected).isEmpty = true) :
      FetchMove pf id s (.peers providers connected) (s.fail "no connected peers")
  | peers {k : Sought} {providers connected : List PeerId} (hp : s.phase = .seek k) :
      FetchMove pf id s (.peers providers connected)
        { s with phase := askPeers k ((candidates providers connected).take maxPeersAsked) }
  | reply {k : Sought} {q : PeerId} {rest : List PeerId} {answer : Except String UnifiedResponse}
      (hp : s.phase = .ask k (q :: rest)) : FetchMove pf id s (.reply answer) (takeReply pf id s k rest answer)
  | poll {k : Sought} {left : Nat} (hp : s.phase = .polls k (left + 1)) :
      FetchMove pf id s .poll (pollStore pf id s k left)
  | launch {d : ChunkDescriptor} {waiting : List ChunkDescriptor} {running : List FetchTask}
      (hp : s.phase = .chunks (d :: waiting) running) (hlt : running.length < maxConcurrentChunkFetches) :
      FetchMove pf id s .launch (launchChunk s d waiting running)
  | attempt {waiting : List ChunkDescriptor} {running : List FetchTask} {i : Nat} {task : FetchTask}
      {lookup : ProviderLookup} {answers : PeerAnswers} (hp : s.phase = .chunks waiting running)
      (ht : running[i]? = some task) :
      FetchMove pf id s (.attempt i lookup answers)
        (attemptChunk pf id s waiting running i task lookup.providers answers)
  | assemble (hp : s.phase = .chunks [] []) : FetchMove pf id s .assemble (assemble pf id s)
  | other {e : StoreEvent} : FetchMove pf id s (.other e) { s with store := s.store.handle pf e }

theorem fetchMove_of_step {pf : Platform} {id : ObjectId} {s s' : ObjectFetch} {e : FetchEvent}
    (h : fetchStep pf id s e = some s') : FetchMove pf id s e s' := by
  cases e with
  | other e =>
    cases h
    exact .other
  | begin =>
    cases hp : s.phase <;> rw [fetchStep, hp] at h <;> cases h
    exact .begin hp
  | peers providers connected =>
    rw [fetchStep] at h
    split at h
    · rename_i k hp
      split_ifs at h with hnone <;> cases h
      · obtain ⟨rfl, hnone⟩ := hnone
        exact .noPeers hp hnone
      · exact .peers hp
    · cases h
  | reply answer =>
    rw [fetchStep] at h
    split at h <;> rename_i hp <;> cases h
    exact .reply hp
  | poll =>
    rw [fetchStep] at h
    split at h <;> rename_i hp <;> cases h
    exact .poll hp
  | launch =>
    rw [fetchStep] at h
    split at h
    · rename_i hp
      split_ifs at h with hlt
      cases h
      exact .launch hp hlt
    · cases h
  | attempt i lookup answers =>
    rw [fetchStep] at h
    split at h
    · rename_i hp
      obtain ⟨task, ht, rfl⟩ := Option.map_eq_some_iff.mp h
      exact .attempt hp ht
    · cases h
  | assemble =>
    rw [fetchStep] at h
    split at h
    · rename_i hp
      cases h
      exact .assemble hp
    · cases h

theorem fetchStep_settles {pf : Platform} {id : ObjectId} {s s' : ObjectFetch} {e : FetchEvent}
    (he : e.own = true) (h : fetchStep pf id s e = some s') : s.phase.isDone = false ∧
      ∃ s₁, (s₁.store.manifests = s.store.manifests ∨
          ∃ m, e.manifest? pf = some m ∧ s₁.store.manifests = s.store.manifests.put m) ∧
        s₁.provided = s.provided ∧ Settles pf id s₁ s' := by
  cases fetchMove_of_step h with
  | other => cases he
  | begin hp => exact ⟨by rw [hp]; rfl, s, Or.inl rfl, rfl, beginFetch_settles⟩
  | noPeers hp => exact ⟨by rw [hp]; rfl, s, Or.inl rfl, rfl, settles_fail _⟩
  | peers hp => exact ⟨by rw [hp]; rfl, s, Or.inl rfl, rfl, settles_phase (askPeers_isDone _ _)⟩
  | @reply k q rest answer hp =>
    refine ⟨by rw [hp]; rfl, ?_⟩
    rw [takeReply]
    cases hr : received pf id s answer k with
    | none => exact ⟨s, Or.inl rfl, rfl, settles_phase (askPeers_isDone _ _)⟩
    | some s' =>
      obtain ⟨i, o, -, -, rfl⟩ | ⟨m, -, rfl, rfl⟩ := received_cases hr
      · exact ⟨{ s with store := s.store.storeObject o }, Or.inl rfl, rfl, enterManifest_settles⟩
      · exact ⟨{ s with store := s.store.storeManifest pf m }, Or.inr ⟨m, rfl, rfl⟩, rfl, enterChunks_settles m⟩
  | poll hp => exact ⟨by rw [hp]; rfl, s, Or.inl rfl, rfl, pollStore_settles _ _⟩
  | launch hp =>
    refine ⟨by rw [hp]; rfl, s, Or.inl rfl, rfl, ?_⟩
    rw [launchChunk]
    split_ifs <;> exact settles_phase rfl
  | @attempt waiting running i task lookup answers hp =>
    refine ⟨by rw [hp]; rfl, ?_⟩
    obtain ⟨e, he⟩ | ⟨data, u, hu, he⟩ | he := @attemptChunk_cases pf id s waiting running i task
      lookup.providers answers
    · rw [he]
      exact ⟨s, Or.inl rfl, rfl, settles_fail _⟩
    · rw [he]
      refine ⟨{ s with store := u }, Or.inl ?_, rfl, settles_phase rfl⟩
      rw [UnifiedStore.storeChunk_eq_ok hu]
    · rw [he]
      exact ⟨s, Or.inl rfl, rfl, settles_phase rfl⟩
  | assemble hp => exact ⟨by rw [hp]; rfl, s, Or.inl rfl, rfl, assemble_settles⟩

/-- A manifest filed under the object's id has the content hash `content`. -/
def Genuine (id : ObjectId) (content : Bytes32) (m : Manifest) : Prop :=
  m.objectId = id → m.contentHash = content

structure FetchSound (pf : Platform) (id : ObjectId) (content : Bytes32) (s : ObjectFetch) : Prop where
  manifest : ∀ m, s.store.getManifestByObject id = some m → m.contentHash = content
  result : ∀ data, s.phase = .done (.ok data) → pf.hashBytes data = content
  provided : s.provided = true → ∃ data, s.phase = .done (.ok data)

section Sound

variable {pf : Platform} {id : ObjectId} {content : Bytes32} {s s' : ObjectFetch} {e : FetchEvent}

theorem hash_of_getObject {u : UnifiedStore} {data : Bytes} (h : u.getObject pf id = .ok data) :
    ∃ m, u.getManifestByObject id = some m ∧ pf.hashBytes data = m.contentHash := by
  rw [UnifiedStore.getObject] at h
  cases hm : u.getManifestByObject id with
  | none =>
    rw [hm] at h
    cases h
  | some m =>
    rw [hm] at h
    obtain ⟨-, -, h⟩ := bind_eq_ok h
    obtain ⟨data', -, h⟩ := bind_eq_ok h
    split_ifs at h with hc
    cases h
    exact ⟨m, rfl, not_not.mp hc⟩

theorem genuine_put {u u' : UnifiedStore} (hu : ∀ m, u.getManifestByObject id = some m → m.contentHash = content)
    (h : u'.manifests = u.manifests ∨ ∃ m, Genuine id content m ∧ u'.manifests = u.manifests.put m) :
    ∀ m, u'.getManifestByObject id = some m → m.contentHash = content := by
  intro m hm
  obtain hsame | ⟨m', hg, hput⟩ := h
  · rw [getManifest_congr hsame] at hm
    exact hu m hm
  · obtain ⟨hid, rfl⟩ | hold := getManifest_put hput hm
    · exact hg hid
    · exact hu m hold

theorem FetchSound.step (h : FetchSound pf id content s) (he : ∀ m, e.manifest? pf = some m → Genuine id content m)
    (hs : fetchStep pf id s e = some s') : FetchSound pf id content s' := by
  by_cases hown : e.own = true
  · obtain ⟨hrun, s₁, hman, hprov, hset⟩ := fetchStep_settles hown hs
    have hgen : ∀ m, s₁.store.getManifestByObject id = some m → m.contentHash = content := by
      refine genuine_put h.manifest ?_
      obtain hsame | ⟨m, hm, hput⟩ := hman
      · exact Or.inl hsame
      · exact Or.inr ⟨m, he m hm, hput⟩
    refine ⟨by rw [hset.store]; exact hgen, ?_, ?_⟩
    · intro data hdata
      obtain ⟨m, hm, hhash⟩ := hash_of_getObject (hset.result data hdata)
      rw [hhash]
      exact hgen m hm
    · intro hp
      obtain hp | hdone := hset.provided hp
      · rw [hprov] at hp
        obtain ⟨data, hdata⟩ := h.provided hp
        rw [hdata] at hrun
        cases hrun
      · exact hdone
  · cases e with
    | other e =>
      cases hs
      refine ⟨genuine_put h.manifest ?_, h.result, h.provided⟩
      obtain hsame | ⟨m, hm, hput⟩ := @handle_manifests pf s.store e
      · exact Or.inl hsame
      · exact Or.inr ⟨m, he m hm, hput⟩
    | _ => exact absurd rfl hown

end Sound

/-- Whatever peers answer and gossip, and whatever else the node does meanwhile, a fetch returns the
data of the object or an error: all it takes is that no manifest with another content hash comes in
under the id of the object. The node offers the object only if the fetch has returned it. -/
theorem fetch_returns_object {pf : Platform} {id : ObjectId} {data : Bytes} {u : UnifiedStore}
    {evs : List FetchEvent} {s : ObjectFetch}
    (hpre : ∀ x, pf.hashBytes x = pf.hashBytes data → x = data)
    (hu : ∀ m, u.getManifestByObject id = some m → m.contentHash = pf.hashBytes data)
    (hevs : ∀ e ∈ evs, ∀ m, e.manifest? pf = some m → Genuine id (pf.hashBytes data) m)
    (hrun : run (fetchStep pf id) (.start u) evs = some s) :
    (∀ r, s.phase = .done (.ok r) → r = data) ∧ (s.provided = true → s.phase = .done (.ok data)) := by
  have hinit : FetchSound pf id (pf.hashBytes data) (.start u) :=
    ⟨hu, fun _ h => (by cases h), fun h => (by cases h)⟩
  have hsound : FetchSound pf id (pf.hashBytes data) s := by
    have halong : Along (fetchStep pf id) (fun _ e => ∀ m, e.manifest? pf = some m →
        Genuine id (pf.hashBytes data) m) (.start u) evs := along_of_forall hevs
    exact invariant_run (fun _ _ _ h he hs => h.step he hs) hinit halong hrun
  have hres : ∀ r, s.phase = .done (.ok r) → r = data := fun r hr => hpre r (hsound.result r hr)
  refine ⟨hres, fun hp => ?_⟩
  obtain ⟨r, hr⟩ := hsound.provided hp
  rw [hr, hres r hr]

section Sample

/-- A hash that only `[1, 2, 3]` has. -/
def pickyPlatform : Platform :=
  { samplePlatform (fun _ => .error "") with
    hashBytes := fun x => if x = [1, 2, 3] then .ofByte 32 1 else .ofByte 32 0 }

theorem pickyPlatform_hash {x : Bytes} (h : pickyPlatform.hashBytes x = pickyPlatform.hashBytes [1, 2, 3]) :
    x = [1, 2, 3] := by
  by_contra hx
  have hne : pickyPlatform.hashBytes x = .ofByte 32 0 := if_neg hx
  rw [hne] at h
  revert h
  decide

def samplePut : ObjectPut := ⟨[1, 2, 3], .blob none (.ofByte 32 0), sampleNode 9, 0⟩

def sampleHolder : UnifiedStore :=
  UnifiedStore.empty.handle pickyPlatform (.putObject [1, 2, 3] (.blob none (.ofByte 32 0)) (sampleNode 9) 0)

def sampleFetchEvents : List FetchEvent :=
  let id := samplePut.objectId pickyPlatform
  [.begin, .peers [⟨[2]⟩] [], .reply (handleUnifiedRequest pickyPlatform sampleHolder (.getObjectMetadata id)),
    .peers [] [⟨[2]⟩], .reply (handleUnifiedRequest pickyPlatform sampleHolder (.getManifest id)), .launch,
    .attempt 0 ⟨[⟨[2]⟩], [], []⟩ fun _ _ r => handleUnifiedRequest pickyPlatform sampleHolder r, .assemble]

theorem fetch_returns_object_sample :
    ∃ s, run (fetchStep pickyPlatform (samplePut.objectId pickyPlatform)) (.start .empty) sampleFetchEvents =
      some s ∧ s.provided = true ∧ s.phase = .done (.ok [1, 2, 3]) := by
  have hrun : ((run (fetchStep pickyPlatform (samplePut.objectId pickyPlatform)) (.start .empty)
      sampleFetchEvents).any fun s => s.provided = true) = true := by decide +kernel
  obtain ⟨s, hs, hp⟩ := exists_of_any hrun
  have hman : ∀ e ∈ sampleFetchEvents, ∀ m ∈ e.manifest? pickyPlatform,
      m.contentHash = pickyPlatform.hashBytes [1, 2, 3] := by decide +kernel
  exact ⟨s, hs, hp, (fetch_returns_object (fun x => pickyPlatform_hash)
    (fun m hm => by simp [UnifiedStore.getManifestByObject, UnifiedStore.empty] at hm)
    (fun e he m hm _ => hman e he m hm) hs).2 hp⟩

end Sample

end Onvm
