import Onvm.ObjectFetch

/-! A fetch that asks nodes of this program, one of which holds the object, returns the object: in
every order of its steps, and within a number of steps that its chunks bound. -/

namespace Onvm

open ByteString OrderedStore Runs Std

def ObjectPut.Unforgeable (pf : Platform) (p : ObjectPut) : Prop :=
  ∀ c ∈ chunkData pf p.data, ∀ x, pf.hashBytes x = pf.hashBytes c.data → x = c.data

def Undisputed (pf : Platform) (p : ObjectPut) (u : UnifiedStore) : Prop :=
  ∀ m, u.getManifestByObject (p.objectId pf) = some m → m = p.manifest pf

section Descriptors

variable {pf : Platform} {p : ObjectPut} {d : ChunkDescriptor}

theorem mem_describeChunks {off : Nat} {cs : List Chunk} (h : d ∈ describeChunks off cs) :
    ∃ c ∈ cs, d.chunkId = c.id ∧ d.size = UInt32.ofNat c.data.length := by
  induction cs generalizing off with
  | nil => cases h
  | cons c cs ih =>
    rcases List.mem_cons.mp h with rfl | h
    · exact ⟨c, List.mem_cons_self, rfl, rfl⟩
    · obtain ⟨c', hc', hd⟩ := ih h
      exact ⟨c', List.mem_cons_of_mem _ hc', hd⟩

theorem exists_describeChunks {off : Nat} {cs : List Chunk} {c : Chunk} (h : c ∈ cs) :
    ∃ d ∈ describeChunks off cs, d.chunkId = c.id := by
  induction cs generalizing off with
  | nil => cases h
  | cons c' cs ih =>
    rcases List.mem_cons.mp h with rfl | h
    · exact ⟨_, List.mem_cons_self, rfl⟩
    · obtain ⟨d, hd, he⟩ := @ih (off + c'.data.length) h
      exact ⟨d, List.mem_cons_of_mem _ hd, he⟩

theorem hasChunk_iff {u : UnifiedStore} {id : ChunkId} :
    u.hasChunk id = true ↔ ∃ data, u.chunks[id.bytes.bytes]? = some data := by
  rw [UnifiedStore.hasChunk, ExtTreeMap.contains_eq_isSome_getElem?, Option.isSome_iff_exists]

theorem mem_desc_iff {running : List FetchTask} {i : Nat} {task : FetchTask} (h : running[i]? = some task) :
    d ∈ running.map FetchTask.desc ↔ d = task.desc ∨ d ∈ (running.eraseIdx i).map FetchTask.desc := by
  obtain ⟨hi, rfl⟩ := List.getElem?_eq_some_iff.mp h
  rw [← List.mem_cons, ← List.map_cons]
  exact ((List.getElem_cons_eraseIdx_perm hi).map FetchTask.desc).mem_iff.symm

def Grows (u u' : UnifiedStore) : Prop := ∀ id, u.hasChunk id = true → u'.hasChunk id = true

theorem grows_storeChunk {u u' : UnifiedStore} {c : Chunk} (h : u.storeChunk pf c = .ok u') : Grows u u' := by
  intro id hid
  rw [UnifiedStore.storeChunk_eq_ok h, UnifiedStore.hasChunk, ExtTreeMap.contains_insert, Bool.or_eq_true]
  exact Or.inr hid

theorem grows_tryStoreChunk (u : UnifiedStore) (c : Chunk) : Grows u (u.tryStoreChunk pf c) := by
  rw [UnifiedStore.tryStoreChunk]
  cases h : u.storeChunk pf c with
  | ok u' => exact grows_storeChunk h
  | error e => exact fun _ hid => hid

theorem grows_storeAll {u u' : UnifiedStore} {cs : List Chunk} (h : u.storeAll pf cs = .ok u') : Grows u u' := by
  induction cs generalizing u with
  | nil =>
    cases h
    exact fun _ hid => hid
  | cons c cs ih =>
    obtain ⟨u₁, hc, h⟩ := bind_eq_ok h
    exact fun id hid => ih h id (grows_storeChunk hc id hid)

theorem grows_storeChunks (u : UnifiedStore) (cs : List (ChunkId × Option Bytes)) :
    Grows u (u.storeChunks pf cs) := by
  induction cs generalizing u with
  | nil => exact fun _ hid => hid
  | cons c cs ih =>
    obtain ⟨id, data⟩ := c
    cases data with
    | none => exact ih u
    | some data => exact fun id' hid => ih _ id' (grows_tryStoreChunk u _ id' hid)

theorem grows_handle (u : UnifiedStore) (e : StoreEvent) : Grows u (u.handle pf e) := by
  cases e with
  | putObject data t publisher now =>
    rw [UnifiedStore.handle]
    cases hp : u.putObject pf data t publisher now with
    | error e => exact fun _ hid => hid
    | ok r =>
      obtain ⟨-, u₁, hchunks, hall⟩ := putObject_spec hp
      intro id hid
      refine grows_storeAll hall id ?_
      rw [UnifiedStore.hasChunk, hchunks]
      exact hid
  | chunkResponse c => exact grows_tryStoreChunk u c
  | chunksResponse cs => exact grows_storeChunks u cs
  | manifestGossip m =>
    rw [UnifiedStore.handle]
    split <;> exact fun _ hid => hid
  | objectMetadataGossip o =>
    rw [UnifiedStore.handle]
    split <;> exact fun _ hid => hid
  | _ => exact fun _ hid => hid

theorem ObjectPut.Unforgeable.held (hun : p.Unforgeable pf) {u : UnifiedStore} (hu : ChunksIn pf Set.univ u)
    (hm : u.getManifestByObject (p.objectId pf) = some (p.manifest pf))
    (hall : ∀ d ∈ (p.manifest pf).chunks, u.hasChunk d.chunkId = true) : p.Held pf u := by
  refine ⟨hm, fun c hc => ?_⟩
  obtain ⟨d, hd, hid⟩ := @exists_describeChunks 0 _ _ hc
  obtain ⟨data, hdata⟩ := hasChunk_iff.mp (hall d hd)
  rw [hid] at hdata
  have hhash := (hu c.id data hdata).2
  rw [id_of_mem_chunkData hc] at hhash
  rw [hdata, hun c hc data hhash.symm]

theorem ObjectPut.validate : (p.manifest pf).validate = .ok () :=
  @validateChunks_describeChunks 0 0 _ fun _ hc => length_of_mem_chunkData hc

end Descriptors

def Sought.work (n : Nat) : Sought → Nat
  | .metadata => 2 * n + 7
  | .manifest => 2 * n + 1

/-- A bound on the steps that a fetch of `n` chunks still takes. -/
def FetchPhase.work (n : Nat) : FetchPhase → Nat
  | .begin => 2 * n + 14
  | .seek k => k.work n + 6
  | .ask k peers => k.work n + peers.length
  | .chunks waiting running => 2 * waiting.length + running.length + 1
  | .polls _ _ | .done _ => 0

section Fair

variable (pf : Platform) (p : ObjectPut) (holder : PeerId → Prop)

/-- The peers asked include a holder, which answers with the record it is asked for; no peer sends another
manifest of the object, and none comes in otherwise. Of those asked for a chunk one is honest, and those
before it are truthful. -/
def FairEvent (s : ObjectFetch) : FetchEvent → Prop
  | .peers providers connected => ∃ q ∈ (candidates providers connected).take maxPeersAsked, holder q
  | .reply answer => ∀ k q rest, s.phase = .ask k (q :: rest) →
      (∀ m, answer = .ok (.manifest (some m)) → m = p.manifest pf) ∧
        (holder q → (received pf (p.objectId pf) s answer k).isSome = true)
  | .attempt _ lookup answers => ∀ c ∈ chunkData pf p.data, ∃ before q after,
      lookup.providers.take maxProviderTriesPerChunk = before ++ q :: after ∧ Honest answers c q ∧
        ∀ r ∈ before, Truthful answers c r
  | .other e => ∀ m, e.manifest? pf = some m → m.objectId = p.objectId pf → m = p.manifest pf
  | _ => True

def PhaseFair (u : UnifiedStore) : FetchPhase → Prop
  | .begin | .seek _ => True
  | .ask _ peers => ∃ q ∈ peers, holder q
  | .polls _ _ => False
  | .chunks waiting running =>
    u.getManifestByObject (p.objectId pf) = some (p.manifest pf) ∧
      (∀ d ∈ waiting ++ running.map FetchTask.desc, d ∈ (p.manifest pf).chunks) ∧
      ∀ d ∈ (p.manifest pf).chunks,
        u.hasChunk d.chunkId = true ∨ d ∈ waiting ++ running.map FetchTask.desc
  | .done r => r = .ok p.data ∧ p.Held pf u

/-- The fetch takes at most `w` more steps. -/
structure FetchFair (w : Nat) (s : ObjectFetch) : Prop where
  chunks : ChunksIn pf Set.univ s.store
  manifest : Undisputed pf p s.store
  phase : PhaseFair pf p holder s.store s.phase
  work : s.phase.work (p.manifest pf).chunks.length ≤ w

variable {pf p holder} {w : Nat} {s s' : ObjectFetch} {e : FetchEvent}

theorem FetchFair.mono {w' : Nat} (h : FetchFair pf p holder w s) (hle : w ≤ w') : FetchFair pf p holder w' s :=
  ⟨h.chunks, h.manifest, h.phase, h.work.trans hle⟩

theorem Undisputed.put {u u' : UnifiedStore} (h : Undisputed pf p u) {m : Manifest}
    (hm : m.objectId = p.objectId pf → m = p.manifest pf) (hu : u'.manifests = u.manifests.put m) :
    Undisputed pf p u' := by
  intro m' hm'
  obtain ⟨hid, rfl⟩ | hold := getManifest_put hu hm'
  · exact hm hid
  · exact h m' hold

theorem askPeers_of_mem {k : Sought} {peers : List PeerId} {q : PeerId} (h : q ∈ peers) :
    askPeers k peers = .ask k peers := by
  rw [askPeers, if_neg (by simpa using List.ne_nil_of_mem h)]

theorem fair_launchChunk (h : FetchFair pf p holder w s) {d : ChunkDescriptor} {waiting : List ChunkDescriptor}
    {running : List FetchTask} (hp : s.phase = .chunks (d :: waiting) running) :
    FetchFair pf p holder (2 * waiting.length + running.length + 2) (launchChunk s d waiting running) := by
  have hphase := h.phase
  rw [hp] at hphase
  obtain ⟨hm, hsub, hall⟩ := hphase
  rw [launchChunk]
  split_ifs with hh
  · refine ⟨h.chunks, h.manifest, ⟨hm, fun d' hd' => hsub d' (List.mem_cons_of_mem _ hd'), fun d' hd' => ?_⟩,
      Nat.le_succ _⟩
    rcases hall d' hd' with hs | hw
    · exact Or.inl hs
    · rcases List.mem_cons.mp hw with rfl | hw
      · exact Or.inl hh
      · exact Or.inr hw
  · have hmem : ∀ d', d' ∈ waiting ++ (running ++ [(⟨d, 0⟩ : FetchTask)]).map FetchTask.desc ↔
        d' ∈ d :: waiting ++ running.map FetchTask.desc := by
      intro d'
      simp only [List.map_append, List.map_cons, List.map_nil, List.mem_append, List.mem_cons, List.not_mem_nil]
      tauto
    refine ⟨h.chunks, h.manifest, ⟨hm, fun d' hd' => hsub d' ((hmem d').mp hd'),
      fun d' hd' => (hall d' hd').imp_right (hmem d').mpr⟩, ?_⟩
    simp only [FetchPhase.work, List.length_append, List.length_singleton]
    omega

theorem fair_attemptChunk (h : FetchFair pf p holder w s)
    {waiting : List ChunkDescriptor} {running : List FetchTask} (hp : s.phase = .chunks waiting running)
    {i : Nat} {task : FetchTask} (ht : running[i]? = some task) {providers : List PeerId} {answers : PeerAnswers}
    (hans : ∀ c ∈ chunkData pf p.data, ∃ before q after,
      providers.take maxProviderTriesPerChunk = before ++ q :: after ∧ Honest answers c q ∧
        ∀ r ∈ before, Truthful answers c r) :
    FetchFair pf p holder (2 * waiting.length + running.length)
      (attemptChunk pf (p.objectId pf) s waiting running i task providers answers) := by
  have hphase := h.phase
  rw [hp] at hphase
  obtain ⟨hm, hsub, hall⟩ := hphase
  have hdesc : task.desc ∈ running.map FetchTask.desc := List.mem_map_of_mem (List.mem_of_getElem? ht)
  obtain ⟨c, hc, hid, hsize⟩ := mem_describeChunks (hsub _ (List.mem_append_right _ hdesc))
  obtain ⟨before, q, after, htried, hhonest, hbefore⟩ := hans c hc
  have hlen := length_of_mem_chunkData hc
  have hdata : (fetchChunkDataFromProviders answers providers task.desc.chunkId task.desc.size.toNat []).1 =
      .ok c.data := by
    rw [hid, hsize, UInt32.toNat_ofNat_of_lt' hlen]
    exact fetchChunkDataFromProviders_eq_ok hhonest hlen hbefore htried (Or.inr rfl)
  have hne : ¬ providers.isEmpty = true := by
    intro hnil
    rw [List.isEmpty_iff.mp hnil] at htried
    simp at htried
  have hverify : (⟨task.desc.chunkId, c.data⟩ : Chunk).verify pf = .ok () := by
    rw [hid]
    exact verify_of_mem_chunkData hc
  have hstore : s.store.storeChunk pf ⟨task.desc.chunkId, c.data⟩ =
      .ok { s.store with chunks := s.store.chunks.insert task.desc.chunkId.bytes.bytes c.data } := by
    rw [UnifiedStore.storeChunk, hverify]
    rfl
  rw [attemptChunk, if_neg hne, hdata]
  dsimp only
  rw [hverify, hstore]
  refine ⟨h.chunks.storeChunk (Set.mem_univ _) hstore, h.manifest, ⟨hm, fun d hd => hsub d ?_, fun d hd => ?_⟩, ?_⟩
  · rw [List.mem_append, mem_desc_iff ht]
    exact (List.mem_append.mp hd).imp_right Or.inr
  · obtain hs | hd := hall d hd
    · exact Or.inl (grows_storeChunk hstore d.chunkId hs)
    · rw [List.mem_append, mem_desc_iff ht] at hd
      rcases hd with hd | rfl | hd
      · exact Or.inr (List.mem_append_left _ hd)
      · exact Or.inl (hasChunk_iff.mpr ⟨c.data, ExtTreeMap.getElem?_insert_self⟩)
      · exact Or.inr (List.mem_append_right _ hd)
  · obtain ⟨hi, -⟩ := List.getElem?_eq_some_iff.mp ht
    change 2 * waiting.length + (running.eraseIdx i).length + 1 ≤ _
    rw [List.length_eraseIdx, if_pos hi]
    omega

section Whole

variable (hun : p.Unforgeable pf)

include hun

theorem fair_enterChunks (hc : ChunksIn pf Set.univ s.store)
    (hm : s.store.getManifestByObject (p.objectId pf) = some (p.manifest pf)) :
    FetchFair pf p holder (Sought.manifest.work (p.manifest pf).chunks.length)
      (enterChunks pf (p.objectId pf) s (p.manifest pf)) := by
  have hund : Undisputed pf p s.store := fun m h => (Option.some.inj (hm.symm.trans h)).symm
  rw [enterChunks, ObjectPut.validate]
  dsimp only
  by_cases hmiss : ((p.manifest pf).chunks.filter fun d => !s.store.hasChunk d.chunkId).isEmpty
  · have hall : ∀ d ∈ (p.manifest pf).chunks, s.store.hasChunk d.chunkId = true := by
      intro d hd
      have hnil := List.filter_eq_nil_iff.mp (List.isEmpty_iff.mp hmiss) d hd
      simpa using hnil
    have hheld := hun.held hc hm hall
    rw [if_pos hmiss, hheld.getObject]
    exact ⟨hc, hund, ⟨rfl, hheld⟩, Nat.zero_le _⟩
  · have hle := List.length_filter_le (fun d : ChunkDescriptor => !s.store.hasChunk d.chunkId) (p.manifest pf).chunks
    rw [if_neg hmiss]
    refine ⟨hc, hund, ⟨hm, fun d hd => ?_, fun d hd => ?_⟩, ?_⟩
    · rw [List.map_nil, List.append_nil] at hd
      exact (List.mem_filter.mp hd).1
    · by_cases hh : s.store.hasChunk d.chunkId = true
      · exact Or.inl hh
      · rw [List.map_nil, List.append_nil]
        exact Or.inr (List.mem_filter.mpr ⟨hd, by simpa using hh⟩)
    · simp only [FetchPhase.work, Sought.work, List.length_nil]
      omega

theorem fair_enterManifest (hc : ChunksIn pf Set.univ s.store) (hund : Undisputed pf p s.store) :
    FetchFair pf p holder (Sought.metadata.work (p.manifest pf).chunks.length)
      (enterManifest pf (p.objectId pf) s) := by
  rw [enterManifest]
  cases hm : s.store.getManifestByObject (p.objectId pf) with
  | none => exact ⟨hc, hund, trivial, le_rfl⟩
  | some m =>
    obtain rfl := hund m hm
    exact (fair_enterChunks hun hc hm).mono (by simp only [Sought.work]; omega)

theorem fair_begin (hc : ChunksIn pf Set.univ s.store) (hund : Undisputed pf p s.store) :
    FetchFair pf p holder (Sought.metadata.work (p.manifest pf).chunks.length + 6)
      (beginFetch pf (p.objectId pf) s) := by
  rw [beginFetch]
  by_cases hcomp : s.store.isComplete (p.objectId pf) = true
  · rw [if_pos hcomp]
    cases hm : s.store.getManifestByObject (p.objectId pf) with
    | none =>
      rw [UnifiedStore.isComplete, hm] at hcomp
      cases hcomp
    | some m =>
      obtain rfl := hund m hm
      have hheld := hun.held hc hm fun d hd => hasChunk_of_isComplete hm hcomp hd
      exact ⟨hc, hund, ⟨hheld.getObject, hheld⟩, Nat.zero_le _⟩
  · rw [if_neg hcomp, enterWith]
    cases s.store.getObjectMetadata (p.objectId pf) with
    | none => exact ⟨hc, hund, trivial, le_rfl⟩
    | some o => exact (fair_enterManifest hun hc hund).mono (Nat.le_add_right _ _)

theorem fair_received (h : FetchFair pf p holder w s) {k : Sought} {answer : Except String UnifiedResponse}
    (ha : ∀ m, answer = .ok (.manifest (some m)) → m = p.manifest pf)
    (hr : received pf (p.objectId pf) s answer k = some s') :
    FetchFair pf p holder (k.work (p.manifest pf).chunks.length) s' := by
  obtain ⟨i, o, rfl, -, rfl⟩ | ⟨m, rfl, hm, rfl⟩ := received_cases hr
  · exact fair_enterManifest hun h.chunks h.manifest
  · obtain rfl := ha m hm
    exact fair_enterChunks hun h.chunks ((Keyed.get_put _ _ _).trans (if_pos rfl))

theorem fair_assemble (h : FetchFair pf p holder w s) (hp : s.phase = .chunks [] []) :
    FetchFair pf p holder 0 (assemble pf (p.objectId pf) s) := by
  have hphase := h.phase
  rw [hp] at hphase
  obtain ⟨hm, -, hall⟩ := hphase
  have hheld := hun.held h.chunks hm fun d hd => (hall d hd).resolve_right List.not_mem_nil
  rw [assemble, hheld.getObject]
  exact ⟨h.chunks, h.manifest, ⟨rfl, hheld⟩, le_rfl⟩

theorem fair_other (h : FetchFair pf p holder w s) {e : StoreEvent}
    (he : ∀ m, e.manifest? pf = some m → m.objectId = p.objectId pf → m = p.manifest pf) :
    FetchFair pf p holder w { s with store := s.store.handle pf e } := by
  have hc : ChunksIn pf Set.univ (s.store.handle pf e) := h.chunks.handle fun x _ => Set.mem_univ x
  have hund : Undisputed pf p (s.store.handle pf e) := by
    obtain hsame | ⟨m, hm, hput⟩ := @handle_manifests pf s.store e
    · intro m hm
      rw [getManifest_congr hsame] at hm
      exact h.manifest m hm
    · exact h.manifest.put (he m hm) hput
  have hkeep : s.store.getManifestByObject (p.objectId pf) = some (p.manifest pf) →
      (s.store.handle pf e).getManifestByObject (p.objectId pf) = some (p.manifest pf) := by
    intro hold
    obtain hsame | ⟨m, hm, hput⟩ := @handle_manifests pf s.store e
    · rw [getManifest_congr hsame, hold]
    · rw [UnifiedStore.getManifestByObject, hput, Keyed.get_put]
      split_ifs with hid
      · rw [he m hm (ObjectId.eq_of_bytes hid)]
      · exact hold
  refine ⟨hc, hund, ?_, h.work⟩
  have hphase := h.phase
  change PhaseFair pf p holder (s.store.handle pf e) s.phase
  cases hp : s.phase with
  | chunks waiting running =>
    rw [hp] at hphase
    obtain ⟨hm, hsub, hall⟩ := hphase
    exact ⟨hkeep hm, hsub, fun d hd => (hall d hd).imp_left (grows_handle _ e d.chunkId)⟩
  | done r =>
    rw [hp] at hphase
    obtain ⟨hr, hheld⟩ := hphase
    refine ⟨hr, hun.held hc (hkeep hheld.manifest) fun d hd => ?_⟩
    exact grows_handle _ e d.chunkId (UnifiedStore.hasChunk_describeChunks hheld.chunks hd)
  | _ =>
    rw [hp] at hphase
    exact hphase

theorem FetchFair.step (h : FetchFair pf p holder w s) (he : FairEvent pf p holder s e)
    (hs : fetchStep pf (p.objectId pf) s e = some s') :
    ∃ w', FetchFair pf p holder w' s' ∧ w' + e.own.toNat ≤ w := by
  have hphase := h.phase
  have hwork := h.work
  cases fetchMove_of_step hs with
  | other => exact ⟨w, fair_other hun h he, le_rfl⟩
  | begin hp =>
    rw [hp] at hwork
    exact ⟨_, fair_begin hun h.chunks h.manifest, hwork⟩
  | noPeers hp hnone =>
    obtain ⟨q, hq, -⟩ := he
    rw [List.isEmpty_iff.mp hnone] at hq
    cases hq
  | @peers k providers connected hp =>
    obtain ⟨q, hq, hholder⟩ := he
    rw [hp] at hwork
    refine ⟨k.work (p.manifest pf).chunks.length + 5, ?_, hwork⟩
    rw [askPeers_of_mem hq]
    exact ⟨h.chunks, h.manifest, ⟨q, hq, hholder⟩, Nat.add_le_add_left (List.length_take_le ..) _⟩
  | @reply k q rest answer hp =>
    obtain ⟨hm, hsent⟩ := he k q rest hp
    rw [hp] at hphase hwork
    simp only [FetchPhase.work, List.length_cons] at hwork
    rw [takeReply]
    cases hr : received pf (p.objectId pf) s answer k with
    | some s₁ => exact ⟨_, fair_received hun h hm hr, by simp only [FetchEvent.own, Bool.toNat_true]; omega⟩
    | none =>
      obtain ⟨q', hq', hholder⟩ := hphase
      rcases List.mem_cons.mp hq' with rfl | hq'
      · have hsome := hsent hholder
        rw [hr] at hsome
        cases hsome
      · rw [Option.getD_none, askPeers_of_mem hq']
        exact ⟨k.work (p.manifest pf).chunks.length + rest.length,
          ⟨h.chunks, h.manifest, ⟨q', hq', hholder⟩, le_rfl⟩, hwork⟩
  | poll hp =>
    rw [hp] at hphase
    exact hphase.elim
  | launch hp =>
    rw [hp] at hwork
    refine ⟨_, fair_launchChunk h hp, ?_⟩
    simp only [FetchPhase.work, FetchEvent.own, List.length_cons, Bool.toNat_true] at hwork ⊢
    omega
  | attempt hp ht =>
    rw [hp] at hwork
    exact ⟨_, fair_attemptChunk h hp ht he, hwork⟩
  | assemble hp =>
    rw [hp] at hwork
    exact ⟨0, fair_assemble hun h hp, hwork⟩

theorem FetchFair.run {evs : List FetchEvent} (h : FetchFair pf p holder w s)
    (hfair : Along (fetchStep pf (p.objectId pf)) (FairEvent pf p holder) s evs)
    (hrun : run (fetchStep pf (p.objectId pf)) s evs = some s') :
    ∃ w', FetchFair pf p holder w' s' ∧ w' + evs.countP FetchEvent.own ≤ w := by
  induction evs generalizing s w with
  | nil =>
    cases hrun
    exact ⟨w, h, le_rfl⟩
  | cons e evs ih =>
    obtain ⟨s₁, hs, hrun⟩ := run_cons_eq_some hrun
    obtain ⟨w₁, h₁, hwork₁⟩ := h.step hun hfair.1 hs
    obtain ⟨w₂, h₂, hwork₂⟩ := ih h₁ (hfair.2 s₁ hs) hrun
    refine ⟨w₂, h₂, ?_⟩
    have hcount : (e :: evs).countP FetchEvent.own = evs.countP FetchEvent.own + e.own.toNat := by
      cases he : e.own with
      | false => exact List.countP_cons_of_neg (by rw [he]; exact Bool.false_ne_true)
      | true => exact List.countP_cons_of_pos he
    omega

end Whole

def Sought.request (id : ObjectId) : Sought → UnifiedRequest
  | .metadata => .getObjectMetadata id
  | .manifest => .getManifest id

theorem ObjectPut.Held.fair_reply {w : UnifiedStore} (hw : p.Held pf w)
    (hmeta : (w.getObjectMetadata (p.objectId pf)).isSome = true) {k : Sought} {peers : List PeerId}
    (hp : s.phase = .ask k peers) :
    FairEvent pf p holder s (.reply (handleUnifiedRequest pf w (k.request (p.objectId pf)))) := by
  intro k' q rest hk
  rw [hp] at hk
  cases hk
  cases k with
  | metadata =>
    obtain ⟨o, ho⟩ := Option.isSome_iff_exists.mp hmeta
    rw [Sought.request, handleUnifiedRequest, if_pos hw.isComplete, ho]
    exact ⟨fun m hm => (by cases hm), fun _ => rfl⟩
  | manifest =>
    rw [Sought.request, handleUnifiedRequest, if_pos hw.isComplete, hw.manifest]
    exact ⟨fun m hm => (by cases hm; rfl), fun _ => rfl⟩

theorem ObjectPut.Held.honest {w : UnifiedStore} (h : p.Held pf w) {answers : PeerAnswers} {q : PeerId} {c : Chunk}
    (hc : c ∈ chunkData pf p.data) (ha : ∀ sent request, answers sent q request = handleUnifiedRequest pf w request) :
    Honest answers c q := by
  refine Honest.of_holds ?_ ha
  have hv : (⟨c.id, c.data⟩ : Chunk).verify pf = .ok () := verify_of_mem_chunkData hc
  rw [UnifiedStore.getChunk, h.chunks c hc]
  simp only [hv, Except.map]

theorem ObjectPut.Held.fair_attempt {w : UnifiedStore} (h : p.Held pf w) (q : PeerId) :
    FairEvent pf p holder s (.attempt 0 ⟨[q], [], []⟩ fun _ _ request => handleUnifiedRequest pf w request) :=
  fun _ hc => ⟨[], q, [], rfl, h.honest hc fun _ _ => rfl, by simp⟩

theorem FetchFair.moves {u : UnifiedStore} (h : FetchFair pf p holder w s) (hrun : s.phase.isDone = false) {q : PeerId}
    (hq : holder q) (hu : p.Held pf u) (hmeta : (u.getObjectMetadata (p.objectId pf)).isSome = true) :
    ∃ e, e.own = true ∧ FairEvent pf p holder s e ∧ (fetchStep pf (p.objectId pf) s e).isSome = true := by
  have hphase := h.phase
  cases hp : s.phase with
  | begin => exact ⟨.begin, rfl, trivial, by rw [fetchStep, hp]; rfl⟩
  | seek k => exact ⟨.peers [q] [], rfl, ⟨q, List.mem_singleton_self q, hq⟩, by rw [fetchStep, hp]; rfl⟩
  | ask k peers =>
    refine ⟨_, rfl, hu.fair_reply hmeta hp, ?_⟩
    rw [hp] at hphase
    obtain ⟨r, hr, -⟩ := hphase
    obtain ⟨r, rest, rfl⟩ := List.exists_cons_of_ne_nil (List.ne_nil_of_mem hr)
    rw [fetchStep, hp]
    rfl
  | polls k left =>
    rw [hp] at hphase
    exact hphase.elim
  | chunks waiting running =>
    cases running with
    | cons t running => exact ⟨_, rfl, hu.fair_attempt q, by rw [fetchStep, hp]; rfl⟩
    | nil =>
      cases waiting with
      | nil => exact ⟨.assemble, rfl, trivial, by rw [fetchStep, hp]; rfl⟩
      | cons d waiting => exact ⟨.launch, rfl, trivial, by rw [fetchStep, hp]; rfl⟩
  | done r =>
    rw [hp] at hrun
    cases hrun

end Fair

/-- A fetch among fair peers ends after at most `2n + 14` steps of its own for `n` chunks, whatever else the node does in
between: it is never stuck before, and what it returns is the object, which the node then holds. -/
theorem fetch_delivers {pf : Platform} {p : ObjectPut} {holder : PeerId → Prop} {u w : UnifiedStore} {q : PeerId}
    {evs : List FetchEvent} {s : ObjectFetch} (hun : p.Unforgeable pf)
    (hu : ChunksIn pf Set.univ u) (hund : Undisputed pf p u) (hq : holder q) (hw : p.Held pf w)
    (hmeta : (w.getObjectMetadata (p.objectId pf)).isSome = true)
    (hfair : Along (fetchStep pf (p.objectId pf)) (FairEvent pf p holder) (.start u) evs)
    (hrun : run (fetchStep pf (p.objectId pf)) (.start u) evs = some s) :
    evs.countP FetchEvent.own ≤ 2 * (p.manifest pf).chunks.length + 14 ∧
      (∀ r, s.phase = .done r → r = .ok p.data ∧ p.Held pf s.store) ∧
      (s.phase.isDone = false → ∃ e, e.own = true ∧ FairEvent pf p holder s e ∧
        (fetchStep pf (p.objectId pf) s e).isSome = true) := by
  have hstart : FetchFair pf p holder _ (.start u) := ⟨hu, hund, trivial, le_rfl⟩
  obtain ⟨w', hs, hwork⟩ := hstart.run hun hfair hrun
  refine ⟨(Nat.le_add_left _ _).trans hwork, fun r hr => ?_, fun hdone => hs.moves hdone hq hw hmeta⟩
  have hphase := hs.phase
  rw [hr] at hphase
  exact hphase

section Sample

def sampleHolds (q : PeerId) : Prop := q = ⟨[2]⟩

theorem samplePut_held : samplePut.Held pickyPlatform sampleHolder := by
  have hm : sampleHolder.getManifestByObject (samplePut.objectId pickyPlatform) =
      some (samplePut.manifest pickyPlatform) := by decide +kernel
  have hc : ∀ c ∈ chunkData pickyPlatform samplePut.data,
      sampleHolder.chunks[c.id.bytes.bytes]? = some c.data := by decide +kernel
  exact ⟨hm, hc⟩

theorem samplePut_metadata :
    (sampleHolder.getObjectMetadata (samplePut.objectId pickyPlatform)).isSome = true := by decide +kernel

theorem samplePut_unforgeable : samplePut.Unforgeable pickyPlatform := by
  have hdata : ∀ c ∈ chunkData pickyPlatform samplePut.data, c.data = [1, 2, 3] := by decide +kernel
  intro c hc x hx
  rw [hdata c hc] at hx ⊢
  exact pickyPlatform_hash hx

theorem sampleFetchEvents_asks {n : Nat} {φ : FetchPhase} {s : ObjectFetch}
    (hs : run (fetchStep pickyPlatform (samplePut.objectId pickyPlatform)) (.start .empty) (sampleFetchEvents.take n) =
      some s)
    (h : ((run (fetchStep pickyPlatform (samplePut.objectId pickyPlatform)) (.start .empty)
      (sampleFetchEvents.take n)).any fun s => s.phase = φ) = true) : s.phase = φ := by
  rw [hs] at h
  exact of_decide_eq_true h

theorem sampleFetchEvents_fair : Along (fetchStep pickyPlatform (samplePut.objectId pickyPlatform))
    (FairEvent pickyPlatform samplePut sampleHolds) (.start .empty) sampleFetchEvents := by
  refine ⟨trivial, fun s₁ h₁ => ⟨⟨_, List.mem_singleton_self _, rfl⟩, fun s₂ h₂ => ⟨?_, fun s₃ h₃ =>
    ⟨⟨_, List.mem_singleton_self _, rfl⟩, fun s₄ h₄ => ⟨?_, fun _ _ => ⟨trivial, fun _ _ =>
      ⟨samplePut_held.fair_attempt _, fun _ _ => ⟨trivial, fun _ _ => trivial⟩⟩⟩⟩⟩⟩⟩⟩
  · have hrun := run_cons h₁ (run_cons h₂ (rfl : run _ _ [] = _))
    exact samplePut_held.fair_reply samplePut_metadata
      (@sampleFetchEvents_asks 2 (.ask .metadata [⟨[2]⟩]) s₂ hrun (by decide +kernel))
  · have hrun := run_cons h₁ (run_cons h₂ (run_cons h₃ (run_cons h₄ (rfl : run _ _ [] = _))))
    exact samplePut_held.fair_reply samplePut_metadata
      (@sampleFetchEvents_asks 4 (.ask .manifest [⟨[2]⟩]) s₄ hrun (by decide +kernel))

theorem fetch_delivers_sample :
    ∃ s, run (fetchStep pickyPlatform (samplePut.objectId pickyPlatform)) (.start .empty) sampleFetchEvents = some s ∧
      s.phase = .done (.ok samplePut.data) ∧ samplePut.Held pickyPlatform s.store := by
  have hrun : ((run (fetchStep pickyPlatform (samplePut.objectId pickyPlatform)) (.start .empty)
      sampleFetchEvents).any fun s => s.phase.isDone = true) = true := by decide +kernel
  obtain ⟨s, hs, hdone⟩ := exists_of_any hrun
  have hq : sampleHolds ⟨[2]⟩ := rfl
  have hund : Undisputed pickyPlatform samplePut .empty := by
    intro m hm
    simp [UnifiedStore.getManifestByObject, UnifiedStore.empty] at hm
  have hspec := fetch_delivers samplePut_unforgeable
    (fun id data h => by simp [UnifiedStore.empty] at h) hund hq samplePut_held samplePut_metadata
    sampleFetchEvents_fair hs
  cases hp : s.phase with
  | done r =>
    obtain ⟨rfl, hheld⟩ := hspec.2.1 r hp
    exact ⟨s, hs, hp, hheld⟩
  | _ =>
    rw [hp] at hdone
    cases hdone

end Sample

end Onvm
