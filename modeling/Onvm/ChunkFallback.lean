import Onvm.ChunkTransfer

/-! `fetch_single_chunk`: the attempts to fetch one chunk of a manifest, and what it takes for the
fallback from one provider to the next to succeed. -/

namespace Onvm

open ByteString OrderedStore Std

def maxChunkFetchAttempts : Nat := 4

/-- The providers as an attempt finds them: those known, those known after asking for more, and all
connected peers. -/
structure ProviderLookup where
  known : List PeerId
  ensured : List PeerId
  connected : List PeerId

def ProviderLookup.providers (l : ProviderLookup) : List PeerId :=
  if !l.known.isEmpty then l.known else if !l.ensured.isEmpty then l.ensured else l.connected

/-- What a fetch runs among: peers, the sources of providers attempt by attempt, and tasks that use
the store during an attempt. -/
structure FetchEnv where
  answers : PeerAnswers
  lookup : Nat → ProviderLookup
  meanwhile : Nat → UnifiedStore → UnifiedStore

section Fetch

variable (pf : Platform) (env : FetchEnv) (objectId : ObjectId) (desc : ChunkDescriptor)

/-- The attempts from `attempt` on, `left` of them. -/
def fetchAttempts : (left attempt : Nat) → UnifiedStore → List Sent → Except String Unit × UnifiedStore
  | 0, _, u, _ => (.error ("chunk " ++ hexEncode desc.chunkId.bytes.bytes ++ " exceeded max retries"), u)
  | left + 1, attempt, u, sent =>
    let providers := (env.lookup attempt).providers
    let u := env.meanwhile attempt u
    if providers.isEmpty then (.error ("no providers available for " ++ objectId.toText), u)
    else
      match fetchChunkDataFromProviders env.answers providers desc.chunkId desc.size.toNat sent with
      | (.ok data, _) =>
        let chunk : Chunk := ⟨desc.chunkId, data⟩
        match (chunk.verify pf).mapError fun _ => "chunk verification failed" with
        | .error e => (.error e, u)
        | .ok () =>
          match u.storeChunk pf chunk with
          | .error e => (.error e, u)
          | .ok u' => (.ok (), u')
      | (.error e, sent') =>
        if attempt + 1 < maxChunkFetchAttempts then fetchAttempts left (attempt + 1) u sent'
        else (.error e, u)

def fetchSingleChunk (u : UnifiedStore) : Except String Unit × UnifiedStore :=
  if u.hasChunk desc.chunkId then (.ok (), u)
  else fetchAttempts pf env objectId desc maxChunkFetchAttempts 0 u []

end Fetch

theorem UnifiedStore.getChunk_storeChunk {pf : Platform} {u : UnifiedStore} {c : Chunk}
    (hc : c.verify pf = .ok ()) :
    ∃ u', u.storeChunk pf c = .ok u' ∧ u'.getChunk pf c.id = .ok (some c) := by
  refine ⟨{ u with chunks := u.chunks.insert c.id.bytes.bytes c.data }, ?_, ?_⟩
  · rw [storeChunk, hc]
    rfl
  · simp only [getChunk, ExtTreeMap.getElem?_insert_self, hc]
    rfl

section Sizes

variable {pf : Platform} {env : FetchEnv} {objectId : ObjectId} {desc : ChunkDescriptor}

theorem UnifiedStore.getChunk_of_storeChunk {u u' : UnifiedStore} {c : Chunk}
    (h : u.storeChunk pf c = .ok u') : u'.getChunk pf c.id = .ok (some c) := by
  obtain ⟨⟨⟩, hc, -⟩ := bind_eq_ok h
  obtain ⟨u'', hstore, hget⟩ := UnifiedStore.getChunk_storeChunk (u := u) hc
  cases h.symm.trans hstore
  exact hget

theorem size_of_fetchAttempts (hparts : subchunkSizeBytes < desc.size.toNat) {left attempt : Nat}
    {u u' : UnifiedStore} {sent : List Sent}
    (h : fetchAttempts pf env objectId desc left attempt u sent = (.ok (), u')) :
    ∃ data : Bytes, data.length = desc.size.toNat ∧
      u'.getChunk pf desc.chunkId = .ok (some ⟨desc.chunkId, data⟩) := by
  induction left generalizing attempt u sent with
  | zero => cases h
  | succ left ih =>
    rw [fetchAttempts] at h
    dsimp only at h
    split at h
    · cases h
    split at h
    · next data sent' hfetch =>
      split at h
      · cases h
      split at h
      · cases h
      · next u'' hstore =>
        cases h
        refine ⟨data, ?_, UnifiedStore.getChunk_of_storeChunk hstore⟩
        rw [fetchChunkDataFromProviders, if_neg (Nat.not_le.mpr hparts)] at hfetch
        exact length_of_fetchParts (congrArg Prod.fst hfetch) (List.length_replicate ..)
    · split_ifs at h
      · exact ih h
      · cases h

end Sizes

/-- With an honest peer among the first ones the fetch succeeds just if the chunk is stored already, or
if the size of the descriptor is the size of the chunk or at most one part and no request that is sent
gets an answer that passes the checks with wrong bytes. -/
theorem fetchSingleChunk_stores (pf : Platform) (env : FetchEnv) (objectId : ObjectId)
    (desc : ChunkDescriptor) (c : Chunk) (u : UnifiedStore) (before after : List PeerId) (peer : PeerId)
    (hid : desc.chunkId = c.id) (hc : c.verify pf = .ok ())
    (htried : (env.lookup 0).providers.take maxProviderTriesPerChunk = before ++ peer :: after)
    (honest : Honest env.answers c peer) :
    (∃ u', fetchSingleChunk pf env objectId desc u = (.ok (), u') ∧
        if u.hasChunk c.id then u' = u else u'.getChunk pf c.id = .ok (some c)) ↔
      u.hasChunk c.id = true ∨
        ((desc.size.toNat ≤ subchunkSizeBytes ∨ desc.size.toNat = c.data.length) ∧
          RightAlong (AnsweredRight env.answers c) [] (fetchChunkDataFromProviders env.answers
            (env.lookup 0).providers c.id desc.size.toNat []).2) := by
  rw [fetchSingleChunk, hid]
  by_cases hhas : u.hasChunk c.id = true
  · simp [hhas]
  simp only [hhas, Bool.false_eq_true, if_false, false_or]
  by_cases hsize : desc.size.toNat ≤ subchunkSizeBytes ∨ desc.size.toNat = c.data.length
  · obtain ⟨data, asked, hfetch, -, hright⟩ :=
      fetchChunkData_asks before after [] honest desc.size.toNat_lt htried hsize
    have hne : (env.lookup 0).providers.isEmpty = false := by
      cases hp : (env.lookup 0).providers with
      | nil =>
        rw [hp] at htried
        simp at htried
      | cons => rfl
    rw [maxChunkFetchAttempts, fetchAttempts, hid, hfetch, List.nil_append, hright]
    simp only [hne, Bool.false_eq_true, if_false, and_iff_right hsize]
    constructor
    · rintro ⟨u', hfetched, hget⟩
      split at hfetched
      · cases hfetched
      split at hfetched
      · cases hfetched
      · next u'' hstore =>
        cases hfetched
        have hstored : u'.getChunk pf c.id = .ok (some ⟨c.id, data⟩) :=
          UnifiedStore.getChunk_of_storeChunk hstore
        exact (congrArg Chunk.data (Option.some.inj (Except.ok.inj (hget.symm.trans hstored)))).symm
    · rintro rfl
      obtain ⟨u', hstore, hget⟩ := UnifiedStore.getChunk_storeChunk (u := env.meanwhile 0 u) hc
      exact ⟨u', by simp only [hc, Except.mapError, hstore], hget⟩
  · simp only [hsize, false_and, iff_false]
    rintro ⟨u', hfetched, hget⟩
    obtain ⟨data, hlen, hget'⟩ := size_of_fetchAttempts (by omega) hfetched
    rw [hid, hget] at hget'
    have hdata : c.data = data := congrArg Chunk.data (Option.some.inj (Except.ok.inj hget'))
    exact hsize (.inr (hdata ▸ hlen.symm))

section Sample

def sampleChunk : Chunk := ⟨⟨sampleHash [1, 2, 3]⟩, [1, 2, 3]⟩

def forgedAnswers : PeerAnswers := fun _ peer request =>
  match request with
  | .getChunk id => .ok (.chunk id (some (if peer = ⟨[1]⟩ then [9, 9, 9] else [1, 2, 3])))
  | .getChunkPart id offset length => .ok (.chunkPart id offset
      (some (((if peer = ⟨[1]⟩ then [9, 9, 9] else [1, 2, 3] : Bytes).drop offset.toNat).take length.toNat)))
  | _ => .error ""

def sampleFetch (providers : List PeerId) : FetchEnv := ⟨forgedAnswers, fun _ => ⟨providers, [], []⟩, fun _ u => u⟩

theorem honest_forgedAnswers : Honest forgedAnswers sampleChunk ⟨[2]⟩ :=
  ⟨fun _ => rfl, fun _ _ _ _ _ _ => rfl⟩

def missingThenForged : FetchEnv where
  answers sent peer request :=
    if peer = ⟨[3]⟩ then .ok (.chunk sampleChunk.id none) else forgedAnswers sent peer request
  lookup _ := ⟨[⟨[3]⟩, ⟨[2]⟩, ⟨[1]⟩], [], []⟩
  meanwhile _ u := u

theorem fetchSingleChunk_stores_sample :
    ∃ u', fetchSingleChunk (samplePlatform fun _ => .error "") missingThenForged ⟨.ofByte 32 0⟩
      ⟨sampleChunk.id, 3, 0⟩ .empty = (.ok (), u') ∧
      if UnifiedStore.empty.hasChunk sampleChunk.id then u' = .empty
      else u'.getChunk (samplePlatform fun _ => .error "") sampleChunk.id = .ok (some sampleChunk) := by
  refine (fetchSingleChunk_stores _ missingThenForged _ _ sampleChunk .empty [⟨[3]⟩] [⟨[1]⟩] ⟨[2]⟩ rfl
    (by decide +kernel) rfl ⟨fun _ => rfl, fun _ _ _ _ _ _ => rfl⟩).mpr (.inr ⟨.inl (by decide), ?_⟩)
  refine ⟨fun data h => ?_, ?_⟩
  · cases h
  · rintro _ ⟨⟩
    refine ⟨fun data h => ?_, fun _ _ => trivial⟩
    cases h
    rfl

/-- An honest peer is second in the list in every attempt. The first peer answers with other bytes:
they are taken, found out, and that is the end of the fetch. -/
theorem wrong_answer_ends_fetch :
    let pf := samplePlatform fun _ => .error ""
    let env := sampleFetch [⟨[1]⟩, ⟨[2]⟩]
    sampleChunk.verify pf = .ok () ∧ Honest env.answers sampleChunk ⟨[2]⟩ ∧
      (∀ attempt, ⟨[2]⟩ ∈ (env.lookup attempt).providers.take maxProviderTriesPerChunk) ∧
      fetchSingleChunk pf env ⟨.ofByte 32 0⟩ ⟨sampleChunk.id, 3, 0⟩ .empty =
        (.error "chunk verification failed", .empty) := by
  refine ⟨by decide +kernel, honest_forgedAnswers, fun _ => .tail _ (.head _), ?_⟩
  rfl

end Sample

end Onvm
