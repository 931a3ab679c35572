import Onvm.ObjectRoundTrip

/-! How chunks travel: the requests that a node serves from its object store, and the loops of
`chunk_distributor.rs` that fetch a chunk from a list of peers, in parts if it is large. -/

namespace Onvm

open ByteString OrderedStore Std Runs

/-- The requests of `unified_protocol.rs` that are served from the object store. -/
inductive UnifiedRequest
  | getManifest (objectId : ObjectId)
  | getChunk (chunkId : ChunkId)
  | getChunkPart (chunkId : ChunkId) (offset length : UInt32)
  | getChunks (chunkIds : List ChunkId)
  | getObjectAvailability (objectId : ObjectId)
  | getObjectMetadata (objectId : ObjectId)

inductive UnifiedResponse
  | manifest (manifest : Option Manifest)
  | chunk (chunkId : ChunkId) (data : Option Bytes)
  | chunkPart (chunkId : ChunkId) (offset : UInt32) (data : Option Bytes)
  | chunks (chunks : List (ChunkId × Option Bytes))
  | objectAvailability (objectId : ObjectId) (hasObject hasManifest : Bool)
      (availableChunks missingChunks : List ChunkId) (metadata : Option Object)
  | objectMetadata (objectId : ObjectId) (metadata : Option Object)

def handleUnifiedRequest (pf : Platform) (u : UnifiedStore) : UnifiedRequest → Except String UnifiedResponse
  | .getChunk id => (u.getChunk pf id).map fun c => .chunk id (c.map Chunk.data)
  | .getChunkPart id offset length =>
    if length = 0 ∨ UInt32.ofNat chunkSizeSmall < length then .ok (.chunkPart id offset none)
    else
      (u.getChunk pf id).map fun chunk =>
        .chunkPart id offset (chunk.bind fun c =>
          let start := offset.toNat
          if c.data.length ≤ start then none
          else
            let stop := min (start + length.toNat) c.data.length
            some ((c.data.drop start).take (stop - start)))
  | .getManifest id => .ok (.manifest (if u.isComplete id then u.getManifestByObject id else none))
  | .getChunks ids =>
    .ok (.chunks (ids.map fun id =>
      (id, ((u.getChunk pf id).toOption.bind fun c => c).map Chunk.data)))
  | .getObjectAvailability id =>
    let manifest := u.getManifestByObject id
    let missing := (manifest.map u.getMissingChunks).getD []
    let available := (manifest.map fun m =>
      (m.chunks.filter fun d => !missing.contains d.chunkId).map (·.chunkId)).getD []
    .ok (.objectAvailability id (u.isComplete id) manifest.isSome available missing (u.getObjectMetadata id))
  | .getObjectMetadata id =>
    .ok (.objectMetadata id (if u.isComplete id then u.getObjectMetadata id else none))

def subchunkSizeBytes : Nat := chunkSizeSmall

def maxProviderTriesPerChunk : Nat := 3

def maxProviderTriesPerPart : Nat := 3

structure Sent where
  peer : PeerId
  request : UnifiedRequest

/-- What `request_unified` comes back with. Peers are free to answer by all that was asked before. -/
abbrev PeerAnswers := (sent : List Sent) → PeerId → UnifiedRequest → Except String UnifiedResponse

section Fetching

variable (answers : PeerAnswers)

def requestChunkFromPeer (sent : List Sent) (peer : PeerId) (chunkId : ChunkId) : Except String Bytes :=
  match answers sent peer (.getChunk chunkId) with
  | .error e => .error e
  | .ok (.chunk gotId data) =>
    if gotId ≠ chunkId then .error "chunk id mismatch in response"
    else
      match data with
      | none => .error "chunk not found on peer"
      | some data => .ok data
  | .ok _ => .error "unexpected response for GetChunk"

def requestChunkPartFromPeer (sent : List Sent) (peer : PeerId) (chunkId : ChunkId) (offset length : Nat) :
    Except String Bytes :=
  match answers sent peer (.getChunkPart chunkId (UInt32.ofNat offset) (UInt32.ofNat length)) with
  | .error e => .error e
  | .ok (.chunkPart gotId gotOffset data) =>
    if gotId ≠ chunkId then .error "chunk id mismatch in part response"
    else if gotOffset.toNat ≠ offset then
      .error ("chunk part offset mismatch: expected " ++ toString offset ++ ", got " ++ toString gotOffset)
    else
      match data with
      | none => .error "chunk part not found on peer"
      | some data => .ok data
  | .ok _ => .error "unexpected response for GetChunkPart"

/-- The loop over providers, for a whole chunk or for a part: the first answer that is accepted. -/
def tryPeers (request : UnifiedRequest) (ask : List Sent → PeerId → Except String Bytes)
    (accept : Bytes → Bool) : List PeerId → List Sent → Option Bytes × List Sent
  | [], sent => (none, sent)
  | peer :: peers, sent =>
    match ask sent peer with
    | .ok data =>
      if accept data then (some data, sent ++ [⟨peer, request⟩])
      else tryPeers request ask accept peers (sent ++ [⟨peer, request⟩])
    | .error _ => tryPeers request ask accept peers (sent ++ [⟨peer, request⟩])

def tryWhole (chunkId : ChunkId) (peers : List PeerId) (sent : List Sent) : Option Bytes × List Sent :=
  tryPeers (.getChunk chunkId) (fun sent peer => requestChunkFromPeer answers sent peer chunkId)
    (fun _ => true) peers sent

def tryPart (chunkId : ChunkId) (offset wantLen : Nat) (peers : List PeerId) (sent : List Sent) :
    Option Bytes × List Sent :=
  tryPeers (.getChunkPart chunkId (UInt32.ofNat offset) (UInt32.ofNat wantLen))
    (fun sent peer => requestChunkPartFromPeer answers sent peer chunkId offset wantLen)
    (fun part => part.length == wantLen) peers sent

/-- `out[offset..offset + part.len()].copy_from_slice(&part)` -/
def copyAt (out : Bytes) (offset : Nat) (part : Bytes) : Bytes :=
  out.take offset ++ part ++ out.drop (offset + part.length)

def wantLen (chunkSize offset : Nat) : Nat := min subchunkSizeBytes (chunkSize - offset)

def fetchParts (providers : List PeerId) (chunkId : ChunkId) (chunkSize : Nat) (out : Bytes) (offset : Nat)
    (sent : List Sent) : Except String Bytes × List Sent :=
  if _h : offset < chunkSize then
    match tryPart answers chunkId offset (wantLen chunkSize offset) (providers.take maxProviderTriesPerPart)
      sent with
    | (none, sent') =>
      (.error ("all providers failed for chunk " ++ hexEncode chunkId.bytes.bytes ++ " part off=" ++
        toString offset), sent')
    | (some part, sent') =>
      fetchParts providers chunkId chunkSize (copyAt out offset part) (offset + wantLen chunkSize offset) sent'
  else (.ok out, sent)
termination_by chunkSize - offset
decreasing_by
  have hpos : 0 < subchunkSizeBytes := by decide
  rw [wantLen]
  omega

def fetchChunkDataFromProviders (providers : List PeerId) (chunkId : ChunkId) (chunkSize : Nat)
    (sent : List Sent) : Except String Bytes × List Sent :=
  if chunkSize ≤ subchunkSizeBytes then
    match tryWhole answers chunkId (providers.take maxProviderTriesPerChunk) sent with
    | (some data, sent') => (.ok data, sent')
    | (none, sent') => (.error ("all providers failed for chunk " ++ hexEncode chunkId.bytes.bytes), sent')
  else fetchParts answers providers chunkId chunkSize (List.replicate chunkSize 0) 0 sent

end Fetching

def subchunkCountForTotalSize (totalSize : UInt64) : UInt64 :=
  if totalSize = 0 then 0
  else
    let small := UInt64.ofNat chunkSizeSmall
    if UInt64.ofNat largeObjectThresholdBytes < totalSize then
      let large := UInt64.ofNat chunkSizeLarge
      let total := totalSize / large * divCeilU64 large small
      if totalSize % large ≠ 0 then total + divCeilU64 (totalSize % large) small else total
    else divCeilU64 totalSize small

section Loops

variable {request : UnifiedRequest} {ask : List Sent → PeerId → Except String Bytes} {accept : Bytes → Bool}
  {peer : PeerId} {data : Bytes}

theorem tryPeers_head {peers : List PeerId} {sent : List Sent} (hask : ask sent peer = .ok data)
    (hacc : accept data = true) :
    tryPeers request ask accept (peer :: peers) sent = (some data, sent ++ [⟨peer, request⟩]) := by
  simp only [tryPeers, hask, if_pos hacc]

theorem accept_of_tryPeers {peers : List PeerId} {sent : List Sent}
    (h : (tryPeers request ask accept peers sent).1 = some data) : accept data = true := by
  induction peers generalizing sent with
  | nil => cases h
  | cons q peers ih =>
    rw [tryPeers] at h
    split at h
    · split at h
      · cases h
        assumption
      · exact ih h
    · exact ih h

abbrev RightAlong (R : List Sent → Sent → Prop) : List Sent → List Sent → Prop :=
  Along (fun sent s => some (sent ++ [s])) R

theorem rightAlong_append {R : List Sent → Sent → Prop} {sent asked more : List Sent} :
    RightAlong R sent (asked ++ more) ↔ RightAlong R sent asked ∧ RightAlong R (sent ++ asked) more := by
  induction asked generalizing sent with
  | nil => simp [RightAlong, Along]
  | cons s asked ih =>
    simp only [RightAlong, Along, List.cons_append, Option.some.injEq, forall_eq'] at ih ⊢
    rw [ih, List.append_assoc, List.singleton_append, and_assoc]

theorem tryPeers_asks (request : UnifiedRequest) (ask : List Sent → PeerId → Except String Bytes)
    (accept : Bytes → Bool) (before after : List PeerId) (hask : ∀ sent, ask sent peer = .ok data)
    (hacc : accept data = true) {R : List Sent → Sent → Prop}
    (hR : ∀ sent q, R sent ⟨q, request⟩ ↔ ∀ d, ask sent q = .ok d → accept d = true → d = data)
    (sent : List Sent) :
    ∃ d asked, tryPeers request ask accept (before ++ peer :: after) sent = (some d, sent ++ asked) ∧
      accept d = true ∧ ((∀ sent, ∀ q ∈ before, R sent ⟨q, request⟩) → RightAlong R sent asked) ∧
      (RightAlong R sent asked ↔ d = data) := by
  have haccepted : ∀ {sent q d}, ask sent q = .ok d → accept d = true →
      (RightAlong R sent [⟨q, request⟩] ↔ d = data) := by
    intro sent q d hq hd
    simp only [RightAlong, Along, implies_true, and_true, hR]
    exact ⟨fun h => h d hq hd, fun he d' hd' _ => (Except.ok.inj (hd'.symm.trans hq)).trans he⟩
  induction before generalizing sent with
  | nil =>
    have hright := haccepted (hask sent) hacc
    exact ⟨data, [⟨peer, request⟩], tryPeers_head (hask sent) hacc, hacc, fun _ => hright.mpr rfl, hright⟩
  | cons q before ih =>
    have hskip : (∀ d, ask sent q = .ok d → ¬ accept d = true) →
        tryPeers request ask accept (q :: (before ++ peer :: after)) sent =
          tryPeers request ask accept (before ++ peer :: after) (sent ++ [⟨q, request⟩]) := by
      intro hno
      rw [tryPeers]
      cases hq : ask sent q with
      | error e => rfl
      | ok d => exact if_neg (hno d hq)
    by_cases hno : ∀ d, ask sent q = .ok d → ¬ accept d = true
    · obtain ⟨d, asked, htry, hd, hasked, hright⟩ := ih (sent ++ [⟨q, request⟩])
      refine ⟨d, ⟨q, request⟩ :: asked, ?_, hd, ?_, ?_⟩
      · rw [List.cons_append, hskip hno, htry, List.append_assoc, List.singleton_append]
      · intro hbefore
        refine ⟨hbefore sent q (by simp), ?_⟩
        rintro _ ⟨⟩
        exact hasked fun sent q hq => hbefore sent q (List.mem_cons_of_mem _ hq)
      · rw [← hright]
        simp only [RightAlong, Along, Option.some.injEq, forall_eq', and_iff_right_iff_imp]
        exact fun _ => (hR sent q).mpr fun d' hd' hacc' => absurd hacc' (hno d' hd')
    · push Not at hno
      obtain ⟨d, hq, hd⟩ := hno
      refine ⟨d, [⟨q, request⟩], tryPeers_head hq hd, hd, fun hbefore => ?_, haccepted hq hd⟩
      exact ⟨hbefore sent q (by simp), fun _ _ => trivial⟩

end Loops

section Copying

variable {out part : Bytes} {offset : Nat}

theorem length_copyAt (h : offset + part.length ≤ out.length) : (copyAt out offset part).length = out.length := by
  simp only [copyAt, List.length_append, List.length_take, List.length_drop]
  omega

theorem take_copyAt (h : offset + part.length ≤ out.length) :
    (copyAt out offset part).take (offset + part.length) = out.take offset ++ part := by
  have hlen : (out.take offset ++ part).length = offset + part.length := by
    simp only [List.length_append, List.length_take]
    omega
  rw [copyAt, ← hlen, List.take_left]

end Copying

/-- The peer answers requests for the chunk as a holder of it does. -/
structure Honest (answers : PeerAnswers) (c : Chunk) (peer : PeerId) : Prop where
  whole : ∀ sent, answers sent peer (.getChunk c.id) = .ok (.chunk c.id (some c.data))
  part : ∀ sent (offset length : UInt32), 0 < length → length.toNat ≤ chunkSizeSmall →
    offset.toNat < c.data.length →
    answers sent peer (.getChunkPart c.id offset length) =
      .ok (.chunkPart c.id offset (some ((c.data.drop offset.toNat).take length.toNat)))

theorem Honest.of_holds {pf : Platform} {u : UnifiedStore} {answers : PeerAnswers} {c : Chunk} {peer : PeerId}
    (hold : u.getChunk pf c.id = .ok (some c))
    (h : ∀ sent request, answers sent peer request = handleUnifiedRequest pf u request) :
    Honest answers c peer := by
  constructor
  · intro sent
    rw [h, handleUnifiedRequest, hold]
    rfl
  · intro sent offset length hpos hlen hoff
    have hsmall : (UInt32.ofNat chunkSizeSmall).toNat = chunkSizeSmall := by decide
    have hlt : ¬ (length = 0 ∨ UInt32.ofNat chunkSizeSmall < length) := by
      rw [not_or, UInt32.not_lt, UInt32.le_iff_toNat_le, hsmall]
      exact ⟨UInt32.pos_iff_ne_zero.mp hpos, hlen⟩
    rw [h, handleUnifiedRequest, if_neg hlt, hold]
    simp only [Except.map, Option.bind_some, if_neg (show ¬ c.data.length ≤ offset.toNat by omega)]
    have hcut : min (offset.toNat + length.toNat) c.data.length - offset.toNat =
        min length.toNat (c.data.drop offset.toNat).length := by
      rw [List.length_drop]
      omega
    rw [hcut, ← List.take_take, List.take_length]

def AnsweredRight (answers : PeerAnswers) (c : Chunk) (sent : List Sent) (s : Sent) : Prop :=
  match s.request with
  | .getChunk _ => ∀ data, requestChunkFromPeer answers sent s.peer c.id = .ok data → data = c.data
  | .getChunkPart _ offset length => ∀ data,
      requestChunkPartFromPeer answers sent s.peer c.id offset.toNat length.toNat = .ok data →
      data.length = length.toNat → data = (c.data.drop offset.toNat).take length.toNat
  | _ => True

/-- Whatever passes the checks on an answer of the peer is right. -/
structure Truthful (answers : PeerAnswers) (c : Chunk) (peer : PeerId) : Prop where
  whole : ∀ sent data, requestChunkFromPeer answers sent peer c.id = .ok data → data = c.data
  part : ∀ sent offset data, offset < c.data.length →
    requestChunkPartFromPeer answers sent peer c.id offset (wantLen c.data.length offset) = .ok data →
    data.length = wantLen c.data.length offset →
    data = (c.data.drop offset).take (wantLen c.data.length offset)

theorem wantLen_pos {size offset : Nat} (h : offset < size) : 0 < wantLen size offset := by
  have hpos : 0 < subchunkSizeBytes := by decide
  rw [wantLen]
  omega

theorem wantLen_le (size offset : Nat) :
    wantLen size offset ≤ chunkSizeSmall ∧ wantLen size offset ≤ size - offset :=
  ⟨Nat.min_le_left _ _, Nat.min_le_right _ _⟩

section Peers

variable {answers : PeerAnswers} {c : Chunk} {peer : PeerId} {sent : List Sent} {offset : Nat}

theorem Honest.requestChunk (h : Honest answers c peer) (sent : List Sent) :
    requestChunkFromPeer answers sent peer c.id = .ok c.data := by
  simp only [requestChunkFromPeer, h.whole, ne_eq, not_true_eq_false, if_false]

theorem length_part :
    ((c.data.drop offset).take (wantLen c.data.length offset)).length = wantLen c.data.length offset := by
  have hle := (wantLen_le c.data.length offset).2
  rw [List.length_take, List.length_drop]
  omega

theorem Honest.requestChunkPart (h : Honest answers c peer) (hsize : c.data.length < 2 ^ 32)
    (hoff : offset < c.data.length) (sent : List Sent) :
    requestChunkPartFromPeer answers sent peer c.id offset (wantLen c.data.length offset) =
      .ok ((c.data.drop offset).take (wantLen c.data.length offset)) := by
  obtain ⟨hsmall, hle⟩ := wantLen_le c.data.length offset
  have hpos := wantLen_pos hoff
  have h1 : (UInt32.ofNat offset).toNat = offset := UInt32.toNat_ofNat_of_lt' (show offset < 2 ^ 32 by omega)
  have h2 : (UInt32.ofNat (wantLen c.data.length offset)).toNat = wantLen c.data.length offset :=
    UInt32.toNat_ofNat_of_lt' (show wantLen c.data.length offset < 2 ^ 32 by omega)
  have hanswer := h.part sent (UInt32.ofNat offset) (UInt32.ofNat (wantLen c.data.length offset))
    (by rw [UInt32.lt_iff_toNat_lt, h2]; exact hpos) (by rw [h2]; exact hsmall) (by rw [h1]; exact hoff)
  rw [h1, h2] at hanswer
  simp only [requestChunkPartFromPeer, hanswer, h1, ne_eq, not_true_eq_false, if_false]

theorem toNat_part (hsize : c.data.length < 2 ^ 32) (hoff : offset < c.data.length) :
    (UInt32.ofNat offset).toNat = offset ∧
      (UInt32.ofNat (wantLen c.data.length offset)).toNat = wantLen c.data.length offset := by
  obtain ⟨hsmall, hle⟩ := wantLen_le c.data.length offset
  exact ⟨UInt32.toNat_ofNat_of_lt' (show offset < 2 ^ 32 by omega),
    UInt32.toNat_ofNat_of_lt' (show wantLen c.data.length offset < 2 ^ 32 by omega)⟩

variable {providers : List PeerId} (before after : List PeerId)

theorem tryWhole_asks (h : Honest answers c peer) (sent : List Sent) :
    ∃ d asked, tryWhole answers c.id (before ++ peer :: after) sent = (some d, sent ++ asked) ∧
      ((∀ q ∈ before, Truthful answers c q) → RightAlong (AnsweredRight answers c) sent asked) ∧
      (RightAlong (AnsweredRight answers c) sent asked ↔ d = c.data) := by
  obtain ⟨d, asked, htry, -, hasked, hright⟩ := tryPeers_asks (.getChunk c.id)
    (fun sent q => requestChunkFromPeer answers sent q c.id) (fun _ => true) before after
    (R := AnsweredRight answers c) h.requestChunk rfl
    (fun _ _ => by simp [AnsweredRight]) sent
  exact ⟨d, asked, htry, fun hbefore => hasked fun sent q hq => (hbefore q hq).whole sent, hright⟩

theorem tryPart_asks (h : Honest answers c peer) (hsize : c.data.length < 2 ^ 32)
    (hoff : offset < c.data.length) (sent : List Sent) :
    ∃ d asked, tryPart answers c.id offset (wantLen c.data.length offset) (before ++ peer :: after) sent =
        (some d, sent ++ asked) ∧ d.length = wantLen c.data.length offset ∧
      ((∀ q ∈ before, Truthful answers c q) → RightAlong (AnsweredRight answers c) sent asked) ∧
      (RightAlong (AnsweredRight answers c) sent asked ↔
        d = (c.data.drop offset).take (wantLen c.data.length offset)) := by
  obtain ⟨h1, h2⟩ := toNat_part hsize hoff
  obtain ⟨d, asked, htry, hd, hasked, hright⟩ := tryPeers_asks
    (.getChunkPart c.id (UInt32.ofNat offset) (UInt32.ofNat (wantLen c.data.length offset)))
    (fun sent q => requestChunkPartFromPeer answers sent q c.id offset (wantLen c.data.length offset))
    (fun part => part.length == wantLen c.data.length offset) before after (R := AnsweredRight answers c)
    (h.requestChunkPart hsize hoff) (by rw [length_part, beq_self_eq_true])
    (fun _ _ => by simp only [AnsweredRight, h1, h2, beq_iff_eq]) sent
  refine ⟨d, asked, htry, beq_iff_eq.mp hd, fun hbefore => hasked fun sent q hq => ?_, hright⟩
  simp only [AnsweredRight, h1, h2]
  exact fun data => (hbefore q hq).part sent offset data hoff

theorem fetchParts_asks (sent : List Sent) (out : Bytes) (offset : Nat) (h : Honest answers c peer)
    (hsize : c.data.length < 2 ^ 32)
    (htried : providers.take maxProviderTriesPerPart = before ++ peer :: after)
    (hout : out.length = c.data.length) (hoff : offset ≤ c.data.length) :
    ∃ data asked, fetchParts answers providers c.id c.data.length out offset sent = (.ok data, sent ++ asked) ∧
      data.take offset = out.take offset ∧
      ((∀ q ∈ before, Truthful answers c q) → RightAlong (AnsweredRight answers c) sent asked) ∧
      (RightAlong (AnsweredRight answers c) sent asked ↔ data.drop offset = c.data.drop offset) := by
  induction hn : c.data.length - offset using Nat.strong_induction_on generalizing out offset sent with
  | _ n ih =>
  rw [fetchParts]
  by_cases hlt : offset < c.data.length
  · obtain ⟨part, asked, htry, hlen, hasked, hright⟩ :=
      tryPart_asks before after h hsize hlt sent
    have hle := (wantLen_le c.data.length offset).2
    have hpos := wantLen_pos hlt
    have hfits : offset + part.length ≤ out.length := by omega
    obtain ⟨data, more, hparts, hfront, hmore, hrest⟩ := ih _ (by omega) (sent ++ asked)
      (copyAt out offset part) (offset + wantLen c.data.length offset) ((length_copyAt hfits).trans hout)
      (by omega) rfl
    rw [← hlen, take_copyAt hfits] at hfront
    refine ⟨data, asked ++ more, ?_, ?_, ?_, ?_⟩
    · rw [dif_pos hlt, htried, htry, ← List.append_assoc]
      exact hparts
    · have hcut := congrArg (List.take offset) hfront
      rwa [List.take_take, Nat.min_eq_left (Nat.le_add_right _ _), List.take_append_of_le_length
        (by rw [List.length_take]; omega), List.take_take, Nat.min_self] at hcut
    · exact fun hbefore => rightAlong_append.mpr ⟨hasked hbefore, hmore hbefore⟩
    · have hdata : data.drop offset = part ++ data.drop (offset + wantLen c.data.length offset) := by
        have htake : (out.take offset).length = offset := by
          rw [List.length_take]
          omega
        have hsplit := List.take_append_drop (offset + part.length) data
        rw [hfront, List.append_assoc] at hsplit
        have hdrop := congrArg (List.drop offset) hsplit
        nth_rewrite 1 [← htake] at hdrop
        rw [List.drop_left, hlen] at hdrop
        exact hdrop.symm
      have hc : c.data.drop offset = (c.data.drop offset).take (wantLen c.data.length offset) ++
          c.data.drop (offset + wantLen c.data.length offset) := by
        rw [← List.drop_drop, List.take_append_drop]
      rw [rightAlong_append, hright, hrest, hdata]
      constructor
      · rintro ⟨hp, hr⟩
        rw [hp, hr, ← hc]
      · intro he
        rw [hc] at he
        exact List.append_inj he (hlen.trans length_part.symm)
  · have he : offset = c.data.length := by omega
    refine ⟨out, [], ?_, rfl, fun _ => trivial, ?_⟩
    · rw [dif_neg hlt, List.append_nil]
    · rw [he, List.drop_length, ← hout, List.drop_length]
      simp [RightAlong, Along]

omit peer sent before after in
theorem length_of_fetchParts {chunkId : ChunkId} {size : Nat} {out data : Bytes} {sent : List Sent}
    (h : (fetchParts answers providers chunkId size out offset sent).1 = .ok data)
    (hout : out.length = size) : data.length = size := by
  induction hn : size - offset using Nat.strong_induction_on generalizing out offset sent with
  | _ n ih =>
  rw [fetchParts] at h
  by_cases hlt : offset < size
  · rw [dif_pos hlt] at h
    have hlen : ∀ part sent', tryPart answers chunkId offset (wantLen size offset)
        (providers.take maxProviderTriesPerPart) sent = (some part, sent') →
        part.length = wantLen size offset := by
      intro part sent' htry
      exact beq_iff_eq.mp (accept_of_tryPeers (congrArg Prod.fst htry))
    split at h
    · cases h
    · next part sent' htry =>
      have hpart := hlen part sent' htry
      have hle := (wantLen_le size offset).2
      have hpos := wantLen_pos hlt
      exact ih _ (by omega) h ((length_copyAt (by omega)).trans hout) rfl
  · rw [dif_neg hlt] at h
    cases h
    exact hout

theorem fetchChunkData_asks (sent : List Sent) {size : Nat} (h : Honest answers c peer) (h32 : size < 2 ^ 32)
    (htried : providers.take maxProviderTriesPerChunk = before ++ peer :: after)
    (hsize : size ≤ subchunkSizeBytes ∨ size = c.data.length) :
    ∃ data asked, fetchChunkDataFromProviders answers providers c.id size sent = (.ok data, sent ++ asked) ∧
      ((∀ q ∈ before, Truthful answers c q) → RightAlong (AnsweredRight answers c) sent asked) ∧
      (RightAlong (AnsweredRight answers c) sent asked ↔ data = c.data) := by
  rw [fetchChunkDataFromProviders]
  by_cases hle : size ≤ subchunkSizeBytes
  · obtain ⟨d, asked, htry, hasked, hright⟩ :=
      tryWhole_asks before after h sent
    exact ⟨d, asked, by rw [if_pos hle, htried, htry], hasked, hright⟩
  · obtain rfl := hsize.resolve_left hle
    obtain ⟨data, asked, hparts, -, hasked, hright⟩ := fetchParts_asks before after sent
      (List.replicate c.data.length 0) 0 h h32 htried (List.length_replicate ..) (Nat.zero_le _)
    rw [List.drop_zero, List.drop_zero] at hright
    exact ⟨data, asked, by rw [if_neg hle, hparts], hasked, hright⟩

variable {before after}

theorem fetchChunkDataFromProviders_eq_ok {size : Nat} (h : Honest answers c peer) (h32 : size < 2 ^ 32)
    (hbefore : ∀ q ∈ before, Truthful answers c q)
    (htried : providers.take maxProviderTriesPerChunk = before ++ peer :: after)
    (hsize : size ≤ subchunkSizeBytes ∨ size = c.data.length) :
    (fetchChunkDataFromProviders answers providers c.id size sent).1 = .ok c.data := by
  obtain ⟨data, asked, hfetch, hasked, hright⟩ := fetchChunkData_asks before after sent h h32 htried
    hsize
  rw [hfetch, hright.mp (hasked hbefore)]

theorem length_fetchParts_sent {size : Nat} {out : Bytes}
    (hpart : ∀ offset, offset < size → ∀ sent, ∃ part s,
      tryPart answers c.id offset (wantLen size offset) (providers.take maxProviderTriesPerPart) sent =
        (some part, sent ++ [s])) :
    (fetchParts answers providers c.id size out offset sent).2.length =
      sent.length + (size - offset + subchunkSizeBytes - 1) / subchunkSizeBytes := by
  have hS : 0 < subchunkSizeBytes := by decide
  induction hn : size - offset using Nat.strong_induction_on generalizing out offset sent with
  | _ n ih =>
  rw [fetchParts]
  by_cases hlt : offset < size
  · obtain ⟨part, s, hfound⟩ := hpart offset hlt sent
    have hpos := wantLen_pos hlt
    rw [dif_pos hlt, hfound]
    dsimp only
    rw [ih _ (by omega) rfl, List.length_append, List.length_singleton]
    by_cases hfull : subchunkSizeBytes ≤ n
    · have hwant : wantLen size offset = subchunkSizeBytes := Nat.min_eq_left (by omega)
      have hnext : n + subchunkSizeBytes - 1 =
          size - (offset + subchunkSizeBytes) + subchunkSizeBytes - 1 + subchunkSizeBytes := by omega
      rw [hwant, hnext, Nat.add_div_right _ hS]
      omega
    · have hwant : wantLen size offset = size - offset := Nat.min_eq_right (by omega)
      have hlast : n + subchunkSizeBytes - 1 = (n - 1) + subchunkSizeBytes := by omega
      rw [hwant, hlast, Nat.add_div_right _ hS, Nat.div_eq_of_lt (by omega : n - 1 < subchunkSizeBytes),
        Nat.div_eq_of_lt (by omega)]
  · rw [dif_neg hlt, Nat.div_eq_of_lt (by omega)]
    rfl

/-- The requests for a chunk of `size` bytes. -/
def requestCount (size : Nat) : Nat :=
  if size ≤ subchunkSizeBytes then 1 else (size + subchunkSizeBytes - 1) / subchunkSizeBytes

theorem requestCount_of_pos {size : Nat} (h : 0 < size) :
    requestCount size = (size + chunkSizeSmall - 1) / chunkSizeSmall := by
  rw [requestCount]
  split
  · rename_i hle
    have he : size + chunkSizeSmall - 1 = (size - 1) + chunkSizeSmall := by omega
    have hlt : size - 1 < chunkSizeSmall := by
      rw [subchunkSizeBytes] at hle
      omega
    rw [he, Nat.add_div_right _ (by decide), Nat.div_eq_of_lt hlt]
  · rfl

theorem length_fetchChunkData_sent (h : Honest answers c peer) (h32 : c.data.length < 2 ^ 32)
    {rest : List PeerId} :
    (fetchChunkDataFromProviders answers (peer :: rest) c.id c.data.length sent).2.length =
      sent.length + requestCount c.data.length := by
  rw [fetchChunkDataFromProviders, requestCount]
  by_cases hle : c.data.length ≤ subchunkSizeBytes
  · have htry : tryWhole answers c.id ((peer :: rest).take maxProviderTriesPerChunk) sent =
        (some c.data, sent ++ [⟨peer, .getChunk c.id⟩]) := tryPeers_head (h.requestChunk sent) rfl
    rw [if_pos hle, if_pos hle, htry]
    exact List.length_append
  · rw [if_neg hle, if_neg hle]
    refine length_fetchParts_sent fun offset hoff sent => ?_
    exact ⟨_, _, tryPeers_head (h.requestChunkPart h32 hoff sent)
      (by rw [length_part, beq_self_eq_true])⟩

end Peers

section Counting

variable {pf : Platform} {data : Bytes}

theorem sum_requestCount_chunkData :
    ((chunkData pf data).map fun c => requestCount c.data.length).sum =
      if largeObjectThresholdBytes < data.length then
        data.length / chunkSizeLarge * ((chunkSizeLarge + chunkSizeSmall - 1) / chunkSizeSmall) +
          (data.length % chunkSizeLarge + chunkSizeSmall - 1) / chunkSizeSmall
      else (data.length + chunkSizeSmall - 1) / chunkSizeSmall := by
  rw [chunkData, List.map_map]
  by_cases hl : largeObjectThresholdBytes < data.length
  · simp only [if_pos hl]
    refine (sum_splitEvery requestCount (by decide) (Nat.le_refl _)).trans ?_
    rw [requestCount_of_pos (by decide : 0 < chunkSizeLarge)]
    split
    · rename_i hr
      rw [requestCount_of_pos (Nat.pos_of_ne_zero hr)]
    · rename_i hr
      rw [not_not.mp hr]
      rfl
  · simp only [if_neg hl]
    refine (sum_splitEvery requestCount (by decide) (Nat.le_refl _)).trans ?_
    have hone : ∀ n, 0 < n → n ≤ chunkSizeSmall → requestCount n = 1 := fun n _ hn => if_pos hn
    rw [hone chunkSizeSmall (by decide) (Nat.le_refl _), Nat.mul_one, ← div_add_ite_mod (by decide)]
    split
    · rename_i hr
      rw [hone _ (Nat.pos_of_ne_zero hr) (Nat.mod_lt _ (by decide)).le]
    · rfl

theorem toNat_subchunkCount {n : Nat} (hn : n < 2 ^ 64) :
    (subchunkCountForTotalSize (UInt64.ofNat n)).toNat =
      if largeObjectThresholdBytes < n then
        n / chunkSizeLarge * ((chunkSizeLarge + chunkSizeSmall - 1) / chunkSizeSmall) +
          (n % chunkSizeLarge + chunkSizeSmall - 1) / chunkSizeSmall
      else (n + chunkSizeSmall - 1) / chunkSizeSmall := by
  have hnat : (UInt64.ofNat n).toNat = n := UInt64.toNat_ofNat_of_lt' hn
  have hlarge : UInt64.ofNat largeObjectThresholdBytes < UInt64.ofNat n ↔ largeObjectThresholdBytes < n :=
    UInt64.ofNat_lt_iff_lt (by decide) hn
  by_cases h0 : n = 0
  · subst h0
    decide
  · have hnz : UInt64.ofNat n ≠ 0 := by
      rw [ne_eq, ← UInt64.toNat_inj, hnat]
      exact h0
    rw [subchunkCountForTotalSize, if_neg hnz]
    dsimp only
    by_cases hl : largeObjectThresholdBytes < n
    · have hmod : UInt64.ofNat n % UInt64.ofNat chunkSizeLarge = UInt64.ofNat (n % chunkSizeLarge) := by
        rw [← UInt64.toNat_inj, UInt64.toNat_mod, hnat, UInt64.toNat_ofNat_of_lt' (by decide),
          UInt64.toNat_ofNat_of_lt' ((Nat.mod_le _ _).trans_lt hn)]
      have hrest := @toNat_divCeilU64 (n % chunkSizeLarge) chunkSizeSmall ((Nat.mod_le _ _).trans_lt hn)
        (by decide) (by decide)
      have hfull : (UInt64.ofNat n / UInt64.ofNat chunkSizeLarge *
          divCeilU64 (UInt64.ofNat chunkSizeLarge) (UInt64.ofNat chunkSizeSmall)).toNat =
          n / chunkSizeLarge * ((chunkSizeLarge + chunkSizeSmall - 1) / chunkSizeSmall) := by
        rw [UInt64.toNat_mul, UInt64.toNat_div, hnat,
          toNat_divCeilU64 (by decide) (by decide) (by decide), UInt64.toNat_ofNat_of_lt' (by decide)]
        refine Nat.mod_eq_of_lt ?_
        simp only [chunkSizeLarge, chunkSizeSmall]
        omega
      rw [if_pos (hlarge.mpr hl), if_pos hl, hmod]
      by_cases hr : n % chunkSizeLarge = 0
      · rw [hr, if_neg (by decide), hfull]
        rfl
      · have hne : UInt64.ofNat (n % chunkSizeLarge) ≠ 0 := by
          rw [ne_eq, ← UInt64.toNat_inj, UInt64.toNat_ofNat_of_lt' ((Nat.mod_le _ _).trans_lt hn)]
          exact hr
        rw [if_pos hne, UInt64.toNat_add, hfull, hrest]
        refine Nat.mod_eq_of_lt ?_
        simp only [chunkSizeLarge, chunkSizeSmall]
        omega
    · rw [if_neg (mt hlarge.mp hl), if_neg hl, toNat_divCeilU64 hn (by decide) (by decide)]

end Counting

theorem fetchChunkDataFromProviders_nil (answers : PeerAnswers) (chunkId : ChunkId) (chunkSize : Nat)
    (sent : List Sent) : (fetchChunkDataFromProviders answers [] chunkId chunkSize sent).1.toOption = none := by
  rw [fetchChunkDataFromProviders]
  by_cases hle : chunkSize ≤ subchunkSizeBytes
  · rw [if_pos hle]
    rfl
  · rw [if_neg hle, fetchParts, dif_pos (by omega)]
    rfl

/-- Peers that hold a chunk and serve it as this code does: the fetch returns its bytes (there is
nobody to return any if the list is empty), and an object takes as many requests as announced. -/
theorem fetched_chunk_intact (pf : Platform) (held : PeerId → UnifiedStore) (answers : PeerAnswers)
    (providers : List PeerId)
    (hserve : ∀ p ∈ providers, ∀ sent request,
      answers sent p request = handleUnifiedRequest pf (held p) request) :
    (∀ c : Chunk, c.data.length < 2 ^ 32 →
      (∀ p ∈ providers, (held p).getChunk pf c.id = .ok (some c)) → ∀ sent,
      (fetchChunkDataFromProviders answers providers c.id c.data.length sent).1.toOption =
        if providers = [] then none else some c.data) ∧
    ∀ data : Bytes, data.length < 2 ^ 64 → providers ≠ [] →
      (∀ c ∈ chunkData pf data, ∀ p ∈ providers, (held p).getChunk pf c.id = .ok (some c)) →
      ((chunkData pf data).map fun c =>
        (fetchChunkDataFromProviders answers providers c.id c.data.length []).2.length).sum =
        (subchunkCountForTotalSize (UInt64.ofNat data.length)).toNat := by
  cases providers with
  | nil =>
    refine ⟨fun c _ _ sent => ?_, fun data _ hne => absurd rfl hne⟩
    rw [fetchChunkDataFromProviders_nil, if_pos rfl]
  | cons peer rest =>
    have honest : ∀ c : Chunk, (held peer).getChunk pf c.id = .ok (some c) → Honest answers c peer :=
      fun c hold => .of_holds hold (hserve peer (by simp))
    refine ⟨fun c h32 hold sent => ?_, fun data hlen _ hold => ?_⟩
    · have hfetch := @fetchChunkDataFromProviders_eq_ok answers c peer sent (peer :: rest) [] _ _
        (honest c (hold peer (by simp))) h32 (by simp) rfl (.inr rfl)
      rw [if_neg (List.cons_ne_nil _ _), hfetch]
      rfl
    · have hcount : ∀ c ∈ chunkData pf data,
          (fetchChunkDataFromProviders answers (peer :: rest) c.id c.data.length []).2.length =
            requestCount c.data.length := by
        intro c hc
        rw [length_fetchChunkData_sent (honest c (hold c hc peer (by simp))) (length_of_mem_chunkData hc)]
        exact Nat.zero_add _
      rw [List.map_congr_left hcount, sum_requestCount_chunkData, toNat_subchunkCount hlen]

/-- Two chunks of zeros, each in nine parts, and two peers that hold them. -/
theorem fetched_chunk_intact_sample :
    let pf := samplePlatform fun _ => .error ""
    let piece : Bytes := List.replicate chunkSizeLarge 0
    let c : Chunk := ⟨⟨pf.hashBytes piece⟩, piece⟩
    let u : UnifiedStore := { UnifiedStore.empty with
      chunks := UnifiedStore.empty.chunks.insert c.id.bytes.bytes piece }
    let answers : PeerAnswers := fun _ _ request => handleUnifiedRequest pf u request
    let providers : List PeerId := [⟨[7]⟩, ⟨[8]⟩]
    let data : Bytes := List.replicate (2 * chunkSizeLarge) 0
    subchunkSizeBytes < c.data.length ∧
      (fetchChunkDataFromProviders answers providers c.id c.data.length []).1.toOption = some piece ∧
      ((chunkData pf data).map fun c =>
        (fetchChunkDataFromProviders answers providers c.id c.data.length []).2.length).sum = 18 := by
  intro pf piece c u answers providers data
  have hpiece : c.data.length = chunkSizeLarge := List.length_replicate ..
  have hdata : data.length = 2 * chunkSizeLarge := List.length_replicate ..
  have hchunks : chunkData pf data = [c, c] := by
    rw [chunkData, hdata, if_pos (by decide), splitEvery_replicate (by decide) (by decide)]
    rfl
  have hold : u.getChunk pf c.id = .ok (some c) := by
    have hverify : c.verify pf = .ok () := if_neg (by simp [c])
    rw [UnifiedStore.getChunk, show u.chunks[c.id.bytes.bytes]? = some piece from
      ExtTreeMap.getElem?_insert_self]
    change (c.verify pf).map _ = _
    rw [hverify]
    rfl
  have h := fetched_chunk_intact pf (fun _ => u) answers providers fun _ _ _ _ => rfl
  refine ⟨by rw [hpiece]; decide, h.1 c (by rw [hpiece]; decide) (fun _ _ => hold) [], ?_⟩
  refine (h.2 data (by rw [hdata]; decide) (by simp [providers]) fun c' hc' _ _ => ?_).trans ?_
  · have hc : c' = c := by simpa [hchunks] using hc'
    rw [hc]
    exact hold
  · rw [hdata]
    decide

end Onvm
