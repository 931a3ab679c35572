import Onvm.IdParsing
import Onvm.UnifiedStore
import Onvm.ContentDetector

/-! The HTTP gateway for blobs (`blob_gateway/server.rs`, `blob_gateway/fetcher.rs`): from the id in the path
to the reply. -/

namespace Onvm

open ByteString

/-- What a request is answered with. A panic of the handler leaves it without an answer. -/
inductive GatewayReply
  | served (headers : List (String × String)) (data : Bytes)
  | refused (status : Nat) (message : String)
  | panicked
deriving DecidableEq

/-- `fetch_object` of a chunk distributor by the number of the request. What it gets on the way is stored,
whether it succeeds or not. -/
abbrev ChunkDistributor := Nat → UnifiedStore → ObjectId → UnifiedStore × Except String Unit

section Fetching

variable (pf : Platform) (distributor : Option ChunkDistributor)

/-- `fetch_blob` of the consensus core. -/
def coreFetchBlob (request : Nat) (u : UnifiedStore) (id : ObjectId) : UnifiedStore × Except String Bytes :=
  if u.isComplete id then (u, u.getObject pf id)
  else
    match distributor with
    | none => (u, .error "blob not available locally and no chunk distributor configured")
    | some fetchObject =>
      let fetched := fetchObject request u id
      match fetched.2 with
      | .error _ => (fetched.1, .error "network blob fetch failed")
      | .ok () =>
        (fetched.1, (fetched.1.getObject pf id).mapError fun _ => "blob fetch completed but still unavailable")

namespace BlobFetcher

def fetchBlob (u : UnifiedStore) (id : ObjectId) : UnifiedStore × Except String Bytes :=
  match u.getObject pf id with
  | .ok data => (u, .ok data)
  | .error _ =>
    let fetched := coreFetchBlob pf distributor 0 u id
    (fetched.1, fetched.2.mapError fun e => "Failed to fetch blob from network: " ++ e)

def checkNetwork (u : UnifiedStore) (id : ObjectId) : UnifiedStore × Bool :=
  let fetched := coreFetchBlob pf distributor 1 u id
  (fetched.1, fetched.2.isOk)

end BlobFetcher

end Fetching

def IdText.parseObjectIdStr (hexError : List Char → String) (input : String) : Except String ObjectId :=
  (parsePrefixedHexId hexError input).map fun found => ⟨found.2⟩

namespace BlobGateway

open ContentDetector

def sizeThresholdBytes : Nat := 50 * 1024 * 1024

def isRenderable (contentType : String) : Bool :=
  "image/".toList.isPrefixOf contentType.toList || "video/".toList.isPrefixOf contentType.toList ||
    "audio/".toList.isPrefixOf contentType.toList || contentType == "application/pdf" ||
    "text/".toList.isPrefixOf contentType.toList

def isProgramId (u : UnifiedStore) (id : ObjectId) : Bool :=
  match u.getObjectMetadata id with
  | some o =>
    match o.objectType with
    | .wasmProgram .. => true
    | .blob .. => false
  | none => false

def serve (pf : Platform) (distributor : Option ChunkDistributor) (hexError : List Char → String)
    (syncing missing : String) (respond : Bytes → GatewayReply) (u : UnifiedStore) (idHex : String) :
    UnifiedStore × GatewayReply :=
  match IdText.parseObjectIdStr hexError idHex with
  | .error e => (u, .refused 400 ("Invalid ID: " ++ e))
  | .ok id =>
    if isProgramId u id then
      (u, .refused 400 "ID appears to be a program, not a blob. Gateway only serves blob data.")
    else
      let fetched := BlobFetcher.fetchBlob pf distributor u id
      match fetched.2 with
      | .ok data => (fetched.1, respond data)
      | .error e =>
        if "not found".toList <:+: e.toList then
          let checked := BlobFetcher.checkNetwork pf distributor fetched.1 id
          (checked.1, if checked.2 then .refused 202 syncing else .refused 404 missing)
        else (fetched.1, .refused 500 e)

def isAttachment (download : Bool) (data : Bytes) : Bool :=
  download || decide (sizeThresholdBytes < data.length) || !isRenderable (detect data)

/-- `&id_hex[..12]` panics where `get(..12)` gives nothing. -/
def blobReply (idHex : String) (download : Bool) (data : Bytes) : GatewayReply :=
  if isAttachment download data then
    match byteSplit 12 idHex.toList with
    | none => .panicked
    | some (front, _) =>
      let filename := String.ofList front ++ "." ++ getExtension (detect data)
      .served [("content-type", detect data),
        ("content-disposition", "attachment; filename=\"" ++ filename ++ "\"")] data
  else .served [("content-type", detect data)] data

def cdnReply (data : Bytes) : GatewayReply :=
  .served [("content-type", detect data), ("cache-control", "public, max-age=31536000, immutable"),
    ("access-control-allow-origin", "*")] data

section Handlers

variable (pf : Platform) (distributor : Option ChunkDistributor) (hexError : List Char → String)

def getBlobHandler (download : Bool) (u : UnifiedStore) (idHex : String) : UnifiedStore × GatewayReply :=
  serve pf distributor hexError "Data found in network. Syncing to local node. Please try again later."
    "Blob not found" (blobReply idHex download) u idHex

def cdnServeHandler (u : UnifiedStore) (idHex : String) : UnifiedStore × GatewayReply :=
  serve pf distributor hexError "Content syncing from network. Please try again in a few moments."
    "Content not found" cdnReply u idHex

end Handlers
end BlobGateway

def byteSize (cs : List Char) : Nat := (cs.map Char.utf8Size).sum

@[simp] theorem byteSize_nil : byteSize [] = 0 := rfl

@[simp] theorem byteSize_cons (c : Char) (cs : List Char) : byteSize (c :: cs) = c.utf8Size + byteSize cs := rfl

def Straddles (n : Nat) (cs : List Char) (c : Char) : Prop :=
  ∃ before after, cs = before ++ c :: after ∧ byteSize before < n ∧ n < byteSize before + c.utf8Size

theorem straddles_cons {n : Nat} {c d : Char} {cs : List Char} : Straddles n (d :: cs) c ↔
    (c = d ∧ 0 < n ∧ n < d.utf8Size) ∨ (d.utf8Size ≤ n ∧ Straddles (n - d.utf8Size) cs c) := by
  constructor
  · rintro ⟨before, after, heq, hlt, hgt⟩
    cases before with
    | nil =>
      cases heq
      exact .inl ⟨rfl, hlt, by simpa using hgt⟩
    | cons x before =>
      cases heq
      rw [byteSize_cons] at hlt hgt
      exact .inr ⟨by omega, before, after, rfl, by omega, by omega⟩
  · rintro (⟨rfl, hlt, hgt⟩ | ⟨hle, before, after, rfl, hlt, hgt⟩)
    · exact ⟨[], cs, rfl, hlt, by simpa using hgt⟩
    · refine ⟨d :: before, after, rfl, ?_, ?_⟩ <;> rw [byteSize_cons] <;> omega

theorem byteSplit_eq_none_iff {n : Nat} {cs : List Char} :
    byteSplit n cs = none ↔ byteSize cs < n ∨ ∃ c, Straddles n cs c := by
  induction n, cs using byteSplit.induct with
  | case1 cs => simp [byteSplit, Straddles]
  | case2 n => simp [byteSplit]
  | case3 n c cs hsize ih =>
    have hpos := c.utf8Size_pos
    have hlt : byteSize (c :: cs) < n + 1 ↔ byteSize cs < n + 1 - c.utf8Size := by
      rw [byteSize_cons]
      omega
    have hstraddles (d : Char) : Straddles (n + 1) (c :: cs) d ↔ Straddles (n + 1 - c.utf8Size) cs d := by
      rw [straddles_cons]
      constructor
      · rintro (⟨-, -, hgt⟩ | ⟨-, h⟩)
        · omega
        · exact h
      · exact fun h => .inr ⟨hsize, h⟩
    rw [byteSplit, if_pos hsize, Option.map_eq_none_iff, ih, hlt]
    simp only [hstraddles]
  | case4 n c cs hsize =>
    have hstraddles : Straddles (n + 1) (c :: cs) c := straddles_cons.mpr (.inl ⟨rfl, by omega, by omega⟩)
    simp only [byteSplit, if_neg hsize, true_iff]
    exact .inr ⟨c, hstraddles⟩

theorem length_le_byteSize (cs : List Char) : cs.length ≤ byteSize cs := by
  induction cs with
  | nil => simp
  | cons c cs ih =>
    have hpos := c.utf8Size_pos
    rw [byteSize_cons, List.length_cons]
    omega

theorem utf8Size_of_ascii {c : Char} (h : c.toNat < 128) : c.utf8Size = 1 := by
  refine Char.utf8Size_eq_one_iff.mpr (UInt32.le_iff_toNat_le.mpr ?_)
  change c.toNat ≤ 127
  omega

theorem utf8Size_of_hex {c : Char} (h : (hexValue c).isSome = true) : c.utf8Size = 1 := by
  apply utf8Size_of_ascii
  by_contra hlarge
  rw [hexValue_of_large (by omega)] at h
  cases h

theorem mem_dropWhile_or {α : Type} {p : α → Bool} {l : List α} {a : α} (h : a ∈ l) :
    p a = true ∨ a ∈ l.dropWhile p := by
  rw [← List.takeWhile_append_dropWhile (p := p) (l := l), List.mem_append] at h
  exact h.imp_left List.mem_takeWhile_imp

theorem mem_trim_or {cs : List Char} {c : Char} (h : c ∈ cs) : isWhiteSpace c = true ∨ c ∈ trim cs := by
  rcases mem_dropWhile_or h with hspace | hmem
  · exact .inl hspace
  · rw [trim, List.mem_reverse]
    exact mem_dropWhile_or (List.mem_reverse.mpr hmem)

theorem length_trim_le (cs : List Char) : (trim cs).length ≤ cs.length := by
  rw [trim_eq_rdropWhile]
  exact (List.rdropWhile_prefix _ _).length_le.trans (List.dropWhile_suffix _).length_le

theorem ReadsAs.chars {text : List Char} {bytes : Bytes32} {found : Option IdPrefix}
    (h : ReadsAs text bytes found) :
    (∀ c ∈ text, isWhiteSpace c = true ∨ c.utf8Size = 1) ∧ 64 ≤ text.length := by
  cases found with
  | none =>
    have h : Spells text bytes := h
    exact ⟨fun c hc => .inr (utf8Size_of_hex (h.hex c hc)), h.length.ge⟩
  | some kind =>
    obtain ⟨space, digits, ⟨front, rfl, hlower⟩, hspace, hdigits⟩ := h
    constructor
    · intro c hc
      rw [List.mem_append, List.mem_append] at hc
      rcases hc with hfront | hc | hc
      · have hletter : c.toLower ∈ kind.text := hlower ▸ List.mem_map_of_mem hfront
        have hlt := IdPrefix.text_ascii kind _ hletter
        have hle := toNat_le_of_toLower c
        exact .inr (utf8Size_of_ascii (by omega))
      · exact .inl (hspace c hc)
      · exact .inr (utf8Size_of_hex (hdigits.hex c hc))
    · rw [List.length_append, List.length_append, hdigits.length]
      omega

section Accepted

variable {hexError : List Char → String} {s : String} {id : ObjectId}

theorem IdText.parseObjectIdStr_eq_ok :
    parseObjectIdStr hexError s = .ok id ↔ ∃ found, ReadsAs (trim s.toList) id.bytes found := by
  constructor
  · intro h
    obtain ⟨found, hfound, rfl⟩ := Onvm.map_eq_ok h
    exact ⟨found.1, parsePrefixedHexId_eq_ok.mp hfound⟩
  · rintro ⟨found, h⟩
    rw [parseObjectIdStr, parsePrefixedHexId_eq_ok.mpr h]
    rfl

theorem accepted_chars (h : IdText.parseObjectIdStr hexError s = .ok id) {c : Char} (hc : c ∈ s.toList) :
    isWhiteSpace c = true ∨ c.utf8Size = 1 := by
  obtain ⟨found, hreads⟩ := IdText.parseObjectIdStr_eq_ok.mp h
  rcases mem_trim_or hc with hspace | hmem
  · exact .inl hspace
  · exact hreads.chars.1 c hmem

theorem accepted_size (h : IdText.parseObjectIdStr hexError s = .ok id) : 64 ≤ byteSize s.toList := by
  obtain ⟨found, hreads⟩ := IdText.parseObjectIdStr_eq_ok.mp h
  exact hreads.chars.2.trans ((length_trim_le _).trans (length_le_byteSize _))

def spacedText (space : List Char) (id : ObjectId) : String := String.ofList (space ++ id.toText.toList)

theorem spells_toText (id : ObjectId) : Spells id.toText.toList id.bytes :=
  spells_of_decodes (hexDecode_hexEncode _)

theorem parseObjectIdStr_spacedText (hexError : List Char → String) {space : List Char}
    (hspace : ∀ c ∈ space, isWhiteSpace c = true) (id : ObjectId) :
    IdText.parseObjectIdStr hexError (spacedText space id) = .ok id := by
  refine IdText.parseObjectIdStr_eq_ok.mpr ⟨none, ?_⟩
  rw [spacedText, String.toList_ofList, trim_digits hspace (spells_toText id).hex]
  exact spells_toText id

theorem accepted_not_cut_iff (h : IdText.parseObjectIdStr hexError s = .ok id) :
    byteSplit 12 s.toList = none ↔ ∃ c, isWhiteSpace c = true ∧ Straddles 12 s.toList c := by
  have hsize := accepted_size h
  have hspace : ∀ c, Straddles 12 s.toList c → isWhiteSpace c = true := by
    rintro c ⟨before, after, heq, hlt, hgt⟩
    rcases accepted_chars h (c := c) (by simp [heq]) with hspace | hone
    · exact hspace
    · omega
  rw [byteSplit_eq_none_iff]
  constructor
  · rintro (hshort | ⟨c, hc⟩)
    · omega
    · exact ⟨c, hspace c hc, hc⟩
  · rintro ⟨c, -, hc⟩
    exact .inr ⟨c, hc⟩

/-- An accepted id can be cut at byte 12 unless a white-space character of more than one byte is there. -/
theorem accepted_id_cut_iff (h : IdText.parseObjectIdStr hexError s = .ok id) :
    (byteSplit 12 s.toList).isSome = true ↔ ¬ ∃ c, isWhiteSpace c = true ∧ Straddles 12 s.toList c := by
  rw [Option.isSome_iff_ne_none, ne_eq, accepted_not_cut_iff h]

end Accepted

theorem printed_id_cut : (byteSplit 12 (spacedText [] ⟨.ofByte 32 0⟩).toList).isSome = true := by
  have hid := parseObjectIdStr_spacedText (fun _ => "") (List.forall_mem_nil _) ⟨.ofByte 32 0⟩
  refine (accepted_id_cut_iff hid).mpr ?_
  rintro ⟨c, hspace, before, after, heq, -⟩
  have hc : c ∈ (ObjectId.toText ⟨.ofByte 32 0⟩).toList := by
    rw [spacedText, String.toList_ofList, List.nil_append] at heq
    simp [heq]
  exact not_whiteSpace_of_hex (spells_toText _).hex c hc hspace

namespace BlobGateway

section Replies

variable {pf : Platform} {distributor : Option ChunkDistributor} {hexError : List Char → String}
variable {syncing missing : String} {respond : Bytes → GatewayReply} {u : UnifiedStore} {idHex : String}

theorem serve_of_fetched {id : ObjectId} {data : Bytes} (hid : IdText.parseObjectIdStr hexError idHex = .ok id)
    (hprogram : isProgramId u id = false) (hdata : (BlobFetcher.fetchBlob pf distributor u id).2 = .ok data) :
    (serve pf distributor hexError syncing missing respond u idHex).2 = respond data := by
  simp only [serve, hid, hprogram, hdata, Bool.false_eq_true, if_false]

theorem serve_eq_panicked : (serve pf distributor hexError syncing missing respond u idHex).2 = .panicked ↔
    ∃ id data, IdText.parseObjectIdStr hexError idHex = .ok id ∧ isProgramId u id = false ∧
      (BlobFetcher.fetchBlob pf distributor u id).2 = .ok data ∧ respond data = .panicked := by
  constructor
  · intro h
    cases hid : IdText.parseObjectIdStr hexError idHex with
    | error e =>
      simp only [serve, hid] at h
      cases h
    | ok id =>
      cases hprogram : isProgramId u id with
      | true =>
        simp only [serve, hid, hprogram, if_true] at h
        cases h
      | false =>
        cases hdata : (BlobFetcher.fetchBlob pf distributor u id).2 with
        | ok data =>
          rw [serve_of_fetched hid hprogram hdata] at h
          exact ⟨id, data, rfl, hprogram, hdata, h⟩
        | error e =>
          simp only [serve, hid, hprogram, hdata, Bool.false_eq_true, if_false] at h
          split_ifs at h
  · rintro ⟨id, data, hid, hprogram, hdata, hpanic⟩
    rw [serve_of_fetched hid hprogram hdata, hpanic]

theorem blobReply_eq_panicked {download : Bool} {data : Bytes} : blobReply idHex download data = .panicked ↔
    isAttachment download data = true ∧ byteSplit 12 idHex.toList = none := by
  unfold blobReply
  by_cases hattach : isAttachment download data = true
  · rw [if_pos hattach]
    cases hsplit : byteSplit 12 idHex.toList with
    | none => simp [hattach]
    | some parts => simp
  · rw [if_neg hattach]
    simp [hattach]

theorem getBlobHandler_eq_panicked {download : Bool} :
    (getBlobHandler pf distributor hexError download u idHex).2 = .panicked ↔
      ∃ id data, IdText.parseObjectIdStr hexError idHex = .ok id ∧ isProgramId u id = false ∧
        (BlobFetcher.fetchBlob pf distributor u id).2 = .ok data ∧ isAttachment download data = true ∧
        ∃ c, isWhiteSpace c = true ∧ Straddles 12 idHex.toList c := by
  rw [getBlobHandler, serve_eq_panicked]
  constructor
  · rintro ⟨id, data, hid, hprogram, hdata, hpanic⟩
    obtain ⟨hattach, hcut⟩ := blobReply_eq_panicked.mp hpanic
    exact ⟨id, data, hid, hprogram, hdata, hattach, (accepted_not_cut_iff hid).mp hcut⟩
  · rintro ⟨id, data, hid, hprogram, hdata, hattach, hstraddles⟩
    exact ⟨id, data, hid, hprogram, hdata,
      blobReply_eq_panicked.mpr ⟨hattach, (accepted_not_cut_iff hid).mpr hstraddles⟩⟩

end Replies

def blanks : List Char := List.replicate 11 ' ' ++ [Char.ofNat 0xA0]

theorem blanks_whiteSpace : ∀ c ∈ blanks, isWhiteSpace c = true := by
  intro c hc
  rw [blanks, List.mem_append, List.mem_singleton] at hc
  rcases hc with hc | rfl
  · rw [List.eq_of_mem_replicate hc]
    decide
  · decide

theorem straddles_blanks (id : ObjectId) : Straddles 12 (spacedText blanks id).toList (Char.ofNat 0xA0) := by
  refine ⟨List.replicate 11 ' ', id.toText.toList, ?_, by decide +kernel, by decide +kernel⟩
  rw [spacedText, String.toList_ofList, blanks, List.append_assoc]
  rfl

theorem getBlobHandler_blanks {pf : Platform} {u : UnifiedStore} {id : ObjectId} {data : Bytes}
    (hprogram : isProgramId u id = false) (hdata : u.getObject pf id = .ok data)
    (distributor : Option ChunkDistributor) (hexError : List Char → String) :
    (getBlobHandler pf distributor hexError true u (spacedText blanks id)).2 = .panicked := by
  have hid := parseObjectIdStr_spacedText hexError blanks_whiteSpace id
  have hfetch : (BlobFetcher.fetchBlob pf distributor u id).2 = .ok data := by
    rw [BlobFetcher.fetchBlob, hdata]
  have hattach : isAttachment true data = true := rfl
  exact getBlobHandler_eq_panicked.mpr ⟨id, data, hid, hprogram, hfetch, hattach, Char.ofNat 0xA0, by decide,
    straddles_blanks id⟩

/-- A blob of three bytes is stored, and a request for it panics. -/
theorem accepted_id_panics :
    let pf := samplePlatform fun _ => .error "trap"
    let type := ObjectType.blob none (.ofByte 32 0)
    let u := UnifiedStore.empty.handle pf (.putObject [1, 2, 3] type ⟨.ofByte 32 7⟩ 5)
    let id := objectIdFor pf (pf.hashBytes [1, 2, 3]) type
    IdText.parseObjectIdStr (fun _ => "") (spacedText blanks id) = .ok id ∧
      byteSplit 12 (spacedText blanks id).toList = none ∧
      (getBlobHandler pf none (fun _ => "") true u (spacedText blanks id)).2 = .panicked := by
  intro pf type u id
  have hid := parseObjectIdStr_spacedText (fun _ => "") blanks_whiteSpace id
  have hprogram : isProgramId u id = false := by decide +kernel
  have hdata : u.getObject pf id = .ok [1, 2, 3] := by decide +kernel
  exact ⟨hid, (accepted_not_cut_iff hid).mpr ⟨Char.ofNat 0xA0, by decide, straddles_blanks id⟩,
    getBlobHandler_blanks hprogram hdata none _⟩

end BlobGateway
end Onvm
