import Onvm.Machine

/-! What the encodings of receipts and program manifests determine. The serializer of a manifest
drops absent optional fields: its bytes still bind every field, but they are not always read back. -/

namespace Onvm

open ByteString Bincode OrderedStore Std

theorem varint_ne_nil (k : Nat) : varint k ≠ [] := by
  unfold varint
  split_ifs <;> simp

theorem CommitteeCertificate.length_enc (c : CommitteeCertificate) :
    32 < (CommitteeCertificate.codec.enc c).length := by
  have hp : (ProgramId.codec.enc c.programId).length = 32 := c.programId.bytes.length_bytes
  have he : 0 < (u64.enc c.epoch).length := List.length_pos_iff.mpr (varint_ne_nil _)
  simp only [CommitteeCertificate.codec, Codec.imap, Codec.prod, List.length_append, hp]
  omega

theorem SubnetId.length_enc (s : SubnetId) : (SubnetId.codec.enc s).length = 32 :=
  s.bytes.length_bytes

def optionalFields (c : Option CommitteeCertificate) (s : Option SubnetId) : Bytes :=
  encodeSkipping CommitteeCertificate.codec c ++
    (encodeSkipping SubnetId.codec s ++ bytes.enc [])

theorem length_optionalFields_none (s : Option SubnetId) : (optionalFields none s).length ≤ 34 := by
  cases s with
  | none => decide
  | some s =>
    have hs := s.length_enc
    simp [optionalFields, encodeSkipping, option, hs, bytes, list, length, varint]

theorem length_optionalFields_some (c : CommitteeCertificate) (s : Option SubnetId) :
    34 < (optionalFields (some c) s).length := by
  have hc := c.length_enc
  simp [optionalFields, encodeSkipping, option, bytes, list, length, varint]
  omega

theorem optionalFields_injective {c c' : Option CommitteeCertificate} {s s' : Option SubnetId}
    (h : optionalFields c s = optionalFields c' s') : c = c' ∧ s = s' := by
  have hsub : ∀ {s s' : Option SubnetId} {r : Bytes},
      encodeSkipping SubnetId.codec s ++ 0 :: r = encodeSkipping SubnetId.codec s' ++ 0 :: r →
      s = s' := by
    intro s s' r h
    cases s with
    | none =>
      cases s' with
      | none => rfl
      | some t => simp [encodeSkipping, option] at h
    | some t =>
      cases s' with
      | none => simp [encodeSkipping, option] at h
      | some t' => exact ((option SubnetId.codec).enc_append_inj h).1
  cases c with
  | none =>
    cases c' with
    | none => exact ⟨rfl, hsub h⟩
    | some d =>
      have h1 := length_optionalFields_none s
      have h2 := length_optionalFields_some d s'
      rw [h] at h1
      omega
  | some d =>
    cases c' with
    | none =>
      have h1 := length_optionalFields_none s'
      have h2 := length_optionalFields_some d s
      rw [h] at h2
      omega
    | some d' =>
      obtain ⟨hd, hs⟩ := (option CommitteeCertificate.codec).enc_append_inj h
      exact ⟨hd, hsub hs⟩

namespace ProgramManifest

def unsigned (m : ProgramManifest) : ProgramManifest := { m with signature := [] }

theorem digest_unsigned {pf : Platform} (m : ProgramManifest) :
    m.unsigned.digest pf = m.digest pf := rfl

theorem unsigned_eq_iff {m n : ProgramManifest} : m.unsigned = n.unsigned ↔
    m.head = n.head ∧ m.committee = n.committee ∧ m.subnetMembership = n.subnetMembership := by
  cases m
  cases n
  simp only [unsigned, head, mk.injEq, ManifestHead.mk.injEq]
  tauto

theorem unsigned_eq_of_encode_eq {m n : ProgramManifest}
    (h : m.unsigned.encode = n.unsigned.encode) : m.unsigned = n.unsigned := by
  obtain ⟨hhead, hopt⟩ := ManifestHead.codec.enc_append_inj h
  exact unsigned_eq_iff.mpr ⟨hhead, optionalFields_injective hopt⟩

end ProgramManifest

def Platform.Collide (pf : Platform) (x y : Bytes) : Prop := x ≠ y ∧ pf.hashBytes x = pf.hashBytes y

theorem Platform.eq_or_collide {pf : Platform} {x y : Bytes} (h : pf.hashBytes x = pf.hashBytes y) :
    x = y ∨ pf.Collide x y := by
  by_cases he : x = y
  · exact Or.inl he
  · exact Or.inr ⟨he, h⟩

/-- A receipt id determines the receipt and a manifest digest every field of the manifest but the
signature, presence of the optional ones included, unless the two encodings that were hashed
collide. -/
theorem digests_bind_fields (pf : Platform) :
    (∀ r s : ExecutionReceipt, r.id pf = s.id pf →
      r = s ∨ pf.Collide (ExecutionReceipt.codec.enc r) (ExecutionReceipt.codec.enc s)) ∧
    ∀ m n : ProgramManifest, m.digest pf = n.digest pf →
      m.unsigned = n.unsigned ∨ pf.Collide m.unsigned.encode n.unsigned.encode := by
  constructor
  · intro r s h
    rcases Platform.eq_or_collide h with he | hc
    · exact Or.inl (ExecutionReceipt.codec.enc_injective he)
    · exact Or.inr hc
  · intro m n h
    rcases Platform.eq_or_collide h with he | hc
    · exact Or.inl (ProgramManifest.unsigned_eq_of_encode_eq he)
    · exact Or.inr hc

theorem digests_bind_fields_sample :
    let m := sampleManifest (sampleCommittee sampleProgram [1] 1)
    m.digest sampleRuntime = m.unsigned.digest sampleRuntime ∧
      (m.unsigned = m.unsigned.unsigned ∨
        sampleRuntime.Collide m.unsigned.encode m.unsigned.unsigned.encode) := by
  intro m
  have hm : m.digest sampleRuntime = m.unsigned.digest sampleRuntime := m.digest_unsigned.symm
  exact ⟨hm, (digests_bind_fields sampleRuntime).2 m m.unsigned hm⟩

theorem dec_option_of_enc_bytes {α : Type} {c : Codec α} {g r : Bytes} {v : Option α}
    (hc : ∀ b, c.dec [b] = none) (h : (option c).dec (bytes.enc g) = some (v, r)) :
    v = none ∧ r = [] := by
  have hg : bytes.dec (bytes.enc g) = some (g, []) := by simpa using bytes.dec_enc g []
  generalize bytes.enc g = e at h hg
  simp only [option] at h
  split at h
  · rename_i r'
    simp only [Option.some.injEq, Prod.mk.injEq] at h
    have hr : bytes.dec (0 :: r') = some ([], r') := rfl
    rw [hr, Option.some.injEq, Prod.mk.injEq] at hg
    exact ⟨h.1.symm, by rw [← h.2, hg.2]⟩
  · rename_i r'
    obtain ⟨a, ha, -⟩ := Option.map_eq_some_iff.mp h
    cases r' with
    | nil => simp [bytes, list, length, readVarint, readMany, Codec.byte] at hg
    | cons b r' =>
      cases r' with
      | nil => rw [hc b] at ha; cases ha
      | cons b' e => simp [bytes, list, length, readVarint, readMany, Codec.byte] at hg
  · cases h

namespace ProgramManifest

def Complete (m : ProgramManifest) : Prop := m.committee.isSome ∧ m.subnetMembership.isSome

instance (m : ProgramManifest) : Decidable m.Complete := inferInstanceAs (Decidable (_ ∧ _))

theorem decode_encode_of_subnet_none {m : ProgramManifest} (hs : m.subnetMembership = none) :
    decode m.encode = none := by
  have hsub : ∀ {v r}, (option SubnetId.codec).dec (bytes.enc m.signature) = some (v, r) →
      v = none ∧ r = [] := dec_option_of_enc_bytes fun b => rfl
  have hcom : ∀ {v r}, (option CommitteeCertificate.codec).dec (bytes.enc m.signature) = some (v, r) →
      v = none ∧ r = [] := dec_option_of_enc_bytes fun b => rfl
  simp only [decode, encode, ManifestHead.codec.dec_enc, Option.bind_some, hs, encodeSkipping,
    List.nil_append]
  cases hm : m.committee with
  | none =>
    simp only [List.nil_append]
    cases hd : (option CommitteeCertificate.codec).dec (bytes.enc m.signature) with
    | none => rfl
    | some d =>
      obtain ⟨-, hr⟩ := hcom hd
      simp only [Option.bind_some, hr]
      rfl
  | some c =>
    simp only [(option CommitteeCertificate.codec).dec_enc, Option.bind_some]
    cases hd : (option SubnetId.codec).dec (bytes.enc m.signature) with
    | none => rfl
    | some d =>
      obtain ⟨-, hr⟩ := hsub hd
      simp only [Option.bind_some, hr]
      rfl

theorem committee_ne_none_of_decode_encode {m m' : ProgramManifest}
    (hs : m.subnetMembership.isSome) (h : decode m.encode = some m') : m'.committee ≠ none := by
  obtain ⟨s, hs⟩ := Option.isSome_iff_exists.mp hs
  cases hm : m.committee with
  | some c =>
    rw [committee_of_decode_encode hm h]
    simp
  | none =>
    simp only [decode, encode, ManifestHead.codec.dec_enc, Option.bind_some, hm, hs, encodeSkipping,
      List.nil_append] at h
    obtain ⟨⟨c, r⟩, hc, h⟩ := Option.bind_eq_some_iff.mp h
    obtain ⟨⟨s', r'⟩, -, h⟩ := Option.bind_eq_some_iff.mp h
    obtain ⟨⟨g, r''⟩, -, h⟩ := Option.map_eq_some_iff.mp h
    obtain ⟨d, -, hd⟩ := Option.map_eq_some_iff.mp hc
    simp only [Prod.mk.injEq] at h hd
    rw [← h, ← hd.1]
    simp

theorem decode_encode_eq_iff {m : ProgramManifest} : decode m.encode = some m ↔ m.Complete := by
  constructor
  · intro h
    have hs : m.subnetMembership.isSome := by
      by_contra hc
      rw [decode_encode_of_subnet_none (by simpa using hc)] at h
      cases h
    exact ⟨Option.isSome_iff_ne_none.mpr (committee_ne_none_of_decode_encode hs h), hs⟩
  · intro h
    obtain ⟨c, hc⟩ := Option.isSome_iff_exists.mp h.1
    obtain ⟨s, hs⟩ := Option.isSome_iff_exists.mp h.2
    exact decode_encode hc hs

end ProgramManifest

namespace ProgramCatalog

def decodeManifests (pf : Platform) : List (Bytes × Bytes) → Except String (List ProgramManifest)
  | [] => .ok []
  | (_, raw) :: rest =>
    match ProgramManifest.decode raw with
    | none => .error (pf.decodeError raw)
    | some m => (decodeManifests pf rest).map (m :: ·)

def listManifests (pf : Platform) (cat : ProgramCatalog) : Except String (List ProgramManifest) :=
  decodeManifests pf cat.manifests.toList

def storeManifests (ms : List ProgramManifest) : ProgramCatalog := ms.foldl storeManifest empty

def lastManifests (ms : List ProgramManifest) : ByteTree ProgramManifest :=
  ms.foldl (fun t m => t.insert m.programId.bytes.bytes m) ∅

theorem manifests_storeManifests (ms : List ProgramManifest) (k : Bytes) :
    (storeManifests ms).manifests[k]? = (lastManifests ms)[k]?.map (·.encode) := by
  have hgen : ∀ (ms : List ProgramManifest) (cat : ProgramCatalog) (t : ByteTree ProgramManifest),
      (∀ k : Bytes, cat.manifests[k]? = t[k]?.map (·.encode)) → ∀ k : Bytes,
      (ms.foldl storeManifest cat).manifests[k]? =
        (ms.foldl (fun t m => t.insert m.programId.bytes.bytes m) t)[k]?.map (·.encode) := by
    intro ms
    induction ms with
    | nil => exact fun cat t h => h
    | cons m ms ih =>
      intro cat t h
      refine ih _ _ fun k => ?_
      simp only [storeManifest, ExtTreeMap.getElem?_insert]
      split_ifs
      · rfl
      · exact h k
  exact hgen ms empty ∅ (fun k => by simp [empty]) k

theorem toList_manifests_storeManifests (ms : List ProgramManifest) :
    (storeManifests ms).manifests.toList =
      (lastManifests ms).toList.map fun e => (e.1, e.2.encode) := by
  refine ascending_ext Prod.fst ExtTreeMap.ordered_keys_toList
    (List.pairwise_map.mpr ExtTreeMap.ordered_keys_toList) ?_
  rintro ⟨k, raw⟩
  rw [ExtTreeMap.mem_toList_iff_getElem?_eq_some, manifests_storeManifests, Option.map_eq_some_iff,
    List.mem_map]
  constructor
  · rintro ⟨m, hm, rfl⟩
    exact ⟨(k, m), ExtTreeMap.mem_toList_iff_getElem?_eq_some.mpr hm, rfl⟩
  · rintro ⟨⟨k', m⟩, hm, he⟩
    obtain ⟨rfl, rfl⟩ := Prod.mk.inj he
    exact ⟨m, ExtTreeMap.mem_toList_iff_getElem?_eq_some.mp hm, rfl⟩

theorem decodeManifests_eq_ok_iff {pf : Platform} {l : List (Bytes × ProgramManifest)} :
    decodeManifests pf (l.map fun e => (e.1, e.2.encode)) = .ok (l.map Prod.snd) ↔
      ∀ m ∈ l.map Prod.snd, m.Complete := by
  induction l with
  | nil => simp [decodeManifests]
  | cons e l ih =>
    rw [List.map_cons, List.map_cons, List.forall_mem_cons, ← ih, ← ProgramManifest.decode_encode_eq_iff,
      decodeManifests]
    cases hd : ProgramManifest.decode e.2.encode with
    | none => simp
    | some m =>
      cases hl : decodeManifests pf (l.map fun e => (e.1, e.2.encode)) with
      | error err => simp [Except.map]
      | ok ms => simp [Except.map]

end ProgramCatalog

/-- A stored manifest is read back as it was exactly if both optional fields are present, and the
catalog lists the last manifest of every program exactly if each of these has both. -/
theorem manifests_persist_iff (pf : Platform) :
    (∀ (cat : ProgramCatalog) (m : ProgramManifest),
      (cat.storeManifest m).getManifest pf m.programId = .ok (some m) ↔ m.Complete) ∧
    ∀ ms : List ProgramManifest,
      (ProgramCatalog.storeManifests ms).listManifests pf =
        .ok ((ProgramCatalog.lastManifests ms).toList.map Prod.snd) ↔
      ∀ m ∈ (ProgramCatalog.lastManifests ms).toList.map Prod.snd, m.Complete := by
  constructor
  · intro cat m
    rw [ProgramCatalog.getManifest_storeManifest, ← ProgramManifest.decode_encode_eq_iff]
    cases ProgramManifest.decode m.encode with
    | none => simp
    | some m' => simp
  · intro ms
    rw [ProgramCatalog.listManifests, ProgramCatalog.toList_manifests_storeManifests]
    exact ProgramCatalog.decodeManifests_eq_ok_iff

theorem manifests_persist_iff_sample :
    let m := sampleManifest (sampleCommittee sampleProgram [1] 1)
    (ProgramCatalog.empty.storeManifest m).getManifest sampleRuntime m.programId = .ok (some m) :=
  ((manifests_persist_iff sampleRuntime).1 _ _).mpr ⟨rfl, rfl⟩

/-- A manifest with neither committee nor subnet is stored, and both readers fail on it. -/
theorem manifest_without_optionals_unreadable :
    let m := { sampleManifest (sampleCommittee sampleProgram [1] 1) with
      committee := none, subnetMembership := none }
    (ProgramCatalog.empty.storeManifest m).getManifest sampleRuntime m.programId =
        .error (sampleRuntime.decodeError m.encode) ∧
      (ProgramCatalog.storeManifests [m]).listManifests sampleRuntime =
        .error (sampleRuntime.decodeError m.encode) := by
  intro m
  have hd : ProgramManifest.decode m.encode = none := ProgramManifest.decode_encode_of_subnet_none rfl
  have hl : (ProgramCatalog.lastManifests [m]).toList = [(m.programId.bytes.bytes, m)] := rfl
  constructor
  · rw [ProgramCatalog.getManifest_storeManifest, hd]
  · rw [ProgramCatalog.listManifests, ProgramCatalog.toList_manifests_storeManifests, hl]
    simp only [List.map_cons, ProgramCatalog.decodeManifests, hd]

end Onvm
