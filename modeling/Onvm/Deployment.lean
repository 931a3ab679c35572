import Onvm.History
import Onvm.ManifestEncoding
import Onvm.RemoteState

/-! Local deployments beside the messages of peers: which manifests the catalog comes to hold, who
signed them, and what a later manifest of the same program may change. -/

namespace Onvm

open ByteString OrderedStore Runs Std

def deployerCommittee (s : Node) (p : ProgramId) : CommitteeCertificate where
  programId := p
  epoch := 0
  members := [⟨s.nodeId, 1, s.blsPublic⟩]
  threshold := 1
  aggregatePublicKey := s.blsPublic
  signature := none

section Ingestion

variable (pf : Platform) (sign : Bytes → Bytes) (s : Node)

/-- `sign` is the node's ed25519 key. -/
def buildProgramManifest (object : Object) (now : UInt64) : Except String ProgramManifest :=
  match object.objectType with
  | .blob .. => .error "object is not a WASM program"
  | .wasmProgram entrypoint .. =>
    let p : ProgramId := ⟨object.id.bytes⟩
    let manifest : ProgramManifest :=
      { programId := p
        subnetId := ⟨object.id.bytes⟩
        version := 1
        deployer := s.nodeId
        wasmEnvHash := wasmEnvHashV1 pf
        codeManifest := some object.manifestId
        metadataHash := pf.hashBytes (ObjectType.codec.enc object.objectType)
        entrypoints := [entrypoint]
        initialStateRoot := s.states.sparseRootScoped p pf
        dagParent := none
        timestampMs := now
        committee := some (deployerCommittee s p)
        subnetMembership := some ⟨object.id.bytes⟩
        signature := [] }
    .ok { manifest with signature := sign (manifest.digest pf).bytes }

def buildProgramAnnouncement (object : Object) (m : ProgramManifest) : Except String ProgramAnnouncement :=
  match s.unified.getManifestByObject object.id with
  | none => .error ("missing manifest for object " ++ object.id.toText)
  | some manifest => .ok ⟨m, manifest.chunks.map (·.chunkId), []⟩

def ingestLocalProgram (object : Object) (now : UInt64) : Node × Except String ProgramAnnouncement :=
  match buildProgramManifest pf sign s object now with
  | .error e => (s, .error e)
  | .ok m =>
    ({ s with catalog := s.catalog.storeManifest m }, buildProgramAnnouncement s object m)

end Ingestion

inductive NodeEvent
  | op (op : Op)
  | ingest (object : Object) (now : UInt64)

def nodeStep (pf : Platform) (sign : Bytes → Bytes) (s : Node) : NodeEvent → Option Node
  | .op op => step pf s op
  | .ingest object now => some (ingestLocalProgram pf sign s object now).1

section Stored

variable {pf : Platform} {sign : Bytes → Bytes} {s s' : Node} {p : ProgramId} {m m' : ProgramManifest}

theorem buildProgramManifest_eq_ok {object : Object} {now : UInt64}
    (h : buildProgramManifest pf sign s object now = .ok m) :
    m.programId = ⟨object.id.bytes⟩ ∧ m.Complete ∧
      m.initialStateRoot = s.states.sparseRootScoped m.programId pf ∧
      m.committee = some (deployerCommittee s m.programId) := by
  rw [buildProgramManifest] at h
  split at h
  · cases h
  · cases h
    exact ⟨rfl, ⟨rfl, rfl⟩, rfl, rfl⟩

theorem LedgerChange.manifests {op : Op} {L : Ledger} (h : LedgerChange pf s op L) :
    L.catalog.manifests = s.catalog.manifests ∨
      ∃ m, Supplies pf m op ∧ s.catalog.verifyInitialSync pf m = .ok () ∧
        L.catalog.manifests = (s.catalog.storeManifest m).manifests := by
  cases h with
  | same => exact .inl rfl
  | manifest m hm hsync h => exact .inr ⟨m, hm, hsync, h.frame.1⟩
  | bundle b _ h =>
    cases h with
    | ignored => exact .inl rfl
    | cached _ => exact .inl rfl
    | applied _ _ h => exact .inl h.frame.1
  | head p h => exact .inl h.frame.1
  | respond => exact .inl rfl
  | job => exact .inl rfl

inductive Stores (pf : Platform) (sign : Bytes → Bytes) (s : Node) (m : ProgramManifest) : NodeEvent → Prop
  | supplied (op : Op) (hm : Supplies pf m op) (hsync : s.catalog.verifyInitialSync pf m = .ok ()) :
    Stores pf sign s m (.op op)
  | built (object : Object) (now : UInt64) (hm : buildProgramManifest pf sign s object now = .ok m) :
    Stores pf sign s m (.ingest object now)

theorem manifests_nodeStep {e : NodeEvent} (h : nodeStep pf sign s e = some s') :
    s'.catalog.manifests = s.catalog.manifests ∨
      ∃ m, Stores pf sign s m e ∧ s'.catalog.manifests = (s.catalog.storeManifest m).manifests := by
  cases e with
  | op op =>
    rcases (step_ledger h).manifests with hsame | ⟨m, hm, hsync, hst⟩
    · exact .inl hsame
    · exact .inr ⟨m, .supplied op hm hsync, hst⟩
  | ingest object now =>
    cases h
    rw [ingestLocalProgram]
    split
    · exact .inl rfl
    · rename_i m hm
      exact .inr ⟨m, .built object now hm, rfl⟩

theorem stored_nodeStep {e : NodeEvent} (h : nodeStep pf sign s e = some s') {raw : Bytes}
    (hraw : s'.catalog.manifests[p.bytes.bytes]? = some raw) :
    s.catalog.manifests[p.bytes.bytes]? = some raw ∨
      ∃ m, m.encode = raw ∧ m.programId = p ∧ Stores pf sign s m e := by
  rcases manifests_nodeStep h with hsame | ⟨m, hm, hst⟩
  · rw [hsame] at hraw
    exact .inl hraw
  · rw [hst, ProgramCatalog.storeManifest, ExtTreeMap.getElem?_insert] at hraw
    split at hraw
    · rename_i hc
      exact .inr ⟨m, Option.some.inj hraw, ProgramId.eq_of_bytes (LawfulEqOrd.eq_of_compare hc), hm⟩
    · exact .inl hraw

theorem stored_of_run {s₀ : Node} (h₀ : s₀.Fresh) {evs : List NodeEvent}
    (hrun : run (nodeStep pf sign) s₀ evs = some s) {raw : Bytes}
    (hraw : s.catalog.manifests[p.bytes.bytes]? = some raw) :
    Sometime (nodeStep pf sign) (fun t e => ∃ m, m.encode = raw ∧ m.programId = p ∧ Stores pf sign t m e)
      s₀ evs := by
  refine (origin_run (I := fun t => t.catalog.manifests[p.bytes.bytes]? = some raw)
    (fun t e u hu hr => stored_nodeStep hu hr) hrun hraw).resolve_left fun hno => ?_
  rw [h₀] at hno
  simp [Node.fresh, ProgramCatalog.empty] at hno

theorem getManifest_eq_ok_some {cat : ProgramCatalog} (h : cat.getManifest pf p = .ok (some m)) :
    ∃ raw, cat.manifests[p.bytes.bytes]? = some raw ∧ ProgramManifest.decode raw = some m := by
  rw [ProgramCatalog.getManifest] at h
  split at h
  · cases h
  · rename_i raw hraw
    split at h
    · cases h
    · rename_i d hd
      cases h
      exact ⟨raw, hraw, hd⟩

end Stored

section Authentic

def Op.peerManifest : Op → Option ProgramManifest
  | .deliver _ (.programAnnouncement a) => some a.manifest
  | .deliver _ (.programManifest r) => r.manifest
  | _ => none

def SoundMessage (pf : Platform) : NodeEvent → Prop
  | .op op => SignedResponse pf op ∧
      ∀ m ∈ op.peerManifest, m.subnetMembership.isSome → m.committee.isSome
  | .ingest .. => True

instance (pf : Platform) (e : NodeEvent) : Decidable (SoundMessage pf e) :=
  match e with
  | .op op => inferInstanceAs (Decidable (SignedResponse pf op ∧ ∀ m ∈ op.peerManifest, _ → _))
  | .ingest .. => isTrue trivial

def Builds (pf : Platform) (sign : Bytes → Bytes) (m : ProgramManifest) (s : Node) : NodeEvent → Prop
  | .op _ => False
  | .ingest object now => buildProgramManifest pf sign s object now = .ok m

variable {pf : Platform} {sign : Bytes → Bytes} {s : Node} {p : ProgramId} {m m' : ProgramManifest}

theorem Supplies.peerManifest {op : Op} (h : Supplies pf m op) : op.peerManifest = some m := by
  cases h with
  | announced clock a ha _ => exact congrArg some ha
  | responded clock r hr => exact hr

theorem decode_encode_of_committee (h : m.subnetMembership.isSome → m.committee.isSome)
    (hd : ProgramManifest.decode m.encode = some m') : m' = m := by
  by_cases hs : m.subnetMembership.isSome
  · rw [ProgramManifest.decode_encode_eq_iff.mpr ⟨h hs, hs⟩] at hd
    exact (Option.some.inj hd).symm
  · rw [ProgramManifest.decode_encode_of_subnet_none (by simpa using hs)] at hd
    cases hd

theorem Stores.authentic {e : NodeEvent} (h : Stores pf sign s m e) (he : SoundMessage pf e) :
    (m.subnetMembership.isSome → m.committee.isSome) ∧
      (Builds pf sign m s e ∨ verifyManifestSignature pf m = .ok ()) := by
  cases h with
  | supplied op hm hsync => exact ⟨he.2 m hm.peerManifest, .inr (hm.signed he.1)⟩
  | built object now hm => exact ⟨fun _ => (buildProgramManifest_eq_ok hm).2.1.1, .inl hm⟩

/-- In every run in which the manifests of responses are signed and none has a subnet without a
committee, a manifest that the catalog returns was built by this node or is signed by its deployer. -/
theorem manifests_authenticated {s₀ : Node} (h₀ : s₀.Fresh) {evs : List NodeEvent}
    (hevs : ∀ e ∈ evs, SoundMessage pf e) (hrun : run (nodeStep pf sign) s₀ evs = some s)
    (hm : s.catalog.getManifest pf p = .ok (some m)) :
    Sometime (nodeStep pf sign) (Builds pf sign m) s₀ evs ∨ verifyManifestSignature pf m = .ok () := by
  obtain ⟨raw, hraw, hd⟩ := getManifest_eq_ok_some hm
  obtain ⟨front, e, back, t, rfl, ht, m₁, rfl, -, hst⟩ := stored_of_run h₀ hrun hraw
  obtain ⟨hc, hb⟩ := hst.authentic (hevs e (by simp))
  have he : m = m₁ := decode_encode_of_committee hc hd
  subst he
  exact hb.imp_left fun hb => ⟨front, e, back, t, rfl, ht, hb⟩

def sampleSign (digest : Bytes) : Bytes := digest ++ List.replicate 32 0

theorem manifests_authenticated_sample :
    let m := sampleManifest (sampleCommittee sampleProgram [1] 1)
    let evs : List NodeEvent :=
      [.op (.deliver (fun _ => 0) (.programAnnouncement ⟨m, [], []⟩)),
        .op (.deliver (fun _ => 0) (.programManifest ⟨sampleProgram, some m⟩))]
    ∃ s, run (nodeStep sampleRuntime sampleSign) (sampleStart 1) evs = some s ∧
      s.catalog.getManifest sampleRuntime sampleProgram = .ok (some m) ∧
      (Sometime (nodeStep sampleRuntime sampleSign) (Builds sampleRuntime sampleSign m) (sampleStart 1) evs ∨
        verifyManifestSignature sampleRuntime m = .ok ()) := by
  intro m evs
  have hrun : ((run (nodeStep sampleRuntime sampleSign) (sampleStart 1) evs).any fun s =>
      (s.catalog.getManifest sampleRuntime sampleProgram).toOption = some (some m)) = true := by
    decide +kernel
  obtain ⟨s, hs, hm⟩ := exists_of_any hrun
  have hm' := eq_ok_of_toOption hm
  exact ⟨s, hs, hm', manifests_authenticated (sampleStart_fresh 1) (by decide +kernel) hs hm'⟩

theorem unsigned_manifest_returned :
    let m := { sampleManifest (sampleCommittee sampleProgram [1] 1) with signature := [] }
    let evs : List NodeEvent := [.op (.deliver (fun _ => 0) (.programManifest ⟨sampleProgram, some m⟩))]
    ∃ s, run (nodeStep unsignedRuntime sampleSign) (sampleStart 1) evs = some s ∧
      s.catalog.getManifest unsignedRuntime sampleProgram = .ok (some m) ∧
      ¬ Sometime (nodeStep unsignedRuntime sampleSign) (Builds unsignedRuntime sampleSign m)
        (sampleStart 1) evs ∧
      verifyManifestSignature unsignedRuntime m ≠ .ok () := by
  intro m evs
  have hrun : ((run (nodeStep unsignedRuntime sampleSign) (sampleStart 1) evs).any fun s =>
      (s.catalog.getManifest unsignedRuntime sampleProgram).toOption = some (some m)) = true := by
    decide +kernel
  obtain ⟨s, hs, hm⟩ := exists_of_any hrun
  refine ⟨s, hs, eq_ok_of_toOption hm, ?_, verifyManifestSignature_unsignedRuntime m⟩
  rintro ⟨front, e, back, t, he, -, hb⟩
  have hmem : e ∈ evs := by rw [he]; simp
  rw [List.mem_singleton.mp hmem] at hb
  exact hb

end Authentic

section Genesis

/-- A local deployment finds no manifest of the program, or one with the root and the committee that
it is about to give the program. -/
def KeepsGenesis (pf : Platform) (s : Node) : NodeEvent → Prop
  | .op _ => True
  | .ingest object _ =>
    match s.catalog.getManifest pf ⟨object.id.bytes⟩ with
    | .error _ => False
    | .ok none => True
    | .ok (some old) => old.initialStateRoot = s.states.sparseRootScoped ⟨object.id.bytes⟩ pf ∧
        old.committee = some (deployerCommittee s ⟨object.id.bytes⟩)

instance (pf : Platform) (s : Node) (e : NodeEvent) : Decidable (KeepsGenesis pf s e) := by
  unfold KeepsGenesis
  split
  · infer_instance
  · split <;> infer_instance

variable {pf : Platform} {sign : Bytes → Bytes} {s s' : Node} {p : ProgramId} {m m' : ProgramManifest}

theorem verifyInitialSync_of_keepsGenesis {object : Object} {now : UInt64}
    (h : KeepsGenesis pf s (.ingest object now))
    (hm : buildProgramManifest pf sign s object now = .ok m) :
    s.catalog.verifyInitialSync pf m = .ok () := by
  obtain ⟨hp, -, hroot, hcom⟩ := buildProgramManifest_eq_ok hm
  rw [KeepsGenesis, ← hp] at h
  rw [ProgramCatalog.verifyInitialSync]
  rcases hman : s.catalog.getManifest pf m.programId with e | _ | old
  · simp only [hman] at h
  · simp only
  · simp only [hman] at h
    dsimp only
    rw [if_neg (by rw [hroot, h.1]; simp), if_neg (by rw [hcom, h.2]; simp), if_neg (by rw [hcom]; simp)]

theorem Stores.verifyInitialSync {e : NodeEvent} (h : Stores pf sign s m e) (he : KeepsGenesis pf s e) :
    s.catalog.verifyInitialSync pf m = .ok () := by
  cases h with
  | supplied op hm hsync => exact hsync
  | built object now hm => exact verifyInitialSync_of_keepsGenesis he hm

theorem exists_of_verifyInitialSync {cat : ProgramCatalog} (hsync : cat.verifyInitialSync pf m = .ok ())
    (hne : cat.manifests[m.programId.bytes.bytes]? ≠ none) :
    ∃ old, cat.getManifest pf m.programId = .ok (some old) ∧ old.initialStateRoot = m.initialStateRoot := by
  rw [ProgramCatalog.verifyInitialSync] at hsync
  split at hsync
  · cases hsync
  · rename_i hnone
    obtain ⟨raw, hraw⟩ := Option.ne_none_iff_exists'.mp hne
    rw [ProgramCatalog.getManifest, hraw] at hnone
    dsimp only at hnone
    split at hnone <;> cases hnone
  · rename_i old hold
    split at hsync
    · cases hsync
    · rename_i hroot
      exact ⟨old, hold, not_not.mp hroot⟩

/-- There is a manifest of `p`, and reading it gives committee `C` and initial root `R` if anything. -/
structure HasGenesis (pf : Platform) (cat : ProgramCatalog) (p : ProgramId) (C : CommitteeCertificate)
    (R : StateRoot) : Prop where
  stored : cat.manifests[p.bytes.bytes]? ≠ none
  read : ∀ m, cat.getManifest pf p = .ok (some m) → m.committee = some C ∧ m.initialStateRoot = R

variable {C : CommitteeCertificate} {R : StateRoot}

theorem HasGenesis.storeManifest {cat : ProgramCatalog} (h : HasGenesis pf cat p C R)
    (hsync : cat.verifyInitialSync pf m = .ok ()) : HasGenesis pf (cat.storeManifest m) p C R := by
  by_cases hp : m.programId = p
  · subst hp
    obtain ⟨old, hold, hroot⟩ := exists_of_verifyInitialSync hsync h.stored
    obtain ⟨hC, hR⟩ := h.read old hold
    have hcom : cat.committee pf m.programId = .ok (some C) := by
      rw [ProgramCatalog.committee, hold]
      exact congrArg Except.ok hC
    have hmC := committee_of_verifyInitialSync hsync hcom
    constructor
    case stored => simp [ProgramCatalog.storeManifest]
    case read =>
      intro m' hm'
      rw [ProgramCatalog.getManifest_storeManifest] at hm'
      split at hm'
      · cases hm'
      · rename_i d hd
        cases hm'
        have hhead := congrArg ManifestHead.initialStateRoot (ProgramManifest.head_of_decode_encode hd)
        exact ⟨ProgramManifest.committee_of_decode_encode hmC hd, hhead.trans (hroot.symm.trans hR)⟩
  · constructor
    case stored =>
      have hb : m.programId.bytes.bytes ≠ p.bytes.bytes := fun hh => hp (ProgramId.eq_of_bytes hh)
      rw [ProgramCatalog.storeManifest, ExtTreeMap.getElem?_insert,
        if_neg (fun hc => hb (LawfulEqOrd.eq_of_compare hc))]
      exact h.stored
    case read =>
      rw [ProgramCatalog.getManifest_storeManifest_of_ne hp]
      exact h.read

theorem HasGenesis.nodeStep {e : NodeEvent} (h : HasGenesis pf s.catalog p C R) (he : KeepsGenesis pf s e)
    (hstep : nodeStep pf sign s e = some s') : HasGenesis pf s'.catalog p C R := by
  have hcongr : ∀ {cat : ProgramCatalog}, s'.catalog.manifests = cat.manifests →
      HasGenesis pf cat p C R → HasGenesis pf s'.catalog p C R := by
    intro cat hman hcat
    exact ⟨hman ▸ hcat.stored, ProgramCatalog.getManifest_congr hman ▸ hcat.read⟩
  rcases manifests_nodeStep hstep with hsame | ⟨m, hm, hst⟩
  · exact hcongr hsame h
  · exact hcongr hst (h.storeManifest (hm.verifyInitialSync he))

theorem committee_of_run {s₀ : Node} (h₀ : s₀.Fresh) {evs : List NodeEvent}
    (hrun : run (nodeStep pf sign) s₀ evs = some s) (hm : s.catalog.getManifest pf p = .ok (some m)) :
    ∃ C, m.committee = some C := by
  obtain ⟨raw, hraw, hd⟩ := getManifest_eq_ok_some hm
  obtain ⟨front, e, back, t, -, -, m₁, rfl, -, -⟩ := stored_of_run h₀ hrun hraw
  have hs : m₁.subnetMembership.isSome := by
    by_contra hs
    rw [ProgramManifest.decode_encode_of_subnet_none (by simpa using hs)] at hd
    cases hd
  exact Option.ne_none_iff_exists'.mp (ProgramManifest.committee_ne_none_of_decode_encode hs hd)

/-- In every run in which local deployments keep the root and the committee of what is stored, all
manifests that the catalog returns for a program have the same committee and the same root. -/
theorem manifest_genesis_fixed {s₀ : Node} (h₀ : s₀.Fresh) {evs evs' : List NodeEvent}
    (hevs : Along (nodeStep pf sign) (KeepsGenesis pf) s₀ (evs ++ evs'))
    (hrun : run (nodeStep pf sign) s₀ evs = some s) (hrun' : run (nodeStep pf sign) s evs' = some s')
    (hm : s.catalog.getManifest pf p = .ok (some m)) (hm' : s'.catalog.getManifest pf p = .ok (some m')) :
    (∃ C, m.committee = some C ∧ m'.committee = some C) ∧ m'.initialStateRoot = m.initialStateRoot := by
  obtain ⟨C, hC⟩ := committee_of_run h₀ hrun hm
  have hgen : HasGenesis pf s.catalog p C m.initialStateRoot := by
    obtain ⟨raw, hraw, -⟩ := getManifest_eq_ok_some hm
    refine ⟨by simp [hraw], fun n hn => ?_⟩
    rw [hm] at hn
    cases hn
    exact ⟨hC, rfl⟩
  have hend := invariant_run (I := fun t : Node => HasGenesis pf t.catalog p C m.initialStateRoot)
    (fun t e u ht he hu => ht.nodeStep he hu) hgen (hevs.append hrun).2 hrun'
  obtain ⟨hC', hR⟩ := hend.read m' hm'
  exact ⟨⟨C, hC, hC'⟩, hR⟩

def sampleObject : Object :=
  let id := sampleProgram.toObjectId
  let manifest : Manifest :=
    ⟨id, sampleHash sampleWasm, describeChunks 0 (chunkData sampleRuntime sampleWasm), 1⟩
  ⟨id, sampleType, 8, 1, manifest.id sampleRuntime, sampleNode 9, 0⟩

theorem manifest_genesis_fixed_sample :
    let evs : List NodeEvent := [.op (.store (.putObject sampleWasm sampleType (sampleNode 9) 0)),
      .ingest sampleObject 0]
    ∃ s s' m m', run (nodeStep sampleRuntime sampleSign) (sampleStart 1) evs = some s ∧
      run (nodeStep sampleRuntime sampleSign) s [.ingest sampleObject 5] = some s' ∧
      s.catalog.getManifest sampleRuntime sampleProgram = .ok (some m) ∧
      s'.catalog.getManifest sampleRuntime sampleProgram = .ok (some m') ∧
      (∃ C, m.committee = some C ∧ m'.committee = some C) ∧ m'.initialStateRoot = m.initialStateRoot := by
  intro evs
  have hrun : ((run (nodeStep sampleRuntime sampleSign) (sampleStart 1) evs).any fun s =>
      ((run (nodeStep sampleRuntime sampleSign) s [.ingest sampleObject 5]).any fun s' =>
        (s.catalog.committee sampleRuntime sampleProgram).toOption =
            some (some (deployerCommittee (sampleStart 1) sampleProgram)) ∧
          (s'.catalog.committee sampleRuntime sampleProgram).toOption =
            some (some (deployerCommittee (sampleStart 1) sampleProgram))) = true) = true := by
    decide +kernel
  obtain ⟨s, hs, h⟩ := exists_of_any hrun
  obtain ⟨s', hs', hC, hC'⟩ := exists_of_any h
  obtain ⟨m, hm, -⟩ := ProgramCatalog.committee_eq_ok_some (eq_ok_of_toOption hC)
  obtain ⟨m', hm', -⟩ := ProgramCatalog.committee_eq_ok_some (eq_ok_of_toOption hC')
  exact ⟨s, s', m, m', hs, hs', hm, hm',
    manifest_genesis_fixed (sampleStart_fresh 1) (by decide +kernel) hs hs' hm hm'⟩

/-- A node that holds the manifest of a program deploys the program itself and becomes its committee. -/
theorem local_deployment_replaces_committee :
    let evs : List NodeEvent := (sampleSetup (sampleCommittee sampleProgram [1] 1)).map .op
    ∃ s s' m m', run (nodeStep sampleRuntime sampleSign) (sampleStart 2) evs = some s ∧
      run (nodeStep sampleRuntime sampleSign) s [.ingest sampleObject 0] = some s' ∧
      s.catalog.getManifest sampleRuntime sampleProgram = .ok (some m) ∧
      s'.catalog.getManifest sampleRuntime sampleProgram = .ok (some m') ∧
      m.committee = some (sampleCommittee sampleProgram [1] 1) ∧
      m'.committee = some (deployerCommittee (sampleStart 2) sampleProgram) ∧
      m'.committee ≠ m.committee := by
  intro evs
  have hrun : ((run (nodeStep sampleRuntime sampleSign) (sampleStart 2) evs).any fun s =>
      ((run (nodeStep sampleRuntime sampleSign) s [.ingest sampleObject 0]).any fun s' =>
        (s.catalog.committee sampleRuntime sampleProgram).toOption =
            some (some (sampleCommittee sampleProgram [1] 1)) ∧
          (s'.catalog.committee sampleRuntime sampleProgram).toOption =
            some (some (deployerCommittee (sampleStart 2) sampleProgram))) = true) = true := by
    decide +kernel
  obtain ⟨s, hs, h⟩ := exists_of_any hrun
  obtain ⟨s', hs', hC, hC'⟩ := exists_of_any h
  obtain ⟨m, hm, hmC⟩ := ProgramCatalog.committee_eq_ok_some (eq_ok_of_toOption hC)
  obtain ⟨m', hm', hmC'⟩ := ProgramCatalog.committee_eq_ok_some (eq_ok_of_toOption hC')
  refine ⟨s, s', m, m', hs, hs', hm, hm', hmC, hmC', ?_⟩
  rw [hmC, hmC']
  decide +kernel

end Genesis

end Onvm
