import Onvm.CommittedChain

/-! Remote state: what a node that only handles messages can come to hold. Every
change of a program's state leads to the root of a verified receipt or to the
initial root of a manifest, which is only as good as the manifest. -/

namespace Onvm

open ByteString OrderedStore Runs Std

/-- The root of `p` is that of a receipt that verifies for the committee of its manifest, or the
initial root of a manifest that its deployer signed. -/
def Justified (pf : Platform) (L : Ledger) (p : ProgramId) : Prop :=
  (∃ C a, L.catalog.committee pf p = .ok (some C) ∧ verifyAggregatedReceipt pf a C = .ok () ∧
    L.root pf p = a.receipt.stateRootOut) ∨
  ∃ m : ProgramManifest, m.programId = p ∧ verifyManifestSignature pf m = .ok () ∧
    L.root pf p = m.initialStateRoot

def Op.remote : Op → Bool
  | .submit .. => false
  | .call .. => false
  | .job .. => false
  | _ => true

def Op.manifestResponse : Op → Option ProgramManifest
  | .deliver _ (.programManifest r) => r.manifest
  | _ => none

def SignedResponse (pf : Platform) (op : Op) : Prop :=
  ∀ m ∈ op.manifestResponse, verifyManifestSignature pf m = .ok ()

instance (pf : Platform) (op : Op) : Decidable (SignedResponse pf op) :=
  inferInstanceAs (Decidable (∀ m ∈ op.manifestResponse, _))

/-- What state and manifests are before the first commitment. -/
structure Grounded (pf : Platform) (L : Ledger) : Prop where
  signed : ∀ (p : ProgramId) raw, L.catalog.manifests[p.bytes.bytes]? = some raw →
    ∃ m : ProgramManifest, m.encode = raw ∧ m.programId = p ∧ verifyManifestSignature pf m = .ok ()
  initial : ∀ p, L.catalog.latestStateCommitment p = none → L.states.entries p = ∅ ∨
    ∃ m : ProgramManifest, L.catalog.manifests[p.bytes.bytes]? = some m.encode ∧
      L.root pf p = m.initialStateRoot

section Commits

variable {pf : Platform} {p q : ProgramId} {L L' : Ledger}

theorem entries_or_root_of_commits (h : Relation.ReflTransGen (CommitStep pf p) L L') {before : StateStore}
    (hbefore : L.states = before) (q : ProgramId) :
    L'.states.entries q = before.entries q ∨ Justified pf L' q := by
  subst hbefore
  induction h with
  | refl => exact .inl rfl
  | @tail M _ _ hstep ih =>
    obtain ⟨b, now, hb, hr⟩ := hstep
    by_cases hq : p = q
    · subst hq
      exact .inr (.inl ⟨b.committee, b.receipt, hb.committee, hb.verified, hr⟩)
    · have he : (M.commit p b now).states.entries q = M.states.entries q :=
        StateStore.entries_applyStateWrites_of_ne _ p hq _
      rw [he]
      refine ih.imp_right fun hj => ?_
      have hroot : (M.commit p b now).root pf q = M.root pf q := Ledger.root_commit_of_ne hq b now
      rw [Justified, hroot]
      exact hj

theorem Grounded.commitStep (hL : Grounded pf L) (h : CommitStep pf p L L') : Grounded pf L' := by
  obtain ⟨b, now, hb, -⟩ := h
  refine ⟨hL.signed, fun q hq => ?_⟩
  by_cases hpq : p = q
  · subst hpq
    rw [hb.latest_commit] at hq
    cases hq
  · rw [Ledger.latest_commit_of_ne hpq] at hq
    rw [Ledger.root_commit_of_ne hpq]
    have he : (L.commit p b now).states.entries q = L.states.entries q :=
      StateStore.entries_applyStateWrites_of_ne _ p hpq _
    rw [he]
    exact hL.initial q hq

theorem Grounded.commits (hL : Grounded pf L) (h : Relation.ReflTransGen (CommitStep pf p) L L') :
    Grounded pf L' := by
  induction h with
  | refl => exact hL
  | tail _ hstep ih => exact ih.commitStep hstep

end Commits

section Manifests

variable {pf : Platform} {p : ProgramId} {L : Ledger} {m m' : ProgramManifest}

theorem getManifest_of_encode {cat : ProgramCatalog} (hraw : cat.manifests[p.bytes.bytes]? = some m.encode)
    (hm : cat.getManifest pf p = .ok (some m')) : m'.initialStateRoot = m.initialStateRoot := by
  rw [ProgramCatalog.getManifest, hraw] at hm
  dsimp only at hm
  cases hd : ProgramManifest.decode m.encode with
  | none => rw [hd] at hm; cases hm
  | some d =>
    rw [hd] at hm
    cases hm
    exact congrArg ManifestHead.initialStateRoot (ProgramManifest.head_of_decode_encode hd)

theorem initialStateRoot_of_verifyInitialSync {cat : ProgramCatalog}
    (hraw : cat.manifests[m'.programId.bytes.bytes]? = some m.encode)
    (hsync : cat.verifyInitialSync pf m' = .ok ()) : m'.initialStateRoot = m.initialStateRoot := by
  rw [ProgramCatalog.verifyInitialSync] at hsync
  cases hg : cat.getManifest pf m'.programId with
  | error e => rw [hg] at hsync; cases hsync
  | ok o =>
    cases o with
    | none =>
      rw [ProgramCatalog.getManifest, hraw] at hg
      dsimp only at hg
      split at hg <;> cases hg
    | some old =>
      rw [hg] at hsync
      dsimp only at hsync
      split at hsync
      · cases hsync
      · rename_i he
        rw [← not_not.mp he, getManifest_of_encode hraw hg]

theorem Grounded.storeManifest (hL : Grounded pf L) (hsync : L.catalog.verifyInitialSync pf m = .ok ())
    (hsig : verifyManifestSignature pf m = .ok ()) :
    Grounded pf { L with catalog := L.catalog.storeManifest m } := by
  constructor
  case signed =>
    intro p raw hraw
    simp only [ProgramCatalog.storeManifest, ExtTreeMap.getElem?_insert] at hraw
    split at hraw
    · rename_i hc
      cases hraw
      exact ⟨m, rfl, ProgramId.eq_of_bytes (LawfulEqOrd.eq_of_compare hc), hsig⟩
    · exact hL.signed p raw hraw
  case initial =>
    intro p hp
    refine (hL.initial p hp).imp_right ?_
    rintro ⟨old, hold, hroot⟩
    simp only [ProgramCatalog.storeManifest, ExtTreeMap.getElem?_insert]
    split
    · rename_i hc
      have hpm := ProgramId.eq_of_bytes (LawfulEqOrd.eq_of_compare hc)
      subst hpm
      refine ⟨m, rfl, ?_⟩
      rw [initialStateRoot_of_verifyInitialSync hold hsync]
      exact hroot
    · exact ⟨old, hold, hroot⟩

end Manifests

section Responses

variable {pf : Platform} {K : List Bytes} {s : Node} {r : StateResponse}

theorem mem_lastWins_of_mem {es : List (Bytes × Bytes)} {e : Bytes × Bytes} (he : e ∈ es) :
    e.1 ∈ lastWins es := by
  induction es using List.reverseRecOn with
  | nil => cases he
  | append_singleton es x ih =>
    rw [lastWins, List.foldl_append]
    simp only [List.foldl_cons, List.foldl_nil, ExtTreeMap.mem_insert]
    rcases List.mem_append.mp he with hl | hr
    · exact .inr (ih hl)
    · rw [List.mem_singleton.mp hr]
      exact .inl (by simp)

theorem root_setEntries_of_empty (hK : Set.InjOn pf.hashBytes { k | k ∈ K }) {st : StateStore}
    {p : ProgramId} {es : List (Bytes × Bytes)} (hempty : st.entries p = ∅)
    (hkeys : (setEntries st p es).KeysIn K) :
    (setEntries st p es).sparseRootScoped p pf = pf.sparseRoot es := by
  have hmap : (setEntries st p es).entries p = lastWins es := by
    rw [entries_setEntries, hempty]
    rfl
  have hes : ∀ e ∈ es, e.1 ∈ K := fun e he =>
    hkeys.mem (p := p) (by rw [hmap]; exact mem_lastWins_of_mem he)
  exact StateStore.sparseRootScoped_eq_sparseRoot _ p pf hK hes hmap

theorem entries_or_initial_of_response (hK : Set.InjOn pf.hashBytes { k | k ∈ K })
    (hchain : Chained pf s.ledger) (hg : Grounded pf s.ledger)
    (hX : Binding pf.hashBytes
      { x | x ∈ smtInputs pf.hashBytes (s.states.getAllScoped r.programId) ∨
        x ∈ smtInputs pf.hashBytes r.stateEntries })
    (hkeys : (setEntries s.states r.programId r.stateEntries).KeysIn K) (hr : Acceptable pf s r) :
    (setEntries s.states r.programId r.stateEntries).entries r.programId = s.states.entries r.programId ∨
    ∃ m : ProgramManifest, s.catalog.manifests[r.programId.bytes.bytes]? = some m.encode ∧
      m.programId = r.programId ∧ verifyManifestSignature pf m = .ok () ∧
      (setEntries s.states r.programId r.stateEntries).sparseRootScoped r.programId pf =
        m.initialStateRoot := by
  have hexp := hr.expected
  rw [expectedStateRoot] at hexp
  cases hl : s.catalog.latestStateCommitment r.programId with
  | some c =>
    rw [hl] at hexp
    refine .inl (entries_setEntries_of_root hX ?_)
    rw [hr.computed, ← Option.some.inj (Except.ok.inj hexp)]
    exact hchain.latest r.programId c hl
  | none =>
    rw [hl] at hexp
    obtain ⟨o, hman, ho⟩ := map_eq_ok hexp
    obtain ⟨m', rfl, hroot⟩ := Option.map_eq_some_iff.mp ho
    obtain ⟨raw, hraw⟩ : ∃ raw, s.catalog.manifests[r.programId.bytes.bytes]? = some raw := by
      cases hc : s.catalog.manifests[r.programId.bytes.bytes]? with
      | some raw => exact ⟨raw, rfl⟩
      | none =>
        rw [ProgramCatalog.getManifest, hc] at hman
        cases hman
    obtain ⟨m, rfl, hmp, hsig⟩ := hg.signed r.programId raw hraw
    have hinit : r.stateRoot = m.initialStateRoot := by rw [← hroot, getManifest_of_encode hraw hman]
    rcases hg.initial r.programId hl with hempty | ⟨m₁, hm₁, hroot₁⟩
    · refine .inr ⟨m, hraw, hmp, hsig, ?_⟩
      have hset : (setEntries s.states r.programId r.stateEntries).sparseRootScoped r.programId pf =
        pf.sparseRoot r.stateEntries := root_setEntries_of_empty hK hempty hkeys
      rw [hset, hr.computed, hinit]
    · refine .inl (entries_setEntries_of_root hX ?_)
      rw [hr.computed, ← hroot]
      exact hroot₁.trans (getManifest_of_encode hm₁ hman).symm

end Responses

section Steps

variable {pf : Platform} {K : List Bytes} {s s' : Node} {op : Op} {L' : Ledger}

theorem Supplies.signed {m : ProgramManifest} (h : Supplies pf m op) (hs : SignedResponse pf op) :
    verifyManifestSignature pf m = .ok () := by
  cases h with
  | announced clock a ha hv => exact hv
  | responded clock r hr => exact hs m hr

theorem Grounded.replaceStates {L : Ledger} (hL : Grounded pf L) {p : ProgramId} {st : StateStore}
    (hne : ∀ q, p ≠ q → st.entries q = L.states.entries q)
    (hp : st.entries p = L.states.entries p ∨ ∃ m : ProgramManifest,
      L.catalog.manifests[p.bytes.bytes]? = some m.encode ∧ st.sparseRootScoped p pf = m.initialStateRoot) :
    Grounded pf { L with states := st } := by
  refine ⟨hL.signed, fun q hq => ?_⟩
  have hkeep : st.entries q = L.states.entries q → st.entries q = ∅ ∨ ∃ m : ProgramManifest,
      L.catalog.manifests[q.bytes.bytes]? = some m.encode ∧ st.sparseRootScoped q pf = m.initialStateRoot := by
    intro he
    rw [he, StateStore.sparseRootScoped_congr st pf he]
    exact hL.initial q hq
  by_cases hpq : p = q
  · subst hpq
    exact hp.elim hkeep .inr
  · exact hkeep (hne q hpq)

theorem Grounded.ledgerChange (hK : Set.InjOn pf.hashBytes { k | k ∈ K }) (hchain : Chained pf s.ledger)
    (hs : Grounded pf s.ledger) (hkeys : L'.states.KeysIn K)
    (hresp : ∀ r ∈ op.stateResponse, Binding pf.hashBytes
      { x | x ∈ smtInputs pf.hashBytes (s.states.getAllScoped r.programId) ∨
        x ∈ smtInputs pf.hashBytes r.stateEntries })
    (hsig : SignedResponse pf op) (hop : op.remote = true) (h : LedgerChange pf s op L') :
    Grounded pf L' ∧ ∀ p, L'.states.entries p = s.states.entries p ∨ Justified pf L' p := by
  cases h with
  | same => exact ⟨hs, fun _ => .inl rfl⟩
  | manifest m hm hsync h =>
    have hc := h.commits hK hkeys
    exact ⟨(hs.storeManifest hsync (hm.signed hsig)).commits hc, entries_or_root_of_commits hc rfl⟩
  | bundle b hb h =>
    cases h with
    | ignored => exact ⟨hs, fun _ => .inl rfl⟩
    | cached _ => exact ⟨⟨hs.signed, hs.initial⟩, fun _ => .inl rfl⟩
    | applied _ _ h =>
      have hc := h.commits hK hkeys
      have hput : Grounded pf { s.ledger with finalized := s.ledger.finalized.put b } :=
        ⟨hs.signed, hs.initial⟩
      exact ⟨hput.commits hc, entries_or_root_of_commits hc rfl⟩
  | head p h =>
    have hc := h.commits hK hkeys
    exact ⟨hs.commits hc, entries_or_root_of_commits hc rfl⟩
  | respond clock r hop' hr =>
    have hcase := entries_or_initial_of_response hK hchain hs (hresp r (by rw [hop']; rfl)) hkeys hr
    have hne : ∀ q, r.programId ≠ q →
        (setEntries s.states r.programId r.stateEntries).entries q = s.states.entries q :=
      fun q hq => entries_setEntries_of_ne _ hq _
    refine ⟨hs.replaceStates hne (hcase.imp_right ?_), fun q => ?_⟩
    · rintro ⟨m, hm, -, -, hroot⟩
      exact ⟨m, hm, hroot⟩
    · by_cases hq : r.programId = q
      · subst hq
        refine hcase.imp_right ?_
        rintro ⟨m, -, hmp, hv, hroot⟩
        exact .inr ⟨m, hmp, hv, hroot⟩
      · exact .inl (hne q hq)
  | job p input maxFuel world salt now hop' => rw [hop'] at hop; cases hop

theorem grounded_of_fresh (h₀ : s.Fresh) : Grounded pf s.ledger := by
  rw [h₀]
  refine ⟨fun p raw hraw => ?_, fun p _ => .inl (StateStore.entries_empty p)⟩
  simp [Node.ledger, Node.fresh, ProgramCatalog.empty] at hraw

end Steps

/-- In every run of remote operations without hash collisions in which every manifest of a response
is signed by its deployer, a step that changes a program's state leads to a justified root. -/
theorem remote_state_justified {pf : Platform} {K : List Bytes} {s₀ s s' : Node} {ops : List Op} {op : Op}
    (h₀ : s₀.Fresh) (hK : Set.InjOn pf.hashBytes { k | k ∈ K })
    (hremote : ∀ o ∈ ops ++ [op], o.remote = true)
    (hcoll : Along (step pf) (Collisionless pf K) s₀ (ops ++ [op]))
    (hsigned : ∀ o ∈ ops ++ [op], SignedResponse pf o)
    (hrun : run (step pf) s₀ ops = some s) (hstep : step pf s op = some s') {p : ProgramId}
    (hne : s'.states.entries p ≠ s.states.entries p) : Justified pf s'.ledger p := by
  have hall : Along (step pf) (fun s o => Collisionless pf K s o ∧ o.remote = true ∧ SignedResponse pf o)
      s₀ (ops ++ [op]) :=
    hcoll.and (along_of_forall fun o ho => ⟨hremote o ho, hsigned o ho⟩)
  obtain ⟨hops, hlast⟩ := hall.append hrun
  have hquiet : ∀ (s : Node) (o : Op), o.remote = true → QuietJob pf s o := by
    intro s o ho w hw
    cases o <;> first | cases hw | cases ho
  have hinv : Chained pf s.ledger ∧ Grounded pf s.ledger := by
    refine invariant_run (I := fun s => Chained pf s.ledger ∧ Grounded pf s.ledger) ?_
      ⟨chained_of_fresh h₀, grounded_of_fresh h₀⟩ hops hrun
    rintro s o t ⟨hc, hg⟩ ⟨hcl, hr, hs⟩ ht
    exact ⟨hc.ledgerChange hK (hcl.keys t ht) hcl.response (hquiet s o hr) (step_ledger ht),
      (hg.ledgerChange hK hc (hcl.keys t ht) hcl.response hs hr (step_ledger ht)).1⟩
  obtain ⟨hcl, hr, hs⟩ := hlast.1
  exact ((hinv.2.ledgerChange hK hinv.1 (hcl.keys s' hstep) hcl.response hs hr
    (step_ledger hstep)).2 p).resolve_left hne

section Sample

theorem entries_ne_of_getElem {st st' : StateStore} {p : ProgramId} {k : Bytes}
    (h : (st'.entries p)[k]? ≠ (st.entries p)[k]?) : st'.entries p ≠ st.entries p :=
  fun he => h (by rw [he])

/-- A node outside the committee receives the manifest and the bundles of two heights. -/
theorem remote_state_justified_sample :
    let ops : List Op := sampleSetup (sampleCommittee sampleProgram [1] 1) ++
      (publishedBundles.take 1).map fun b => .deliver (fun _ => 0) (.aggregatedReceipt b)
    let op : Op := .deliver (fun _ => 0)
      (.finalizedTransition ⟨sampleProgram, 2, publishedBundles.getLast?⟩)
    ∃ s s', run (step sampleRuntime) (sampleStart 2) ops = some s ∧ step sampleRuntime s op = some s' ∧
      s'.states.entries sampleProgram ≠ s.states.entries sampleProgram ∧
      Justified sampleRuntime s'.ledger sampleProgram := by
  intro ops op
  have hrun : ((run (step sampleRuntime) (sampleStart 2) ops).any fun s =>
      ((step sampleRuntime s op).any fun s' => (s'.states.entries sampleProgram)[([1] : Bytes)]? ≠
        (s.states.entries sampleProgram)[([1] : Bytes)]?) = true) = true := by decide +kernel
  obtain ⟨s, hs, hstep⟩ := exists_of_any hrun
  obtain ⟨s', hs', hne⟩ := exists_of_any hstep
  have hne' := entries_ne_of_getElem hne
  exact ⟨s, s', hs, hs', hne', @remote_state_justified sampleRuntime [[1]] (sampleStart 2) s s' ops op
    (sampleStart_fresh 2) (by simp) (by decide +kernel) (by decide +kernel) (by decide +kernel) hs hs'
    sampleProgram hne'⟩

def unsignedRuntime : Platform := { sampleRuntime with verifyStrict := fun _ _ _ => .error "signature" }

theorem verifyManifestSignature_unsignedRuntime (m : ProgramManifest) :
    verifyManifestSignature unsignedRuntime m ≠ .ok () := by
  intro h
  obtain ⟨-, -, h⟩ := bind_eq_ok h
  obtain ⟨-, -, h⟩ := bind_eq_ok h
  cases h

theorem verifyAggregatedReceipt_of_no_members {pf : Platform} {a : AggregatedReceipt}
    {C : CommitteeCertificate} (hC : C.members = []) : verifyAggregatedReceipt pf a C ≠ .ok () := by
  intro h
  have hsig := (accepted_of_verify h).signature
  rw [signerKeys, hC] at hsig
  cases hsig

/-- A response brings an unsigned manifest with an initial root of the sender's choice, and a state
response with entries of that root is then taken over. -/
theorem unsigned_manifest_sets_state :
    ¬ ∀ (ops : List Op) (op : Op) (s s' : Node) (p : ProgramId), (∀ o ∈ ops ++ [op], o.remote = true) →
      run (step unsignedRuntime) (sampleStart 1) ops = some s → step unsignedRuntime s op = some s' →
      s'.states.entries p ≠ s.states.entries p → Justified unsignedRuntime s'.ledger p := by
  intro hall
  let entries : List (Bytes × Bytes) := [([1], [1])]
  let C := sampleCommittee sampleProgram [] 1
  let m := { sampleManifest C with initialStateRoot := unsignedRuntime.sparseRoot entries, signature := [] }
  let ops : List Op := [.deliver (fun _ => 0) (.programManifest ⟨sampleProgram, some m⟩)]
  let op : Op := .deliver (fun _ => 0) (.stateResponse ⟨sampleProgram, m.initialStateRoot, entries⟩)
  have hrun : ((run (step unsignedRuntime) (sampleStart 1) ops).any fun s =>
      ((step unsignedRuntime s op).any fun s' =>
        (s'.states.entries sampleProgram)[([1] : Bytes)]? ≠
          (s.states.entries sampleProgram)[([1] : Bytes)]? ∧
        (s'.catalog.committee unsignedRuntime sampleProgram).toOption = some (some C)) = true) = true := by
    decide +kernel
  obtain ⟨s, hs, hstep⟩ := exists_of_any hrun
  obtain ⟨s', hs', hne, hC⟩ := exists_of_any hstep
  rcases hall ops op s s' sampleProgram (by decide) hs hs' (entries_ne_of_getElem hne) with
    ⟨C', a, hC', hv, -⟩ | ⟨m', -, hv, -⟩
  · have hC'' : s'.catalog.committee unsignedRuntime sampleProgram = .ok (some C') := hC'
    rw [hC''] at hC
    cases hC
    exact verifyAggregatedReceipt_of_no_members rfl hv
  · exact verifyManifestSignature_unsignedRuntime m' hv

end Sample

end Onvm
