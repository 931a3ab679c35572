import Onvm.Commitments
import Onvm.Runs

/-! State follows the committed chain: a commit moves state and chain together, a
state response that matches the latest root changes nothing, and of the three
writers of program state only a job can leave the chain behind. -/

namespace Onvm

open ByteString OrderedStore Runs Std

section Keys

def StateStore.KeysIn (st : StateStore) (K : List Bytes) : Prop := ∀ k ∈ st.tree.keys, k.drop 32 ∈ K

instance (st : StateStore) (K : List Bytes) : Decidable (st.KeysIn K) :=
  inferInstanceAs (Decidable (∀ k ∈ st.tree.keys, _))

theorem StateStore.KeysIn.mem {st : StateStore} {K : List Bytes} (h : st.KeysIn K) {p : ProgramId}
    {k : Bytes} (hk : k ∈ st.entries p) : k ∈ K := by
  have hsome : (st.tree[p.bytes.bytes ++ k]?).isSome := by
    rw [← getElem?_view]
    exact ExtTreeMap.mem_iff_isSome_getElem?.mp hk
  have hmem := h (p.bytes.bytes ++ k) (ExtTreeMap.mem_keys.mpr (ExtTreeMap.mem_iff_isSome_getElem?.mpr hsome))
  rwa [List.drop_left' p.bytes.length_bytes] at hmem

variable {pf : Platform} {p : ProgramId} {L L' : Ledger} {K : List Bytes}

theorem Misapplied.not_keysIn (hK : Set.InjOn pf.hashBytes { k | k ∈ K }) (h : Misapplied pf p L L') :
    ¬ L'.states.KeysIn K := by
  intro hkeys
  obtain ⟨b, hb, hr⟩ := h
  refine hr ?_
  rw [AppliedRoot, StateStore.sparseRootScoped_applyStateWrites L.states p pf hK fun k hk => hkeys.mem hk]
  exact hb.rootOut

theorem CatchUp.commits (hK : Set.InjOn pf.hashBytes { k | k ∈ K }) (hkeys : L'.states.KeysIn K)
    (h : CatchUp pf p L L') : Relation.ReflTransGen (CommitStep pf p) L L' := by
  obtain ⟨M, hpath, rfl | hmis⟩ := h
  · exact hpath
  · exact absurd hkeys (hmis.not_keysIn hK)

end Keys

section Responses

theorem foldl_insert_eq_or (es : List (Bytes × Bytes)) (m : ByteTree Bytes) (k : Bytes) :
    (es.foldl (fun m e => m.insert e.1 e.2) m)[k]? = (lastWins es)[k]?.or m[k]? := by
  induction es using List.reverseRecOn with
  | nil => simp [lastWins]
  | append_singleton es e ih =>
    rw [lastWins, List.foldl_append, List.foldl_append]
    simp only [List.foldl_cons, List.foldl_nil, ExtTreeMap.getElem?_insert]
    split
    · rfl
    · exact ih

theorem entries_setEntries (st : StateStore) (p : ProgramId) (es : List (Bytes × Bytes)) :
    (setEntries st p es).entries p = es.foldl (fun m e => m.insert e.1 e.2) (st.entries p) := by
  induction es generalizing st with
  | nil => rfl
  | cons e es ih =>
    have hone : (st.setScoped p e.1 e.2).entries p = (st.entries p).insert e.1 e.2 := view_insert _ _ _ _
    have hh := ih (st.setScoped p e.1 e.2)
    rw [hone] at hh
    exact hh

theorem entries_setEntries_of_ne (st : StateStore) {p q : ProgramId} (hq : p ≠ q)
    (es : List (Bytes × Bytes)) : (setEntries st p es).entries q = st.entries q := by
  induction es generalizing st with
  | nil => rfl
  | cons e es ih =>
    have hone : (st.setScoped p e.1 e.2).entries q = st.entries q :=
      view_insert_of_ne _ (p.length_bytes_eq q) (ProgramId.bytes_ne hq) _ _
    exact (ih (st.setScoped p e.1 e.2)).trans hone

theorem entries_setEntries_of_root {pf : Platform} {st : StateStore} {p : ProgramId}
    {es : List (Bytes × Bytes)}
    (hX : Binding pf.hashBytes
      { x | x ∈ smtInputs pf.hashBytes (st.getAllScoped p) ∨ x ∈ smtInputs pf.hashBytes es })
    (he : st.sparseRootScoped p pf = pf.sparseRoot es) :
    (setEntries st p es).entries p = st.entries p := by
  have hmap : st.entries p = lastWins es := by
    rw [← st.lastWins_getAllScoped p]
    exact pf.lastWins_eq_of_sparseRoot_eq hX he
  apply ExtTreeMap.ext_getElem?
  intro k
  rw [entries_setEntries, foldl_insert_eq_or, ← hmap, Option.or_self]

end Responses

/-- State and chain of a ledger: the root of a program's state is its latest root, and each
commitment after the first one has the root before it as its parent. -/
structure Chained (pf : Platform) (L : Ledger) : Prop where
  latest : ∀ p c, L.catalog.latestStateCommitment p = some c → L.root pf p = c.root
  parent : ∀ p height c, L.catalog.getStateCommitment p height = some c → 2 ≤ height →
    ∃ prev, L.catalog.getStateCommitment p (height - 1) = some prev ∧ c.parent = some prev.root

section Chain

variable {pf : Platform} {p : ProgramId} {L L' : Ledger} {s s' : Node} {op : Op}

theorem ProgramCatalog.latest_of_expectedHeight {cat : ProgramCatalog} {height : UInt64}
    (h : cat.expectedHeight p = .ok height) (hh : 2 ≤ height) :
    ∃ c, cat.latestStateCommitment p = some c ∧ cat.getStateCommitment p (height - 1) = some c := by
  obtain ⟨-, rfl⟩ | ⟨c, hl, -, rfl⟩ := expectedHeight_cases h
  · exact absurd hh (by decide)
  · refine ⟨c, hl, ?_⟩
    rw [UInt64.add_sub_cancel]
    exact (latestStateCommitment_eq_some hl).2.1

theorem Ledger.latest_commit_of_ne {q : ProgramId} (hq : p ≠ q) (b : AggregatedReceiptBundle)
    (now : UInt64) :
    (L.commit p b now).catalog.latestStateCommitment q = L.catalog.latestStateCommitment q := by
  apply ProgramCatalog.latestStateCommitment_congr
  intro height
  rw [Ledger.commit, ProgramCatalog.getStateCommitment_storeStateCommitment, if_neg fun h => hq h.1]

theorem Ledger.root_commit_of_ne {q : ProgramId} (hq : p ≠ q) (b : AggregatedReceiptBundle)
    (now : UInt64) : (L.commit p b now).root pf q = L.root pf q :=
  StateStore.sparseRootScoped_congr _ pf (L.states.entries_applyStateWrites_of_ne p hq b.stateWrites)

theorem Chained.commitStep (hL : Chained pf L) (h : CommitStep pf p L L') : Chained pf L' := by
  obtain ⟨b, now, hb, hr⟩ := h
  constructor
  case latest =>
    intro q c hc
    by_cases hq : p = q
    · subst hq
      rw [hb.latest_commit] at hc
      cases hc
      exact hr
    · rw [Ledger.latest_commit_of_ne hq] at hc
      rw [Ledger.root_commit_of_ne hq]
      exact hL.latest q c hc
  case parent =>
    intro q height c hc hh
    have hkept : ∀ prev, L.catalog.getStateCommitment q (height - 1) = some prev →
        (L.commit p b now).catalog.getStateCommitment q (height - 1) = some prev :=
      fun prev hprev => hb.getStateCommitment_commit hprev
    rw [Ledger.commit, ProgramCatalog.getStateCommitment_storeStateCommitment] at hc
    split at hc
    · rename_i he
      obtain ⟨hp, rfl⟩ := he
      dsimp only at hp
      subst hp
      cases hc
      obtain ⟨prev, hlatest, hprev⟩ := ProgramCatalog.latest_of_expectedHeight hb.height hh
      refine ⟨prev, hkept prev hprev, congrArg some ?_⟩
      rw [← hL.latest p prev hlatest]
      exact hb.rootIn
    · obtain ⟨prev, hprev, hpar⟩ := hL.parent q height c hc hh
      exact ⟨prev, hkept prev hprev, hpar⟩

theorem Chained.commits (hL : Chained pf L) (h : Relation.ReflTransGen (CommitStep pf p) L L') :
    Chained pf L' := by
  induction h with
  | refl => exact hL
  | tail _ hstep ih => exact ih.commitStep hstep

theorem Chained.congr (hL : Chained pf L)
    (hc : ∀ p height, L'.catalog.getStateCommitment p height = L.catalog.getStateCommitment p height)
    (hroot : ∀ p c, L.catalog.latestStateCommitment p = some c → L'.root pf p = L.root pf p) :
    Chained pf L' := by
  constructor
  case latest =>
    intro p c h
    rw [ProgramCatalog.latestStateCommitment_congr (hc p)] at h
    rw [hroot p c h, hL.latest p c h]
  case parent =>
    intro p height c h hh
    rw [hc] at h
    obtain ⟨prev, hprev, hpar⟩ := hL.parent p height c h hh
    exact ⟨prev, (hc p _).trans hprev, hpar⟩

theorem Chained.replace (hL : Chained pf L) (hc : L'.catalog.commitments = L.catalog.commitments)
    (hst : L'.states = L.states) : Chained pf L' := by
  refine hL.congr (fun p height => ?_) fun p c _ => ?_
  · rw [ProgramCatalog.getStateCommitment, ProgramCatalog.getStateCommitment, hc]
  · rw [Ledger.root, Ledger.root, hst]

end Chain

section Steps

variable {pf : Platform} {K : List Bytes} {s s' : Node} {op : Op} {L' : Ledger}

def Op.stateResponse : Op → Option StateResponse
  | .deliver _ (.stateResponse r) => some r
  | _ => none

/-- A step leaves program states with keys from `K`. -/
def KeysStay (pf : Platform) (K : List Bytes) (s : Node) (op : Op) : Prop :=
  ∀ s' ∈ step pf s op, s'.states.KeysIn K

instance (pf : Platform) (K : List Bytes) (s : Node) (op : Op) : Decidable (KeysStay pf K s op) :=
  inferInstanceAs (Decidable (∀ s' ∈ step pf s op, _))

/-- No collisions in a step: keys of program state come from `K`, and the strings hashed for a state
response and for the state it meets bind. -/
structure Collisionless (pf : Platform) (K : List Bytes) (s : Node) (op : Op) : Prop where
  keys : KeysStay pf K s op
  response : ∀ r ∈ op.stateResponse, Binding pf.hashBytes
    { x | x ∈ smtInputs pf.hashBytes (s.states.getAllScoped r.programId) ∨
      x ∈ smtInputs pf.hashBytes r.stateEntries }

def jobWrites (pf : Platform) (s : Node) : Op → Option (ProgramId × List StateWrite)
  | .job p input maxFuel world _ _ =>
    (execute pf world maxFuel s.unified s.states p input).toOption.map fun o => (p, o.stateWrites)
  | _ => none

def QuietJob (pf : Platform) (s : Node) (op : Op) : Prop :=
  ∀ w ∈ jobWrites pf s op, s.catalog.latestStateCommitment w.1 = none ∨ w.2 = []

instance (h : Bytes → Bytes32) (l m : List Bytes) : Decidable (Binding h { x | x ∈ l ∨ x ∈ m }) :=
  decidable_of_iff
    ((∀ x ∈ l ++ m, ∀ y ∈ l ++ m, h x = h y → x = y) ∧ ∀ x ∈ l ++ m, h x ≠ smtEmpty)
    ⟨fun hh => ⟨fun x hx y hy => hh.1 x (List.mem_append.mpr hx) y (List.mem_append.mpr hy),
        fun x hx => hh.2 x (List.mem_append.mpr hx)⟩,
      fun hh => ⟨fun _ hx _ hy => hh.inj (List.mem_append.mp hx) (List.mem_append.mp hy),
        fun x hx => hh.ne_empty x (List.mem_append.mp hx)⟩⟩

instance (pf : Platform) (K : List Bytes) (s : Node) (op : Op) : Decidable (Collisionless pf K s op) :=
  decidable_of_iff
    (KeysStay pf K s op ∧ ∀ r ∈ op.stateResponse, Binding pf.hashBytes
      { x | x ∈ smtInputs pf.hashBytes (s.states.getAllScoped r.programId) ∨
        x ∈ smtInputs pf.hashBytes r.stateEntries })
    ⟨fun h => ⟨h.1, h.2⟩, fun h => ⟨h.1, h.2⟩⟩

instance (pf : Platform) (s : Node) (op : Op) : Decidable (QuietJob pf s op) :=
  inferInstanceAs (Decidable (∀ w ∈ jobWrites pf s op, _))

theorem Chained.ledgerChange (hK : Set.InjOn pf.hashBytes { k | k ∈ K }) (hs : Chained pf s.ledger)
    (hkeys : L'.states.KeysIn K)
    (hresp : ∀ r ∈ op.stateResponse, Binding pf.hashBytes
      { x | x ∈ smtInputs pf.hashBytes (s.states.getAllScoped r.programId) ∨
        x ∈ smtInputs pf.hashBytes r.stateEntries })
    (hjob : QuietJob pf s op) (h : LedgerChange pf s op L') : Chained pf L' := by
  cases h with
  | same => exact hs
  | manifest m _ _ h =>
    refine Chained.commits ?_ (h.commits hK hkeys)
    exact hs.replace rfl rfl
  | bundle b _ h =>
    cases h with
    | ignored => exact hs
    | cached _ => exact hs.replace rfl rfl
    | applied _ _ h =>
      refine Chained.commits ?_ (h.commits hK hkeys)
      exact hs.replace rfl rfl
  | head p h => exact hs.commits (h.commits hK hkeys)
  | respond clock r hop hr =>
    refine hs.congr (fun _ _ => rfl) fun q c hc => StateStore.sparseRootScoped_congr _ pf ?_
    by_cases hq : r.programId = q
    · subst hq
      refine entries_setEntries_of_root (hresp r (by rw [hop]; rfl)) ?_
      have hexp := hr.expected
      have hlatest : s.catalog.latestStateCommitment r.programId = some c := hc
      rw [expectedStateRoot, hlatest] at hexp
      rw [hr.computed, ← Option.some.inj (Except.ok.inj hexp)]
      exact hs.latest r.programId c hc
    · exact entries_setEntries_of_ne _ hq _
  | job p input maxFuel world salt now hop o ho hne =>
    refine hs.congr (fun _ _ => rfl) fun q c hc => StateStore.sparseRootScoped_congr _ pf ?_
    by_cases hq : p = q
    · subst hq
      have hlatest : s.catalog.latestStateCommitment p = some c := hc
      have hw := hjob (p, o.stateWrites) (by rw [hop, jobWrites, ho]; rfl)
      rw [hlatest] at hw
      exact absurd (hw.resolve_left (by simp)) hne
    · exact StateStore.entries_applyStateWrites_of_ne _ p hq _

theorem chained_of_fresh (h₀ : s.Fresh) : Chained pf s.ledger := by
  rw [h₀]
  constructor
  · intro p c hc
    have hn : ProgramCatalog.empty.latestStateCommitment p = some c := hc
    simp at hn
  · intro p height c hc
    simp [Node.ledger, Node.fresh, ProgramCatalog.getStateCommitment, ProgramCatalog.empty] at hc

end Steps

/-- In every run without hash collisions in which a job of a program that has a commitment writes
nothing, program state has the latest committed root and commitments form a chain. -/
theorem state_follows_chain {pf : Platform} {K : List Bytes} {s₀ s : Node} {ops : List Op}
    (h₀ : s₀.Fresh) (hK : Set.InjOn pf.hashBytes { k | k ∈ K })
    (hcoll : Along (step pf) (Collisionless pf K) s₀ ops) (hjob : Along (step pf) (QuietJob pf) s₀ ops)
    (hrun : run (step pf) s₀ ops = some s) :
    (∀ p c, s.catalog.latestStateCommitment p = some c → s.states.sparseRootScoped p pf = c.root) ∧
    ∀ p height c, s.catalog.getStateCommitment p height = some c → 2 ≤ height →
      ∃ prev, s.catalog.getStateCommitment p (height - 1) = some prev ∧ c.parent = some prev.root := by
  have hinv : Chained pf s.ledger := invariant_run (I := fun s => Chained pf s.ledger)
    (fun _ _ _ hs hh h => hs.ledgerChange hK (hh.1.keys _ h) hh.1.response hh.2 (step_ledger h))
    (chained_of_fresh h₀) (hcoll.and hjob) hrun
  exact ⟨hinv.latest, hinv.parent⟩

/-- A single member commits one height without writes and one with a write; a state response and a
job come in between. -/
theorem state_follows_chain_sample :
    let ops := sampleSetup (sampleCommittee sampleProgram [1] 1) ++ sampleCall 0 [] ++
      [.call 0 (.settle fun _ => 0), .call 0 .finish,
        .deliver (fun _ => 0) (.stateResponse ⟨sampleProgram, smtEmpty, []⟩)] ++ sampleCall 1 [1] ++
      [.call 1 (.settle fun _ => 0), .job sampleProgram [] 100 0 (.ofByte 32 0) 0]
    ∃ s c, run (step sampleRuntime) (sampleStart 1) ops = some s ∧
      s.catalog.latestStateCommitment sampleProgram = some c ∧ c.height = 2 ∧
      s.states.sparseRootScoped sampleProgram sampleRuntime = c.root ∧
      ∃ prev, s.catalog.getStateCommitment sampleProgram 1 = some prev ∧ c.parent = some prev.root := by
  intro ops
  have hrun : ((run (step sampleRuntime) (sampleStart 1) ops).any fun s =>
      (s.catalog.latestStateCommitment sampleProgram).map (·.height) = some 2) = true := by decide +kernel
  obtain ⟨s, hs, hlatest⟩ := exists_of_any hrun
  obtain ⟨c, hc, hh⟩ := Option.map_eq_some_iff.mp hlatest
  have hchain := @state_follows_chain sampleRuntime [[1]] (sampleStart 1) s ops (sampleStart_fresh 1)
    (by simp) (by decide +kernel) (by decide +kernel) hs
  have hget := (ProgramCatalog.latestStateCommitment_eq_some hc).2.1
  obtain ⟨prev, hprev, hpar⟩ := hchain.2 sampleProgram c.height c hget (by rw [hh]; decide)
  rw [hh] at hprev
  exact ⟨s, c, hs, hc, hh, hchain.1 sampleProgram c hc, prev, hprev, hpar⟩

/-- A job that writes after the first commitment leaves the chain behind. -/
theorem job_leaves_chain :
    ¬ ∀ (ops : List Op) (s : Node), Along (step sampleRuntime) (Collisionless sampleRuntime [[1]])
        (sampleStart 1) ops → run (step sampleRuntime) (sampleStart 1) ops = some s →
      ∀ p c, s.catalog.latestStateCommitment p = some c →
        s.states.sparseRootScoped p sampleRuntime = c.root := by
  intro hall
  let ops := sampleSetup (sampleCommittee sampleProgram [1] 1) ++ sampleCall 0 [] ++
    [.call 0 (.settle fun _ => 0), .call 0 .finish, .job sampleProgram [1] 100 0 (.ofByte 32 0) 0]
  have hrun : ((run (step sampleRuntime) (sampleStart 1) ops).any fun s =>
      (s.catalog.latestStateCommitment sampleProgram).map
        (fun c => decide (s.states.sparseRootScoped sampleProgram sampleRuntime = c.root)) = some false) =
      true := by decide +kernel
  obtain ⟨s, hs, hbad⟩ := exists_of_any hrun
  obtain ⟨c, hc, hne⟩ := Option.map_eq_some_iff.mp hbad
  exact of_decide_eq_false hne (hall ops s (by decide +kernel) hs sampleProgram c hc)

end Onvm
