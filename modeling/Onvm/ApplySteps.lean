import Onvm.BatchRaces
import Onvm.ProgramHeads

/-! The catch-up loop one store operation at a time: each step of
`apply_available_finalized_transitions` makes a single read or write of a store, so that a node can
stop, and another run can go on, between any two of them. -/

namespace Onvm

open ByteString OrderedStore Runs Std

section Batches

def entryStore : BatchRaces.Store (ByteTree Bytes) StateWrite Bytes Bytes where
  get e k := e[k]?
  key w := w.key
  value w := w.value
  write := writeEntry
  get_write_self e w := by rw [getElem?_writeEntry, if_pos rfl]
  get_write_of_ne e w k h := by rw [getElem?_writeEntry, if_neg h]
  ext _ _ h := ExtTreeMap.ext_getElem? fun {k} => h k

theorem writeEntries_again {e : ByteTree Bytes} {ws front rest : List StateWrite} (h : ws = front ++ rest) :
    writeEntries (writeEntries e front) ws = writeEntries e ws :=
  BatchRaces.Store.writeAll_again (S := entryStore) h

end Batches

/-- Where a run of the loop stands, with the local variables it still needs. -/
inductive ApplyPoint
  | readCommittee
  | readHeight (expected : CommitteeCertificate)
  | loadBundle (expected : CommitteeCertificate) (height : UInt64)
  | ingest (b : AggregatedReceiptBundle)
  | readRoot (b : AggregatedReceiptBundle)
  | predict (b : AggregatedReceiptBundle) (currentRoot : StateRoot)
  | write (b : AggregatedReceiptBundle) (currentRoot : StateRoot) (rest : List StateWrite)
  | readApplied (b : AggregatedReceiptBundle) (currentRoot : StateRoot)
  | commit (b : AggregatedReceiptBundle) (currentRoot appliedRoot : StateRoot)
  | done (result : Except String Unit)

def applyStep (pf : Platform) (clock : UInt64 → UInt64) (p : ProgramId) (s : Node) :
    ApplyPoint → Node × ApplyPoint
  | .readCommittee =>
    match s.catalog.committee pf p with
    | .error e => (s, .done (.error e))
    | .ok none => (s.request (.programManifest p), .done (.ok ()))
    | .ok (some expected) => (s, .readHeight expected)
  | .readHeight expected =>
    match s.catalog.expectedHeight p with
    | .error e => (s, .done (.error e))
    | .ok height => (s, .loadBundle expected height)
  | .loadBundle expected height =>
    match s.loadFinalizedTransition p height with
    | none => (s, .done (.ok ()))
    | some b => if b.committee ≠ expected then (s, .done (.ok ())) else (s, .ingest b)
  | .ingest b =>
    match s.ingestAggregatedReceipt pf b.receipt b.committee with
    | .error e => (s, .done (.error e))
    | .ok s' => (s', .readRoot b)
  | .readRoot b =>
    let currentRoot := s.states.sparseRootScoped p pf
    if b.receipt.receipt.stateRootIn ≠ currentRoot then (s, .done (.ok ()))
    else if stateWritesDigest pf b.stateWrites ≠ b.receipt.receipt.writeDigest then (s, .done (.ok ()))
    else (s, .predict b currentRoot)
  | .predict b currentRoot =>
    if computeRootAfterWrites pf s.states p b.stateWrites ≠ b.receipt.receipt.stateRootOut then
      (s, .done (.ok ()))
    else (s, .write b currentRoot b.stateWrites)
  | .write b currentRoot [] => (s, .readApplied b currentRoot)
  | .write b currentRoot (w :: ws) =>
    ({ s with states := s.states.applyWrite p w }, .write b currentRoot ws)
  | .readApplied b currentRoot =>
    let appliedRoot := s.states.sparseRootScoped p pf
    if appliedRoot ≠ b.receipt.receipt.stateRootOut then (s, .done (.ok ()))
    else (s, .commit b currentRoot appliedRoot)
  | .commit b currentRoot appliedRoot =>
    ({ s with catalog :=
        s.catalog.storeStateCommitment (commitmentOf clock p b appliedRoot currentRoot) }, .readCommittee)
  | .done result => (s, .done result)

def applySteps (pf : Platform) (clock : UInt64 → UInt64) (p : ProgramId) (n : Nat)
    (x : Node × ApplyPoint) : Node × ApplyPoint :=
  (fun x => applyStep pf clock p x.1 x.2)^[n] x

section Refinement

variable {pf : Platform} {clock : UInt64 → UInt64} {p : ProgramId} {s : Node}
  {x y z : Node × ApplyPoint}

theorem applySteps_succ (pf : Platform) (clock : UInt64 → UInt64) (p : ProgramId) (n : Nat)
    (x : Node × ApplyPoint) :
    applySteps pf clock p (n + 1) x =
      applyStep pf clock p (applySteps pf clock p n x).1 (applySteps pf clock p n x).2 :=
  Function.iterate_succ_apply' ..

theorem applySteps_add (pf : Platform) (clock : UInt64 → UInt64) (p : ProgramId) (m n : Nat)
    (x : Node × ApplyPoint) :
    applySteps pf clock p (m + n) x = applySteps pf clock p m (applySteps pf clock p n x) :=
  Function.iterate_add_apply ..

def Leads (pf : Platform) (clock : UInt64 → UInt64) (p : ProgramId) (x y : Node × ApplyPoint) : Prop :=
  ∃ n, applySteps pf clock p n x = y

theorem Leads.refl (x : Node × ApplyPoint) : Leads pf clock p x x := ⟨0, rfl⟩

theorem Leads.trans (h : Leads pf clock p x y) (h' : Leads pf clock p y z) : Leads pf clock p x z := by
  obtain ⟨m, rfl⟩ := h
  obtain ⟨n, rfl⟩ := h'
  exact ⟨n + m, applySteps_add ..⟩

theorem Leads.head (h : Leads pf clock p (applyStep pf clock p x.1 x.2) y) : Leads pf clock p x y := by
  obtain ⟨n, rfl⟩ := h
  exact ⟨n + 1, rfl⟩

theorem leads_write (b : AggregatedReceiptBundle) (root : StateRoot) (ws : List StateWrite) (s : Node) :
    Leads pf clock p (s, .write b root ws)
      ({ s with states := s.states.applyStateWrites p ws }, .readApplied b root) := by
  induction ws generalizing s with
  | nil => exact .head (.refl _)
  | cons w ws ih => exact .head (ih { s with states := s.states.applyWrite p w })

theorem leads_applyBundle (b : AggregatedReceiptBundle) (s : Node) :
    Leads pf clock p (s, .readRoot b)
      (match applyBundle pf clock p s b with
        | .done s' r => (s', .done r)
        | .again s' => (s', .readCommittee)) := by
  apply Leads.head
  rw [applyBundle]
  simp only [applyStep]
  by_cases hin : b.receipt.receipt.stateRootIn ≠ s.states.sparseRootScoped p pf
  · rw [if_pos hin, if_pos hin]
    exact .refl _
  rw [if_neg hin, if_neg hin]
  by_cases hd : stateWritesDigest pf b.stateWrites ≠ b.receipt.receipt.writeDigest
  · rw [if_pos hd, if_pos hd]
    exact .refl _
  rw [if_neg hd, if_neg hd]
  apply Leads.head
  simp only [applyStep]
  by_cases hp : computeRootAfterWrites pf s.states p b.stateWrites ≠ b.receipt.receipt.stateRootOut
  · rw [if_pos hp, if_pos hp]
    exact .refl _
  rw [if_neg hp, if_neg hp]
  refine (leads_write b _ b.stateWrites s).trans (.head ?_)
  simp only [applyStep]
  by_cases ha : (s.states.applyStateWrites p b.stateWrites).sparseRootScoped p pf ≠
      b.receipt.receipt.stateRootOut
  · rw [if_pos ha, if_pos ha]
    exact .refl _
  · rw [if_neg ha, if_neg ha]
    exact .head (.refl _)

theorem leads_applyTurn (s : Node) :
    Leads pf clock p (s, .readCommittee)
      (match applyTurn pf clock p s with
        | .done s' r => (s', .done r)
        | .again s' => (s', .readCommittee)) := by
  apply Leads.head
  rw [applyTurn]
  simp only [applyStep]
  cases s.catalog.committee pf p with
  | error e => exact .refl _
  | ok o =>
    cases o with
    | none => exact .refl _
    | some expected =>
      apply Leads.head
      simp only [applyStep]
      cases s.catalog.expectedHeight p with
      | error e => exact .refl _
      | ok height =>
        apply Leads.head
        simp only [applyStep]
        cases s.loadFinalizedTransition p height with
        | none => exact .refl _
        | some b =>
          by_cases hc : b.committee ≠ expected
          · simp only [if_pos hc]
            exact .refl _
          · simp only [if_neg hc]
            apply Leads.head
            simp only [applyStep]
            cases s.ingestAggregatedReceipt pf b.receipt b.committee with
            | error e => exact .refl _
            | ok s' => exact leads_applyBundle b s'

theorem leads_applyAvailable (pf : Platform) (clock : UInt64 → UInt64) (p : ProgramId) (s : Node) :
    Leads pf clock p (s, .readCommittee)
      ((applyAvailableFinalizedTransitions pf clock p s).1,
        .done (applyAvailableFinalizedTransitions pf clock p s).2) := by
  have hloop : ∀ (fuel : Nat) (s : Node), 2 ^ 64 ≤ fuel + s.ledger.catalog.committedHeight p →
      Leads pf clock p (s, .readCommittee)
        ((applyLoop pf clock p fuel s).1, .done (applyLoop pf clock p fuel s).2) := by
    intro fuel
    induction fuel with
    | zero =>
      intro s hfuel
      have hlt : s.ledger.catalog.committedHeight p < 2 ^ 64 := UInt64.toNat_lt _
      omega
    | succ fuel ih =>
      intro s hfuel
      have hturn := @leads_applyTurn pf clock p s
      rw [applyLoop]
      cases ht : applyTurn pf clock p s with
      | done s' r =>
        rw [ht] at hturn
        exact hturn
      | again s' =>
        rw [ht] at hturn
        have hh := (commitStep_of_applyTurn_again ht).committedHeight
        exact hturn.trans (ih s' (by omega))
  exact hloop _ s (Nat.le_add_right _ _)

end Refinement

section Sample

def registerGuest (call : GuestCall) : Except String GuestResult :=
  .ok ⟨[1], (∅ : ByteTree (Option Bytes)).insert [7]
    (if call.input.isEmpty then none else some call.input), 0⟩

def registerRuntime : Platform := samplePlatform registerGuest

def registerBundles : List AggregatedReceiptBundle :=
  ((run (step registerRuntime) (sampleStart 1)
    (sampleSetup (sampleCommittee sampleProgram [1] 1) ++ sampleCall 0 [1] ++
      [.call 0 (.settle fun _ => 0), .call 0 .finish] ++ sampleCall 1 [] ++
      [.call 1 (.settle fun _ => 0)])).map fun s =>
    s.published.filterMap fun
      | .aggregatedReceipt b => some b
      | _ => none).getD []

def registerNode : Node :=
  { sampleStart 2 with
    catalog := ProgramCatalog.empty.storeManifest (sampleManifest (sampleCommittee sampleProgram [1] 1))
    finalizedStore := registerBundles.foldl Keyed.put .empty }

theorem mem_of_get_foldl_put {V : Type} {key : V → Bytes} {l : List V} {t : Keyed key} {k : Bytes} {v : V}
    (h : (l.foldl Keyed.put t).get k = some v) : v ∈ l ∨ t.get k = some v := by
  induction l generalizing t with
  | nil => exact Or.inr h
  | cons x l ih =>
    rcases ih h with hm | hg
    · exact Or.inl (List.mem_cons_of_mem _ hm)
    · rw [Keyed.get_put] at hg
      split at hg
      · exact Or.inl (by rw [Option.some.inj hg]; exact List.mem_cons_self)
      · exact Or.inr hg

end Sample

end Onvm
