import Onvm.RemoteState

/-! What an accepted state response makes of the local state
(`handle_state_response`). Entries are only ever set: a local key that the
response does not have stays, and with it another root. -/

namespace Onvm

open ByteString OrderedStore Std

/-- The response passes the size limits and has the root that is expected of the program. -/
structure AcceptedResponse (pf : Platform) (s : Node) (r : StateResponse) (expected : StateRoot) : Prop where
  count : r.stateEntries.length ≤ maxStateEntries
  sizes : stateSizesAllowed 0 r.stateEntries = true
  known : expectedStateRoot pf s r.programId = .ok (some expected)
  claimed : r.stateRoot = expected
  computed : pf.sparseRoot r.stateEntries = expected

section Responses

variable {pf : Platform} {s : Node} {r : StateResponse} {expected : StateRoot}

theorem AcceptedResponse.handle (hr : AcceptedResponse pf s r expected) :
    handleStateResponse pf s r =
      { s with states := setEntries s.states r.programId r.stateEntries } := by
  rw [handleStateResponse, if_neg (Nat.not_lt.mpr hr.count), if_neg (by simp [hr.sizes]), hr.known]
  simp only [hr.claimed, hr.computed, ne_eq, not_true_eq_false, if_false]

theorem entries_setEntries_of_covers {st : StateStore} {p : ProgramId} {es : List (Bytes × Bytes)}
    (hc : ∀ k ∈ st.entries p, ∃ e ∈ es, e.1 = k) : (setEntries st p es).entries p = lastWins es := by
  apply ExtTreeMap.ext_getElem?
  intro k
  rw [entries_setEntries, foldl_insert_eq_or]
  by_cases hk : k ∈ st.entries p
  · obtain ⟨e, he, rfl⟩ := hc k hk
    have hmem := ExtTreeMap.mem_iff_isSome_getElem?.mp (mem_lastWins_of_mem he)
    rw [Option.or_of_isSome hmem]
  · have hnone : (st.entries p)[k]? = none := by
      rwa [ExtTreeMap.mem_iff_isSome_getElem?, Option.not_isSome_iff_eq_none] at hk
    rw [hnone, Option.or_none]

theorem mem_setEntries {st : StateStore} {p : ProgramId} {k : Bytes} (es : List (Bytes × Bytes))
    (hk : k ∈ st.entries p) : k ∈ (setEntries st p es).entries p := by
  rw [ExtTreeMap.mem_iff_isSome_getElem?] at hk ⊢
  rw [entries_setEntries, foldl_insert_eq_or, Option.isSome_or, hk, Bool.or_true]

theorem covers_of_sparseRootScoped {st : StateStore} {p : ProgramId} {es : List (Bytes × Bytes)}
    (hX : Binding pf.hashBytes
      { x | x ∈ smtInputs pf.hashBytes ((setEntries st p es).getAllScoped p) ∨
        x ∈ smtInputs pf.hashBytes es })
    (he : (setEntries st p es).sparseRootScoped p pf = pf.sparseRoot es) {k : Bytes}
    (hk : k ∈ st.entries p) : ∃ e ∈ es, e.1 = k := by
  have hmap := pf.lastWins_eq_of_sparseRoot_eq hX he
  rw [StateStore.lastWins_getAllScoped] at hmap
  have hmem := mem_setEntries es hk
  rw [hmap] at hmem
  obtain ⟨v, hv⟩ := Option.isSome_iff_exists.mp (ExtTreeMap.mem_iff_isSome_getElem?.mp hmem)
  exact ⟨(k, v), mem_of_lastWins hv, rfl⟩

end Responses

/-- An accepted response repairs the state if it has every key the state has; a key it lacks keeps
the root apart, unless strings hashed for the two roots collide. -/
theorem state_response_repairs (pf : Platform) (s : Node) (r : StateResponse) (expected : StateRoot)
    (hr : AcceptedResponse pf s r expected)
    (hinj : Set.InjOn pf.hashBytes { k | ∃ e ∈ r.stateEntries, e.1 = k }) :
    let s' := handleStateResponse pf s r
    ((∀ k ∈ s.states.entries r.programId, ∃ e ∈ r.stateEntries, e.1 = k) →
        s'.states.sparseRootScoped r.programId pf = expected) ∧
      (Binding pf.hashBytes
          { x | x ∈ smtInputs pf.hashBytes (s'.states.getAllScoped r.programId) ∨
            x ∈ smtInputs pf.hashBytes r.stateEntries } →
        s'.states.sparseRootScoped r.programId pf = expected →
        ∀ k ∈ s.states.entries r.programId, ∃ e ∈ r.stateEntries, e.1 = k) := by
  intro s'
  have hs' : s'.states = setEntries s.states r.programId r.stateEntries := by
    simp only [s', hr.handle]
  rw [hs', ← hr.computed]
  constructor
  · intro hc
    exact StateStore.sparseRootScoped_eq_sparseRoot _ _ pf hinj (fun e he => ⟨e, he, rfl⟩)
      (entries_setEntries_of_covers hc)
  · intro hX he k hk
    exact covers_of_sparseRootScoped hX he hk

/-- A node that has committed the state `received` and has `entries` in its store. -/
def sampleSynced (entries received : List (Bytes × Bytes)) : Node :=
  { sampleStart 1 with
    states := setEntries .empty sampleProgram entries
    catalog := ProgramCatalog.empty.storeStateCommitment
      ⟨sampleProgram, 1, sampleRuntime.sparseRoot received, none, none, 0⟩ }

def sampleStateResponse (received : List (Bytes × Bytes)) : StateResponse :=
  ⟨sampleProgram, sampleRuntime.sparseRoot received, received⟩

theorem sampleSynced_accepts {entries received : List (Bytes × Bytes)} (hcount : received.length ≤ maxStateEntries)
    (hsizes : stateSizesAllowed 0 received = true) :
    AcceptedResponse sampleRuntime (sampleSynced entries received) (sampleStateResponse received)
      (sampleRuntime.sparseRoot received) where
  count := hcount
  sizes := hsizes
  known := by
    let c : StateCommitment := ⟨sampleProgram, 1, sampleRuntime.sparseRoot received, none, none, 0⟩
    have hlatest : (sampleSynced entries received).catalog.latestStateCommitment sampleProgram = some c := by
      refine ProgramCatalog.latestStateCommitment_of_getStateCommitment (c := c) ?_ fun height h => ?_
      · exact (ProgramCatalog.getStateCommitment_storeStateCommitment ..).trans (if_pos ⟨rfl, rfl⟩)
      · rw [sampleSynced, ProgramCatalog.getStateCommitment_storeStateCommitment] at h
        split at h
        · rename_i he
          exact he.2 ▸ UInt64.le_refl _
        · cases h
    simp only [expectedStateRoot, sampleStateResponse, hlatest]
    rfl
  claimed := rfl
  computed := rfl

/-- One key has another value, one is there already, one is new and one comes twice. -/
theorem state_response_repairs_sample :
    let entries : List (Bytes × Bytes) := [([1], [9]), ([2], [7])]
    let received : List (Bytes × Bytes) := [([1], [8]), ([2], [7]), ([3], [4]), ([1], [5])]
    let s := sampleSynced entries received
    AcceptedResponse sampleRuntime s (sampleStateResponse received) (sampleRuntime.sparseRoot received) ∧
      s.states.getAllScoped sampleProgram = entries ∧
      (handleStateResponse sampleRuntime s (sampleStateResponse received)).states.sparseRootScoped
        sampleProgram sampleRuntime = sampleRuntime.sparseRoot received := by
  intro entries received s
  have haccepts : AcceptedResponse sampleRuntime s (sampleStateResponse received)
      (sampleRuntime.sparseRoot received) := sampleSynced_accepts (by decide) (by decide)
  have hinj : ∀ e ∈ received, ∀ e' ∈ received,
      sampleRuntime.hashBytes e.1 = sampleRuntime.hashBytes e'.1 → e.1 = e'.1 := by decide +kernel
  have hcovers : ∀ k ∈ (s.states.entries sampleProgram).keys, ∃ e ∈ received, e.1 = k := by decide +kernel
  refine ⟨haccepts, by decide +kernel, (state_response_repairs sampleRuntime s (sampleStateResponse received)
    (sampleRuntime.sparseRoot received) haccepts ?_).1 fun k hk => hcovers k (ExtTreeMap.mem_keys.mpr hk)⟩
  rintro x ⟨e, he, rfl⟩ y ⟨e', he', rfl⟩ heq
  exact hinj e he e' he' heq

/-- A stale key survives a response of the committed state, which is empty. -/
theorem stale_key_survives_response :
    let s := sampleSynced [([3], [4])] []
    AcceptedResponse sampleRuntime s (sampleStateResponse []) smtEmpty ∧
      (handleStateResponse sampleRuntime s (sampleStateResponse [])).states.sparseRootScoped sampleProgram
        sampleRuntime ≠ smtEmpty := by
  intro s
  have haccepts : AcceptedResponse sampleRuntime s (sampleStateResponse []) smtEmpty :=
    sampleSynced_accepts (by decide) rfl
  refine ⟨haccepts, ?_⟩
  rw [haccepts.handle]
  decide +kernel

end Onvm
