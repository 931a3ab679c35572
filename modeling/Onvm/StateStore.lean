import Onvm.Overlays
import Onvm.Platform

/-! Program state: the scoped key-value store of `state_store.rs`, batches of
writes, and the root a batch is predicted to lead to. -/

namespace Onvm

open ByteString OrderedStore Std

structure StateStore where
  tree : ByteTree Bytes

namespace StateStore

def empty : StateStore := ⟨∅⟩

variable (st : StateStore) (p : ProgramId)

def getScoped (key : Bytes) : Option Bytes := st.tree[p.bytes.bytes ++ key]?

def setScoped (key value : Bytes) : StateStore := ⟨st.tree.insert (p.bytes.bytes ++ key) value⟩

def deleteScoped (key : Bytes) : StateStore := ⟨st.tree.erase (p.bytes.bytes ++ key)⟩

def getAllScoped : List (Bytes × Bytes) := entriesIn st.tree p.bytes.bytes

def sparseRootScoped (pf : Platform) : Bytes32 := pf.sparseRoot (st.getAllScoped p)

def applyWrite (w : StateWrite) : StateStore :=
  match w.value with
  | some v => st.setScoped p w.key v
  | none => st.deleteScoped p w.key

def applyStateWrites (writes : List StateWrite) : StateStore :=
  writes.foldl (fun s w => s.applyWrite p w) st

def entries : ByteTree Bytes := view st.tree p.bytes.bytes

end StateStore

def writeEntry (m : ByteTree Bytes) (w : StateWrite) : ByteTree Bytes :=
  match w.value with
  | some v => m.insert w.key v
  | none => m.erase w.key

def writeEntries (m : ByteTree Bytes) (writes : List StateWrite) : ByteTree Bytes :=
  writes.foldl writeEntry m

theorem writeEntry_eq_patch (m : ByteTree Bytes) (w : StateWrite) :
    writeEntry m w = patch m w.key w.value := by
  unfold writeEntry
  cases w.value with
  | some v => rfl
  | none => rfl

theorem getElem?_writeEntry (e : ByteTree Bytes) (w : StateWrite) (k : Bytes) :
    (writeEntry e w)[k]? = if w.key = k then w.value else e[k]? := by
  rw [writeEntry_eq_patch, getElem?_patch]

theorem mem_writeEntry {e : ByteTree Bytes} {w : StateWrite} {k : Bytes} (h : k ∈ writeEntry e w) :
    k ∈ e ∨ w.key = k := by
  unfold writeEntry at h
  cases hv : w.value with
  | none =>
    rw [hv] at h
    exact Or.inl (ExtTreeMap.mem_of_mem_erase h)
  | some v =>
    rw [hv] at h
    rcases ExtTreeMap.mem_insert.mp h with he | he
    · exact Or.inr (LawfulEqOrd.eq_of_compare he)
    · exact Or.inl he

theorem mem_writeEntries {ws : List StateWrite} {e : ByteTree Bytes} {k : Bytes}
    (h : k ∈ writeEntries e ws) : k ∈ e ∨ ∃ w ∈ ws, w.key = k := by
  induction ws generalizing e with
  | nil => exact Or.inl h
  | cons w ws ih =>
    rcases ih (e := writeEntry e w) h with he | ⟨w', hw', hk⟩
    · rcases mem_writeEntry he with he | hk
      · exact Or.inl he
      · exact Or.inr ⟨w, by simp, hk⟩
    · exact Or.inr ⟨w', by simp [hw'], hk⟩

/-- The root of the entries `m` listed in the order of a hash map. -/
def rootOfMap (pf : Platform) (m : ByteTree Bytes) : Bytes32 := pf.sparseRoot (pf.mapOrder m.toList)

def computeRootAfterWrites (pf : Platform) (st : StateStore) (p : ProgramId)
    (writes : List StateWrite) : Bytes32 :=
  rootOfMap pf (writeEntries (ExtTreeMap.ofList (st.getAllScoped p) compare) writes)

theorem ProgramId.bytes_ne {p q : ProgramId} (hpq : p ≠ q) : p.bytes.bytes ≠ q.bytes.bytes :=
  fun hh => hpq (ProgramId.eq_of_bytes hh)

theorem ProgramId.length_bytes_eq (p q : ProgramId) :
    p.bytes.bytes.length = q.bytes.bytes.length :=
  p.bytes.length_bytes.trans q.bytes.length_bytes.symm

theorem foldl_insert_of_notMem {k : Bytes} {l : List (Bytes × Bytes)} (t : ByteTree Bytes)
    (hk : k ∉ l.map Prod.fst) : (l.foldl (fun m e => m.insert e.1 e.2) t)[k]? = t[k]? := by
  induction l generalizing t with
  | nil => rfl
  | cons e es ih =>
    simp only [List.map_cons, List.mem_cons, not_or] at hk
    rw [List.foldl_cons, ih _ hk.2, ExtTreeMap.getElem?_insert,
      if_neg (fun hc => hk.1 (LawfulEqOrd.eq_of_compare hc).symm)]

theorem lastWins_of_mem {l : List (Bytes × Bytes)} (hn : (l.map Prod.fst).Nodup) {k v : Bytes}
    (hkv : (k, v) ∈ l) : (lastWins l)[k]? = some v := by
  obtain ⟨front, back, rfl⟩ := List.append_of_mem hkv
  have hb : k ∉ back.map Prod.fst := by
    rw [List.map_append, List.map_cons] at hn
    exact (List.nodup_cons.mp (List.nodup_append.mp hn).2.1).1
  rw [lastWins, List.foldl_append, List.foldl_cons, foldl_insert_of_notMem _ hb]
  simp

theorem lastWins_perm_toList {m : ByteTree Bytes} {l : List (Bytes × Bytes)}
    (hp : l.Perm m.toList) : lastWins l = m := by
  have hn : (l.map Prod.fst).Nodup := by
    rw [(hp.map Prod.fst).nodup_iff, ExtTreeMap.map_fst_toList_eq_keys]
    exact ExtTreeMap.nodup_keys
  apply ExtTreeMap.ext_getElem?
  intro k
  apply Option.ext
  intro v
  have hm : m[k]? = some v ↔ (k, v) ∈ l := by
    rw [hp.mem_iff, ExtTreeMap.mem_toList_iff_getElem?_eq_some]
  rw [hm]
  exact ⟨mem_of_lastWins, lastWins_of_mem hn⟩

namespace StateStore

variable (st : StateStore) (p : ProgramId)

theorem toList_entries : (st.entries p).toList = st.getAllScoped p := toList_view _ _

theorem lastWins_getAllScoped : lastWins (st.getAllScoped p) = st.entries p :=
  lastWins_perm_toList (by rw [toList_entries])

@[simp] theorem entries_empty : empty.entries p = ∅ := by
  apply ExtTreeMap.ext_getElem?
  intro k
  simp [entries, empty, getElem?_view]

theorem entries_applyWrite (w : StateWrite) :
    (st.applyWrite p w).entries p = writeEntry (st.entries p) w := by
  unfold applyWrite writeEntry
  cases w.value with
  | some v => exact view_insert _ _ _ _
  | none => exact view_erase _ _ _

theorem entries_applyWrite_of_ne {q : ProgramId} (hq : p ≠ q) (w : StateWrite) :
    (st.applyWrite p w).entries q = st.entries q := by
  unfold applyWrite
  cases w.value with
  | some v => exact view_insert_of_ne _ (p.length_bytes_eq q) (ProgramId.bytes_ne hq) _ _
  | none => exact view_erase_of_ne _ (p.length_bytes_eq q) (ProgramId.bytes_ne hq) _

theorem entries_applyStateWrites (writes : List StateWrite) :
    (st.applyStateWrites p writes).entries p = writeEntries (st.entries p) writes := by
  induction writes generalizing st with
  | nil => rfl
  | cons w ws ih =>
    have hh := ih (st.applyWrite p w)
    rw [entries_applyWrite] at hh
    exact hh

theorem entries_applyStateWrites_of_ne {q : ProgramId} (hq : p ≠ q) (writes : List StateWrite) :
    (st.applyStateWrites p writes).entries q = st.entries q := by
  induction writes generalizing st with
  | nil => rfl
  | cons w ws ih => exact (ih (st.applyWrite p w)).trans (st.entries_applyWrite_of_ne p hq w)

theorem sparseRootScoped_congr (pf : Platform) {st' : StateStore} {p : ProgramId}
    (he : st.entries p = st'.entries p) : st.sparseRootScoped p pf = st'.sparseRootScoped p pf := by
  rw [sparseRootScoped, sparseRootScoped, ← toList_entries, ← toList_entries, he]

theorem sparseRootScoped_eq (pf : Platform) {K : Set Bytes} (hK : Set.InjOn pf.hashBytes K)
    (hin : ∀ k ∈ st.entries p, k ∈ K) : st.sparseRootScoped p pf = rootOfMap pf (st.entries p) := by
  have hlist : ∀ e ∈ st.getAllScoped p, e.1 ∈ K := by
    intro e he
    rw [← toList_entries] at he
    have hv := ExtTreeMap.mem_toList_iff_getElem?_eq_some.mp he
    exact hin e.1 (ExtTreeMap.mem_iff_isSome_getElem?.mpr (by rw [hv]; rfl))
  have hperm := pf.mapOrder_perm (st.entries p).toList
  refine pf.sparseRoot_congr hK hlist ?_ ?_
  · intro e he
    exact hlist e (by rw [← toList_entries]; exact hperm.mem_iff.mp he)
  · rw [lastWins_getAllScoped, lastWins_perm_toList hperm]

theorem computeRootAfterWrites_eq (pf : Platform) (writes : List StateWrite) :
    computeRootAfterWrites pf st p writes = rootOfMap pf (writeEntries (st.entries p) writes) := rfl

theorem sparseRootScoped_applyStateWrites (pf : Platform) {K : Set Bytes}
    (hK : Set.InjOn pf.hashBytes K) {writes : List StateWrite}
    (hin : ∀ k ∈ (st.applyStateWrites p writes).entries p, k ∈ K) :
    (st.applyStateWrites p writes).sparseRootScoped p pf = computeRootAfterWrites pf st p writes := by
  rw [sparseRootScoped_eq _ p pf hK hin, computeRootAfterWrites_eq, entries_applyStateWrites]

theorem sparseRootScoped_eq_sparseRoot (pf : Platform) {K : Set Bytes} (hK : Set.InjOn pf.hashBytes K)
    {es : List (Bytes × Bytes)} (hes : ∀ e ∈ es, e.1 ∈ K) (he : st.entries p = lastWins es) :
    st.sparseRootScoped p pf = pf.sparseRoot es := by
  refine pf.sparseRoot_congr hK (fun e hmem => ?_) hes (by rw [lastWins_getAllScoped, he])
  rw [← toList_entries, he] at hmem
  exact hes e (mem_of_lastWins (ExtTreeMap.mem_toList_iff_getElem?_eq_some.mp hmem))

theorem getAllScoped_congr {st' : StateStore} {q : ProgramId} (he : st.entries q = st'.entries q) :
    st.getAllScoped q = st'.getAllScoped q := by
  rw [← toList_entries, ← toList_entries, he]

/-- Applying a batch leads to the predicted root, and no other program's state changes. -/
theorem applyStateWrites_spec (pf : Platform) (st : StateStore) (p : ProgramId)
    (writes : List StateWrite)
    (hK : Set.InjOn pf.hashBytes
      { k | (∃ e ∈ st.getAllScoped p, e.1 = k) ∨ ∃ w ∈ writes, w.key = k }) :
    computeRootAfterWrites pf st p writes = (st.applyStateWrites p writes).sparseRootScoped p pf ∧
      ∀ q, q ≠ p → (st.applyStateWrites p writes).getAllScoped q = st.getAllScoped q := by
  constructor
  · refine (st.sparseRootScoped_applyStateWrites p pf hK ?_).symm
    intro k hk
    rw [entries_applyStateWrites] at hk
    refine (mem_writeEntries hk).imp_left fun hmem => ?_
    obtain ⟨v, hv⟩ := Option.isSome_iff_exists.mp (ExtTreeMap.mem_iff_isSome_getElem?.mp hmem)
    refine ⟨(k, v), ?_, rfl⟩
    rw [← toList_entries]
    exact ExtTreeMap.mem_toList_iff_getElem?_eq_some.mpr hv
  · intro q hq
    exact getAllScoped_congr _ (st.entries_applyStateWrites_of_ne p hq.symm writes)

/-- A write over an empty key, a repeated key, and the deletion of a key that is not there. -/
theorem applyStateWrites_spec_sample :
    let p : ProgramId := ⟨.ofByte 32 9⟩
    let q : ProgramId := ⟨.ofByte 32 8⟩
    let pf := samplePlatform fun _ => .error "trap"
    let st := (StateStore.empty.setScoped p [1] [2]).setScoped q [3] [4]
    let writes : List StateWrite := [⟨[], some []⟩, ⟨[1], some [5]⟩, ⟨[1], none⟩, ⟨[7], none⟩]
    computeRootAfterWrites pf st p writes = (st.applyStateWrites p writes).sparseRootScoped p pf ∧
      ∀ q, q ≠ p → (st.applyStateWrites p writes).getAllScoped q = st.getAllScoped q := by
  intro p q pf st writes
  refine applyStateWrites_spec pf st p writes ?_
  have hkeys : ∀ k ∈ ({ k | (∃ e ∈ st.getAllScoped p, e.1 = k) ∨ ∃ w ∈ writes, w.key = k } : Set Bytes),
      k ∈ ([[], [1], [7]] : List Bytes) := by
    have hall : (∀ e ∈ st.getAllScoped p, e.1 ∈ ([[], [1], [7]] : List Bytes)) ∧
        ∀ w ∈ writes, w.key ∈ ([[], [1], [7]] : List Bytes) := by
      decide +kernel
    rintro k (⟨e, he, rfl⟩ | ⟨w, hw, rfl⟩)
    · exact hall.1 e he
    · exact hall.2 w hw
  have hinj : ∀ x ∈ ([[], [1], [7]] : List Bytes), ∀ y ∈ ([[], [1], [7]] : List Bytes),
      sampleHash x = sampleHash y → x = y := by
    decide
  exact fun x hx y hy hxy => hinj x (hkeys x hx) y (hkeys y hy) hxy

end StateStore

end Onvm
