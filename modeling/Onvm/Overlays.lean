import Onvm.OrderedStore

/-! A map of changes over a stored map: a change is a new value or, as a tombstone, a deletion. -/

namespace OrderedStore

open ByteString Std

variable {V : Type}

def patch (m : ByteTree V) (k : Bytes) : Option V → ByteTree V
  | some v => m.insert k v
  | none => m.erase k

def patchAll (m : ByteTree V) (changes : List (Bytes × Option V)) : ByteTree V :=
  changes.foldl (fun m e => patch m e.1 e.2) m

/-- What is seen through the changes `d`. -/
def overlay (m : ByteTree V) (d : ByteTree (Option V)) : ByteTree V := patchAll m d.toList

theorem getElem?_patch (m : ByteTree V) (k : Bytes) (v : Option V) (k' : Bytes) :
    (patch m k v)[k']? = if k = k' then v else m[k']? := by
  have hcmp : compare k k' = .eq ↔ k = k' := Std.LawfulEqOrd.compare_eq_iff_eq
  cases v with
  | some v => simp only [patch, ExtTreeMap.getElem?_insert, hcmp]
  | none => simp only [patch, ExtTreeMap.getElem?_erase, hcmp]

theorem getElem?_patchAll_of_notMem {changes : List (Bytes × Option V)} (m : ByteTree V) {k : Bytes}
    (h : k ∉ changes.map Prod.fst) : (patchAll m changes)[k]? = m[k]? := by
  induction changes generalizing m with
  | nil => rfl
  | cons e es ih =>
    rw [List.map_cons, List.mem_cons, not_or] at h
    have hrest := ih (patch m e.1 e.2) h.2
    rw [getElem?_patch, if_neg (Ne.symm h.1)] at hrest
    exact hrest

theorem getElem?_patchAll_of_mem {changes : List (Bytes × Option V)} (m : ByteTree V) {k : Bytes}
    {v : Option V} (hn : (changes.map Prod.fst).Nodup) (h : (k, v) ∈ changes) :
    (patchAll m changes)[k]? = v := by
  induction changes generalizing m with
  | nil => cases h
  | cons e es ih =>
    obtain ⟨hnotMem, hrest⟩ := List.nodup_cons.mp hn
    rcases List.mem_cons.mp h with rfl | h
    · have hlast := getElem?_patchAll_of_notMem (patch m k v) hnotMem
      rw [getElem?_patch, if_pos rfl] at hlast
      exact hlast
    · exact ih (patch m e.1 e.2) hrest h

theorem getElem?_overlay (m : ByteTree V) (d : ByteTree (Option V)) (k : Bytes) :
    (overlay m d)[k]? = (d[k]?).getD m[k]? := by
  cases hd : d[k]? with
  | none =>
    refine getElem?_patchAll_of_notMem m ?_
    rw [ExtTreeMap.map_fst_toList_eq_keys, ExtTreeMap.mem_keys, ExtTreeMap.mem_iff_isSome_getElem?, hd]
    exact Bool.false_ne_true
  | some v =>
    refine getElem?_patchAll_of_mem m ?_ (ExtTreeMap.mem_toList_iff_getElem?_eq_some.mpr hd)
    rw [ExtTreeMap.map_fst_toList_eq_keys]
    exact ExtTreeMap.nodup_keys

@[simp] theorem overlay_empty (m : ByteTree V) : overlay m ∅ = m := by
  apply ExtTreeMap.ext_getElem?
  intro k
  simp [getElem?_overlay]

theorem overlay_insert (m : ByteTree V) (d : ByteTree (Option V)) (k : Bytes) (v : Option V) :
    overlay m (d.insert k v) = patch (overlay m d) k v := by
  apply ExtTreeMap.ext_getElem?
  intro k'
  rw [getElem?_patch, getElem?_overlay, getElem?_overlay, ExtTreeMap.getElem?_insert]
  have hcmp : compare k k' = .eq ↔ k = k' := Std.LawfulEqOrd.compare_eq_iff_eq
  by_cases hk : k = k'
  · rw [if_pos hk, if_pos (hcmp.mpr hk)]
    rfl
  · rw [if_neg hk, if_neg (mt hcmp.mp hk)]

end OrderedStore
