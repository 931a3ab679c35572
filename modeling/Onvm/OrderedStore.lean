import Onvm.Bytes

/-! Embedded key-value trees: byte-string keys in lexicographic order, prefix
scans, name spaces cut out by a prefix, and trees that file every value under a
key computed from the value itself. -/

namespace OrderedStore

open ByteString Std

abbrev ByteTree (V : Type) := ExtTreeMap Bytes V compare

section Scan

variable {V : Type}

def scanPrefix (t : ByteTree V) (pre : Bytes) : List (Bytes × V) :=
  t.toList.filter fun e => pre.isPrefixOf e.1

theorem mem_scanPrefix {t : ByteTree V} {pre k : Bytes} {v : V} :
    (k, v) ∈ scanPrefix t pre ↔ pre <+: k ∧ t[k]? = some v := by
  simp only [scanPrefix, List.mem_filter, ExtTreeMap.mem_toList_iff_getElem?_eq_some,
    List.isPrefixOf_iff_prefix]
  exact and_comm

theorem pairwise_scanPrefix (t : ByteTree V) (pre : Bytes) :
    (scanPrefix t pre).Pairwise fun a b => compare a.1 b.1 = .lt :=
  ExtTreeMap.ordered_keys_toList.filter _

def lastWithPrefix (t : ByteTree V) (pre : Bytes) : Option V :=
  (scanPrefix t pre).getLast?.map Prod.snd

theorem lastWithPrefix_eq_none {t : ByteTree V} {pre k : Bytes}
    (h : lastWithPrefix t pre = none) (hp : pre <+: k) : t[k]? = none := by
  simp only [lastWithPrefix, Option.map_eq_none_iff, List.getLast?_eq_none_iff] at h
  by_contra hc
  obtain ⟨v, hv⟩ := Option.ne_none_iff_exists'.mp hc
  have hm : (k, v) ∈ scanPrefix t pre := mem_scanPrefix.mpr ⟨hp, hv⟩
  simp [h] at hm

theorem lastWithPrefix_eq_some {t : ByteTree V} {pre : Bytes} {v : V}
    (h : lastWithPrefix t pre = some v) :
    ∃ k, pre <+: k ∧ t[k]? = some v ∧
      ∀ k', pre <+: k' → (t[k']?).isSome → k' = k ∨ compare k' k = .lt := by
  simp only [lastWithPrefix, Option.map_eq_some_iff] at h
  obtain ⟨⟨k, w⟩, hl, rfl⟩ := h
  obtain ⟨front, hs⟩ := List.getLast?_eq_some_iff.mp hl
  have hm : (k, w) ∈ scanPrefix t pre := List.mem_of_getLast? hl
  refine ⟨k, (mem_scanPrefix.mp hm).1, (mem_scanPrefix.mp hm).2, ?_⟩
  intro k' hp hsome
  obtain ⟨v', hv'⟩ := Option.isSome_iff_exists.mp hsome
  have hm' : (k', v') ∈ front ++ [(k, w)] := hs ▸ mem_scanPrefix.mpr ⟨hp, hv'⟩
  have ho := pairwise_scanPrefix t pre
  rw [hs, List.pairwise_append] at ho
  rcases List.mem_append.mp hm' with hf | hf
  · exact Or.inr (ho.2.2 _ hf (k, w) (by simp))
  · exact Or.inl (by simpa using congrArg Prod.fst (List.mem_singleton.mp hf))

end Scan

section Scoped

variable {V : Type}

theorem compare_append_left (ns a b : Bytes) : compare (ns ++ a) (ns ++ b) = compare a b := by
  induction ns with
  | nil => rfl
  | cons x ns ih => simp [ih]

def entriesIn (t : ByteTree V) (ns : Bytes) : List (Bytes × V) :=
  (scanPrefix t ns).map fun e => (e.1.drop ns.length, e.2)

theorem mem_entriesIn {t : ByteTree V} {ns k : Bytes} {v : V} :
    (k, v) ∈ entriesIn t ns ↔ t[ns ++ k]? = some v := by
  constructor
  · intro h
    obtain ⟨⟨full, w⟩, hm, he⟩ := List.mem_map.mp h
    obtain ⟨⟨rest, rfl⟩, hv⟩ := mem_scanPrefix.mp hm
    simp only [List.drop_left, Prod.mk.injEq] at he
    rw [← he.1, ← he.2]
    exact hv
  · intro h
    refine List.mem_map.mpr ⟨(ns ++ k, v), mem_scanPrefix.mpr ⟨⟨k, rfl⟩, h⟩, ?_⟩
    simp

theorem pairwise_entriesIn (t : ByteTree V) (ns : Bytes) :
    (entriesIn t ns).Pairwise fun a b => compare a.1 b.1 = .lt := by
  refine List.pairwise_map.mpr ((pairwise_scanPrefix t ns).imp_of_mem ?_)
  rintro ⟨a, v⟩ ⟨b, w⟩ ha hb hlt
  obtain ⟨a', rfl⟩ := (mem_scanPrefix.mp ha).1
  obtain ⟨b', rfl⟩ := (mem_scanPrefix.mp hb).1
  simpa only [List.drop_left, compare_append_left] using hlt

theorem getElem?_ofList_of_pairwise {l : List (Bytes × V)}
    (h : l.Pairwise fun a b => compare a.1 b.1 = .lt) {k : Bytes} {v : V} :
    (ExtTreeMap.ofList l compare)[k]? = some v ↔ (k, v) ∈ l := by
  have hd : l.Pairwise fun a b => ¬ compare a.1 b.1 = .eq :=
    h.imp fun hlt heq => by rw [hlt] at heq; cases heq
  constructor
  · intro hv
    by_contra hc
    by_cases hk : k ∈ l.map Prod.fst
    · obtain ⟨⟨k', w⟩, hm, hk'⟩ := List.mem_map.mp hk
      change k' = k at hk'
      subst hk'
      have hw := ExtTreeMap.getElem?_ofList_of_mem (Std.ReflOrd.compare_self (a := k')) hd hm
      rw [hw] at hv
      exact hc (by rw [← Option.some.inj hv]; exact hm)
    · have hn : (ExtTreeMap.ofList l compare)[k]? = none :=
        ExtTreeMap.getElem?_ofList_of_contains_eq_false (by simpa using hk)
      rw [hn] at hv
      cases hv
  · exact fun hm => ExtTreeMap.getElem?_ofList_of_mem Std.ReflOrd.compare_self hd hm

theorem ascending_ext {α : Type*} (key : α → Bytes) {l m : List α}
    (hl : l.Pairwise fun a b => compare (key a) (key b) = .lt)
    (hm : m.Pairwise fun a b => compare (key a) (key b) = .lt) (h : ∀ e, e ∈ l ↔ e ∈ m) : l = m := by
  have hnodup : ∀ {q : List α}, q.Pairwise (fun a b => compare (key a) (key b) = .lt) → q.Nodup := by
    intro q hq
    refine hq.imp fun hlt he => ?_
    rw [he, Std.ReflOrd.compare_self] at hlt
    cases hlt
  have hperm : l.Perm m := (List.perm_ext_iff_of_nodup (hnodup hl) (hnodup hm)).mpr h
  refine hperm.eq_of_pairwise ?_ hl hm
  intro a b _ _ hab hba
  rw [Std.OrientedOrd.eq_swap, hba] at hab
  cases hab

theorem toList_ofList {l : List (Bytes × V)}
    (h : l.Pairwise fun a b => compare a.1 b.1 = .lt) : (ExtTreeMap.ofList l compare).toList = l := by
  refine ascending_ext Prod.fst ExtTreeMap.ordered_keys_toList h ?_
  rintro ⟨k, v⟩
  rw [ExtTreeMap.mem_toList_iff_getElem?_eq_some, getElem?_ofList_of_pairwise h]

def view (t : ByteTree V) (ns : Bytes) : ByteTree V := ExtTreeMap.ofList (entriesIn t ns) compare

theorem getElem?_view (t : ByteTree V) (ns k : Bytes) : (view t ns)[k]? = t[ns ++ k]? := by
  apply Option.ext
  intro v
  rw [view, getElem?_ofList_of_pairwise (pairwise_entriesIn t ns), mem_entriesIn]

theorem toList_view (t : ByteTree V) (ns : Bytes) : (view t ns).toList = entriesIn t ns :=
  toList_ofList (pairwise_entriesIn t ns)

theorem view_insert (t : ByteTree V) (ns k : Bytes) (v : V) :
    view (t.insert (ns ++ k) v) ns = (view t ns).insert k v := by
  apply ExtTreeMap.ext_getElem?
  intro k'
  rw [getElem?_view, ExtTreeMap.getElem?_insert, ExtTreeMap.getElem?_insert, getElem?_view,
    compare_append_left]

theorem view_erase (t : ByteTree V) (ns k : Bytes) :
    view (t.erase (ns ++ k)) ns = (view t ns).erase k := by
  apply ExtTreeMap.ext_getElem?
  intro k'
  rw [getElem?_view, ExtTreeMap.getElem?_erase, ExtTreeMap.getElem?_erase, getElem?_view,
    compare_append_left]

theorem append_ne_of_ne {ns ns' : Bytes} (hl : ns.length = ns'.length) (hne : ns ≠ ns')
    (k k' : Bytes) : ns ++ k ≠ ns' ++ k' :=
  fun h => hne (List.append_inj h hl).1

theorem view_insert_of_ne (t : ByteTree V) {ns ns' : Bytes} (hl : ns.length = ns'.length)
    (hne : ns ≠ ns') (k : Bytes) (v : V) : view (t.insert (ns ++ k) v) ns' = view t ns' := by
  apply ExtTreeMap.ext_getElem?
  intro k'
  have hk := append_ne_of_ne hl hne k k'
  rw [getElem?_view, ExtTreeMap.getElem?_insert, getElem?_view,
    if_neg (fun hc => hk (Std.LawfulEqOrd.eq_of_compare hc))]

theorem view_erase_of_ne (t : ByteTree V) {ns ns' : Bytes} (hl : ns.length = ns'.length)
    (hne : ns ≠ ns') (k : Bytes) : view (t.erase (ns ++ k)) ns' = view t ns' := by
  apply ExtTreeMap.ext_getElem?
  intro k'
  have hk := append_ne_of_ne hl hne k k'
  rw [getElem?_view, ExtTreeMap.getElem?_erase, getElem?_view,
    if_neg (fun hc => hk (Std.LawfulEqOrd.eq_of_compare hc))]

end Scoped

/-- A tree in which every value stands under its own key. -/
structure Keyed {V : Type} (key : V → Bytes) where
  tree : ByteTree V
  keyed : ∀ {k v}, tree[k]? = some v → key v = k

namespace Keyed

variable {V : Type} {key : V → Bytes}

def empty : Keyed key := ⟨∅, fun h => by simp at h⟩

def get (t : Keyed key) (k : Bytes) : Option V := t.tree[k]?

def put (t : Keyed key) (v : V) : Keyed key where
  tree := t.tree.insert (key v) v
  keyed := by
    intro k w h
    rw [ExtTreeMap.getElem?_insert] at h
    split at h
    · rename_i hc
      rw [← Option.some.inj h]
      exact Std.LawfulEqOrd.eq_of_compare hc
    · exact t.keyed h

@[simp] theorem get_empty (k : Bytes) : (empty : Keyed key).get k = none := by
  simp [get, empty]

theorem get_put (t : Keyed key) (v : V) (k : Bytes) :
    (t.put v).get k = if key v = k then some v else t.get k := by
  simp only [get, put, ExtTreeMap.getElem?_insert, Std.LawfulEqOrd.compare_eq_iff_eq]

@[simp] theorem get_put_self (t : Keyed key) (v : V) : (t.put v).get (key v) = some v := by
  simp [get_put]

theorem get_put_of_ne (t : Keyed key) {v : V} {k : Bytes} (h : key v ≠ k) :
    (t.put v).get k = t.get k := by
  simp [get_put, h]

theorem key_of_get (t : Keyed key) {k : Bytes} {v : V} (h : t.get k = some v) : key v = k :=
  t.keyed h

end Keyed

end OrderedStore
