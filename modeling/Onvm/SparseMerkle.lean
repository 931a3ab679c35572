import Onvm.OrderedStore
import Onvm.Types

/-! The sparse Merkle tree of `merkle/mod.rs`, over an arbitrary hash function
and an arbitrary iteration order of its hash map, and what its root says about
the pairs it was computed from. -/

namespace Onvm

open ByteString OrderedStore Std

def smtEmpty : Bytes32 :=
  ⟨[111, 110, 118, 109, 45, 115, 109, 116, 45, 101, 109, 112, 116, 121, 45, 111,
    110, 118, 109, 45, 115, 109, 116, 45, 101, 109, 112, 116, 121, 33, 33, 0], rfl⟩

def bitAt (key : Bytes32) (depth : Nat) : Bool :=
  (key.bytes.getD (depth / 8) 0 >>> UInt8.ofNat (7 - depth % 8)) &&& 1 == 1

abbrev Leaf := Bytes32 × Bytes32

section Hash

variable (h : Bytes → Bytes32)

def leafInput (key value : Bytes32) : Bytes := [108, 101, 97, 102] ++ (key.bytes ++ value.bytes)

def nodeInput (left right : Bytes32) : Bytes := [110, 111, 100, 101] ++ (left.bytes ++ right.bytes)

def hashLeaf (key value : Bytes32) : Bytes32 := h (leafInput key value)

def hashInternal (left right : Bytes32) : Bytes32 := h (nodeInput left right)

def dedupLeaves (pairs : List (Bytes × Bytes)) : ExtTreeMap Bytes32 Bytes32 :=
  pairs.foldl (fun m e => m.insert (h e.1) (hashLeaf h (h e.1) (h e.2))) ∅

/-- `computeSmtRoot h n` is the source's `compute_smt_root` at level `256 - n`. -/
def computeSmtRoot : Nat → List Leaf → Bytes32
  | _, [] => smtEmpty
  | 0, x :: _ => x.2
  | n + 1, x :: xs =>
    hashInternal h (computeSmtRoot n ((x :: xs).filter fun e => !bitAt e.1 (255 - n)))
      (computeSmtRoot n ((x :: xs).filter fun e => bitAt e.1 (255 - n)))

def sparseMerkleRoot (order : List Leaf → List Leaf) (pairs : List (Bytes × Bytes)) : Bytes32 :=
  let map := dedupLeaves h pairs
  if map.isEmpty then smtEmpty else computeSmtRoot h 256 (order map.toList)

end Hash

theorem leafInput_inj {k k' v v' : Bytes32} (e : leafInput k v = leafInput k' v') :
    k = k' ∧ v = v' := by
  obtain ⟨hk, hv⟩ := FixedBytes.append_inj (List.append_cancel_left e)
  exact ⟨hk, FixedBytes.bytes_injective hv⟩

theorem nodeInput_inj {l l' r r' : Bytes32} (e : nodeInput l r = nodeInput l' r') :
    l = l' ∧ r = r' := by
  obtain ⟨hl, hr⟩ := FixedBytes.append_inj (List.append_cancel_left e)
  exact ⟨hl, FixedBytes.bytes_injective hr⟩

theorem testBit_of_shift (x : UInt8) {j : Nat} (hj : j < 8) :
    ((x >>> UInt8.ofNat j) &&& 1 == 1) = x.toNat.testBit j := by
  have e : (UInt8.ofNat j).toNat = j := UInt8.toNat_ofNat_of_lt' (show j < 256 by omega)
  have hm : j % 8 = j := Nat.mod_eq_of_lt hj
  rw [Bool.eq_iff_iff, beq_iff_eq, ← UInt8.toNat_inj]
  simp [UInt8.toNat_and, UInt8.toNat_shiftRight, e, hm, Nat.testBit, Nat.and_comm, Nat.one_and_eq_mod_two]

theorem eq_of_bitAt_eq {a b : Bytes32} (hb : ∀ d < 256, bitAt a d = bitAt b d) : a = b := by
  apply FixedBytes.bytes_injective
  apply List.ext_getElem (a.length_bytes.trans b.length_bytes.symm)
  intro i hi hi'
  have h32 : i < 32 := a.length_bytes ▸ hi
  rw [← UInt8.toNat_inj]
  apply Nat.eq_of_testBit_eq
  intro j
  by_cases hj : j < 8
  · have hd := hb (8 * i + (7 - j)) (by omega)
    have e1 : (8 * i + (7 - j)) / 8 = i := by omega
    have e2 : 7 - (8 * i + (7 - j)) % 8 = j := by omega
    simp only [bitAt, e1, e2, List.getD_eq_getElem _ _ hi, List.getD_eq_getElem _ _ hi'] at hd
    rwa [testBit_of_shift _ hj, testBit_of_shift _ hj] at hd
  · have hlt : ∀ x : UInt8, x.toNat < 2 ^ j := fun x =>
      x.toNat_lt.trans_le (Nat.pow_le_pow_right (by norm_num) (Nat.le_of_not_lt hj))
    rw [Nat.testBit_lt_two_pow (hlt _), Nat.testBit_lt_two_pow (hlt _)]

/-- Leaves that reach a node with `n` levels below it: distinct keys that agree on the bits above. -/
structure AtDepth (n : Nat) (ls : List Leaf) : Prop where
  nodup : (ls.map Prod.fst).Nodup
  agree : ∀ e ∈ ls, ∀ f ∈ ls, ∀ d < 256 - n, bitAt e.1 d = bitAt f.1 d

namespace AtDepth

variable {n : Nat} {ls : List Leaf}

theorem top (hn : (ls.map Prod.fst).Nodup) : AtDepth 256 ls := ⟨hn, fun _ _ _ _ d hd => by omega⟩

theorem half (hn : n < 256) (hl : AtDepth (n + 1) ls) (b : Bool) :
    AtDepth n (ls.filter fun e => bitAt e.1 (255 - n) == b) := by
  refine ⟨hl.nodup.sublist (List.filter_sublist.map _), ?_⟩
  intro e he f hf d hd
  obtain ⟨he, heb⟩ := List.mem_filter.mp he
  obtain ⟨hf, hfb⟩ := List.mem_filter.mp hf
  by_cases hlast : d = 255 - n
  · rw [hlast, beq_iff_eq.mp heb, beq_iff_eq.mp hfb]
  · exact hl.agree e he f hf d (by omega)

theorem eq_of_mem (hl : AtDepth 0 ls) {e f : Leaf} (he : e ∈ ls) (hf : f ∈ ls) : e = f := by
  have hk : e.1 = f.1 := eq_of_bitAt_eq fun d hd => hl.agree e he f hf d (by omega)
  exact List.inj_on_of_nodup_map hl.nodup he hf hk

theorem eq_singleton {e : Leaf} {es : List Leaf} (hl : AtDepth 0 (e :: es)) : es = [] := by
  cases es with
  | nil => rfl
  | cons f es =>
    have hef : e = f := hl.eq_of_mem (by simp) (by simp)
    have hn := hl.nodup
    simp [hef] at hn

end AtDepth

theorem filter_not_bitAt (n : Nat) (ls : List Leaf) :
    (ls.filter fun e => !bitAt e.1 (255 - n)) = ls.filter fun e => bitAt e.1 (255 - n) == false := by
  congr 1
  funext e
  cases bitAt e.1 (255 - n) <;> rfl

theorem filter_bitAt (n : Nat) (ls : List Leaf) :
    (ls.filter fun e => bitAt e.1 (255 - n)) = ls.filter fun e => bitAt e.1 (255 - n) == true := by
  congr 1
  funext e
  cases bitAt e.1 (255 - n) <;> rfl

theorem computeSmtRoot_succ (h : Bytes → Bytes32) (n : Nat) {ls : List Leaf} (hne : ls ≠ []) :
    computeSmtRoot h (n + 1) ls =
      hashInternal h (computeSmtRoot h n (ls.filter fun e => bitAt e.1 (255 - n) == false))
        (computeSmtRoot h n (ls.filter fun e => bitAt e.1 (255 - n) == true)) := by
  cases ls with
  | nil => exact absurd rfl hne
  | cons x xs => rw [computeSmtRoot, filter_not_bitAt, filter_bitAt]

theorem computeSmtRoot_perm (h : Bytes → Bytes32) {n : Nat} (hn : n ≤ 256) {ls ms : List Leaf}
    (hl : AtDepth n ls) (hp : ls.Perm ms) : computeSmtRoot h n ls = computeSmtRoot h n ms := by
  induction n generalizing ls ms with
  | zero =>
    cases ls with
    | nil => rw [hp.nil_eq]
    | cons e es =>
      rw [hl.eq_singleton] at hp ⊢
      rw [List.singleton_perm.mp hp]
  | succ n ih =>
    by_cases hne : ls = []
    · subst hne
      rw [hp.nil_eq]
    · have hne' : ms ≠ [] := fun hm => hne (List.perm_nil.mp (hm ▸ hp))
      rw [computeSmtRoot_succ h n hne, computeSmtRoot_succ h n hne',
        ih (by omega) (hl.half (by omega) false) (hp.filter _),
        ih (by omega) (hl.half (by omega) true) (hp.filter _)]

def nodeInputs (h : Bytes → Bytes32) : Nat → List Leaf → List Bytes
  | _, [] => []
  | 0, _ :: _ => []
  | n + 1, x :: xs =>
    let left := (x :: xs).filter fun e => bitAt e.1 (255 - n) == false
    let right := (x :: xs).filter fun e => bitAt e.1 (255 - n) == true
    nodeInput (computeSmtRoot h n left) (computeSmtRoot h n right) ::
      (nodeInputs h n left ++ nodeInputs h n right)

/-- Every string hashed while the root of `pairs` is computed. -/
def smtInputs (h : Bytes → Bytes32) (pairs : List (Bytes × Bytes)) : List Bytes :=
  pairs.flatMap (fun e => [e.1, e.2, leafInput (h e.1) (h e.2)]) ++
    nodeInputs h 256 (dedupLeaves h pairs).toList

/-- No two strings of `X` collide and none hashes to the marker of an empty subtree. -/
structure Binding (h : Bytes → Bytes32) (X : Set Bytes) : Prop where
  inj : Set.InjOn h X
  ne_empty : ∀ x ∈ X, h x ≠ smtEmpty

/-- A leaf as `dedup_leaves` builds it. -/
def IsLeaf (h : Bytes → Bytes32) (X : Set Bytes) (e : Leaf) : Prop :=
  ∃ v, leafInput e.1 v ∈ X ∧ e.2 = hashLeaf h e.1 v

theorem mem_iff_of_computeSmtRoot_eq {h : Bytes → Bytes32} {X : Set Bytes} (hX : Binding h X)
    {n : Nat} (hn : n ≤ 256) {ls ms : List Leaf} (hl : AtDepth n ls) (hm : AtDepth n ms)
    (hls : ∀ e ∈ ls, IsLeaf h X e) (hms : ∀ e ∈ ms, IsLeaf h X e)
    (hil : ∀ x ∈ nodeInputs h n ls, x ∈ X) (him : ∀ x ∈ nodeInputs h n ms, x ∈ X)
    (he : computeSmtRoot h n ls = computeSmtRoot h n ms) (e : Leaf) : e ∈ ls ↔ e ∈ ms := by
  induction n generalizing ls ms with
  | zero =>
    match ls, ms with
    | [], [] => rfl
    | [], y :: ys =>
      obtain ⟨v, hv, hy⟩ := hms y (by simp)
      exact absurd (hy.symm.trans he.symm) (hX.ne_empty _ hv)
    | x :: xs, [] =>
      obtain ⟨v, hv, hx⟩ := hls x (by simp)
      exact absurd (hx.symm.trans he) (hX.ne_empty _ hv)
    | x :: xs, y :: ys =>
      obtain ⟨v, hv, hx⟩ := hls x (by simp)
      obtain ⟨w, hw, hy⟩ := hms y (by simp)
      have hxy : x.2 = y.2 := he
      have hin := hX.inj hv hw (hx.symm.trans (hxy.trans hy))
      have heq : x = y := Prod.ext (leafInput_inj hin).1 hxy
      rw [hl.eq_singleton, hm.eq_singleton, heq]
  | succ n ih =>
    match ls, ms with
    | [], [] => rfl
    | [], y :: ys =>
      rw [computeSmtRoot_succ h n (List.cons_ne_nil y ys)] at he
      exact absurd he.symm (hX.ne_empty _ (him _ (by simp [nodeInputs])))
    | x :: xs, [] =>
      rw [computeSmtRoot_succ h n (List.cons_ne_nil x xs)] at he
      exact absurd he (hX.ne_empty _ (hil _ (by simp [nodeInputs])))
    | x :: xs, y :: ys =>
      rw [computeSmtRoot_succ h n (List.cons_ne_nil x xs),
        computeSmtRoot_succ h n (List.cons_ne_nil y ys)] at he
      have hin := hX.inj (hil _ (by simp [nodeInputs])) (him _ (by simp [nodeInputs])) he
      have hhalf : ∀ b, (e ∈ (x :: xs).filter fun e => bitAt e.1 (255 - n) == b) ↔
          e ∈ (y :: ys).filter fun e => bitAt e.1 (255 - n) == b := by
        intro b
        refine ih (by omega) (hl.half (by omega) b) (hm.half (by omega) b)
          (fun f hf => hls f (List.mem_of_mem_filter hf)) (fun f hf => hms f (List.mem_of_mem_filter hf))
          (fun z hz => hil z ?_) (fun z hz => him z ?_) ?_
        · cases b <;> simp only [nodeInputs, List.mem_cons, List.mem_append] <;> tauto
        · cases b <;> simp only [nodeInputs, List.mem_cons, List.mem_append] <;> tauto
        · cases b
          · exact (nodeInput_inj hin).1
          · exact (nodeInput_inj hin).2
      have hb := hhalf (bitAt e.1 (255 - n))
      simpa only [List.mem_filter, beq_self_eq_true, and_true] using hb

def lastWins (pairs : List (Bytes × Bytes)) : ByteTree Bytes :=
  pairs.foldl (fun m e => m.insert e.1 e.2) ∅

theorem mem_of_lastWins {pairs : List (Bytes × Bytes)} {k v : Bytes}
    (hv : (lastWins pairs)[k]? = some v) : (k, v) ∈ pairs := by
  have hfold : ∀ (qs : List (Bytes × Bytes)) (t : ByteTree Bytes),
      (qs.foldl (fun m e => m.insert e.1 e.2) t)[k]? = some v → t[k]? = some v ∨ (k, v) ∈ qs := by
    intro qs
    induction qs with
    | nil => exact fun t ht => Or.inl ht
    | cons e es ih =>
      intro t ht
      rcases ih _ ht with hh | hh
      · rw [ExtTreeMap.getElem?_insert] at hh
        split at hh
        · rename_i hc
          refine Or.inr ?_
          rw [← LawfulEqOrd.eq_of_compare hc, ← Option.some.inj hh]
          simp
        · exact Or.inl hh
      · exact Or.inr (by simp [hh])
  rcases hfold pairs ∅ hv with hh | hh
  · simp at hh
  · exact hh

theorem getElem?_foldl_insert {α : Type} (f : Bytes → Bytes → α) (g : Bytes → Bytes32)
    (pairs : List (Bytes × Bytes)) {K : Set Bytes} (hg : Set.InjOn g K) (hK : ∀ e ∈ pairs, e.1 ∈ K)
    (m : ExtTreeMap Bytes32 α) (t : ByteTree Bytes) (hm : ∀ k ∈ K, m[g k]? = t[k]?.map (f k))
    {k : Bytes} (hk : k ∈ K) :
    (pairs.foldl (fun m e => m.insert (g e.1) (f e.1 e.2)) m)[g k]? =
      (pairs.foldl (fun t e => t.insert e.1 e.2) t)[k]?.map (f k) := by
  induction pairs generalizing m t with
  | nil => exact hm k hk
  | cons e es ih =>
    simp only [List.foldl_cons]
    refine ih (fun x hx => hK x (by simp [hx])) _ _ ?_
    intro k' hk'
    rw [ExtTreeMap.getElem?_insert, ExtTreeMap.getElem?_insert]
    by_cases hc : e.1 = k'
    · simp [hc]
    · have hc' : g e.1 ≠ g k' := fun hh => hc (hg (hK e (by simp)) hk' hh)
      rw [if_neg (fun hh => hc (LawfulEqOrd.eq_of_compare hh)),
        if_neg (fun hh => hc' (LawfulEqOrd.eq_of_compare hh)), hm k' hk']

theorem getElem?_dedupLeaves {h : Bytes → Bytes32} {K : Set Bytes} (hK : Set.InjOn h K)
    {pairs : List (Bytes × Bytes)} (hp : ∀ e ∈ pairs, e.1 ∈ K) {k : Bytes} (hk : k ∈ K) :
    (dedupLeaves h pairs)[h k]? = (lastWins pairs)[k]?.map fun v => hashLeaf h (h k) (h v) :=
  getElem?_foldl_insert (fun k v => hashLeaf h (h k) (h v)) h pairs hK hp ∅ ∅ (by simp) hk

theorem mem_dedupLeaves {h : Bytes → Bytes32} {pairs : List (Bytes × Bytes)} {e : Leaf}
    (he : e ∈ (dedupLeaves h pairs).toList) :
    ∃ x ∈ pairs, e = (h x.1, hashLeaf h (h x.1) (h x.2)) := by
  have hfold : ∀ (qs : List (Bytes × Bytes)) (m : ExtTreeMap Bytes32 Bytes32) (k l : Bytes32),
      (qs.foldl (fun m e => m.insert (h e.1) (hashLeaf h (h e.1) (h e.2))) m)[k]? = some l →
      m[k]? = some l ∨ ∃ x ∈ qs, (k, l) = (h x.1, hashLeaf h (h x.1) (h x.2)) := by
    intro qs
    induction qs with
    | nil => exact fun m k l hk => Or.inl hk
    | cons x xs ih =>
      intro m k l hk
      rcases ih _ k l hk with hm | ⟨y, hy, hxy⟩
      · rw [ExtTreeMap.getElem?_insert] at hm
        split at hm
        · rename_i hc
          refine Or.inr ⟨x, by simp, ?_⟩
          rw [← LawfulEqOrd.eq_of_compare hc, ← Option.some.inj hm]
        · exact Or.inl hm
      · exact Or.inr ⟨y, by simp [hy], hxy⟩
  rcases hfold pairs ∅ e.1 e.2 (ExtTreeMap.mem_toList_iff_getElem?_eq_some.mp he) with hm | hm
  · simp at hm
  · exact hm

theorem atDepth_dedupLeaves (h : Bytes → Bytes32) (pairs : List (Bytes × Bytes)) :
    AtDepth 256 (dedupLeaves h pairs).toList := by
  refine .top ?_
  rw [ExtTreeMap.map_fst_toList_eq_keys]
  exact ExtTreeMap.nodup_keys

theorem sparseMerkleRoot_eq {h : Bytes → Bytes32} {order : List Leaf → List Leaf}
    (ho : ∀ l, (order l).Perm l) (pairs : List (Bytes × Bytes)) :
    sparseMerkleRoot h order pairs = computeSmtRoot h 256 (dedupLeaves h pairs).toList := by
  rw [sparseMerkleRoot]
  split
  · rename_i he
    have hnil : (dedupLeaves h pairs).toList = [] := by
      rw [ExtTreeMap.isEmpty_iff.mp he]
      rfl
    rw [hnil, computeSmtRoot]
  · exact (computeSmtRoot_perm h le_rfl (atDepth_dedupLeaves h pairs) (ho _).symm).symm

theorem sparseMerkleRoot_congr {h : Bytes → Bytes32} {order : List Leaf → List Leaf}
    (ho : ∀ l, (order l).Perm l) {K : Set Bytes} (hK : Set.InjOn h K) {p q : List (Bytes × Bytes)}
    (hp : ∀ e ∈ p, e.1 ∈ K) (hq : ∀ e ∈ q, e.1 ∈ K) (hpq : lastWins p = lastWins q) :
    sparseMerkleRoot h order p = sparseMerkleRoot h order q := by
  have hd : dedupLeaves h p = dedupLeaves h q := by
    apply ExtTreeMap.ext_getElem?
    intro k
    by_cases hk : ∃ x ∈ K, h x = k
    · obtain ⟨x, hx, rfl⟩ := hk
      rw [getElem?_dedupLeaves hK hp hx, getElem?_dedupLeaves hK hq hx, hpq]
    · have hnone : ∀ r : List (Bytes × Bytes), (∀ e ∈ r, e.1 ∈ K) → (dedupLeaves h r)[k]? = none := by
        intro r hr
        by_contra hc
        obtain ⟨l, hl⟩ := Option.ne_none_iff_exists'.mp hc
        obtain ⟨x, hx, he⟩ := mem_dedupLeaves (ExtTreeMap.mem_toList_iff_getElem?_eq_some.mpr hl)
        exact hk ⟨x.1, hr x hx, (congrArg Prod.fst he).symm⟩
      rw [hnone p hp, hnone q hq]
  rw [sparseMerkleRoot_eq ho, sparseMerkleRoot_eq ho, hd]

theorem lastWins_eq_of_sparseMerkleRoot_eq {h : Bytes → Bytes32} {order : List Leaf → List Leaf}
    (ho : ∀ l, (order l).Perm l) {p q : List (Bytes × Bytes)}
    (hX : Binding h { x | x ∈ smtInputs h p ∨ x ∈ smtInputs h q })
    (he : sparseMerkleRoot h order p = sparseMerkleRoot h order q) : lastWins p = lastWins q := by
  have hmem : ∀ {r : List (Bytes × Bytes)} {k v : Bytes}, (r = p ∨ r = q) → (k, v) ∈ r →
      k ∈ { x | x ∈ smtInputs h p ∨ x ∈ smtInputs h q } ∧
      v ∈ { x | x ∈ smtInputs h p ∨ x ∈ smtInputs h q } ∧
      leafInput (h k) (h v) ∈ { x | x ∈ smtInputs h p ∨ x ∈ smtInputs h q } := by
    rintro r k v hr hkv
    have hin : ∀ x ∈ [k, v, leafInput (h k) (h v)], x ∈ smtInputs h r := fun x hx =>
      List.mem_append_left _ (List.mem_flatMap.mpr ⟨(k, v), hkv, hx⟩)
    have hall : ∀ x ∈ [k, v, leafInput (h k) (h v)], x ∈ smtInputs h p ∨ x ∈ smtInputs h q := by
      rcases hr with rfl | rfl
      · exact fun x hx => Or.inl (hin x hx)
      · exact fun x hx => Or.inr (hin x hx)
    exact ⟨hall k (by simp), hall v (by simp), hall _ (by simp)⟩
  have hleaf : ∀ r, (r = p ∨ r = q) → ∀ e ∈ (dedupLeaves h r).toList,
      IsLeaf h { x | x ∈ smtInputs h p ∨ x ∈ smtInputs h q } e := by
    intro r hr e hin
    obtain ⟨x, hx, rfl⟩ := mem_dedupLeaves hin
    exact ⟨h x.2, (hmem hr hx).2.2, rfl⟩
  rw [sparseMerkleRoot_eq ho, sparseMerkleRoot_eq ho] at he
  have hd : dedupLeaves h p = dedupLeaves h q := by
    apply ExtTreeMap.ext_getElem?
    intro k
    apply Option.ext
    intro l
    rw [← ExtTreeMap.mem_toList_iff_getElem?_eq_some, ← ExtTreeMap.mem_toList_iff_getElem?_eq_some]
    exact mem_iff_of_computeSmtRoot_eq hX le_rfl (atDepth_dedupLeaves h p) (atDepth_dedupLeaves h q)
      (hleaf p (.inl rfl)) (hleaf q (.inr rfl))
      (fun x hx => Or.inl (List.mem_append_right _ hx))
      (fun x hx => Or.inr (List.mem_append_right _ hx)) he (k, l)
  have hhalf : ∀ r r', (r = p ∨ r = q) → (r' = p ∨ r' = q) → dedupLeaves h r = dedupLeaves h r' →
      ∀ k v : Bytes, (lastWins r)[k]? = some v → (lastWins r')[k]? = some v := by
    intro r r' hr hr' hrr k v hv
    have hin := hmem hr (mem_of_lastWins hv)
    have h1 := getElem?_dedupLeaves hX.inj (fun e hein => (hmem hr hein).1) hin.1
    have h2 := getElem?_dedupLeaves hX.inj (fun e hein => (hmem hr' hein).1) hin.1
    rw [← hrr, h1, hv] at h2
    obtain ⟨w, hw, hvw⟩ := Option.map_eq_some_iff.mp h2.symm
    have hin' := hmem hr' (mem_of_lastWins hw)
    have hleafEq := hX.inj hin'.2.2 hin.2.2 hvw
    have hwv := hX.inj hin'.2.1 hin.2.1 (leafInput_inj hleafEq).2
    rw [hw, hwv]
  apply ExtTreeMap.ext_getElem?
  intro k
  apply Option.ext
  intro v
  exact ⟨hhalf p q (.inl rfl) (.inr rfl) hd k v, hhalf q p (.inr rfl) (.inl rfl) hd.symm k v⟩

end Onvm
