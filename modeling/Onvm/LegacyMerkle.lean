import Onvm.PairReduction
import Onvm.SparseMerkleProofs
import Onvm.StateStore

/-! The older Merkle root of `merkle/mod.rs`: sorted leaves, reduced in pairs.
Leaves and inner nodes are hashed in one format, so a tree of one pair can stand
for a tree of many; the root binds the map as long as the leaves of neither map are
an inner level of the other tree. -/

namespace Onvm

open ByteString OrderedStore PairReduction

section Hash

variable (h : Bytes → Bytes32)

def emptyRootInput : Bytes := "onvm-empty-root".toUTF8.data.toList

def pairInput (a b : Bytes32) : Bytes := a.bytes ++ b.bytes

def hashPair (a b : Bytes32) : Bytes32 := h (pairInput a b)

def merkleLeaves (pairs : List (Bytes × Bytes)) : List Bytes32 :=
  (pairs.map fun e => hashPair h (h e.1) (h e.2)).insertionSort fun a b => (compare a b).isLE

def merkleRoot (pairs : List (Bytes × Bytes)) : Bytes32 :=
  match merkleLeaves h pairs with
  | [] => h emptyRootInput
  | first :: rest => reduce (hashPair h) first rest

def pairInputs (pairs : List (Bytes × Bytes)) : List Bytes :=
  pairs.map (fun e => pairInput (h e.1) (h e.2)) ++
    match merkleLeaves h pairs with
    | [] => []
    | first :: rest => (reducePairs (hashPair h) first rest).map fun e => pairInput e.1 e.2

/-- Every string hashed while the root of `pairs` is computed. -/
def merkleInputs (pairs : List (Bytes × Bytes)) : List Bytes :=
  (if pairs.isEmpty then [emptyRootInput] else []) ++ pairs.flatMap (fun e => [e.1, e.2]) ++
    pairInputs h pairs

/-- The nodes of a tree, `n` levels above its leaves. -/
def merkleLevel (pairs : List (Bytes × Bytes)) (n : Nat) : List Bytes32 :=
  (level (hashPair h))^[n] (merkleLeaves h pairs)

/-- The hashed keys and values of `p` are the neighbours on a level of the tree of `q`, and the nodes
above that level are in the order of leaves. -/
def Imitates (p q : List (Bytes × Bytes)) : Prop :=
  ∃ n, 1 < (merkleLevel h q n).length ∧
    (p.map fun e => (h e.1, h e.2)).Perm (pairsOf (merkleLevel h q n)) ∧
    (merkleLevel h q (n + 1)).Pairwise fun a b => (compare a b).isLE

end Hash

def StateStore.rootScoped (st : StateStore) (p : ProgramId) (pf : Platform) : Bytes32 :=
  merkleRoot pf.hashBytes (st.getAllScoped p)

theorem pairInput_inj {a b c d : Bytes32} (he : pairInput a b = pairInput c d) : a = c ∧ b = d := by
  obtain ⟨hac, hbd⟩ := FixedBytes.append_inj he
  exact ⟨hac, FixedBytes.bytes_injective hbd⟩

theorem length_pairInput (a b : Bytes32) : (pairInput a b).length = 64 := by
  rw [pairInput, List.length_append, a.length_bytes, b.length_bytes]

section Trees

variable {h : Bytes → Bytes32} {pairs : List (Bytes × Bytes)}

theorem merkleLeaves_perm (h : Bytes → Bytes32) (pairs : List (Bytes × Bytes)) :
    (merkleLeaves h pairs).Perm (pairs.map fun e => hashPair h (h e.1) (h e.2)) :=
  List.perm_insertionSort _ _

theorem merkleLeaves_ne_nil (hne : pairs ≠ []) : merkleLeaves h pairs ≠ [] := by
  intro hnil
  have hperm := merkleLeaves_perm h pairs
  rw [hnil] at hperm
  exact hne (List.map_eq_nil_iff.mp hperm.nil_eq.symm)

theorem merkleLeaves_sorted (h : Bytes → Bytes32) (pairs : List (Bytes × Bytes)) :
    (merkleLeaves h pairs).Pairwise fun a b => (compare a b).isLE := by
  have : Std.Total fun a b : Bytes32 => ((compare a b).isLE : Prop) := ⟨fun a b => by
    have hswap : compare b a = (compare a b).swap := Std.OrientedCmp.eq_swap
    rw [hswap]
    cases compare a b <;> simp⟩
  have : IsTrans Bytes32 fun a b => ((compare a b).isLE : Prop) := ⟨fun _ _ _ => Std.TransCmp.isLE_trans⟩
  exact List.pairwise_insertionSort _ _

theorem merkleLevel_succ (h : Bytes → Bytes32) (pairs : List (Bytes × Bytes)) (n : Nat) :
    merkleLevel h pairs (n + 1) = (pairsOf (merkleLevel h pairs n)).map fun e => hashPair h e.1 e.2 :=
  Function.iterate_succ_apply' _ _ _

/-- The levels of a tree with its root at height `d`, every pair on the way being hashed. -/
structure Rooted (h : Bytes → Bytes32) (pairs : List (Bytes × Bytes)) (d : Nat) : Prop where
  root : merkleLevel h pairs d = [merkleRoot h pairs]
  below : ∀ j < d, 1 < (merkleLevel h pairs j).length
  hashed : ∀ j < d, ∀ e ∈ pairsOf (merkleLevel h pairs j), pairInput e.1 e.2 ∈ pairInputs h pairs

theorem exists_rooted (hne : pairs ≠ []) : ∃ d, Rooted h pairs d := by
  cases hl : merkleLeaves h pairs with
  | nil => exact absurd hl (merkleLeaves_ne_nil hne)
  | cons first rest =>
    obtain ⟨d, hd, hlevels⟩ := exists_iterate_eq_reduceFrom (f := hashPair h) (a := first) (le_refl rest.length)
    rw [← hl] at hd hlevels
    refine ⟨d, ?_, fun j hj => (hlevels j hj).1, fun j hj e he => ?_⟩
    · rw [merkleLevel, hd, merkleRoot, hl]
      rfl
    · rw [pairInputs, hl]
      exact List.mem_append_right _ (List.mem_map.mpr ⟨e, (hlevels j hj).2 e he, rfl⟩)

theorem merkleRoot_eq_of_leaves {p q : List (Bytes × Bytes)} {n d d' : Nat} (hp : Rooted h p d)
    (hq : Rooted h q d') (hn : n < d') (hleaves : merkleLeaves h p = merkleLevel h q (n + 1)) :
    merkleRoot h p = merkleRoot h q := by
  have hlevel : ∀ j, merkleLevel h p j = merkleLevel h q (j + (n + 1)) := by
    intro j
    rw [merkleLevel, hleaves]
    exact (Function.iterate_add_apply _ _ _ _).symm
  have hd : d + (n + 1) = d' := by
    rcases Nat.lt_trichotomy (d + (n + 1)) d' with hlt | heq | hgt
    · have hlen := hq.below _ hlt
      rw [← hlevel, hp.root] at hlen
      exact absurd hlen (lt_irrefl 1)
    · exact heq
    · have hlen := hp.below (d' - (n + 1)) (by omega)
      rw [hlevel, Nat.sub_add_cancel hn, hq.root] at hlen
      exact absurd hlen (lt_irrefl 1)
  have hroot := hlevel d
  rw [hd, hp.root, hq.root] at hroot
  exact List.singleton_injective hroot

theorem Rooted.lt_of_length {d n : Nat} (ht : Rooted h pairs d) (hlen : 1 < (merkleLevel h pairs n).length) :
    n < d := by
  by_contra hge
  obtain ⟨j, rfl⟩ := Nat.exists_eq_add_of_le (Nat.le_of_not_lt hge)
  rw [Nat.add_comm, merkleLevel, Function.iterate_add_apply] at hlen
  change 1 < ((level (hashPair h))^[j] (merkleLevel h pairs d)).length at hlen
  rw [ht.root] at hlen
  exact absurd (hlen.trans_le (length_iterate_le _ _ _)) (lt_irrefl 1)

theorem Imitates.merkleRoot_eq {p q : List (Bytes × Bytes)} (hi : Imitates h p q) :
    merkleRoot h p = merkleRoot h q := by
  obtain ⟨n, hlen, hpairs, hsorted⟩ := hi
  have hqne : q ≠ [] := by
    rintro rfl
    exact absurd (hlen.trans_le (length_iterate_le _ _ _)) (by simp [merkleLeaves])
  have hpne : p ≠ [] := by
    rintro rfl
    have hnil := hpairs.nil_eq.symm
    cases hl : merkleLevel h q n using pairsOf.fun_cases <;> simp_all [pairsOf]
  obtain ⟨d, hp⟩ := exists_rooted (h := h) hpne
  obtain ⟨d', hq⟩ := exists_rooted (h := h) hqne
  refine merkleRoot_eq_of_leaves hp hq (hq.lt_of_length hlen) ?_
  have hperm : (merkleLeaves h p).Perm (merkleLevel h q (n + 1)) := by
    refine (merkleLeaves_perm h p).trans ?_
    rw [merkleLevel_succ]
    simpa [List.map_map, Function.comp_def] using hpairs.map fun e => hashPair h e.1 e.2
  refine List.Perm.eq_of_pairwise (fun a b _ _ hab hba => ?_) (merkleLeaves_sorted h p) hsorted hperm
  exact Std.LawfulEqCmp.eq_of_compare (Std.OrientedCmp.isLE_antisymm hab hba)

theorem Imitates.length_lt {p q : List (Bytes × Bytes)} (hi : Imitates h p q) : p.length < q.length := by
  obtain ⟨n, hlen, hpairs, -⟩ := hi
  have hp : p.length = (pairsOf (merkleLevel h q n)).length := by
    simpa using hpairs.length_eq
  have hq : (merkleLeaves h q).length = q.length := by simpa using (merkleLeaves_perm h q).length_eq
  rw [hp, ← hq]
  exact (length_pairsOf_lt hlen).trans_le (length_iterate_le _ _ _)

theorem Rooted.exists_input {d j : Nat} (ht : Rooted h pairs d) (hjd : j ≤ d) {a : Bytes32}
    (ha : a ∈ merkleLevel h pairs j) : ∃ x ∈ pairInputs h pairs, a = h x := by
  cases j with
  | zero =>
    obtain ⟨e, he, rfl⟩ := List.mem_map.mp ((merkleLeaves_perm h pairs).mem_iff.mp ha)
    exact ⟨_, List.mem_append_left _ (List.mem_map_of_mem he), rfl⟩
  | succ j =>
    rw [merkleLevel_succ] at ha
    obtain ⟨e, he, rfl⟩ := List.mem_map.mp ha
    exact ⟨_, ht.hashed j hjd e he, rfl⟩

theorem exists_input_merkleRoot (hne : pairs ≠ []) :
    ∃ x ∈ pairInputs h pairs, merkleRoot h pairs = h x := by
  obtain ⟨d, ht⟩ := exists_rooted (h := h) hne
  exact ht.exists_input le_rfl (by rw [ht.root]; exact List.mem_singleton_self _)

theorem length_of_mem_pairInputs {x : Bytes} (hx : x ∈ pairInputs h pairs) : x.length = 64 := by
  rw [pairInputs, List.mem_append] at hx
  rcases hx with hx | hx
  · obtain ⟨e, -, rfl⟩ := List.mem_map.mp hx
    exact length_pairInput _ _
  · cases hl : merkleLeaves h pairs with
    | nil =>
      rw [hl] at hx
      cases hx
    | cons first rest =>
      rw [hl] at hx
      obtain ⟨e, -, rfl⟩ := List.mem_map.mp hx
      exact length_pairInput _ _

end Trees

section Binding

variable {h : Bytes → Bytes32} {X : Set Bytes} (hX : Set.InjOn h X)

/-- A map, listed, all strings hashed for it being in `X`. -/
structure Hashed (h : Bytes → Bytes32) (X : Set Bytes) (pairs : List (Bytes × Bytes)) : Prop where
  nodup : (pairs.map Prod.fst).Nodup
  inputs : ∀ x ∈ merkleInputs h pairs, x ∈ X

namespace Hashed

variable {pairs : List (Bytes × Bytes)} (hp : Hashed h X pairs)

include hp

theorem pair {x : Bytes} (hx : x ∈ pairInputs h pairs) : x ∈ X :=
  hp.inputs x (List.mem_append_right _ hx)

theorem entry {e : Bytes × Bytes} (he : e ∈ pairs) : e.1 ∈ X ∧ e.2 ∈ X ∧ pairInput (h e.1) (h e.2) ∈ X := by
  have hin : ∀ x ∈ [e.1, e.2], x ∈ X := fun x hx =>
    hp.inputs x (List.mem_append_left _ (List.mem_append_right _ (List.mem_flatMap.mpr ⟨e, he, hx⟩)))
  exact ⟨hin _ (by simp), hin _ (by simp), hp.pair (List.mem_append_left _ (List.mem_map_of_mem he))⟩

end Hashed

include hX

theorem injOn_hashPair : Set.InjOn (fun e : Bytes32 × Bytes32 => hashPair h e.1 e.2)
    { e | pairInput e.1 e.2 ∈ X } := by
  intro e he f hf hef
  have hin := pairInput_inj (hX he hf hef)
  exact Prod.ext hin.1 hin.2

theorem eq_of_leaf_eq {e f : Bytes × Bytes} (he : e.1 ∈ X ∧ e.2 ∈ X ∧ pairInput (h e.1) (h e.2) ∈ X)
    (hf : f.1 ∈ X ∧ f.2 ∈ X ∧ pairInput (h f.1) (h f.2) ∈ X)
    (hef : hashPair h (h e.1) (h e.2) = hashPair h (h f.1) (h f.2)) : e = f := by
  obtain ⟨hk, hv⟩ := pairInput_inj (hX he.2.2 hf.2.2 hef)
  exact Prod.ext (hX he.1 hf.1 hk) (hX he.2.1 hf.2.1 hv)

theorem Hashed.nodup_leaves {pairs : List (Bytes × Bytes)} (hp : Hashed h X pairs) :
    (merkleLeaves h pairs).Nodup := by
  rw [(merkleLeaves_perm h pairs).nodup_iff]
  exact hp.nodup.of_map.map_on fun e he f hf hef => eq_of_leaf_eq hX (hp.entry he) (hp.entry hf) hef

theorem perm_of_merkleLeaves_eq {p q : List (Bytes × Bytes)} (hp : Hashed h X p) (hq : Hashed h X q)
    (hl : merkleLeaves h p = merkleLeaves h q) : p.Perm q := by
  have hsub : ∀ r s, Hashed h X r → Hashed h X s → merkleLeaves h r = merkleLeaves h s → r ⊆ s := by
    intro r s hr hs hrs e he
    have hmem := (merkleLeaves_perm h r).mem_iff.mpr (List.mem_map_of_mem he)
    rw [hrs] at hmem
    obtain ⟨f, hf, hfe⟩ := List.mem_map.mp ((merkleLeaves_perm h s).mem_iff.mp hmem)
    rwa [← eq_of_leaf_eq hX (hs.entry hf) (hr.entry he) hfe]
  rw [List.perm_ext_iff_of_nodup hp.nodup.of_map hq.nodup.of_map]
  exact fun e => ⟨fun he => hsub p q hp hq hl he, fun he => hsub q p hq hp hl.symm he⟩

theorem Hashed.imitates {p q : List (Bytes × Bytes)} (hp : Hashed h X p) (hq : Hashed h X q) {d n : Nat}
    (ht : Rooted h q d) (hn : n < d) (hleaves : merkleLeaves h p = merkleLevel h q (n + 1)) :
    Imitates h p q := by
  have hinj := injOn_hashPair hX
  have hS : ∀ e ∈ pairsOf (merkleLevel h q n), pairInput e.1 e.2 ∈ X := fun e he =>
    hq.pair (ht.hashed n hn e he)
  have hnodup : (merkleLevel h q (n + 1)).Nodup := hleaves ▸ hp.nodup_leaves hX
  rw [merkleLevel_succ] at hnodup
  have hperm : ((p.map fun e => (h e.1, h e.2)).map fun e => hashPair h e.1 e.2).Perm
      ((pairsOf (merkleLevel h q n)).map fun e => hashPair h e.1 e.2) := by
    rw [← merkleLevel_succ, ← hleaves, List.map_map]
    exact (merkleLeaves_perm h p).symm
  refine ⟨n, ht.below n hn, ?_, hleaves ▸ merkleLeaves_sorted h p⟩
  have hp' : ∀ e ∈ p.map (fun e => (h e.1, h e.2)), pairInput e.1 e.2 ∈ X := by
    intro e he
    obtain ⟨f, hf, rfl⟩ := List.mem_map.mp he
    exact (hp.entry hf).2.2
  rw [List.perm_ext_iff_of_nodup (hperm.nodup_iff.mpr hnodup).of_map hnodup.of_map]
  intro e
  constructor
  · intro he
    obtain ⟨f, hf, hfe⟩ := List.mem_map.mp (hperm.mem_iff.mp (List.mem_map_of_mem he))
    rwa [← hinj (hS f hf) (hp' e he) hfe]
  · intro he
    obtain ⟨f, hf, hfe⟩ := List.mem_map.mp (hperm.mem_iff.mpr (List.mem_map_of_mem he))
    rwa [← hinj (hp' f hf) (hS e he) hfe]

theorem perm_or_imitates {p q : List (Bytes × Bytes)} (hp : Hashed h X p) (hq : Hashed h X q) {d n : Nat}
    (hd : Rooted h p d) (hd' : Rooted h q (d + n)) (he : merkleRoot h p = merkleRoot h q) :
    p.Perm q ∨ Imitates h p q := by
  have hinj := injOn_hashPair hX
  have hS : ∀ j < d + n, ∀ e ∈ pairsOf (merkleLevel h q j),
      e ∈ { e : Bytes32 × Bytes32 | pairInput e.1 e.2 ∈ X } := fun j hj e he =>
    hq.pair (hd'.hashed j hj e he)
  have hleaves : merkleLeaves h p = merkleLevel h q n := by
    refine eq_of_iterate_eq hinj (fun j hj e he => hp.pair (hd.hashed j hj e he)) (fun j hj e he => ?_)
      (hp.nodup_leaves hX) (nodup_iterate hinj (fun j hj => hS j (by omega)) (hq.nodup_leaves hX)) ?_
    · rw [merkleLevel, ← Function.iterate_add_apply] at he
      exact hS (j + n) (by omega) e he
    · rw [merkleLevel, ← Function.iterate_add_apply]
      exact hd.root.trans (he ▸ hd'.root.symm)
  cases n with
  | zero => exact .inl (perm_of_merkleLeaves_eq hX hp hq hleaves)
  | succ n => exact .inr (hp.imitates hX hq hd' (by omega) hleaves)

theorem ne_merkleRoot_nil {q : List (Bytes × Bytes)} (hq : Hashed h X q) (hqne : q ≠ [])
    (hempty : emptyRootInput ∈ X) : merkleRoot h q ≠ merkleRoot h [] := by
  intro he
  obtain ⟨x, hx, hroot⟩ := exists_input_merkleRoot (h := h) hqne
  have hxe : x = emptyRootInput := hX (hq.pair hx) hempty (hroot.symm.trans he)
  have hlen := length_of_mem_pairInputs hx
  rw [hxe] at hlen
  revert hlen
  decide

theorem perm_of_merkleRoot_eq {p q : List (Bytes × Bytes)} (hp : Hashed h X p) (hq : Hashed h X q)
    (hpq : ¬ Imitates h p q) (hqp : ¬ Imitates h q p) (he : merkleRoot h p = merkleRoot h q) : p.Perm q := by
  have hempty : ∀ r, Hashed h X r → r = [] → emptyRootInput ∈ X := by
    rintro r hr rfl
    exact hr.inputs _ (by simp [merkleInputs])
  by_cases hpne : p = []
  · by_cases hqne : q = []
    · rw [hpne, hqne]
    · rw [hpne] at he
      exact absurd he.symm (ne_merkleRoot_nil hX hq hqne (hempty p hp hpne))
  by_cases hqne : q = []
  · rw [hqne] at he
    exact absurd he (ne_merkleRoot_nil hX hp hpne (hempty q hq hqne))
  obtain ⟨d, hd⟩ := exists_rooted (h := h) hpne
  obtain ⟨d', hd'⟩ := exists_rooted (h := h) hqne
  rcases Nat.le_total d d' with hle | hle
  · obtain ⟨n, rfl⟩ := Nat.exists_eq_add_of_le hle
    exact (perm_or_imitates hX hp hq hd hd' he).resolve_right hpq
  · obtain ⟨n, rfl⟩ := Nat.exists_eq_add_of_le hle
    exact ((perm_or_imitates hX hq hp hd' hd he.symm).resolve_right hqp).symm

theorem Hashed.length_of_imitates {p q : List (Bytes × Bytes)} (hp : Hashed h X p) (hq : Hashed h X q)
    (hi : Imitates h p q) {e : Bytes × Bytes} (he : e ∈ p) : e.1.length = 64 ∧ e.2.length = 64 := by
  have hqne : q ≠ [] := List.ne_nil_of_length_pos (Nat.zero_lt_of_lt hi.length_lt)
  obtain ⟨n, hlen, hpairs, -⟩ := hi
  obtain ⟨d, ht⟩ := exists_rooted (h := h) hqne
  obtain ⟨ha, hb⟩ := mem_of_mem_pairsOf (hpairs.mem_iff.mp (List.mem_map_of_mem he))
  have hnode : ∀ x ∈ X, h x ∈ merkleLevel h q n → x.length = 64 := by
    intro x hx hmem
    obtain ⟨y, hy, hxy⟩ := ht.exists_input (ht.lt_of_length hlen).le hmem
    rw [hX hx (hq.pair hy) hxy]
    exact length_of_mem_pairInputs hy
  exact ⟨hnode _ (hp.entry he).1 ha, hnode _ (hp.entry he).2.1 hb⟩

end Binding

section Collisions

variable {h : Bytes → Bytes32} {p q : List (Bytes × Bytes)}

theorem hashed_left (hp : (p.map Prod.fst).Nodup) :
    Hashed h { x | x ∈ merkleInputs h p ++ merkleInputs h q } p :=
  ⟨hp, fun _ hx => List.mem_append_left _ hx⟩

theorem hashed_right (hq : (q.map Prod.fst).Nodup) :
    Hashed h { x | x ∈ merkleInputs h p ++ merkleInputs h q } q :=
  ⟨hq, fun _ hx => List.mem_append_right _ hx⟩

end Collisions

theorem StateStore.entries_eq_of_rootScoped_eq {pf : Platform} {st st' : StateStore} {p q : ProgramId}
    {X : Set Bytes} (hX : Set.InjOn pf.hashBytes X)
    (hp : ∀ x ∈ merkleInputs pf.hashBytes (st.getAllScoped p), x ∈ X)
    (hq : ∀ x ∈ merkleInputs pf.hashBytes (st'.getAllScoped q), x ∈ X)
    (hpq : ¬ Imitates pf.hashBytes (st.getAllScoped p) (st'.getAllScoped q))
    (hqp : ¬ Imitates pf.hashBytes (st'.getAllScoped q) (st.getAllScoped p))
    (he : st.rootScoped p pf = st'.rootScoped q pf) : st.entries p = st'.entries q := by
  have hkeys : ∀ (st : StateStore) (p : ProgramId), ((st.getAllScoped p).map Prod.fst).Nodup := by
    intro st p
    rw [← st.toList_entries p, Std.ExtTreeMap.map_fst_toList_eq_keys]
    exact Std.ExtTreeMap.nodup_keys
  have hperm := perm_of_merkleRoot_eq hX ⟨hkeys st p, hp⟩ ⟨hkeys st' q, hq⟩ hpq hqp he
  rw [← st'.toList_entries q] at hperm
  rw [← st.lastWins_getAllScoped p]
  exact lastWins_perm_toList hperm

/-- Unless hashed strings collide, the root binds two maps just if neither imitates a level of the tree
of the other. -/
theorem merkleRoot_binds (h : Bytes → Bytes32) (p q : List (Bytes × Bytes))
    (hp : (p.map Prod.fst).Nodup) (hq : (q.map Prod.fst).Nodup) :
    Collision h (merkleInputs h p ++ merkleInputs h q) ∨
      ((merkleRoot h p = merkleRoot h q → p.Perm q) ↔ ¬ Imitates h p q ∧ ¬ Imitates h q p) := by
  by_cases hc : Collision h (merkleInputs h p ++ merkleInputs h q)
  · exact .inl hc
  refine .inr ⟨fun hbinds => ⟨fun hi => ?_, fun hi => ?_⟩, fun hi he => ?_⟩
  · exact hi.length_lt.ne (hbinds hi.merkleRoot_eq).length_eq
  · exact hi.length_lt.ne' (hbinds hi.merkleRoot_eq.symm).length_eq
  · exact perm_of_merkleRoot_eq (injOn_of_not_collision hc) (hashed_left hp) (hashed_right hq) hi.1 hi.2 he

/-- Keys of one byte are no strings of nodes. -/
theorem merkleRoot_binds_sample :
    let p : List (Bytes × Bytes) := [([1], [2]), ([3], [4]), ([5], [6])]
    let q := p.reverse
    merkleRoot sampleHash p = merkleRoot sampleHash q ∧
      (p.Perm q ∨ Collision sampleHash (merkleInputs sampleHash p ++ merkleInputs sampleHash q)) := by
  intro p q
  have he : merkleRoot sampleHash p = merkleRoot sampleHash q := by decide +kernel
  have hp : (p.map Prod.fst).Nodup := by decide
  have hq : (q.map Prod.fst).Nodup := by decide
  refine ⟨he, ?_⟩
  by_cases hc : Collision sampleHash (merkleInputs sampleHash p ++ merkleInputs sampleHash q)
  · exact .inr hc
  have hX := injOn_of_not_collision hc
  have hpq : ¬ Imitates sampleHash p q := fun hi => absurd
    ((hashed_left hp).length_of_imitates hX (hashed_right hq) hi (List.mem_cons_self ..)).1 (by decide)
  have hqp : ¬ Imitates sampleHash q p := fun hi => absurd
    ((hashed_right hq).length_of_imitates hX (hashed_left hp) hi (List.mem_cons_self ..)).1 (by decide)
  exact .inl (((merkleRoot_binds sampleHash p q hp hq).resolve_left hc).mpr ⟨hpq, hqp⟩ he)

/-- The strings hashed for the two leaves of one map are the key and the value of the other: two
maps of one root, and no collision. -/
theorem merkleRoot_of_inner_node :
    let p : List (Bytes × Bytes) := [([1], [2]), ([3], [4])]
    let leaf (k v : Bytes) := pairInput (sampleHash k) (sampleHash v)
    let q : List (Bytes × Bytes) := [(leaf [1] [2], leaf [3] [4])]
    (p.map Prod.fst).Nodup ∧ (q.map Prod.fst).Nodup ∧
      merkleRoot sampleHash p = merkleRoot sampleHash q ∧ ¬ p.Perm q ∧
      ¬ Collision sampleHash (merkleInputs sampleHash p ++ merkleInputs sampleHash q) := by
  intro p leaf q
  refine ⟨by decide, by decide, by decide +kernel, by decide, ?_⟩
  have hinj : ∀ x ∈ merkleInputs sampleHash p ++ merkleInputs sampleHash q,
      ∀ y ∈ merkleInputs sampleHash p ++ merkleInputs sampleHash q,
        sampleHash x = sampleHash y → x = y := by
    decide +kernel
  rintro ⟨x, hx, y, hy, hne, hxy⟩
  exact hne (hinj x hx y hy hxy)

end Onvm
