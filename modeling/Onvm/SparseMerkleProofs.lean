import Onvm.Platform

/-! Proofs of membership in the sparse Merkle tree: the prover and the verifier
of `merkle/mod.rs`, over an arbitrary hash function. The verifier does not look
at the length of a proof; that leaves and inner nodes are hashed under different
tags makes up for it. -/

namespace Onvm

open ByteString OrderedStore Std

section Hash

variable (h : Bytes → Bytes32)

/-- `compute_smt_with_proof` at level `256 - n`, the proof being passed along. -/
def computeSmtWithProof (target : Bytes32) :
    (n : Nat) → List Leaf → (proof : List Bytes32) → Bytes32 × List Bytes32
  | n, [], proof => (smtEmpty, proof ++ List.replicate n smtEmpty)
  | 0, x :: _, proof => (x.2, proof)
  | n + 1, x :: xs, proof =>
    let left := (x :: xs).filter fun e => !bitAt e.1 (255 - n)
    let right := (x :: xs).filter fun e => bitAt e.1 (255 - n)
    let bit := bitAt target (255 - n)
    let keep := if bit then right else left
    let sibling := if bit then left else right
    let (keepHash, proof) := computeSmtWithProof target n keep proof
    let siblingHash := computeSmtRoot h n sibling
    (if bit then hashInternal h siblingHash keepHash else hashInternal h keepHash siblingHash,
      proof ++ [siblingHash])

def sparseMerkleProof (order : List Leaf → List Leaf) (pairs : List (Bytes × Bytes)) (key : Bytes) :
    Bytes32 × List Bytes32 :=
  computeSmtWithProof h (h key) 256 (order (dedupLeaves h pairs).toList) []

def climbInput (keyHash : Bytes32) (offset : Nat) (node sibling : Bytes32) : Bytes :=
  if bitAt keyHash (255 - offset) then nodeInput sibling node else nodeInput node sibling

def climb (keyHash : Bytes32) : (offset : Nat) → (node : Bytes32) → (proof : List Bytes32) → Bytes32
  | _, node, [] => node
  | offset, node, sibling :: proof =>
    climb keyHash (offset + 1) (h (climbInput keyHash offset node sibling)) proof

def verifySparseMerkleProof (key value : Bytes) (proof : List Bytes32) (expectedRoot : Bytes32) : Bool :=
  climb h (h key) 0 (hashLeaf h (h key) (h value)) proof == expectedRoot

def climbInputs (keyHash : Bytes32) : (offset : Nat) → (node : Bytes32) → (proof : List Bytes32) → List Bytes
  | _, _, [] => []
  | offset, node, sibling :: proof =>
    climbInput keyHash offset node sibling ::
      climbInputs keyHash (offset + 1) (h (climbInput keyHash offset node sibling)) proof

def proofInputs (key value : Bytes) (proof : List Bytes32) : List Bytes :=
  [key, value, leafInput (h key) (h value)] ++
    climbInputs h (h key) 0 (hashLeaf h (h key) (h value)) proof

end Hash

/-- `value` stands in the last pair of `pairs` that has the key `key`. -/
def LastValue (pairs : List (Bytes × Bytes)) (key value : Bytes) : Prop :=
  ∃ before after, pairs = before ++ (key, value) :: after ∧ ∀ e ∈ after, e.1 ≠ key

/-- Two different strings of `xs` have one hash. -/
def Collision (h : Bytes → Bytes32) (xs : List Bytes) : Prop :=
  ∃ x ∈ xs, ∃ y ∈ xs, x ≠ y ∧ h x = h y

variable {h : Bytes → Bytes32}

theorem injOn_of_not_collision {xs : List Bytes} (hc : ¬ Collision h xs) :
    Set.InjOn h { x | x ∈ xs } := by
  intro x hx y hy hxy
  by_contra hne
  exact hc ⟨x, hx, y, hy, hne, hxy⟩

theorem binding_or_collision (h : Bytes → Bytes32) (xs : List Bytes) :
    Binding h { x | x ∈ xs } ∨ Collision h xs ∨ ∃ x ∈ xs, h x = smtEmpty := by
  by_cases hc : Collision h xs
  · exact .inr (.inl hc)
  by_cases he : ∃ x ∈ xs, h x = smtEmpty
  · exact .inr (.inr he)
  · exact .inl ⟨injOn_of_not_collision hc, fun x hx hxe => he ⟨x, hx, hxe⟩⟩

theorem getElem?_lastWins (pairs : List (Bytes × Bytes)) (key : Bytes) :
    (lastWins pairs)[key]? = (pairs.reverse.find? fun e => e.1 == key).map Prod.snd := by
  induction pairs using List.reverseRecOn with
  | nil => simp [lastWins]
  | append_singleton ps e ih =>
    have hfold : lastWins (ps ++ [e]) = (lastWins ps).insert e.1 e.2 := by
      simp [lastWins, List.foldl_append]
    rw [hfold, ExtTreeMap.getElem?_insert, List.reverse_concat, List.find?_cons]
    by_cases hk : e.1 = key
    · simp [hk]
    · rw [if_neg fun hc => hk (LawfulEqOrd.eq_of_compare hc), ih, beq_false_of_ne hk]

theorem lastValue_iff {pairs : List (Bytes × Bytes)} {key value : Bytes} :
    LastValue pairs key value ↔ (lastWins pairs)[key]? = some value := by
  rw [getElem?_lastWins, Option.map_eq_some_iff]
  constructor
  · intro ⟨before, after, hp, hafter⟩
    refine ⟨(key, value), ?_, rfl⟩
    rw [List.find?_eq_some_iff_append]
    refine ⟨by simp, after.reverse, before.reverse, by simp [hp], ?_⟩
    intro e he
    simpa using hafter e (List.mem_reverse.mp he)
  · intro ⟨e, hfind, hv⟩
    obtain ⟨hk, after, before, hp, hafter⟩ := List.find?_eq_some_iff_append.mp hfind
    have he : e = (key, value) := Prod.ext (beq_iff_eq.mp hk) hv
    refine ⟨before.reverse, after.reverse, ?_, ?_⟩
    · rw [← List.reverse_reverse pairs, hp, he]
      simp
    · intro f hf
      simpa using hafter f (List.mem_reverse.mp hf)

theorem climb_concat (keyHash : Bytes32) (offset : Nat) (node : Bytes32) (proof : List Bytes32)
    (sibling : Bytes32) :
    climb h keyHash offset node (proof ++ [sibling]) =
      h (climbInput keyHash (offset + proof.length) (climb h keyHash offset node proof) sibling) := by
  induction proof generalizing offset node with
  | nil => rfl
  | cons s proof ih =>
    rw [List.cons_append, climb, ih, climb, List.length_cons]
    congr 2
    omega

theorem climbInputs_concat (keyHash : Bytes32) (offset : Nat) (node : Bytes32) (proof : List Bytes32)
    (sibling : Bytes32) :
    climbInputs h keyHash offset node (proof ++ [sibling]) =
      climbInputs h keyHash offset node proof ++
        [climbInput keyHash (offset + proof.length) (climb h keyHash offset node proof) sibling] := by
  induction proof generalizing offset node with
  | nil => rfl
  | cons s proof ih =>
    rw [List.cons_append, climbInputs, ih, climbInputs, climb, List.length_cons, List.cons_append]
    congr 4
    omega

theorem leafInput_ne_nodeInput (k v l r : Bytes32) : leafInput k v ≠ nodeInput l r := by
  simp [leafInput, nodeInput]

theorem exists_of_climbInput_eq {keyHash node sibling l r : Bytes32} {offset : Nat}
    (he : climbInput keyHash offset node sibling = nodeInput l r) : node = l ∨ node = r := by
  rw [climbInput] at he
  split at he
  · exact .inr (nodeInput_inj he).2
  · exact .inl (nodeInput_inj he).1

theorem climbInput_ne_leafInput (keyHash node sibling k v : Bytes32) (offset : Nat) :
    climbInput keyHash offset node sibling ≠ leafInput k v := by
  rw [climbInput]
  split
  · exact (leafInput_ne_nodeInput _ _ _ _).symm
  · exact (leafInput_ne_nodeInput _ _ _ _).symm

def samplePairs : List (Bytes × Bytes) := [([1], [2]), ([3], [4]), ([1], [5])]

theorem samplePairs_last : LastValue samplePairs [1] [5] :=
  ⟨[([1], [2]), ([3], [4])], [], rfl, by simp⟩

theorem samplePairs_injOn : Set.InjOn sampleHash { k | ∃ e ∈ samplePairs, e.1 = k } := by
  have hall : ∀ e ∈ samplePairs, ∀ f ∈ samplePairs, sampleHash e.1 = sampleHash f.1 → e.1 = f.1 := by
    decide
  intro x hx y hy hxy
  obtain ⟨e, he, rfl⟩ := hx
  obtain ⟨f, hf, rfl⟩ := hy
  exact hall e he f hf hxy

section Completeness

variable {target : Bytes32}

theorem computeSmtWithProof_fst (n : Nat) (ls : List Leaf) (proof : List Bytes32) :
    (computeSmtWithProof h target n ls proof).1 = computeSmtRoot h n ls := by
  induction n generalizing ls proof with
  | zero => cases ls <;> rfl
  | succ n ih =>
    cases ls with
    | nil => rfl
    | cons x xs =>
      rw [computeSmtWithProof, computeSmtRoot]
      cases hb : bitAt target (255 - n) <;> simp [ih]

theorem computeSmtWithProof_snd (n : Nat) {ls : List Leaf} (hne : ls ≠ []) (proof : List Bytes32) :
    (computeSmtWithProof h target (n + 1) ls proof).2 =
      (computeSmtWithProof h target n
        (ls.filter fun e => bitAt e.1 (255 - n) == bitAt target (255 - n)) proof).2 ++
      [computeSmtRoot h n (ls.filter fun e => bitAt e.1 (255 - n) == !bitAt target (255 - n))] := by
  cases ls with
  | nil => exact absurd rfl hne
  | cons x xs =>
    rw [computeSmtWithProof]
    cases hb : bitAt target (255 - n) <;> simp [filter_not_bitAt]

theorem length_computeSmtWithProof (n : Nat) (ls : List Leaf) (proof : List Bytes32) :
    (computeSmtWithProof h target n ls proof).2.length = proof.length + n := by
  induction n generalizing ls with
  | zero => cases ls <;> simp [computeSmtWithProof]
  | succ n ih =>
    cases ls with
    | nil => simp [computeSmtWithProof]
    | cons x xs =>
      rw [computeSmtWithProof_snd n (List.cons_ne_nil x xs), List.length_append, ih]
      simp only [List.length_singleton]
      omega

theorem climb_computeSmtWithProof {n : Nat} (hn : n ≤ 256) {ls : List Leaf} (hl : AtDepth n ls)
    {leaf : Bytes32} (hmem : (target, leaf) ∈ ls) :
    climb h target 0 leaf (computeSmtWithProof h target n ls []).2 = computeSmtRoot h n ls := by
  induction n generalizing ls with
  | zero =>
    cases ls with
    | nil => cases hmem
    | cons e es =>
      have he : (target, leaf) = e := hl.eq_of_mem hmem (by simp)
      rw [← he]
      rfl
  | succ n ih =>
    have hne : ls ≠ [] := List.ne_nil_of_mem hmem
    have hkeep : (target, leaf) ∈ ls.filter fun e => bitAt e.1 (255 - n) == bitAt target (255 - n) :=
      List.mem_filter.mpr ⟨hmem, by simp⟩
    rw [computeSmtWithProof_snd n hne, climb_concat, ih (by omega) (hl.half (by omega) _) hkeep,
      length_computeSmtWithProof, computeSmtRoot_succ h n hne, hashInternal, climbInput]
    simp only [List.length_nil, Nat.zero_add]
    cases hb : bitAt target (255 - n) <;> simp

theorem sparseMerkleProof_fst {order order' : List Leaf → List Leaf} (ho : ∀ l, (order l).Perm l)
    (ho' : ∀ l, (order' l).Perm l) (pairs : List (Bytes × Bytes)) (key : Bytes) :
    (sparseMerkleProof h order pairs key).1 = sparseMerkleRoot h order' pairs := by
  rw [sparseMerkleProof, computeSmtWithProof_fst, sparseMerkleRoot_eq ho']
  exact (computeSmtRoot_perm h le_rfl (atDepth_dedupLeaves h pairs) (ho _).symm).symm

theorem verify_sparseMerkleProof {order : List Leaf → List Leaf} (ho : ∀ l, (order l).Perm l)
    {pairs : List (Bytes × Bytes)} {key value : Bytes} {K : Set Bytes} (hK : Set.InjOn h K)
    (hp : ∀ e ∈ pairs, e.1 ∈ K) (hv : (lastWins pairs)[key]? = some value) :
    verifySparseMerkleProof h key value (sparseMerkleProof h order pairs key).2
      (sparseMerkleProof h order pairs key).1 = true := by
  have hkey : key ∈ K := hp _ (mem_of_lastWins hv)
  have hmem : (h key, hashLeaf h (h key) (h value)) ∈ (dedupLeaves h pairs).toList := by
    rw [ExtTreeMap.mem_toList_iff_getElem?_eq_some, getElem?_dedupLeaves hK hp hkey, hv]
    rfl
  have hdepth : AtDepth 256 (order (dedupLeaves h pairs).toList) :=
    .top ((((ho _).map Prod.fst).nodup_iff).mpr (atDepth_dedupLeaves h pairs).nodup)
  rw [verifySparseMerkleProof, beq_iff_eq, sparseMerkleProof, computeSmtWithProof_fst]
  exact climb_computeSmtWithProof le_rfl hdepth ((ho _).mem_iff.mpr hmem)

/-- Proofs are complete: the prover's root is the root, its proof has a sibling for each of the 256
levels, and the verifier accepts it for the last value of its key if keys do not collide. -/
theorem sparseMerkleProof_complete (h : Bytes → Bytes32) (order order' : List Leaf → List Leaf)
    (ho : ∀ l, (order l).Perm l) (ho' : ∀ l, (order' l).Perm l) (pairs : List (Bytes × Bytes))
    (key : Bytes) :
    (sparseMerkleProof h order pairs key).1 = sparseMerkleRoot h order' pairs ∧
      (sparseMerkleProof h order pairs key).2.length = 256 ∧
      ∀ value, LastValue pairs key value → Set.InjOn h { k | ∃ e ∈ pairs, e.1 = k } →
        verifySparseMerkleProof h key value (sparseMerkleProof h order pairs key).2
          (sparseMerkleProof h order pairs key).1 = true := by
  refine ⟨sparseMerkleProof_fst ho ho' pairs key, ?_, ?_⟩
  · rw [sparseMerkleProof, length_computeSmtWithProof]
    rfl
  · intro value hlast hinj
    exact verify_sparseMerkleProof ho hinj (fun e he => ⟨e, he, rfl⟩) (lastValue_iff.mp hlast)

/-- The tree is built in one order and its root computed in another. -/
theorem sparseMerkleProof_complete_sample :
    (sparseMerkleProof sampleHash id samplePairs [1]).1 =
        sparseMerkleRoot sampleHash List.reverse samplePairs ∧
      (sparseMerkleProof sampleHash id samplePairs [1]).2.length = 256 ∧
      verifySparseMerkleProof sampleHash [1] [5] (sparseMerkleProof sampleHash id samplePairs [1]).2
        (sparseMerkleProof sampleHash id samplePairs [1]).1 = true := by
  obtain ⟨hroot, hlen, hverify⟩ := sparseMerkleProof_complete sampleHash id List.reverse
    (fun l => .refl l) List.reverse_perm samplePairs [1]
  exact ⟨hroot, hlen, hverify [5] samplePairs_last samplePairs_injOn⟩

end Completeness

section Soundness

variable {X : Set Bytes} {keyHash valueHash : Bytes32}

theorem climbInputs_mem_of_concat {offset : Nat} {node : Bytes32} {proof : List Bytes32} {sibling : Bytes32}
    (hproof : ∀ x ∈ climbInputs h keyHash offset node (proof ++ [sibling]), x ∈ X) :
    climbInput keyHash (offset + proof.length) (climb h keyHash offset node proof) sibling ∈ X ∧
      ∀ x ∈ climbInputs h keyHash offset node proof, x ∈ X := by
  rw [climbInputs_concat] at hproof
  exact ⟨hproof _ (by simp), fun x hx => hproof x (List.mem_append_left _ hx)⟩

theorem exists_climb_eq (hleaf : leafInput keyHash valueHash ∈ X) (proof : List Bytes32)
    (hproof : ∀ x ∈ climbInputs h keyHash 0 (hashLeaf h keyHash valueHash) proof, x ∈ X) :
    ∃ x ∈ X, climb h keyHash 0 (hashLeaf h keyHash valueHash) proof = h x := by
  cases proof using List.reverseRecOn with
  | nil => exact ⟨_, hleaf, rfl⟩
  | append_singleton q s =>
    rw [climb_concat]
    exact ⟨_, (climbInputs_mem_of_concat hproof).1, rfl⟩

theorem mem_of_climb_eq (hX : Binding h X) (hleaf : leafInput keyHash valueHash ∈ X) {n : Nat}
    {ls : List Leaf} (hls : ∀ e ∈ ls, IsLeaf h X e) (hil : ∀ x ∈ nodeInputs h n ls, x ∈ X)
    {proof : List Bytes32}
    (hproof : ∀ x ∈ climbInputs h keyHash 0 (hashLeaf h keyHash valueHash) proof, x ∈ X)
    (he : climb h keyHash 0 (hashLeaf h keyHash valueHash) proof = computeSmtRoot h n ls) :
    (keyHash, hashLeaf h keyHash valueHash) ∈ ls := by
  induction n generalizing ls proof with
  | zero =>
    cases ls with
    | nil =>
      obtain ⟨x, hx, hclimb⟩ := exists_climb_eq hleaf proof hproof
      exact absurd (hclimb.symm.trans he) (hX.ne_empty x hx)
    | cons e es =>
      obtain ⟨v, hv, hev⟩ := hls e (by simp)
      have hroot : climb h keyHash 0 (hashLeaf h keyHash valueHash) proof = h (leafInput e.1 v) :=
        he.trans hev
      cases proof using List.reverseRecOn with
      | nil =>
        obtain ⟨hk, -⟩ := leafInput_inj (hX.inj hleaf hv hroot)
        have hev' : e = (keyHash, hashLeaf h keyHash valueHash) := Prod.ext hk.symm he.symm
        rw [← hev']
        simp
      | append_singleton q s =>
        obtain ⟨hmem, -⟩ := climbInputs_mem_of_concat hproof
        rw [climb_concat] at hroot
        exact absurd (hX.inj hmem hv hroot) (climbInput_ne_leafInput _ _ _ _ _ _)
  | succ n ih =>
    cases ls with
    | nil =>
      obtain ⟨x, hx, hclimb⟩ := exists_climb_eq hleaf proof hproof
      exact absurd (hclimb.symm.trans he) (hX.ne_empty x hx)
    | cons e es =>
      rw [computeSmtRoot_succ h n (List.cons_ne_nil e es)] at he
      have hroot := hil _ (by rw [nodeInputs]; exact List.mem_cons_self)
      cases proof using List.reverseRecOn with
      | nil =>
        exact absurd (hX.inj hleaf hroot he) (leafInput_ne_nodeInput _ _ _ _)
      | append_singleton q s =>
        obtain ⟨hmem, hq⟩ := climbInputs_mem_of_concat hproof
        rw [climb_concat] at he
        have hhalf : ∀ b, climb h keyHash 0 (hashLeaf h keyHash valueHash) q =
              computeSmtRoot h n ((e :: es).filter fun f => bitAt f.1 (255 - n) == b) →
            (keyHash, hashLeaf h keyHash valueHash) ∈ e :: es := by
          intro b hb
          refine List.mem_of_mem_filter (ih (fun f hf => hls f (List.mem_of_mem_filter hf)) ?_ hq hb)
          intro x hx
          refine hil x ?_
          cases b <;> simp only [nodeInputs, List.mem_cons, List.mem_append] <;> tauto
        rcases exists_of_climbInput_eq (hX.inj hmem hroot he) with hl | hr
        · exact hhalf false hl
        · exact hhalf true hr

theorem lastWins_of_verify {order : List Leaf → List Leaf} (ho : ∀ l, (order l).Perm l)
    {pairs : List (Bytes × Bytes)} {key value : Bytes} {proof : List Bytes32}
    (hX : Binding h { x | x ∈ smtInputs h pairs ++ proofInputs h key value proof })
    (hv : verifySparseMerkleProof h key value proof (sparseMerkleRoot h order pairs) = true) :
    (lastWins pairs)[key]? = some value := by
  set X := { x | x ∈ smtInputs h pairs ++ proofInputs h key value proof } with hXdef
  have hpair : ∀ e ∈ pairs, ∀ x ∈ [e.1, e.2, leafInput (h e.1) (h e.2)], x ∈ X := fun e he x hx =>
    List.mem_append_left _ (List.mem_append_left _ (List.mem_flatMap.mpr ⟨e, he, hx⟩))
  have hproof : ∀ x ∈ proofInputs h key value proof, x ∈ X := fun x hx => List.mem_append_right _ hx
  have hkey : key ∈ X := hproof key (by simp [proofInputs])
  have hmem : (h key, hashLeaf h (h key) (h value)) ∈ (dedupLeaves h pairs).toList := by
    rw [verifySparseMerkleProof, beq_iff_eq, sparseMerkleRoot_eq ho] at hv
    refine mem_of_climb_eq hX (hproof _ (by simp [proofInputs])) ?_ ?_
      (fun x hx => hproof x (List.mem_append_right _ hx)) hv
    · intro e he
      obtain ⟨x, hx, rfl⟩ := mem_dedupLeaves he
      exact ⟨h x.2, hpair x hx _ (by simp), rfl⟩
    · exact fun x hx => List.mem_append_left _ (List.mem_append_right _ hx)
  rw [ExtTreeMap.mem_toList_iff_getElem?_eq_some,
    getElem?_dedupLeaves hX.inj (fun e he => hpair e he e.1 (by simp)) hkey, Option.map_eq_some_iff] at hmem
  obtain ⟨v, hlast, hleaf⟩ := hmem
  have hvpair := mem_of_lastWins hlast
  have hin := hX.inj (hpair _ hvpair _ (by simp)) (hproof _ (by simp [proofInputs])) hleaf
  have hvv : v = value :=
    hX.inj (hpair _ hvpair v (by simp)) (hproof value (by simp [proofInputs])) (leafInput_inj hin).2
  rw [hlast, hvv]

/-- Proofs are sound at every length: an accepted value is the last one of its key, unless strings
that were hashed collide or one of them hashes to the marker of an empty subtree. -/
theorem verifySparseMerkleProof_sound (h : Bytes → Bytes32) (order : List Leaf → List Leaf)
    (ho : ∀ l, (order l).Perm l) (pairs : List (Bytes × Bytes)) (key value : Bytes)
    (proof : List Bytes32)
    (hv : verifySparseMerkleProof h key value proof (sparseMerkleRoot h order pairs) = true) :
    LastValue pairs key value ∨ Collision h (smtInputs h pairs ++ proofInputs h key value proof) ∨
      ∃ x ∈ smtInputs h pairs ++ proofInputs h key value proof, h x = smtEmpty := by
  rcases binding_or_collision h (smtInputs h pairs ++ proofInputs h key value proof) with hX | hbad
  · exact .inl (lastValue_iff.mpr (lastWins_of_verify ho hX hv))
  · exact .inr hbad

theorem verifySparseMerkleProof_sound_sample :
    let proof := (sparseMerkleProof sampleHash id samplePairs [1]).2
    let xs := smtInputs sampleHash samplePairs ++ proofInputs sampleHash [1] [5] proof
    verifySparseMerkleProof sampleHash [1] [5] proof (sparseMerkleRoot sampleHash id samplePairs) = true ∧
      (LastValue samplePairs [1] [5] ∨ Collision sampleHash xs ∨ ∃ x ∈ xs, sampleHash x = smtEmpty) := by
  intro proof xs
  have hid : ∀ l : List Leaf, (id l).Perm l := fun l => .refl l
  have hv : verifySparseMerkleProof sampleHash [1] [5] proof
      (sparseMerkleRoot sampleHash id samplePairs) = true := by
    rw [← sparseMerkleProof_fst hid hid samplePairs [1]]
    exact verify_sparseMerkleProof hid samplePairs_injOn (fun e he => ⟨e, he, rfl⟩)
      (lastValue_iff.mp samplePairs_last)
  exact ⟨hv, verifySparseMerkleProof_sound sampleHash id hid samplePairs [1] [5] proof hv⟩

end Soundness

section Binding

/-- The root identifies the map, whatever order the hash maps are walked in, unless strings hashed
for the two roots collide or hash to the marker of an empty subtree. -/
theorem sparseMerkleRoot_eq_iff (h : Bytes → Bytes32) (order order' : List Leaf → List Leaf)
    (ho : ∀ l, (order l).Perm l) (ho' : ∀ l, (order' l).Perm l) (p q : List (Bytes × Bytes)) :
    (sparseMerkleRoot h order p = sparseMerkleRoot h order' q ↔ lastWins p = lastWins q) ∨
      Collision h (smtInputs h p ++ smtInputs h q) ∨
      ∃ x ∈ smtInputs h p ++ smtInputs h q, h x = smtEmpty := by
  rcases binding_or_collision h (smtInputs h p ++ smtInputs h q) with hX | hbad
  · left
    have hkey : ∀ r, smtInputs h r ⊆ smtInputs h p ++ smtInputs h q → ∀ e ∈ r,
        e.1 ∈ { x | x ∈ smtInputs h p ++ smtInputs h q } := fun r hr e he =>
      hr (List.mem_append_left _ (List.mem_flatMap.mpr ⟨e, he, by simp⟩))
    have horder : sparseMerkleRoot h order' q = sparseMerkleRoot h order q := by
      rw [sparseMerkleRoot_eq ho', sparseMerkleRoot_eq ho]
    rw [horder]
    constructor
    · exact lastWins_eq_of_sparseMerkleRoot_eq ho (by simpa only [List.mem_append] using hX)
    · exact sparseMerkleRoot_congr ho hX.inj (hkey p (List.subset_append_left _ _))
        (hkey q (List.subset_append_right _ _))
  · exact .inr hbad

theorem sparseMerkleRoot_eq_iff_sample :
    let q : List (Bytes × Bytes) := [([3], [4]), ([1], [5])]
    lastWins samplePairs = lastWins q ∧
      ((sparseMerkleRoot sampleHash id samplePairs = sparseMerkleRoot sampleHash List.reverse q ↔
          lastWins samplePairs = lastWins q) ∨
        Collision sampleHash (smtInputs sampleHash samplePairs ++ smtInputs sampleHash q) ∨
        ∃ x ∈ smtInputs sampleHash samplePairs ++ smtInputs sampleHash q, sampleHash x = smtEmpty) := by
  intro q
  refine ⟨by decide, ?_⟩
  exact sparseMerkleRoot_eq_iff sampleHash id List.reverse (fun l => .refl l) List.reverse_perm
    samplePairs q

end Binding

end Onvm
