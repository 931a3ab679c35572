import Onvm.Limbs
import Onvm.Inventory

/-! The Bloom filters of `network/codec.rs`. A filter stands for the set of its marked bits: inserting marks the
positions of a key, and a key is contained when all of its positions are marked. -/

namespace Marks

variable {α ι : Type*} (positions : α → Set ι)

def insert (marked : Set ι) (x : α) : Set ι := marked ∪ positions x

def MayContain (marked : Set ι) (x : α) : Prop := positions x ⊆ marked

variable {positions} {marked : Set ι} {xs : List α} {x : α}

theorem mem_insertAll {i : ι} :
    i ∈ xs.foldl (insert positions) marked ↔ i ∈ marked ∨ ∃ x ∈ xs, i ∈ positions x := by
  induction xs generalizing marked with
  | nil => simp
  | cons y xs ih =>
    rw [List.foldl_cons, ih, insert, Set.mem_union, List.exists_mem_cons_iff, or_assoc]

theorem subset_insertAll : marked ⊆ xs.foldl (insert positions) marked :=
  fun _ hi => mem_insertAll.mpr (.inl hi)

theorem mayContain_insertAll (hx : x ∈ xs) : MayContain positions (xs.foldl (insert positions) marked) x :=
  fun _ hi => mem_insertAll.mpr (.inr ⟨x, hx, hi⟩)

end Marks

namespace Onvm

open ByteString Limbs

namespace BloomFilter

/-- `new`, with the salt that was drawn. -/
def new (sizeBytes : Nat) (k : UInt8) (salt : Bytes32) : BloomFilter :=
  ⟨List.replicate (max sizeBytes 1) 0, k, salt⟩

/-- `self.bits.len() * 8` as a `usize`. -/
def size (f : BloomFilter) : Nat := f.bits.length * 8 % 2 ^ 64

def position (f : BloomFilter) (hash : Bytes) : Nat := value (hash.take 8) % f.size

def setBit (f : BloomFilter) (hash : Bytes) : Option BloomFilter :=
  if hash.length < 8 then some f
  else if f.size = 0 then none
  else
    let idx := f.position hash
    (f.bits[idx / 8]?).map fun b => { f with bits := f.bits.set (idx / 8) (b ||| mask idx) }

def getBit (f : BloomFilter) (hash : Bytes) : Option Bool :=
  if hash.length < 8 then some false
  else if f.size = 0 then none
  else
    let idx := f.position hash
    (f.bits[idx / 8]?).map fun b => b &&& mask idx != 0

section Hashing

variable (keyedHash : Bytes32 → Bytes → Bytes32)

def key (f : BloomFilter) (i : Nat) : Bytes32 :=
  ⟨f.salt.bytes.set 0 (f.salt.bytes.getD 0 0 ^^^ UInt8.ofNat i), by rw [List.length_set, f.salt.length_bytes]⟩

def hash (f : BloomFilter) (data : Bytes) (i : Nat) : Bytes := (keyedHash (f.key i) data).bytes

def insert (f : BloomFilter) (data : Bytes) : Option BloomFilter :=
  (List.range f.k.toNat).foldlM (fun g i => g.setBit (g.hash keyedHash data i)) f

def containsFrom (f : BloomFilter) (data : Bytes) : List Nat → Option Bool
  | [] => some true
  | i :: rounds =>
    (f.getBit (f.hash keyedHash data i)).bind fun found =>
      if found then containsFrom f data rounds else some false

def contains (f : BloomFilter) (data : Bytes) : Option Bool :=
  f.containsFrom keyedHash data (List.range f.k.toNat)

def insertAll (f : BloomFilter) (keys : List Bytes) : Option BloomFilter := keys.foldlM (insert keyedHash) f

def fromPrograms (salt : Bytes32) (ids : List Bytes32) : Option BloomFilter :=
  (new 256 3 salt).insertAll keyedHash (ids.map FixedBytes.bytes)

def marked (f : BloomFilter) : Set Nat := { i | readBit f.bits i = true }

def positions (f : BloomFilter) (data : Bytes) : Set Nat :=
  { p | ∃ i < f.k.toNat, f.position (f.hash keyedHash data i) = p }

def shape (f : BloomFilter) : UInt8 × Bytes32 × Nat := (f.k, f.salt, f.bits.length)

def Usable (f : BloomFilter) : Prop := f.k = 0 ∨ f.size ≠ 0

variable {f g : BloomFilter}

theorem size_of_shape (h : g.shape = f.shape) : g.size = f.size := by
  rw [size, size, (Prod.mk.inj (Prod.mk.inj h).2).2]

theorem position_of_shape (h : g.shape = f.shape) (data : Bytes) (i : Nat) :
    g.position (g.hash keyedHash data i) = f.position (f.hash keyedHash data i) := by
  have hsalt : g.salt = f.salt := (Prod.mk.inj (Prod.mk.inj h).2).1
  have hkey : g.key i = f.key i := by
    unfold key
    simp only [hsalt]
    rfl
  rw [position, position, size_of_shape h, hash, hash, hkey]

theorem positions_of_shape (h : g.shape = f.shape) : g.positions keyedHash = f.positions keyedHash := by
  funext data
  unfold positions
  simp only [position_of_shape keyedHash h, (Prod.mk.inj h).1]

theorem Usable.of_shape (hf : f.Usable) (h : g.shape = f.shape) : g.Usable := by
  unfold Usable
  rw [size_of_shape h, (Prod.mk.inj h).1]
  exact hf

theorem position_lt (hsize : f.size ≠ 0) (hash : Bytes) : f.position hash / 8 < f.bits.length := by
  have hlt : f.position hash < f.size := Nat.mod_lt _ (Nat.pos_of_ne_zero hsize)
  have hle : f.size ≤ f.bits.length * 8 := Nat.mod_le _ _
  omega

theorem length_hash (data : Bytes) (i : Nat) : ¬ (f.hash keyedHash data i).length < 8 := by
  rw [hash, FixedBytes.length_bytes]
  decide

theorem setBit_spec (hsize : f.size ≠ 0) (data : Bytes) (i : Nat) :
    ∃ g, f.setBit (f.hash keyedHash data i) = some g ∧ g.shape = f.shape ∧
      ∀ j, j ∈ g.marked ↔ j ∈ f.marked ∨ f.position (f.hash keyedHash data i) = j := by
  let idx := f.position (f.hash keyedHash data i)
  obtain ⟨b, hb⟩ : ∃ b, f.bits[idx / 8]? = some b := ⟨_, List.getElem?_eq_getElem (position_lt hsize _)⟩
  refine ⟨{ f with bits := f.bits.set (idx / 8) (b ||| mask idx) }, ?_, ?_, ?_⟩
  · rw [setBit, if_neg (length_hash keyedHash data i), if_neg hsize]
    exact congrArg (Option.map _) hb
  · simp [shape]
  · intro j
    simp only [marked, Set.mem_ofPred_eq, readBit_set hb, Bool.or_eq_true, decide_eq_true_eq]
    exact or_congr_right eq_comm

theorem getBit_spec (hsize : f.size ≠ 0) (data : Bytes) (i : Nat) : f.getBit (f.hash keyedHash data i) =
    some (readBit f.bits (f.position (f.hash keyedHash data i))) := by
  have hb := List.getElem?_eq_getElem (position_lt hsize (f.hash keyedHash data i))
  rw [getBit, if_neg (length_hash keyedHash data i), if_neg hsize]
  simp only [hb, Option.map_some, and_mask_ne_zero, readBit, List.getD_eq_getElem?_getD, Option.getD_some]

theorem insertRounds_spec (data : Bytes) (rounds : List Nat) (hsize : rounds = [] ∨ f.size ≠ 0) :
    ∃ g, rounds.foldlM (fun g i => g.setBit (g.hash keyedHash data i)) f = some g ∧ g.shape = f.shape ∧
      ∀ j, j ∈ g.marked ↔ j ∈ f.marked ∨ ∃ i ∈ rounds, f.position (f.hash keyedHash data i) = j := by
  induction rounds generalizing f with
  | nil => exact ⟨f, rfl, rfl, by simp⟩
  | cons i rounds ih =>
    have hsize : f.size ≠ 0 := hsize.resolve_left (List.cons_ne_nil _ _)
    obtain ⟨g, hset, hshape, hmarked⟩ := setBit_spec keyedHash hsize data i
    obtain ⟨g', hrest, hshape', hmarked'⟩ := ih (f := g) (.inr (by rwa [size_of_shape hshape]))
    refine ⟨g', ?_, hshape'.trans hshape, ?_⟩
    · rw [List.foldlM_cons, hset]
      exact hrest
    · intro j
      rw [hmarked', hmarked]
      simp only [position_of_shape keyedHash hshape, List.exists_mem_cons_iff, or_assoc]

theorem rounds_eq_nil (hf : f.Usable) : List.range f.k.toNat = [] ∨ f.size ≠ 0 :=
  hf.imp_left fun hk => by rw [hk]; rfl

theorem insert_spec (hf : f.Usable) (data : Bytes) :
    ∃ g, f.insert keyedHash data = some g ∧ g.shape = f.shape ∧
      g.marked = Marks.insert (f.positions keyedHash) f.marked data := by
  obtain ⟨g, hinsert, hshape, hmarked⟩ := insertRounds_spec keyedHash data _ (rounds_eq_nil hf)
  refine ⟨g, hinsert, hshape, ?_⟩
  ext j
  simp only [hmarked, List.mem_range]
  rfl

theorem insertAll_spec (hf : f.Usable) (keys : List Bytes) :
    ∃ g, f.insertAll keyedHash keys = some g ∧ g.shape = f.shape ∧
      g.marked = keys.foldl (Marks.insert (f.positions keyedHash)) f.marked := by
  induction keys generalizing f with
  | nil => exact ⟨f, rfl, rfl, rfl⟩
  | cons x keys ih =>
    obtain ⟨g, hinsert, hshape, hmarked⟩ := insert_spec keyedHash hf x
    obtain ⟨g', hrest, hshape', hmarked'⟩ := ih (hf.of_shape hshape)
    refine ⟨g', ?_, hshape'.trans hshape, ?_⟩
    · rw [insertAll, List.foldlM_cons, hinsert]
      exact hrest
    · rw [hmarked', positions_of_shape keyedHash hshape, hmarked, List.foldl_cons]

theorem containsFrom_spec (data : Bytes) (rounds : List Nat) (hsize : rounds = [] ∨ f.size ≠ 0) :
    ∃ found, f.containsFrom keyedHash data rounds = some found ∧
      (found = true ↔ ∀ i ∈ rounds, f.position (f.hash keyedHash data i) ∈ f.marked) := by
  induction rounds with
  | nil => exact ⟨true, rfl, by simp⟩
  | cons i rounds ih =>
    have hsize : f.size ≠ 0 := hsize.resolve_left (List.cons_ne_nil _ _)
    obtain ⟨found, hrest, hfound⟩ := ih (.inr hsize)
    rw [containsFrom, getBit_spec keyedHash hsize]
    by_cases hbit : readBit f.bits (f.position (f.hash keyedHash data i)) = true
    · refine ⟨found, ?_, ?_⟩
      · simp only [hbit, Option.bind_some, if_true, hrest]
      · simp only [List.forall_mem_cons, hfound]
        exact (and_iff_right hbit).symm
    · refine ⟨false, ?_, ?_⟩
      · simp only [hbit, Option.bind_some, Bool.false_eq_true, if_false]
      · simp only [Bool.false_eq_true, List.forall_mem_cons, false_iff, not_and]
        exact fun hmem => absurd hmem hbit

theorem contains_spec (hf : f.Usable) (data : Bytes) :
    f.contains keyedHash data = some true ↔ Marks.MayContain (f.positions keyedHash) f.marked data := by
  obtain ⟨found, hcontains, hfound⟩ := containsFrom_spec keyedHash data _ (rounds_eq_nil hf)
  rw [contains, hcontains, Option.some_inj, hfound]
  simp only [List.mem_range]
  constructor
  · rintro h p ⟨i, hi, rfl⟩
    exact h i hi
  · exact fun h i hi => h ⟨i, hi, rfl⟩

theorem usable_of_length (hbits : f.bits ≠ []) (hlen : f.bits.length < 2 ^ 61) : f.Usable := by
  have hpos := List.length_pos_iff.mpr hbits
  right
  rw [size, Nat.mod_eq_of_lt (by omega)]
  omega

theorem insert_of_not_usable (hf : ¬ f.Usable) (data : Bytes) : f.insert keyedHash data = none := by
  obtain ⟨hk, hsize⟩ := not_or.mp hf
  have hpos : f.k.toNat ≠ 0 := fun h => hk (UInt8.toNat_inj.mp h)
  obtain ⟨n, hn⟩ := Nat.exists_eq_succ_of_ne_zero hpos
  rw [insert, hn, List.range_succ_eq_map, List.foldlM_cons, setBit, if_neg (length_hash keyedHash data 0),
    if_pos (not_not.mp hsize)]
  rfl

theorem insertAll_eq_some {keys : List Bytes} (h : f.insertAll keyedHash keys = some g) :
    keys = [] ∨ f.Usable := by
  by_cases hf : f.Usable
  · exact .inr hf
  · cases keys with
    | nil => exact .inl rfl
    | cons x keys =>
      rw [insertAll, List.foldlM_cons, insert_of_not_usable keyedHash hf] at h
      cases h

/-- Whatever was inserted is found, and no bit is ever cleared. The inserts come to their end unless the
number of bits is more than a `usize` can hold. -/
theorem bloom_filter_no_false_negatives (hbits : f.bits ≠ []) (keys : List Bytes) :
    (f.bits.length < 2 ^ 61 → ∃ g, f.insertAll keyedHash keys = some g) ∧
    ∀ g, f.insertAll keyedHash keys = some g →
      (∀ x ∈ keys, g.contains keyedHash x = some true) ∧
      ∀ i, readBit f.bits i = true → readBit g.bits i = true := by
  refine ⟨fun hlen => ?_, fun g h => ?_⟩
  · obtain ⟨g, hinsert, -⟩ := insertAll_spec keyedHash (usable_of_length hbits hlen) keys
    exact ⟨g, hinsert⟩
  · rcases insertAll_eq_some keyedHash h with rfl | hf
    · cases h
      exact ⟨by simp, fun i hi => hi⟩
    · obtain ⟨g', hinsert, hshape, hmarked⟩ := insertAll_spec keyedHash hf keys
      cases h.symm.trans hinsert
      refine ⟨fun x hx => ?_, fun i hi => ?_⟩
      · rw [contains_spec keyedHash (hf.of_shape hshape), positions_of_shape keyedHash hshape, hmarked]
        exact Marks.mayContain_insertAll hx
      · have hmem : i ∈ g.marked := by
          rw [hmarked]
          exact Marks.subset_insertAll hi
        exact hmem

def echoHash (key : Bytes32) (data : Bytes) : Bytes32 := .resize 32 (data ++ key.bytes)

theorem bloom_filter_finds_inserted :
    ∃ g, (new 1 2 (.ofByte 32 0)).insertAll echoHash [[1], [9, 9]] = some g ∧
      g.contains echoHash [1] = some true ∧ g.contains echoHash [9, 9] = some true := by
  have hbits : (new 1 2 (.ofByte 32 0)).bits ≠ [] := by decide
  have hfound := bloom_filter_no_false_negatives echoHash hbits [[1], [9, 9]]
  obtain ⟨g, hg⟩ := hfound.1 (by decide)
  exact ⟨g, hg, (hfound.2 g hg).1 [1] (by simp), (hfound.2 g hg).1 [9, 9] (by simp)⟩

end Hashing

end BloomFilter
end Onvm
