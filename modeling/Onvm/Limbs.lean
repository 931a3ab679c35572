import Onvm.Bytes

/-! Byte strings as numbers, least byte first: what reading, cutting and
overwriting parts of the string does to the number. Packed bits are counted the same way. -/

namespace Limbs

open ByteString

def value (bs : Bytes) : Nat := Nat.ofDigits 256 (bs.map UInt8.toNat)

theorem value_cons (b : UInt8) (bs : Bytes) : value (b :: bs) = b.toNat + 256 * value bs := by
  rw [value, List.map_cons, Nat.ofDigits_cons, value]

theorem toNat_lt_of_mem_map (bs : Bytes) : ∀ d ∈ bs.map UInt8.toNat, d < 256 := by
  intro d hd
  obtain ⟨b, -, rfl⟩ := List.mem_map.mp hd
  exact b.toNat_lt

theorem value_lt (bs : Bytes) : value bs < 256 ^ bs.length := by
  have h := Nat.ofDigits_lt_base_pow_length (b := 256) (by decide) (toNat_lt_of_mem_map bs)
  rwa [List.length_map] at h

theorem value_append (as bs : Bytes) : value (as ++ bs) = value as + 256 ^ as.length * value bs := by
  rw [value, List.map_append, Nat.ofDigits_append, List.length_map, value, value]

theorem value_zeros (w : Nat) : value (List.replicate w 0) = 0 := by
  rw [value, List.map_replicate]
  exact Nat.ofDigits_replicate_zero

theorem value_take (bs : Bytes) (k : Nat) : value (bs.take k) = value bs % 256 ^ k := by
  rw [value, value, List.map_take, Nat.ofDigits_mod_pow_eq_ofDigits_take k (by decide) _ (toNat_lt_of_mem_map bs)]

theorem value_drop (bs : Bytes) (k : Nat) : value (bs.drop k) = value bs / 256 ^ k := by
  rw [value, value, List.map_drop, Nat.ofDigits_div_pow_eq_ofDigits_drop k (by decide) _ (toNat_lt_of_mem_map bs)]

theorem value_littleEndian (w k : Nat) : value (littleEndian w k) = k % 256 ^ w := by
  induction w generalizing k with
  | zero => simp [littleEndian, value, Nat.mod_one]
  | succ w ih =>
    rw [littleEndian, value_cons, ih, pow_succ', Nat.mod_mul]
    simp

theorem littleEndian_value (bs : Bytes) : littleEndian bs.length (value bs) = bs := by
  induction bs with
  | nil => rfl
  | cons b bs ih =>
    have hb := b.toNat_lt
    have hlow : UInt8.ofNat (b.toNat + 256 * value bs) = b := by
      rw [← UInt8.toNat_inj, UInt8.toNat_ofNat']
      omega
    have hhigh : (b.toNat + 256 * value bs) / 256 = value bs := by omega
    rw [value_cons, List.length_cons, littleEndian, hlow, hhigh, ih]

theorem toNat_getD (bs : Bytes) (k : Nat) : (bs.getD k 0).toNat = value bs / 256 ^ k % 256 := by
  rw [← value_drop]
  induction bs generalizing k with
  | nil => simp [value]
  | cons b bs ih =>
    cases k with
    | zero =>
      have hb := b.toNat_lt
      rw [List.getD_cons_zero, List.drop_zero, value_cons]
      omega
    | succ k => rw [List.getD_cons_succ, List.drop_succ_cons, ih]

theorem value_set {bs : Bytes} {k : Nat} (h : k < bs.length) (b : UInt8) :
    value (bs.set k b) + 256 ^ k * (bs.getD k 0).toNat = value bs + 256 ^ k * b.toNat := by
  induction bs generalizing k with
  | nil => cases h
  | cons c bs ih =>
    cases k with
    | zero =>
      rw [List.set_cons_zero, value_cons, value_cons, List.getD_cons_zero]
      ring
    | succ k =>
      have hk := ih (Nat.lt_of_succ_lt_succ h)
      rw [List.set_cons_succ, value_cons, value_cons, List.getD_cons_succ, pow_succ']
      linear_combination 256 * hk

/-- `copy_from_slice` into the part of a buffer that begins at `k`. -/
def copyInto (bs : Bytes) (k : Nat) (part : Bytes) : Bytes :=
  bs.take k ++ part ++ bs.drop (k + part.length)

theorem length_copyInto {bs part : Bytes} {k : Nat} (h : k + part.length ≤ bs.length) :
    (copyInto bs k part).length = bs.length := by
  simp only [copyInto, List.length_append, List.length_take, List.length_drop]
  omega

theorem value_copyInto {bs part : Bytes} {k : Nat} (h : k + part.length ≤ bs.length)
    (hlow : value bs < 256 ^ k) : value (copyInto bs k part) = value bs + 256 ^ k * value part := by
  have hlen : (bs.take k).length = k := by
    rw [List.length_take]
    omega
  have hhigh : value (bs.drop (k + part.length)) = 0 := by
    rw [value_drop, Nat.div_eq_of_lt]
    exact hlow.trans_le (Nat.pow_le_pow_right (by decide) (Nat.le_add_right _ _))
  rw [copyInto, value_append, value_append, hhigh, hlen, value_take, Nat.mod_eq_of_lt hlow, mul_zero, add_zero]

def readBit (bits : Bytes) (i : Nat) : Bool := (bits.getD (i / 8) 0).toNat.testBit (i % 8)

def mask (i : Nat) : UInt8 := 1 <<< UInt8.ofNat (i % 8)

theorem toNat_mask (i : Nat) : (mask i).toNat = 2 ^ (i % 8) := by
  have hlt : i % 8 < 8 := Nat.mod_lt _ (by decide)
  unfold mask
  generalize i % 8 = b at hlt
  interval_cases b <;> rfl

theorem and_mask_ne_zero (b : UInt8) (i : Nat) : (b &&& mask i != 0) = b.toNat.testBit (i % 8) := by
  rw [Bool.eq_iff_iff, bne_iff_ne, ne_eq, ← UInt8.toNat_inj, UInt8.toNat_and, toNat_mask, Nat.and_two_pow]
  cases b.toNat.testBit (i % 8) <;> simp

theorem testBit_or_mask (b : UInt8) (i j : Nat) :
    (b ||| mask i).toNat.testBit j = (b.toNat.testBit j || decide (j = i % 8)) := by
  rw [UInt8.toNat_or, toNat_mask, Nat.testBit_or, Nat.testBit_two_pow, decide_eq_decide.mpr eq_comm]

theorem readBit_set {bits : Bytes} {j : Nat} {b : UInt8} (hb : bits[j / 8]? = some b) (i : Nat) :
    readBit (bits.set (j / 8) (b ||| mask j)) i = (readBit bits i || decide (i = j)) := by
  obtain ⟨hlt, hget⟩ := List.getElem?_eq_some_iff.mp hb
  by_cases hbyte : i / 8 = j / 8
  · have hbit : i % 8 = j % 8 ↔ i = j := by omega
    simp only [readBit, hbyte, List.getD_eq_getElem?_getD, List.getElem?_set_self hlt, hb, Option.getD_some]
    rw [testBit_or_mask, decide_eq_decide.mpr hbit]
  · have hne : i ≠ j := fun h => hbyte (congrArg (· / 8) h)
    simp [readBit, List.getD_eq_getElem?_getD, List.getElem?_set_ne (Ne.symm hbyte), hne]

end Limbs
