import Mathlib

/-! Byte strings, byte arrays of a fixed width, and the fixed-width number
encodings that binary formats and ordered key spaces are built from. -/

namespace ByteString

abbrev Bytes := List UInt8

def FixedBytes (n : Nat) := { l : Bytes // l.length = n }

namespace FixedBytes

variable {n : Nat}

def bytes (a : FixedBytes n) : Bytes := a.val

instance : DecidableEq (FixedBytes n) := inferInstanceAs (DecidableEq { l : Bytes // l.length = n })

instance : Ord (FixedBytes n) := ⟨compareOn bytes⟩

instance : Std.TransOrd (FixedBytes n) := inferInstanceAs (Std.TransCmp (compareOn bytes))

instance : Std.TransOrd (FixedBytes 32) := inferInstanceAs (Std.TransCmp (compareOn bytes))

theorem length_bytes (a : FixedBytes n) : a.bytes.length = n := a.property

theorem bytes_injective : Function.Injective (bytes (n := n)) := Subtype.val_injective

instance : Std.LawfulEqOrd (FixedBytes n) where
  eq_of_compare h := bytes_injective (Std.LawfulEqOrd.eq_of_compare h)

theorem append_inj {a b : FixedBytes n} {x y : Bytes}
    (h : a.bytes ++ x = b.bytes ++ y) : a = b ∧ x = y := by
  have hh := List.append_inj h (a.length_bytes.trans b.length_bytes.symm)
  exact ⟨bytes_injective hh.1, hh.2⟩

def resize (n : Nat) (l : Bytes) : FixedBytes n :=
  ⟨(l ++ List.replicate n 0).take n, by simp⟩

def ofByte (n : Nat) (b : UInt8) : FixedBytes n := ⟨List.replicate n b, by simp⟩

end FixedBytes

def bigEndian : Nat → Nat → Bytes
  | 0, _ => []
  | w + 1, k => UInt8.ofNat (k / 256 ^ w) :: bigEndian w (k % 256 ^ w)

theorem compare_ofNat {a b : Nat} (ha : a < 256) (hb : b < 256) :
    compare (UInt8.ofNat a) (UInt8.ofNat b) = compare a b := by
  have ea : (UInt8.ofNat a).toNat = a := UInt8.toNat_ofNat_of_lt' (by simpa using ha)
  have eb : (UInt8.ofNat b).toNat = b := UInt8.toNat_ofNat_of_lt' (by simpa using hb)
  simp only [compare, compareOfLessAndEq, UInt8.lt_iff_toNat_lt, ← UInt8.toNat_inj, ea, eb]

theorem compare_bigEndian (w : Nat) {a b : Nat} (ha : a < 256 ^ w) (hb : b < 256 ^ w) :
    compare (bigEndian w a) (bigEndian w b) = compare a b := by
  induction w generalizing a b with
  | zero =>
    have : a = b := by simp at ha hb; omega
    simp [this]
  | succ w ih =>
    have hp : 0 < 256 ^ w := by positivity
    have hda : a / 256 ^ w < 256 := by rw [Nat.div_lt_iff_lt_mul hp]; rw [pow_succ'] at ha; exact ha
    have hdb : b / 256 ^ w < 256 := by rw [Nat.div_lt_iff_lt_mul hp]; rw [pow_succ'] at hb; exact hb
    have ea := Nat.div_add_mod a (256 ^ w)
    have eb := Nat.div_add_mod b (256 ^ w)
    have hma := Nat.mod_lt a hp
    have hmb := Nat.mod_lt b hp
    simp only [bigEndian, List.compare_cons_cons, compare_ofNat hda hdb, ih hma hmb]
    rcases lt_trichotomy (a / 256 ^ w) (b / 256 ^ w) with hd | hd | hd
    · have hlt : a < b := by
        by_contra hc
        exact absurd (Nat.div_le_div_right (c := 256 ^ w) (not_lt.mp hc)) (not_le.mpr hd)
      simp [Nat.compare_eq_lt.mpr hd, Nat.compare_eq_lt.mpr hlt]
    · rw [hd, Nat.compare_eq_eq.mpr rfl]
      rw [hd] at ea
      simp only [Ordering.then]
      rcases lt_trichotomy (a % 256 ^ w) (b % 256 ^ w) with hm | hm | hm
      · rw [Nat.compare_eq_lt.mpr hm, Nat.compare_eq_lt.mpr (by omega)]
      · rw [Nat.compare_eq_eq.mpr hm, Nat.compare_eq_eq.mpr (by omega)]
      · rw [Nat.compare_eq_gt.mpr hm, Nat.compare_eq_gt.mpr (by omega)]
    · have hlt : b < a := by
        by_contra hc
        exact absurd (Nat.div_le_div_right (c := 256 ^ w) (not_lt.mp hc)) (not_le.mpr hd)
      simp [Nat.compare_eq_gt.mpr hd, Nat.compare_eq_gt.mpr hlt]

theorem bigEndian_injective (w : Nat) {a b : Nat} (ha : a < 256 ^ w) (hb : b < 256 ^ w)
    (h : bigEndian w a = bigEndian w b) : a = b := by
  have hc := compare_bigEndian w ha hb
  rw [h, Std.ReflOrd.compare_self] at hc
  exact Nat.compare_eq_eq.mp hc.symm

def littleEndian : Nat → Nat → Bytes
  | 0, _ => []
  | w + 1, k => UInt8.ofNat k :: littleEndian w (k / 256)

theorem length_littleEndian (w k : Nat) : (littleEndian w k).length = w := by
  induction w generalizing k with
  | zero => rfl
  | succ w ih => simp [littleEndian, ih]

def readLittleEndian : Nat → Bytes → Option (Nat × Bytes)
  | 0, rest => some (0, rest)
  | _ + 1, [] => none
  | w + 1, b :: rest => (readLittleEndian w rest).map fun (k, r) => (b.toNat + 256 * k, r)

theorem readLittleEndian_append (w : Nat) {k : Nat} (hk : k < 256 ^ w) (rest : Bytes) :
    readLittleEndian w (littleEndian w k ++ rest) = some (k, rest) := by
  induction w generalizing k with
  | zero =>
    have : k = 0 := by simpa using hk
    simp [littleEndian, readLittleEndian, this]
  | succ w ih =>
    have hd : k / 256 < 256 ^ w := by rw [Nat.div_lt_iff_lt_mul (by norm_num)]; rw [pow_succ] at hk; exact hk
    have hm := Nat.mod_add_div k 256
    simp [littleEndian, readLittleEndian, ih hd, hm]

theorem littleEndian_injective {w k l : Nat} (hk : k < 256 ^ w) (hl : l < 256 ^ w)
    (h : littleEndian w k = littleEndian w l) : k = l := by
  have hrk := readLittleEndian_append w hk []
  have hrl := readLittleEndian_append w hl []
  rw [h, hrl] at hrk
  exact (congrArg Prod.fst (Option.some.inj hrk)).symm

end ByteString
