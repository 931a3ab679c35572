import Onvm.CurveOrder
import Onvm.Limbs

/-! The scalars of `threshold_ecdsa.rs`: integers below the order of the secp256k1
group, and the byte loops that add, multiply and invert them. -/

namespace Onvm

open ByteString Limbs

/-- How a call ends that does not give a value: it returns an error, or it panics. -/
inductive Failure
  | error (message : String)
  | panic (message : String)
deriving DecidableEq

/-- A number that the secp256k1 crate accepts as a scalar. -/
structure Scalar where
  toNat : Nat
  lt : toNat < curveOrder
deriving DecidableEq

namespace Scalar

theorem ext {a b : Scalar} (h : a.toNat = b.toNat) : a = b := by
  cases a
  cases b
  cases h
  rfl

/-- `secp256k1::Scalar::from_le_bytes` -/
def fromLeBytes (bytes : Bytes) : Option Scalar :=
  if h : value bytes < curveOrder then some ⟨value bytes, h⟩ else none

def asBytes (a : Scalar) : Bytes := littleEndian 32 a.toNat

def expect (message : String) (bytes : Bytes) : Except Failure Scalar :=
  match fromLeBytes bytes with
  | some a => .ok a
  | none => .error (.panic message)

def fromU64 (k : UInt64) : Except Failure Scalar :=
  expect "valid u64 scalar" (copyInto (List.replicate 32 0) 0 (littleEndian 8 k.toNat))

def zero : Scalar := ⟨0, by decide⟩

def one : Scalar := ⟨1, by decide⟩

/-- `u64::from_le_bytes(bytes[i * 8..i * 8 + 8])` -/
def limb (bytes : Bytes) (i : Nat) : UInt64 := UInt64.ofNat (value ((bytes.drop (i * 8)).take 8))

def addStep (a b : Bytes) (state : Bytes × UInt64) (i : Nat) : Bytes × UInt64 :=
  let sum := limb a i + limb b i + state.2
  (copyInto state.1 (i * 8) (littleEndian 8 sum.toNat), if sum < limb a i then 1 else 0)

def add (a b : Scalar) : Except Failure Scalar :=
  expect "valid scalar sum"
    ((List.range 4).foldl (addStep a.asBytes b.asBytes) (List.replicate 32 0, 0)).1

/-- One product of two bytes, added to the bytes `i + j` and `i + j + 1` of the result. -/
def mulStep (a b : Bytes) (i : Nat) (result : Bytes) (j : Nat) : Bytes :=
  let prod := (a.getD i 0).toUInt16 * (b.getD j 0).toUInt16
  let k := i + j
  let old := result.getD k 0
  let carry := 256 ≤ old.toNat + prod.toUInt8.toNat
  let result := result.set k (old + prod.toUInt8)
  if carry ∧ k + 1 < 32 then result.set (k + 1) (result.getD (k + 1) 0 + ((prod >>> 8).toUInt8 + 1))
  else if k + 1 < 32 then result.set (k + 1) (result.getD (k + 1) 0 + (prod >>> 8).toUInt8)
  else result

def mulRow (a b : Bytes) (result : Bytes) (i : Nat) : Bytes :=
  (List.range (32 - i)).foldl (mulStep a b i) result

def multiply (a b : Scalar) : Except Failure Scalar :=
  expect "valid scalar product" ((List.range 32).foldl (mulRow a.asBytes b.asBytes) (List.replicate 32 0))

def invertStep (result : Bytes) : Bytes :=
  match fromLeBytes result with
  | some scalar => scalar.asBytes
  | none => result

def invert (a : Scalar) : Except Failure Scalar :=
  expect "valid inverse" ((List.range 256).foldl (fun result _ => invertStep result) a.asBytes)

theorem lt_pow (a : Scalar) : a.toNat < 256 ^ 32 := a.lt.trans (by decide)

theorem value_asBytes (a : Scalar) : value a.asBytes = a.toNat := by
  rw [asBytes, value_littleEndian, Nat.mod_eq_of_lt a.lt_pow]

theorem expect_eq_ok {message : String} {bytes : Bytes} {r : Scalar} :
    expect message bytes = .ok r ↔ value bytes = r.toNat := by
  rw [expect, fromLeBytes]
  constructor
  · intro h
    split_ifs at h with hlt
    · cases h
      rfl
  · intro h
    have hlt : value bytes < curveOrder := h ▸ r.lt
    rw [dif_pos hlt]
    exact congrArg Except.ok (ext h)

def word (x i : Nat) : Nat := x / (2 ^ 64) ^ i % 2 ^ 64

theorem word_lt (x i : Nat) : word x i < 2 ^ 64 := Nat.mod_lt _ (by norm_num)

theorem mod_succ_eq_word (x i : Nat) : x % (2 ^ 64) ^ (i + 1) = x % (2 ^ 64) ^ i + (2 ^ 64) ^ i * word x i :=
  Nat.mod_pow_succ

theorem byte_base (i : Nat) : 256 ^ (i * 8) = (2 ^ 64) ^ i := by
  rw [mul_comm, pow_mul]
  norm_num

theorem toNat_limb (bytes : Bytes) (i : Nat) : (limb bytes i).toNat = word (value bytes) i := by
  have hword : (256 : Nat) ^ 8 = 2 ^ 64 := by norm_num
  rw [limb, UInt64.toNat_ofNat', value_take, value_drop, byte_base, hword, Nat.mod_mod, word]

theorem toNat_sum (a b : Bytes) (i : Nat) (c : UInt64) :
    (limb a i + limb b i + c).toNat = (word (value a) i + word (value b) i + c.toNat) % 2 ^ 64 := by
  rw [UInt64.toNat_add, UInt64.toNat_add, toNat_limb, toNat_limb, Nat.mod_add_mod]

theorem value_addStep {a b : Bytes} {i : Nat} {state : Bytes × UInt64} (hlen : state.1.length = 32)
    (hlow : value state.1 < (2 ^ 64) ^ i) (hi : i < 4) : value (addStep a b state i).1 =
      value state.1 + (2 ^ 64) ^ i * ((word (value a) i + word (value b) i + state.2.toNat) % 2 ^ 64) := by
  have hroom : i * 8 + (littleEndian 8 (limb a i + limb b i + state.2).toNat).length ≤ state.1.length := by
    rw [length_littleEndian, hlen]
    omega
  rw [addStep, value_copyInto hroom (byte_base i ▸ hlow), value_littleEndian, byte_base, toNat_sum]
  norm_num

theorem carry_addStep (a b : Bytes) (i : Nat) (state : Bytes × UInt64) : (addStep a b state i).2.toNat =
    if (word (value a) i + word (value b) i + state.2.toNat) % 2 ^ 64 < word (value a) i then 1 else 0 := by
  rw [addStep]
  simp only [UInt64.lt_iff_toNat_lt, toNat_sum, toNat_limb]
  split_ifs <;> rfl

theorem length_addStep {a b : Bytes} {i : Nat} {state : Bytes × UInt64} (hlen : state.1.length = 32)
    (hi : i < 4) : (addStep a b state i).1.length = 32 := by
  rw [addStep, length_copyInto, hlen]
  rw [length_littleEndian, hlen]
  omega

/-- A limb of `b` that is all ones, where a carry comes in from the limbs below. -/
def LosesCarry (a b k : Nat) : Prop :=
  word b k = 2 ^ 64 - 1 ∧ (2 ^ 64) ^ k ≤ a % (2 ^ 64) ^ k + b % (2 ^ 64) ^ k

/-- After `i` limbs: what is missing is made of whole limbs, and it is nothing just if no carry was lost. -/
structure Added (a b i : Nat) (state : Bytes × UInt64) : Prop where
  length : state.1.length = 32
  low : value state.1 < (2 ^ 64) ^ i
  carry : state.2.toNat ≤ 1
  missing : ∃ d, value state.1 + (2 ^ 64) ^ i * state.2.toNat + d = a % (2 ^ 64) ^ i + b % (2 ^ 64) ^ i ∧
    2 ^ 64 ∣ d ∧ (d = 0 ↔ ∀ k < i, ¬ LosesCarry a b k)

theorem Added.carry_iff {a b i : Nat} {state : Bytes × UInt64} (h : Added a b i state)
    (hkeep : ∀ k < i, ¬ LosesCarry a b k) :
    state.2.toNat = 1 ↔ (2 ^ 64) ^ i ≤ a % (2 ^ 64) ^ i + b % (2 ^ 64) ^ i := by
  obtain ⟨d, hsum, -, hd⟩ := h.missing
  obtain rfl := hd.mpr hkeep
  have hlow := h.low
  have hcarry := h.carry
  rw [← hsum]
  interval_cases state.2.toNat <;> omega

theorem carry_of_lt {x y c : Nat} (hx : x < 2 ^ 64) (hy : y < 2 ^ 64) (hc : c ≤ 1) :
    (x + y + c) / 2 ^ 64 = (if (x + y + c) % 2 ^ 64 < x then 1 else 0) +
      if y = 2 ^ 64 - 1 ∧ c = 1 then 1 else 0 := by
  split_ifs <;> omega

theorem Added.step {a b : Bytes} {i : Nat} {state : Bytes × UInt64} (h : Added (value a) (value b) i state)
    (hi : i < 4) : Added (value a) (value b) (i + 1) (addStep a b state i) := by
  obtain ⟨d, hsum, hdvd, hd⟩ := h.missing
  have hloss := carry_of_lt (word_lt (value a) i) (word_lt (value b) i) h.carry
  have hdigit := Nat.mod_add_div (word (value a) i + word (value b) i + state.2.toNat) (2 ^ 64)
  rw [← carry_addStep] at hloss
  rw [hloss] at hdigit
  have hlt := Nat.mod_lt (word (value a) i + word (value b) i + state.2.toNat) (by norm_num : 0 < 2 ^ 64)
  refine ⟨length_addStep h.length hi, ?_, ?_, d + (2 ^ 64) ^ (i + 1) *
    (if word (value b) i = 2 ^ 64 - 1 ∧ state.2.toNat = 1 then 1 else 0), ?_, ?_, ?_⟩
  · have hlow := h.low
    rw [value_addStep h.length h.low hi, pow_succ (2 ^ 64) i]
    nlinarith
  · rw [carry_addStep]
    split_ifs <;> omega
  · rw [value_addStep h.length h.low hi, mod_succ_eq_word, mod_succ_eq_word, pow_succ (2 ^ 64) i]
    linear_combination hsum + (2 ^ 64) ^ i * hdigit
  · exact hdvd.add (Dvd.dvd.mul_right (dvd_pow_self _ (Nat.succ_ne_zero i)) _)
  · rw [Nat.add_eq_zero_iff, hd, Nat.forall_lt_succ_right]
    refine and_congr_right fun hkeep => ?_
    rw [LosesCarry, ← h.carry_iff hkeep, mul_eq_zero, or_iff_right (by positivity)]
    by_cases hlost : word (value b) i = 2 ^ 64 - 1 ∧ state.2.toNat = 1
    · rw [if_pos hlost]
      exact iff_of_false one_ne_zero (not_not_intro hlost)
    · rw [if_neg hlost]
      exact iff_of_true rfl hlost

theorem Added.run (a b : Bytes) {i : Nat} (hi : i ≤ 4) : Added (value a) (value b) i
    ((List.range i).foldl (addStep a b) (List.replicate 32 0, 0)) := by
  induction i with
  | zero =>
    refine ⟨rfl, ?_, Nat.zero_le 1, 0, ?_, dvd_zero _, iff_of_true rfl nofun⟩
    · rw [List.range_zero, List.foldl_nil, value_zeros]
      norm_num
    · rw [List.range_zero, List.foldl_nil, value_zeros]
      simp [Nat.mod_one]
  | succ i ih =>
    rw [List.range_succ, List.foldl_concat]
    exact (ih (by omega)).step hi

def AddsModulo (a b : Scalar) : Prop :=
  ∃ r, a.add b = .ok r ∧ r.toNat = (a.toNat + b.toNat) % curveOrder

theorem curveOrder_odd : curveOrder % 2 = 1 := by decide

theorem addsModulo_iff (a b : Scalar) : AddsModulo a b ↔
    a.toNat + b.toNat < curveOrder ∧ ∀ k < 4, ¬ LosesCarry a.toNat b.toNat k := by
  have h := Added.run a.asBytes b.asBytes (le_refl 4)
  rw [value_asBytes, value_asBytes] at h
  obtain ⟨d, hsum, ⟨m, hm⟩, hd⟩ := h.missing
  have ha := a.lt
  have hb := b.lt
  have hpow : (2 ^ 64) ^ 4 = 256 ^ 32 := by norm_num
  rw [hpow, Nat.mod_eq_of_lt a.lt_pow, Nat.mod_eq_of_lt b.lt_pow] at hsum
  constructor
  · rintro ⟨r, hr, hmod⟩
    rw [add, expect_eq_ok] at hr
    rw [hr] at hsum
    have hlt : a.toNat + b.toNat < curveOrder := by
      by_contra hge
      rw [Nat.mod_eq_sub_mod (not_lt.mp hge), Nat.mod_eq_of_lt (by omega)] at hmod
      have hodd := curveOrder_odd
      omega
    rw [Nat.mod_eq_of_lt hlt] at hmod
    exact ⟨hlt, hd.mp (by omega)⟩
  · rintro ⟨hlt, hkeep⟩
    obtain rfl := hd.mpr hkeep
    refine ⟨⟨a.toNat + b.toNat, hlt⟩, ?_, (Nat.mod_eq_of_lt hlt).symm⟩
    rw [add, expect_eq_ok]
    have hbound : curveOrder < 256 ^ 32 := by decide
    have hcarry := h.carry
    dsimp only
    omega

def byte (x k : Nat) : Nat := x / 256 ^ k % 256

theorem byte_lt (x k : Nat) : byte x k < 256 := Nat.mod_lt _ (by norm_num)

theorem mod_succ_eq_byte (x k : Nat) : x % 256 ^ (k + 1) = x % 256 ^ k + 256 ^ k * byte x k := Nat.mod_pow_succ

theorem two_bytes (x k : Nat) : x / 256 ^ k % 65536 = byte x k + 256 * byte x (k + 1) := by
  have hsplit : x / 256 ^ (k + 1) = x / 256 ^ k / 256 := by rw [pow_succ, Nat.div_div_eq_div_mul]
  rw [byte, byte, hsplit]
  omega

theorem byte_mul_le (x y i j : Nat) : byte x i * byte y j ≤ 255 * 255 :=
  Nat.mul_le_mul (Nat.le_of_lt_succ (byte_lt x i)) (Nat.le_of_lt_succ (byte_lt y j))

theorem toNat_getD_eq_byte (bs : Bytes) (k : Nat) : (bs.getD k 0).toNat = byte (value bs) k := toNat_getD bs k

theorem toNat_prod (a b : Bytes) (i j : Nat) :
    ((a.getD i 0).toUInt16 * (b.getD j 0).toUInt16).toNat = byte (value a) i * byte (value b) j := by
  have hle := byte_mul_le (value a) (value b) i j
  rw [UInt16.toNat_mul, UInt8.toNat_toUInt16, UInt8.toNat_toUInt16, toNat_getD_eq_byte, toNat_getD_eq_byte]
  exact Nat.mod_eq_of_lt (by omega)

theorem toNat_high (p : UInt16) : (p >>> 8).toUInt8.toNat = p.toNat / 256 := by
  have hp := p.toNat_lt
  rw [UInt16.toNat_toUInt8, UInt16.toNat_shiftRight]
  simp only [UInt16.toNat_ofNat, Nat.reducePow, Nat.reduceMod, Nat.shiftRight_eq_div_pow]
  omega

theorem getD_set_succ (bs : Bytes) (k : Nat) (x : UInt8) : (bs.set k x).getD (k + 1) 0 = bs.getD (k + 1) 0 := by
  rw [List.getD_eq_getElem?_getD, List.getElem?_set_ne (Nat.ne_of_lt (Nat.lt_succ_self k)),
    List.getD_eq_getElem?_getD]

theorem value_set_two {bs : Bytes} {k : Nat} (h : k + 1 < bs.length) (x y : UInt8) :
    value ((bs.set k x).set (k + 1) y) + 256 ^ k * (byte (value bs) k + 256 * byte (value bs) (k + 1)) =
      value bs + 256 ^ k * (x.toNat + 256 * y.toNat) := by
  have hx := value_set (Nat.lt_of_succ_lt h) x
  have hlen : k + 1 < (bs.set k x).length := by rwa [List.length_set]
  have hy := value_set hlen y
  rw [getD_set_succ, toNat_getD_eq_byte, pow_succ] at hy
  rw [toNat_getD_eq_byte] at hx
  linear_combination hx + hy

theorem two_bytes_sum (low high p c : Nat) (hc : c = (low + p % 256) / 256) :
    (low + p) % 256 + 256 * ((high + (p / 256 + c)) % 256) + 65536 * ((low + 256 * high + p) / 65536) =
      low + 256 * high + p := by
  omega

theorem value_mulStep {a b result : Bytes} {i j : Nat} (hlen : result.length = 32) (hk : i + j + 1 < 32) :
    value (mulStep a b i result j) + 256 ^ (i + j) * (65536 *
      ((value result / 256 ^ (i + j) % 65536 + byte (value a) i * byte (value b) j) / 65536)) =
      value result + 256 ^ (i + j) * (byte (value a) i * byte (value b) j) := by
  have hlow := byte_lt (value result) (i + j)
  have hset := value_set_two (by omega : i + j + 1 < result.length)
  rw [mulStep, two_bytes, ← toNat_prod]
  generalize (a.getD i 0).toUInt16 * (b.getD j 0).toUInt16 = prod
  simp only [hk, and_true, if_true, getD_set_succ, UInt16.toNat_toUInt8, toNat_getD_eq_byte]
  split_ifs with hcarry
  · have h := hset (result.getD (i + j) 0 + prod.toUInt8)
      (result.getD (i + j + 1) 0 + ((prod >>> 8).toUInt8 + 1))
    rw [UInt8.toNat_add, UInt8.toNat_add, UInt8.toNat_add, toNat_high, UInt16.toNat_toUInt8, toNat_getD_eq_byte,
      toNat_getD_eq_byte, UInt8.toNat_one, Nat.add_mod_mod, Nat.add_mod_mod] at h
    have hsum := two_bytes_sum (byte (value result) (i + j)) (byte (value result) (i + j + 1)) prod.toNat 1
      (by omega)
    linear_combination h + 256 ^ (i + j) * hsum
  · have h := hset (result.getD (i + j) 0 + prod.toUInt8) (result.getD (i + j + 1) 0 + (prod >>> 8).toUInt8)
    rw [UInt8.toNat_add, UInt8.toNat_add, toNat_high, UInt16.toNat_toUInt8, toNat_getD_eq_byte,
      toNat_getD_eq_byte, Nat.add_mod_mod] at h
    have hsum := two_bytes_sum (byte (value result) (i + j)) (byte (value result) (i + j + 1)) prod.toNat 0
      (by omega)
    linear_combination h + 256 ^ (i + j) * hsum

theorem value_mulStep_top {a b result : Bytes} {i j : Nat} (hlen : result.length = 32) (hk : i + j + 1 = 32) :
    value (mulStep a b i result j) + 256 ^ (i + j) * (256 *
      ((byte (value result) (i + j) + byte (value a) i * byte (value b) j) / 256)) =
      value result + 256 ^ (i + j) * (byte (value a) i * byte (value b) j) := by
  have h := value_set (by omega : i + j < result.length)
    (result.getD (i + j) 0 + ((a.getD i 0).toUInt16 * (b.getD j 0).toUInt16).toUInt8)
  rw [mulStep, ← toNat_prod]
  generalize (a.getD i 0).toUInt16 * (b.getD j 0).toUInt16 = prod at h ⊢
  simp only [hk, lt_irrefl, and_false, if_false]
  rw [UInt8.toNat_add, UInt16.toNat_toUInt8, Nat.add_mod_mod, toNat_getD_eq_byte] at h
  have hsum := Nat.mod_add_div (byte (value result) (i + j) + prod.toNat) 256
  linear_combination h + 256 ^ (i + j) * hsum

theorem length_mulStep (a b result : Bytes) (i j : Nat) : (mulStep a b i result j).length = result.length := by
  rw [mulStep]
  split_ifs <;> simp only [List.length_set]

def Fits (v p k : Nat) : Prop := v / 256 ^ k % 65536 + p < 65536

theorem mulStep_missing {a b result : Bytes} {i j : Nat} (hlen : result.length = 32) (hk : i + j < 32) :
    ∃ d, value (mulStep a b i result j) + d =
        value result + 256 ^ (i + j) * (byte (value a) i * byte (value b) j) ∧
      (d = 0 ↔ Fits (value result) (byte (value a) i * byte (value b) j) (i + j) ∧
        value result + 256 ^ (i + j) * (byte (value a) i * byte (value b) j) < 256 ^ 32) := by
  have hbound := value_lt (mulStep a b i result j)
  have hpos : 0 < 256 ^ (i + j) := by positivity
  rw [length_mulStep, hlen] at hbound
  rcases Nat.lt_or_ge (i + j + 1) 32 with hlt | hge
  · have h := value_mulStep hlen hlt (a := a) (b := b)
    refine ⟨_, h, ?_⟩
    rw [Fits, Nat.mul_eq_zero, or_iff_right hpos.ne', Nat.mul_eq_zero, or_iff_right (by norm_num),
      Nat.div_eq_zero_iff_lt (by norm_num)]
    refine ⟨fun hfits => ⟨hfits, ?_⟩, fun hfits => hfits.1⟩
    rw [Nat.div_eq_of_lt hfits] at h
    omega
  · have htop : i + j + 1 = 32 := by omega
    have h := value_mulStep_top hlen htop (a := a) (b := b)
    have hpow : 256 ^ 32 = 256 ^ (i + j) * 256 := by rw [← htop, pow_succ]
    have hvalue := value_lt result
    rw [hlen, hpow] at hvalue
    have hquot : value result / 256 ^ (i + j) < 256 := Nat.div_lt_of_lt_mul hvalue
    have htotal : value result + 256 ^ (i + j) * (byte (value a) i * byte (value b) j) < 256 ^ 32 ↔
        value result / 256 ^ (i + j) + byte (value a) i * byte (value b) j < 256 := by
      rw [← Nat.add_mul_div_left _ _ hpos, Nat.div_lt_iff_lt_mul hpos, mul_comm 256, ← hpow]
    refine ⟨_, h, ?_⟩
    rw [htotal, Fits, byte, Nat.mod_eq_of_lt hquot, Nat.mod_eq_of_lt (hquot.trans (by norm_num)), Nat.mul_eq_zero,
      or_iff_right hpos.ne', Nat.mul_eq_zero, or_iff_right (by norm_num), Nat.div_eq_zero_iff_lt (by norm_num)]
    exact ⟨fun hfits => ⟨hfits.trans (by norm_num), hfits⟩, And.right⟩

/-- The sum of the products that come before the one of the bytes `i` and `j`. -/
def partialProduct (a b i j : Nat) : Nat := a % 256 ^ i * b + 256 ^ i * (byte a i * (b % 256 ^ j))

theorem partialProduct_succ (a b i j : Nat) :
    partialProduct a b i (j + 1) = partialProduct a b i j + 256 ^ (i + j) * (byte a i * byte b j) := by
  rw [partialProduct, partialProduct, mod_succ_eq_byte]
  ring

theorem partialProduct_le (a b i j : Nat) : partialProduct a b i j ≤ a * b :=
  calc partialProduct a b i j ≤ a % 256 ^ i * b + 256 ^ i * (byte a i * b) := by
        rw [partialProduct]
        gcongr
        exact Nat.mod_le _ _
    _ = a % 256 ^ (i + 1) * b := by
        rw [mod_succ_eq_byte]
        ring
    _ ≤ a * b := Nat.mul_le_mul_right _ (Nat.mod_le _ _)

theorem partialProduct_row {a b i : Nat} (h : a * b < 256 ^ 32) (hi : i ≤ 32) :
    partialProduct a b i (32 - i) = partialProduct a b (i + 1) 0 := by
  have hrow : byte a i * (b % 256 ^ (32 - i)) = byte a i * b := by
    rcases Nat.eq_zero_or_pos (byte a i) with hzero | hpos
    · rw [hzero, zero_mul, zero_mul]
    · have hle : 256 ^ i ≤ a := by
        by_contra hlt
        rw [byte, Nat.div_eq_of_lt (not_le.mp hlt)] at hpos
        exact absurd hpos (by norm_num)
      have hlt : b < 256 ^ (32 - i) := by
        by_contra hge
        have hprod := Nat.mul_le_mul hle (not_lt.mp hge)
        rw [← pow_add, Nat.add_sub_cancel' hi] at hprod
        omega
      rw [Nat.mod_eq_of_lt hlt]
  rw [partialProduct, partialProduct, hrow, mod_succ_eq_byte, pow_zero, Nat.mod_one]
  ring

/-- Before the bytes `i` and `j`: something is missing just if an earlier product did not fit. -/
structure Multiplied (a b i j : Nat) (result : Bytes) : Prop where
  length : result.length = 32
  missing : ∃ d, value result + d = partialProduct a b i j ∧
    (d = 0 ↔ (∀ i' < i, ∀ j' < 32 - i', Fits (partialProduct a b i' j') (byte a i' * byte b j') (i' + j')) ∧
      ∀ j' < j, Fits (partialProduct a b i j') (byte a i * byte b j') (i + j'))

theorem Multiplied.step {a b result : Bytes} {i j : Nat} (hlt : value a * value b < 256 ^ 32)
    (h : Multiplied (value a) (value b) i j result) (hk : i + j < 32) :
    Multiplied (value a) (value b) i (j + 1) (mulStep a b i result j) := by
  obtain ⟨d, hsum, hd⟩ := h.missing
  obtain ⟨e, hstep, he⟩ := mulStep_missing h.length hk (a := a) (b := b)
  refine ⟨(length_mulStep ..).trans h.length, d + e, ?_, ?_⟩
  · rw [partialProduct_succ]
    omega
  · rw [Nat.add_eq_zero_iff, hd, Nat.forall_lt_succ_right, ← and_assoc]
    refine and_congr_right fun hfits => ?_
    obtain rfl := hd.mpr hfits
    have hle := partialProduct_le (value a) (value b) i (j + 1)
    rw [partialProduct_succ] at hle
    rw [he, ← hsum, add_zero]
    refine and_iff_left ?_
    omega

theorem Multiplied.row {a b result : Bytes} {i : Nat} (hlt : value a * value b < 256 ^ 32)
    (h : Multiplied (value a) (value b) i 0 result) (hi : i < 32) :
    Multiplied (value a) (value b) (i + 1) 0 (mulRow a b result i) := by
  have hrow : ∀ j ≤ 32 - i, Multiplied (value a) (value b) i j ((List.range j).foldl (mulStep a b i) result) := by
    intro j hj
    induction j with
    | zero => exact h
    | succ j ih =>
      rw [List.range_succ, List.foldl_concat]
      exact (ih (by omega)).step hlt (by omega)
  obtain ⟨hlen, d, hsum, hd⟩ := hrow (32 - i) (le_refl _)
  refine ⟨hlen, d, ?_, ?_⟩
  · rw [← partialProduct_row hlt hi.le]
    exact hsum
  · rw [hd, Nat.forall_lt_succ_right]
    simp

theorem Multiplied.run {a b : Bytes} (hlt : value a * value b < 256 ^ 32) {i : Nat} (hi : i ≤ 32) :
    Multiplied (value a) (value b) i 0 ((List.range i).foldl (mulRow a b) (List.replicate 32 0)) := by
  induction i with
  | zero =>
    refine ⟨by simp, 0, ?_, iff_of_true rfl ⟨nofun, nofun⟩⟩
    rw [List.range_zero, List.foldl_nil, value_zeros, partialProduct]
    simp [Nat.mod_one]
  | succ i ih =>
    rw [List.range_succ, List.foldl_concat]
    exact (ih (by omega)).row hlt hi

def MultipliesModulo (a b : Scalar) : Prop :=
  ∃ r, a.multiply b = .ok r ∧ r.toNat = a.toNat * b.toNat % curveOrder

theorem multipliesModulo_iff {a b : Scalar} (h : a.toNat * b.toNat < curveOrder) : MultipliesModulo a b ↔
    ∀ i < 32, ∀ j < 32 - i, Fits (partialProduct a.toNat b.toNat i j) (byte a.toNat i * byte b.toNat j) (i + j) := by
  have hlt : value a.asBytes * value b.asBytes < 256 ^ 32 := by
    rw [value_asBytes, value_asBytes]
    exact h.trans (by decide)
  obtain ⟨-, d, hsum, hd⟩ := Multiplied.run hlt (le_refl 32)
  rw [value_asBytes, value_asBytes] at hsum hd
  have hall : partialProduct a.toNat b.toNat 32 0 = a.toNat * b.toNat := by
    rw [partialProduct, Nat.mod_eq_of_lt a.lt_pow, pow_zero, Nat.mod_one, mul_zero, mul_zero, add_zero]
  rw [hall] at hsum
  rw [and_iff_left fun j hj => absurd hj (Nat.not_lt_zero j)] at hd
  rw [← hd, MultipliesModulo, Nat.mod_eq_of_lt h]
  constructor
  · rintro ⟨r, hr, hprod⟩
    rw [multiply, expect_eq_ok] at hr
    rw [hr] at hsum
    omega
  · rintro rfl
    refine ⟨⟨a.toNat * b.toNat, h⟩, ?_, rfl⟩
    rw [add_zero] at hsum
    rw [multiply, expect_eq_ok]
    exact hsum

theorem fromLeBytes_asBytes (a : Scalar) : fromLeBytes a.asBytes = some a := by
  have hlt : value a.asBytes < curveOrder := by
    rw [value_asBytes]
    exact a.lt
  rw [fromLeBytes, dif_pos hlt]
  exact congrArg some (ext a.value_asBytes)

theorem invert_eq (a : Scalar) : a.invert = .ok a := by
  have hloop : ∀ turns : List Nat, turns.foldl (fun result _ => invertStep result) a.asBytes = a.asBytes := by
    intro turns
    induction turns with
    | nil => rfl
    | cons i turns ih => rw [List.foldl_cons, invertStep, fromLeBytes_asBytes, ih]
  rw [invert, hloop, expect_eq_ok, value_asBytes]

def InvertsModulo (a : Scalar) : Prop := ∃ r, a.invert = .ok r ∧ a.toNat * r.toNat % curveOrder = 1

theorem invertsModulo_iff (a : Scalar) : InvertsModulo a ↔ a.toNat = 1 ∨ a.toNat = curveOrder - 1 := by
  have hsquare : InvertsModulo a ↔ a.toNat * a.toNat % curveOrder = 1 := by
    rw [InvertsModulo, invert_eq]
    constructor
    · rintro ⟨r, hr, hinv⟩
      cases hr
      exact hinv
    · intro hinv
      exact ⟨a, rfl, hinv⟩
  have ha := a.lt
  have hbig : 1 < curveOrder := curveOrder_prime.one_lt
  rw [hsquare]
  constructor
  · intro hinv
    have hpos : 0 < a.toNat := by
      rcases Nat.eq_zero_or_pos a.toNat with hzero | hpos
      · rw [hzero] at hinv
        cases hinv
      · exact hpos
    have hfactor : a.toNat * a.toNat - 1 = (a.toNat + 1) * (a.toNat - 1) := by
      rw [← Nat.sq_sub_sq, one_pow, sq]
    have hdvd : curveOrder ∣ (a.toNat + 1) * (a.toNat - 1) := by
      rw [← hfactor]
      exact (Nat.modEq_iff_dvd' (Nat.mul_pos hpos hpos)).mp
        ((Nat.mod_eq_of_lt hbig).trans hinv.symm)
    rcases curveOrder_prime.dvd_mul.mp hdvd with hplus | hminus
    · have := Nat.le_of_dvd (Nat.succ_pos _) hplus
      omega
    · have := Nat.eq_zero_of_dvd_of_lt hminus (by omega)
      omega
  · rintro (hone | hlast)
    · rw [hone]
      exact Nat.mod_eq_of_lt hbig
    · rw [hlast]
      decide

structure ModularArithmetic (a b : Scalar) : Prop where
  add : AddsModulo a b
  multiply : MultipliesModulo a b
  invert : a.toNat ≠ 0 → InvertsModulo a

theorem fits_zero (v k : Nat) : Fits v 0 k := Nat.mod_lt _ (by norm_num)

theorem byte_of_lt {x k : Nat} (hx : x < 256) (hk : 0 < k) : byte x k = 0 := by
  have hle : 256 ^ 1 ≤ 256 ^ k := Nat.pow_le_pow_right (by norm_num) hk
  rw [byte, Nat.div_eq_of_lt (by omega)]

theorem fits_of_byte {x y k p : Nat} (hx : x < 256) (hp : p ≤ 255 * 255) : Fits (x * (y % 256 ^ k)) p k := by
  have hpos : 0 < 256 ^ k := by positivity
  have hlt : x * (y % 256 ^ k) / 256 ^ k < 256 := by
    rw [Nat.div_lt_iff_lt_mul hpos]
    exact Nat.mul_lt_mul'' hx (Nat.mod_lt _ hpos)
  rw [Fits, Nat.mod_eq_of_lt (hlt.trans (by norm_num))]
  omega

theorem multipliesModulo_of_byte {a b : Scalar} (h : a.toNat < 256 ∨ b.toNat < 256)
    (hlt : a.toNat * b.toNat < curveOrder) : MultipliesModulo a b := by
  rw [multipliesModulo_iff hlt]
  intro i _ j _
  have hp := byte_mul_le a.toNat b.toNat i j
  rcases h with ha | hb
  · rcases Nat.eq_zero_or_pos i with rfl | hi
    · have hpart : partialProduct a.toNat b.toNat 0 j = a.toNat * (b.toNat % 256 ^ j) := by
        rw [partialProduct, byte, pow_zero, Nat.mod_one, Nat.div_one, Nat.mod_eq_of_lt ha]
        ring
      rw [hpart, zero_add]
      exact fits_of_byte ha hp
    · rw [byte_of_lt ha hi, zero_mul]
      exact fits_zero _ _
  · rcases Nat.eq_zero_or_pos j with rfl | hj
    · have hpart : partialProduct a.toNat b.toNat i 0 = b.toNat * (a.toNat % 256 ^ i) := by
        rw [partialProduct, pow_zero, Nat.mod_one]
        ring
      rw [hpart, add_zero]
      exact fits_of_byte hb hp
    · rw [byte_of_lt hb hj, mul_zero]
      exact fits_zero _ _

theorem multiply_of_byte {a b r : Scalar} (h : a.toNat < 256 ∨ b.toNat < 256) (hr : a.toNat * b.toNat = r.toNat) :
    a.multiply b = .ok r := by
  obtain ⟨r', hmul, hvalue⟩ := multipliesModulo_of_byte h (hr ▸ r.lt)
  rw [hmul]
  rw [hr, Nat.mod_eq_of_lt r.lt] at hvalue
  exact congrArg Except.ok (ext hvalue)

theorem not_losesCarry_zero (b k : Nat) : ¬ LosesCarry 0 b k := by
  rintro ⟨-, hcarry⟩
  have hlt : b % (2 ^ 64) ^ k < (2 ^ 64) ^ k := Nat.mod_lt _ (by positivity)
  rw [Nat.zero_mod, zero_add] at hcarry
  omega

theorem losesCarry_one_iff (b : Nat) : (∀ k < 4, ¬ LosesCarry 1 b k) ↔ ¬ 2 ^ 128 ∣ b + 1 := by
  constructor
  · intro hkeep hdvd
    apply hkeep 1 (by norm_num)
    rw [LosesCarry, word, pow_one]
    omega
  · intro hdvd k hk
    rintro ⟨hones, hcarry⟩
    rw [word] at hones
    interval_cases k <;> norm_num at hones hcarry hdvd <;> omega

end Scalar

/-- The operations keep their promise only for 0, for 1 with most numbers, and for -1 with 0: a sum is not
reduced and may lose a carry, and an inverse is the number itself. -/
theorem scalar_arithmetic_iff (a b : Scalar) : a.ModularArithmetic b ↔
    a.toNat = 0 ∨ a.toNat = 1 ∧ b.toNat + 1 < curveOrder ∧ ¬ 2 ^ 128 ∣ b.toNat + 1 ∨
      a.toNat = curveOrder - 1 ∧ b.toNat = 0 := by
  have hb := b.lt
  constructor
  · intro h
    obtain ⟨hlt, hkeep⟩ := (Scalar.addsModulo_iff a b).mp h.add
    by_cases hzero : a.toNat = 0
    · exact .inl hzero
    rcases (Scalar.invertsModulo_iff a).mp (h.invert hzero) with hone | hlast
    · rw [hone] at hlt hkeep
      exact .inr (.inl ⟨hone, by omega, (Scalar.losesCarry_one_iff _).mp hkeep⟩)
    · exact .inr (.inr ⟨hlast, by omega⟩)
  · rintro (hzero | ⟨hone, hlt, hdvd⟩ | ⟨hlast, hzero⟩)
    · refine ⟨?_, Scalar.multipliesModulo_of_byte (.inl (by omega)) ?_, fun hne => absurd hzero hne⟩
      · rw [Scalar.addsModulo_iff, hzero]
        exact ⟨by omega, fun k _ => Scalar.not_losesCarry_zero _ k⟩
      · rw [hzero, zero_mul]
        decide
    · refine ⟨?_, Scalar.multipliesModulo_of_byte (.inl (by omega)) ?_,
        fun _ => (Scalar.invertsModulo_iff a).mpr (.inl hone)⟩
      · rw [Scalar.addsModulo_iff, hone, Scalar.losesCarry_one_iff]
        exact ⟨by omega, hdvd⟩
      · rw [hone, one_mul]
        exact hb
    · refine ⟨?_, Scalar.multipliesModulo_of_byte (.inr (by omega)) ?_,
        fun _ => (Scalar.invertsModulo_iff a).mpr (.inr hlast)⟩
      · rw [Scalar.addsModulo_iff, hlast, hzero]
        refine ⟨by decide, fun k hk hcarry => ?_⟩
        obtain ⟨hones, -⟩ := hcarry
        rw [Scalar.word, Nat.zero_div] at hones
        cases hones
      · rw [hzero, mul_zero]
        decide

/-- The sum of -1 and 1 panics, a product of two small numbers lacks a carry, and 2 is not its own
inverse. -/
theorem scalar_operations_fail :
    Scalar.add ⟨curveOrder - 1, by decide⟩ Scalar.one = .error (.panic "valid scalar sum") ∧
      ¬ Scalar.MultipliesModulo ⟨65535, by decide⟩ ⟨767, by decide⟩ ∧
      Scalar.invert ⟨2, by decide⟩ = .ok ⟨2, by decide⟩ ∧
      ¬ Scalar.ModularArithmetic ⟨curveOrder - 1, by decide⟩ Scalar.one := by
  have hsum : Scalar.add ⟨curveOrder - 1, by decide⟩ Scalar.one = .error (.panic "valid scalar sum") := by
    rw [Scalar.add, Scalar.expect, Scalar.fromLeBytes, dif_neg (by decide +kernel)]
  refine ⟨hsum, ?_, Scalar.invert_eq _, fun h => ?_⟩
  · rw [Scalar.multipliesModulo_iff (by decide)]
    intro hfits
    exact absurd (hfits 1 (by decide) 0 (by decide)) (by unfold Scalar.Fits; decide)
  · obtain ⟨r, hr, -⟩ := h.add
    rw [hsum] at hr
    cases hr

end Onvm
