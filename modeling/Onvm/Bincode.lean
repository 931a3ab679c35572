import Onvm.Bytes

/-! The bincode 2 wire format in its standard configuration: little-endian
variable-length integers, length-prefixed sequences, one-byte option tags.
A codec carries its round-trip law, so a value is never read back as another. -/

namespace Bincode

open ByteString

structure Codec (α : Type) where
  enc : α → Bytes
  dec : Bytes → Option (α × Bytes)
  dec_enc : ∀ a rest, dec (enc a ++ rest) = some (a, rest)

namespace Codec

variable {α β : Type}

theorem enc_append_inj (c : Codec α) {a b : α} {x y : Bytes}
    (h : c.enc a ++ x = c.enc b ++ y) : a = b ∧ x = y := by
  have hh := c.dec_enc a x
  rw [h, c.dec_enc b y] at hh
  simp only [Option.some.injEq, Prod.mk.injEq] at hh
  exact ⟨hh.1.symm, hh.2.symm⟩

theorem enc_injective (c : Codec α) : Function.Injective c.enc := by
  intro a b h
  exact (c.enc_append_inj (x := []) (y := []) (by rw [h])).1

def prod (c : Codec α) (d : Codec β) : Codec (α × β) where
  enc p := c.enc p.1 ++ d.enc p.2
  dec bs := (c.dec bs).bind fun (a, r) => (d.dec r).map fun (b, r') => ((a, b), r')
  dec_enc p rest := by simp [List.append_assoc, c.dec_enc, d.dec_enc]

def imap (c : Codec α) (f : α → β) (g : β → α) (h : ∀ b, f (g b) = b) : Codec β where
  enc b := c.enc (g b)
  dec bs := (c.dec bs).map fun (a, r) => (f a, r)
  dec_enc b rest := by simp [c.dec_enc, h]

def byte : Codec UInt8 where
  enc b := [b]
  dec
    | [] => none
    | b :: r => some (b, r)
  dec_enc _ _ := rfl

end Codec

def varint (k : Nat) : Bytes :=
  if k < 251 then [UInt8.ofNat k]
  else if k < 2 ^ 16 then 251 :: littleEndian 2 k
  else if k < 2 ^ 32 then 252 :: littleEndian 4 k
  else 253 :: littleEndian 8 k

/-- `wide` admits the eight-byte form, which a 32-bit field refuses. -/
def readVarint (wide : Bool) : Bytes → Option (Nat × Bytes)
  | [] => none
  | b :: r =>
    if b.toNat < 251 then some (b.toNat, r)
    else if b = 251 then readLittleEndian 2 r
    else if b = 252 then readLittleEndian 4 r
    else if b = 253 ∧ wide = true then readLittleEndian 8 r
    else none

theorem readVarint_varint (wide : Bool) {k : Nat} (hk : k < if wide then 2 ^ 64 else 2 ^ 32)
    (rest : Bytes) : readVarint wide (varint k ++ rest) = some (k, rest) := by
  unfold varint
  by_cases h1 : k < 251
  · have he : (UInt8.ofNat k).toNat = k := UInt8.toNat_ofNat_of_lt' (show k < 256 by omega)
    simp [h1, readVarint, he]
  · rw [if_neg h1]
    by_cases h2 : k < 2 ^ 16
    · rw [if_pos h2]
      exact readLittleEndian_append 2 (by simpa using h2) rest
    · rw [if_neg h2]
      by_cases h3 : k < 2 ^ 32
      · rw [if_pos h3]
        exact readLittleEndian_append 4 (by simpa using h3) rest
      · rw [if_neg h3]
        cases wide with
        | false => exact absurd (by simpa using hk) h3
        | true => exact readLittleEndian_append 8 (by simpa using hk) rest

def u64 : Codec UInt64 where
  enc a := varint a.toNat
  dec bs := (readVarint true bs).map fun (k, r) => (UInt64.ofNat k, r)
  dec_enc a rest := by
    rw [readVarint_varint true (by simpa using a.toNat_lt)]
    simp

def u32 : Codec UInt32 where
  enc a := varint a.toNat
  dec bs := (readVarint false bs).map fun (k, r) => (UInt32.ofNat k, r)
  dec_enc a rest := by
    rw [readVarint_varint false (by simpa using a.toNat_lt)]
    simp

def readUnary : Bytes → Nat × Bytes
  | [] => (0, [])
  | b :: r => if b = 1 then ((readUnary r).1 + 1, (readUnary r).2) else (0, r)

theorem readUnary_replicate (k : Nat) (rest : Bytes) :
    readUnary (List.replicate k 1 ++ 0 :: rest) = (k, rest) := by
  induction k with
  | zero => simp [readUnary]
  | succ k ih => simp [List.replicate_succ, readUnary, ih]

/-- Sequence lengths. A length that fits 64 bits is a variable-length integer.
Longer sequences do not exist in memory, and the unary form they get here under
the unused marker 255 only makes the codec total on mathematical lists. -/
def length : Codec Nat where
  enc k := if k < 2 ^ 64 then varint k else 255 :: (List.replicate k 1 ++ [0])
  dec bs :=
    match bs with
    | 255 :: r => if 2 ^ 64 ≤ (readUnary r).1 then some (readUnary r) else none
    | bs => readVarint true bs
  dec_enc k rest := by
    by_cases hk : k < 2 ^ 64
    · have hv := readVarint_varint true (by simpa using hk) rest
      simp only [hk, if_true]
      split
      · rename_i r he
        rw [he] at hv
        simp [readVarint] at hv
      · exact hv
    · have hu := readUnary_replicate k rest
      have hk' : 2 ^ 64 ≤ k := not_lt.mp hk
      simp only [hk, if_false, List.cons_append, List.append_assoc, List.nil_append, hu, hk', if_true]

def fixed (n : Nat) : Codec (FixedBytes n) where
  enc a := a.bytes
  dec bs := if h : (bs.take n).length = n then some (⟨bs.take n, h⟩, bs.drop n) else none
  dec_enc a rest := by
    have ht : (a.bytes ++ rest).take n = a.bytes := List.take_left' a.length_bytes
    have hd : (a.bytes ++ rest).drop n = rest := List.drop_left' a.length_bytes
    simp only [ht, hd, a.length_bytes, dif_pos]
    rfl

def option {α : Type} (c : Codec α) : Codec (Option α) where
  enc
    | none => [0]
    | some a => 1 :: c.enc a
  dec
    | 0 :: r => some (none, r)
    | 1 :: r => (c.dec r).map fun (a, r') => (some a, r')
    | _ => none
  dec_enc a rest := by
    cases a with
    | none => rfl
    | some a => simp [c.dec_enc]

def readMany {α : Type} (c : Codec α) : Nat → Bytes → Option (List α × Bytes)
  | 0, bs => some ([], bs)
  | k + 1, bs => (c.dec bs).bind fun (a, r) => (readMany c k r).map fun (l, r') => (a :: l, r')

theorem readMany_flatMap {α : Type} (c : Codec α) (l : List α) (rest : Bytes) :
    readMany c l.length (l.flatMap c.enc ++ rest) = some (l, rest) := by
  induction l with
  | nil => rfl
  | cons a l ih => simp [readMany, List.append_assoc, c.dec_enc, ih]

def list {α : Type} (c : Codec α) : Codec (List α) where
  enc l := length.enc l.length ++ l.flatMap c.enc
  dec bs := (length.dec bs).bind fun (k, r) => readMany c k r
  dec_enc l rest := by simp [List.append_assoc, length.dec_enc, readMany_flatMap]

/-- A byte vector written element by element and one written as a byte slice
have the same bytes. -/
def bytes : Codec Bytes := list Codec.byte

def slice (n : Nat) : Codec (FixedBytes n) where
  enc a := bytes.enc a.bytes
  dec bs := (bytes.dec bs).bind fun (l, r) => if h : l.length = n then some (⟨l, h⟩, r) else none
  dec_enc a rest := by
    simp only [bytes.dec_enc, Option.bind_some, a.length_bytes, dif_pos]
    rfl

def string : Codec String where
  enc s := bytes.enc s.toUTF8.data.toList
  dec bs := (bytes.dec bs).bind fun (l, r) => (String.fromUTF8? ⟨l.toArray⟩).map fun s => (s, r)
  dec_enc s rest := by
    have hs : String.fromUTF8? s.toUTF8 = some s := by
      simp [String.fromUTF8?, String.fromUTF8, s.isValidUTF8]
    have ha : (⟨s.toUTF8.data.toList.toArray⟩ : ByteArray) = s.toUTF8 := by simp
    simp only [bytes.dec_enc, Option.bind_some, ha, hs, Option.map_some]

def variant {α β : Type} (c : Codec α) (d : Codec β) : Codec (α ⊕ β) where
  enc
    | .inl a => u32.enc 0 ++ c.enc a
    | .inr b => u32.enc 1 ++ d.enc b
  dec bs := (u32.dec bs).bind fun (tag, r) =>
    if tag = 0 then (c.dec r).map fun (a, r') => (.inl a, r')
    else if tag = 1 then (d.dec r).map fun (b, r') => (.inr b, r')
    else none
  dec_enc v rest := by
    cases v with
    | inl a => simp [List.append_assoc, u32.dec_enc, c.dec_enc]
    | inr b => simp [List.append_assoc, u32.dec_enc, d.dec_enc]

end Bincode
