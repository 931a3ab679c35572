import Onvm.RpcAuth

/-! What the signature of a request covers. Method, path, timestamp and nonce can be
read off the canonical text, the body only as far as its lossy text tells it. -/

namespace Onvm

open ByteString LossyUtf8

/-- What goes into the canonical text. -/
structure RequestText where
  method : Bytes
  path : Bytes
  timestamp : Int
  nonce : Bytes
  body : Bytes
deriving DecidableEq

namespace RequestText

def canonical (r : RequestText) : Bytes := Onvm.canonical r.method r.path r.timestamp r.nonce r.body

/-- No blanks or control characters in method and path, no control characters in the nonce, and a
timestamp of 64 bits. -/
structure Legal (r : RequestText) : Prop where
  method : ∀ b ∈ r.method, 32 < b ∧ b ≠ 127
  path : ∀ b ∈ r.path, 32 < b ∧ b ≠ 127
  nonce : ∀ b ∈ r.nonce, 32 ≤ b ∧ b ≠ 127
  timestamp : -2 ^ 63 ≤ r.timestamp ∧ r.timestamp < 2 ^ 63

end RequestText

theorem append_cons_inj {α : Type*} {x : α} {a b c d : List α} (ha : x ∉ a) (hb : x ∉ b)
    (h : a ++ x :: c = b ++ x :: d) : a = b ∧ c = d := by
  induction a generalizing b with
  | nil =>
    cases b with
    | nil => exact ⟨rfl, (List.cons.inj h).2⟩
    | cons y b => exact absurd (List.cons.inj h).1 fun he => hb (he ▸ List.mem_cons_self)
  | cons y a ih =>
    cases b with
    | nil => exact absurd (List.cons.inj h).1.symm fun he => ha (he ▸ List.mem_cons_self)
    | cons z b =>
      obtain ⟨rfl, htail⟩ := List.cons.inj h
      obtain ⟨rfl, hcd⟩ := ih (fun hx => ha (List.mem_cons_of_mem _ hx))
        (fun hx => hb (List.mem_cons_of_mem _ hx)) htail
      exact ⟨rfl, hcd⟩

section Decimal

theorem toNat_digit {d : Nat} (h : d < 10) : (UInt8.ofNat (48 + d)).toNat = 48 + d := by
  rw [UInt8.toNat_ofNat']
  omega

theorem mem_decimalNat {n : Nat} {b : UInt8} (h : b ∈ decimalNat n) : 48 ≤ b.toNat ∧ b.toNat < 58 := by
  unfold decimalNat at h
  split at h
  · rw [List.mem_singleton.mp h]
    decide
  · obtain ⟨d, hd, rfl⟩ := List.mem_map.mp h
    have hlt : d < 10 := Nat.digits_lt_base (by norm_num) (List.mem_reverse.mp hd)
    rw [toNat_digit hlt]
    omega

theorem ofDigits_decimalNat (n : Nat) :
    Nat.ofDigits 10 ((decimalNat n).reverse.map fun b => b.toNat - 48) = n := by
  unfold decimalNat
  split
  · rename_i hn
    rw [hn]
    rfl
  · have hdigits : ∀ d ∈ Nat.digits 10 n, (UInt8.ofNat (48 + d)).toNat - 48 = d := by
      intro d hd
      rw [toNat_digit (Nat.digits_lt_base (by norm_num) hd)]
      omega
    have hmap : (Nat.digits 10 n).map ((fun b : UInt8 => b.toNat - 48) ∘ fun d => UInt8.ofNat (48 + d)) =
        Nat.digits 10 n := (List.map_congr_left (g := id) hdigits).trans (List.map_id _)
    rw [← List.map_reverse, List.reverse_reverse, List.map_map, hmap, Nat.ofDigits_digits]

theorem decimalNat_injective {m n : Nat} (h : decimalNat m = decimalNat n) : m = n := by
  rw [← ofDigits_decimalNat m, h, ofDigits_decimalNat]

theorem decimalNat_ne_minus {n : Nat} {cs : Bytes} : decimalNat n ≠ 45 :: cs := by
  intro h
  have hm := mem_decimalNat (n := n) (b := 45) (by rw [h]; exact List.mem_cons_self)
  simp at hm

theorem decimal_injective {a b : Int} (h : decimal a = decimal b) : a = b := by
  unfold decimal at h
  by_cases ha : a < 0
  · by_cases hb : b < 0
    · rw [if_pos ha, if_pos hb] at h
      have hn := decimalNat_injective (List.cons.inj h).2
      omega
    · rw [if_pos ha, if_neg hb] at h
      exact absurd h.symm decimalNat_ne_minus
  · by_cases hb : b < 0
    · rw [if_neg ha, if_pos hb] at h
      exact absurd h decimalNat_ne_minus
    · rw [if_neg ha, if_neg hb] at h
      have hn := decimalNat_injective h
      omega

theorem newline_notMem_decimal (z : Int) : (10 : UInt8) ∉ decimal z := by
  intro h
  have hdigits : (10 : UInt8) ∈ decimalNat z.natAbs ∨ (10 : UInt8) ∈ decimalNat z.toNat := by
    unfold decimal at h
    split at h
    · rcases List.mem_cons.mp h with h | h
      · cases h
      · exact .inl h
    · exact .inr h
  rcases hdigits with hm | hm <;> simpa using mem_decimalNat hm

end Decimal

namespace RequestText

variable {r r' : RequestText}

theorem Legal.notMem_method (h : r.Legal) : (32 : UInt8) ∉ r.method := fun hm =>
  absurd (h.method 32 hm).1 (by decide)

theorem Legal.notMem_path (h : r.Legal) : (10 : UInt8) ∉ r.path := fun hm =>
  absurd (h.path 10 hm).1 (by decide)

theorem Legal.notMem_nonce (h : r.Legal) : (10 : UInt8) ∉ r.nonce := fun hm =>
  absurd (h.nonce 10 hm).1 (by decide)

theorem canonical_eq_iff (h : r.Legal) (h' : r'.Legal) :
    r'.canonical = r.canonical ↔ r'.method = r.method ∧ r'.path = r.path ∧ r'.timestamp = r.timestamp ∧
      r'.nonce = r.nonce ∧ lossy r'.body = lossy r.body := by
  constructor
  · intro he
    obtain ⟨hmethod, he⟩ := append_cons_inj h'.notMem_method h.notMem_method he
    obtain ⟨hpath, he⟩ := append_cons_inj h'.notMem_path h.notMem_path he
    obtain ⟨htime, he⟩ := append_cons_inj (newline_notMem_decimal _) (newline_notMem_decimal _) he
    obtain ⟨hnonce, hbody⟩ := append_cons_inj h'.notMem_nonce h.notMem_nonce he
    exact ⟨hmethod, hpath, decimal_injective htime, hnonce, hbody⟩
  · rintro ⟨hmethod, hpath, htime, hnonce, hbody⟩
    rw [canonical, canonical, Onvm.canonical, Onvm.canonical, hmethod, hpath, htime, hnonce, hbody]

end RequestText

/-- The canonical text stands for one request exactly if its body is UTF-8 without U+FFFD. -/
theorem signature_covers_request_iff {r : RequestText} (h : r.Legal) :
    (∀ r', r'.Legal → r'.canonical = r.canonical → r' = r) ↔ Exact r.body := by
  rw [← exact_iff]
  constructor
  · intro hall cs hcs
    have hlegal : RequestText.Legal { r with body := cs } := ⟨h.method, h.path, h.nonce, h.timestamp⟩
    have he := hall { r with body := cs } hlegal
      ((RequestText.canonical_eq_iff h hlegal).mpr ⟨rfl, rfl, rfl, rfl, hcs⟩)
    exact congrArg RequestText.body he
  · intro hall r' h' he
    obtain ⟨hmethod, hpath, htime, hnonce, hbody⟩ := (RequestText.canonical_eq_iff h h').mp he
    have hbody := hall r'.body hbody
    cases r
    cases r'
    simp only at hmethod hpath htime hnonce hbody
    rw [hmethod, hpath, htime, hnonce, hbody]

section Sample

/-- `POST /blobs` with a nonce of one letter. -/
def sampleUpload (body : Bytes) : RequestText :=
  ⟨[80, 79, 83, 84], [47, 98, 108, 111, 98, 115], 1700000000000, [97], body⟩

theorem sampleUpload_legal (body : Bytes) : (sampleUpload body).Legal := by
  refine ⟨?_, ?_, ?_, ?_⟩
  · simp [sampleUpload]
  · simp [sampleUpload]
  · simp [sampleUpload]
  · show -2 ^ 63 ≤ (1700000000000 : Int) ∧ (1700000000000 : Int) < 2 ^ 63
    norm_num

theorem signature_covers_request_sample :
    (sampleUpload [104, 105]).Legal ∧ ∀ r', r'.Legal →
      r'.canonical = (sampleUpload [104, 105]).canonical → r' = sampleUpload [104, 105] := by
  have hlegal := sampleUpload_legal [104, 105]
  exact ⟨hlegal, (signature_covers_request_iff hlegal).mpr (by decide)⟩

/-- Two uploads of different bytes under one signature. -/
theorem signature_covers_two_bodies :
    (sampleUpload [0xFF]).Legal ∧ (sampleUpload [0xFE]).Legal ∧
      (sampleUpload [0xFF]).canonical = (sampleUpload [0xFE]).canonical ∧
      (sampleUpload [0xFF]).body ≠ (sampleUpload [0xFE]).body := by
  refine ⟨sampleUpload_legal _, sampleUpload_legal _, ?_, by decide⟩
  refine (RequestText.canonical_eq_iff (sampleUpload_legal _) (sampleUpload_legal _)).mpr ?_
  exact ⟨rfl, rfl, rfl, rfl, by decide⟩

end Sample

end Onvm
