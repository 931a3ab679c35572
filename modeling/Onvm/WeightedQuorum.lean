import Mathlib

/-! Weighted quorums: saturating sums of 64-bit weights, and the intersection
of two quorums outside a faulty set of bounded weight. -/

namespace WeightedQuorum

def saturatingAdd (a b : UInt64) : UInt64 := UInt64.ofNat (min (a.toNat + b.toNat) (2 ^ 64 - 1))

theorem toNat_saturatingAdd (a b : UInt64) :
    (saturatingAdd a b).toNat = min (a.toNat + b.toNat) (2 ^ 64 - 1) := by
  rw [saturatingAdd, UInt64.toNat_ofNat']
  exact Nat.mod_eq_of_lt (by omega)

def saturatingSum (ws : List UInt64) : UInt64 := ws.foldl saturatingAdd 0

theorem toNat_foldl_saturatingAdd (ws : List UInt64) (a : UInt64) :
    (ws.foldl saturatingAdd a).toNat = min (a.toNat + (ws.map UInt64.toNat).sum) (2 ^ 64 - 1) := by
  induction ws generalizing a with
  | nil =>
    have := a.toNat_lt
    simp only [List.foldl_nil, List.map_nil, List.sum_nil]
    omega
  | cons w ws ih =>
    rw [List.foldl_cons, ih, toNat_saturatingAdd]
    simp only [List.map_cons, List.sum_cons]
    omega

theorem le_saturatingSum_iff {ws : List UInt64} {t : Nat} (ht : t < 2 ^ 64) :
    t ≤ (saturatingSum ws).toNat ↔ t ≤ (ws.map UInt64.toNat).sum := by
  rw [saturatingSum, toNat_foldl_saturatingAdd]
  simp only [UInt64.toNat_zero, Nat.zero_add]
  omega

theorem saturatingSum_perm {ws vs : List UInt64} (h : ws.Perm vs) : saturatingSum ws = saturatingSum vs := by
  rw [← UInt64.toNat_inj, saturatingSum, saturatingSum, toNat_foldl_saturatingAdd,
    toNat_foldl_saturatingAdd, (h.map UInt64.toNat).sum_eq]

section Intersection

variable {ι : Type*} (w : ι → Nat)

def weightIn (l : List ι) (A : ι → Bool) : Nat := ((l.filter A).map w).sum

theorem weightIn_cons (x : ι) (l : List ι) (A : ι → Bool) :
    weightIn w (x :: l) A = (if A x then w x else 0) + weightIn w l A := by
  by_cases h : A x <;> simp [weightIn, h]

theorem weightIn_add_le {l : List ι} {A B faulty : ι → Bool}
    (h : ∀ x ∈ l, A x = true → B x = true → faulty x = true) :
    weightIn w l A + weightIn w l B ≤ weightIn w l (fun _ => true) + weightIn w l faulty := by
  induction l with
  | nil => simp [weightIn]
  | cons x l ih =>
    have hl := ih fun y hy => h y (by simp [hy])
    have hx := h x (by simp)
    simp only [weightIn_cons]
    cases hA : A x <;> cases hB : B x <;> simp [hA, hB] at hx ⊢ <;> (try simp [hx]) <;> omega

theorem exists_common_not_faulty {l : List ι} {A B faulty : ι → Bool} {T F : Nat}
    (hA : T ≤ weightIn w l A) (hB : T ≤ weightIn w l B) (hF : weightIn w l faulty ≤ F)
    (hT : weightIn w l (fun _ => true) + F < 2 * T) :
    ∃ x ∈ l, A x = true ∧ B x = true ∧ faulty x = false := by
  by_contra hc
  push Not at hc
  have hle := weightIn_add_le w fun x hx ha hb => Bool.eq_true_of_not_eq_false (hc x hx ha hb)
  omega

end Intersection

end WeightedQuorum
