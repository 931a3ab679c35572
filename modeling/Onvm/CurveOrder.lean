import Mathlib

/-! The order of the secp256k1 group, which is a prime. -/

namespace Onvm

def curveOrder : Nat := 0xFFFFFFFFFFFFFFFFFFFFFFFFFFFFFFFEBAAEDCE6AF48A03BBFD25E8CD0364141

theorem prime_of_primitive_root {p : Nat} (factors : List Nat) (a : ZMod p) (hprime : ∀ q ∈ factors, q.Prime)
    (hprod : factors.prod = p - 1) (hone : a ^ (p - 1) = 1) (hroot : ∀ q ∈ factors, a ^ ((p - 1) / q) ≠ 1) :
    p.Prime := by
  refine lucas_primality p a hone ?_
  intro q hq hdvd
  rw [← hprod] at hdvd
  obtain ⟨r, hr, hqr⟩ := (Prime.dvd_prod_iff hq.prime).mp hdvd
  obtain rfl := (Nat.prime_dvd_prime_iff_eq hq (hprime r hr)).mp hqr
  exact hroot q hr

theorem prime_44706919 : Nat.Prime 44706919 := by
  apply prime_of_primitive_root [2, 3, 797, 9349] 6
  · norm_num
  · norm_num
  · norm_num
    reduce_mod_char
  · simp only [List.forall_mem_cons]
    norm_num
    reduce_mod_char
    decide

theorem prime_545358713 : Nat.Prime 545358713 := by
  apply prime_of_primitive_root [2, 2, 2, 41, 59, 28181] 5
  · norm_num
  · norm_num
  · norm_num
    reduce_mod_char
  · simp only [List.forall_mem_cons]
    norm_num
    reduce_mod_char
    decide

theorem prime_297159362677 : Nat.Prime 297159362677 := by
  apply prime_of_primitive_root [2, 2, 3, 3, 11, 461, 1627771] 2
  · norm_num
  · norm_num
  · norm_num
    reduce_mod_char
  · simp only [List.forall_mem_cons]
    norm_num
    reduce_mod_char
    decide

theorem prime_29047611873442575647497758179 : Nat.Prime 29047611873442575647497758179 := by
  apply prime_of_primitive_root [2, 293, 305873, 545358713, 297159362677] 2
  · simp only [List.forall_mem_cons]
    exact ⟨by norm_num, by norm_num, by norm_num, prime_545358713, prime_297159362677, nofun⟩
  · norm_num
  · norm_num
    reduce_mod_char
  · simp only [List.forall_mem_cons]
    norm_num
    reduce_mod_char
    decide

theorem prime_107361793816595537 : Nat.Prime 107361793816595537 := by
  apply prime_of_primitive_root [2, 2, 2, 2, 16699, 85831, 4681609] 3
  · norm_num
  · norm_num
  · norm_num
    reduce_mod_char
  · simp only [List.forall_mem_cons]
    norm_num
    reduce_mod_char
    decide

theorem prime_174723607534414371449 : Nat.Prime 174723607534414371449 := by
  apply prime_of_primitive_root [2, 2, 2, 17, 59, 4051, 120233, 44706919] 3
  · simp only [List.forall_mem_cons]
    exact ⟨by norm_num, by norm_num, by norm_num, by norm_num, by norm_num, by norm_num, by norm_num, prime_44706919, nofun⟩
  · norm_num
  · norm_num
    reduce_mod_char
  · simp only [List.forall_mem_cons]
    norm_num
    reduce_mod_char
    decide

theorem prime_341948486974166000522343609283189 : Nat.Prime 341948486974166000522343609283189 := by
  apply prime_of_primitive_root [2, 2, 3, 3, 3, 109, 29047611873442575647497758179] 2
  · simp only [List.forall_mem_cons]
    exact ⟨by norm_num, by norm_num, by norm_num, by norm_num, by norm_num, by norm_num, prime_29047611873442575647497758179, nofun⟩
  · norm_num
  · norm_num
    reduce_mod_char
  · simp only [List.forall_mem_cons]
    norm_num
    reduce_mod_char
    decide

theorem curveOrder_prime : curveOrder.Prime := by
  rw [curveOrder]
  apply prime_of_primitive_root [2, 2, 2, 2, 2, 2, 3, 149, 631, 107361793816595537, 174723607534414371449,
    341948486974166000522343609283189] 7
  · simp only [List.forall_mem_cons]
    exact ⟨by norm_num, by norm_num, by norm_num, by norm_num, by norm_num, by norm_num, by norm_num, by norm_num,
      by norm_num, prime_107361793816595537, prime_174723607534414371449, prime_341948486974166000522343609283189,
      nofun⟩
  · norm_num
  · norm_num
    reduce_mod_char
  · simp only [List.forall_mem_cons]
    norm_num
    reduce_mod_char
    decide

end Onvm
