import Mathlib

/-! Reducing a list to one element by combining neighbours, level after level.
An element without a neighbour is combined with itself. If the combination is
injective on the pairs that occur, a list without repetitions can be recovered
from any of its levels. -/

namespace PairReduction

variable {α : Type*}

def pairsOf : List α → List (α × α)
  | [] => []
  | [a] => [(a, a)]
  | a :: b :: rest => (a, b) :: pairsOf rest

def level (f : α → α → α) (l : List α) : List α := (pairsOf l).map fun e => f e.1 e.2

section Reduce

variable (f : α → α → α)

def reduceFrom : (fuel : Nat) → α → List α → α
  | _, a, [] => a
  | 0, a, _ :: _ => a
  | fuel + 1, a, b :: rest => reduceFrom fuel (f a b) (level f rest)

/-- The element left of `a :: rest`; every level is shorter than the one before. -/
def reduce (a : α) (rest : List α) : α := reduceFrom f rest.length a rest

def reducePairsFrom : (fuel : Nat) → α → List α → List (α × α)
  | _, _, [] => []
  | 0, _, _ :: _ => []
  | fuel + 1, a, b :: rest => pairsOf (a :: b :: rest) ++ reducePairsFrom fuel (f a b) (level f rest)

def reducePairs (a : α) (rest : List α) : List (α × α) := reducePairsFrom f rest.length a rest

end Reduce

theorem mem_of_mem_pairsOf {l : List α} {e : α × α} (he : e ∈ pairsOf l) : e.1 ∈ l ∧ e.2 ∈ l := by
  induction l using pairsOf.induct with
  | case1 => cases he
  | case2 a =>
    rw [pairsOf, List.mem_singleton] at he
    simp [he]
  | case3 a b rest ih =>
    rcases List.mem_cons.mp he with rfl | he
    · simp
    · have hrest := ih he
      simp [hrest.1, hrest.2]

theorem map_fst_pairsOf_sublist (l : List α) : ((pairsOf l).map Prod.fst).Sublist l := by
  induction l using pairsOf.induct with
  | case1 => exact .slnil
  | case2 a => exact .refl _
  | case3 a b rest ih => exact (ih.cons b).cons_cons a

theorem eq_of_pairsOf_eq {l m : List α} (hl : l.Nodup) (hm : m.Nodup) (he : pairsOf l = pairsOf m) :
    l = m := by
  induction l using pairsOf.induct generalizing m with
  | case1 =>
    cases m using pairsOf.fun_cases with
    | case1 => rfl
    | case2 c => cases he
    | case3 c d rest => cases he
  | case2 a =>
    cases m using pairsOf.fun_cases with
    | case1 => cases he
    | case2 c => simpa [pairsOf] using he
    | case3 c d rest =>
      simp only [pairsOf, List.cons.injEq, Prod.mk.injEq] at he
      have hcd : c = d := he.1.1.symm.trans he.1.2
      simp [hcd] at hm
  | case3 a b rest ih =>
    cases m using pairsOf.fun_cases with
    | case1 => cases he
    | case2 c =>
      simp only [pairsOf, List.cons.injEq, Prod.mk.injEq] at he
      have hab : a = b := he.1.1.trans he.1.2.symm
      simp [hab] at hl
    | case3 c d rest' =>
      simp only [pairsOf, List.cons.injEq, Prod.mk.injEq] at he
      have hrest := ih hl.of_cons.of_cons hm.of_cons.of_cons he.2
      rw [he.1.1, he.1.2, hrest]

theorem length_level_le (f : α → α → α) (l : List α) : (level f l).length ≤ l.length := by
  rw [level, List.length_map, ← List.length_map (f := Prod.fst)]
  exact (map_fst_pairsOf_sublist l).length_le

theorem length_pairsOf_lt {l : List α} (h : 1 < l.length) : (pairsOf l).length < l.length := by
  cases l with
  | nil => cases h
  | cons a l =>
    cases l with
    | nil => exact absurd h (lt_irrefl 1)
    | cons b rest =>
      have hle := length_level_le (fun a _ => a) rest
      rw [level, List.length_map] at hle
      simp only [pairsOf, List.length_cons]
      omega

theorem length_iterate_le (f : α → α → α) (n : Nat) (l : List α) : ((level f)^[n] l).length ≤ l.length := by
  induction n generalizing l with
  | zero => exact le_rfl
  | succ n ih => exact (ih (level f l)).trans (length_level_le f l)

variable {f : α → α → α}

theorem exists_iterate_eq_reduceFrom {fuel : Nat} {a : α} {rest : List α} (hfuel : rest.length ≤ fuel) :
    ∃ d, (level f)^[d] (a :: rest) = [reduceFrom f fuel a rest] ∧
      ∀ j < d, 1 < ((level f)^[j] (a :: rest)).length ∧
        ∀ e ∈ pairsOf ((level f)^[j] (a :: rest)), e ∈ reducePairsFrom f fuel a rest := by
  induction fuel generalizing a rest with
  | zero =>
    rw [List.length_eq_zero_iff.mp (Nat.le_zero.mp hfuel)]
    exact ⟨0, rfl, fun j hj => absurd hj (Nat.not_lt_zero j)⟩
  | succ fuel ih =>
    cases rest with
    | nil => exact ⟨0, rfl, fun j hj => absurd hj (Nat.not_lt_zero j)⟩
    | cons b rest =>
      have hlen : (level f rest).length ≤ fuel := by
        have hle := length_level_le f rest
        rw [List.length_cons] at hfuel
        omega
      obtain ⟨d, hd, hlevels⟩ := ih (a := f a b) hlen
      refine ⟨d + 1, hd, ?_⟩
      intro j hj
      rw [reducePairsFrom]
      cases j with
      | zero => exact ⟨Nat.succ_lt_succ (Nat.succ_pos _), fun e he => List.mem_append_left _ he⟩
      | succ j =>
        have hj := hlevels j (by omega)
        exact ⟨hj.1, fun e he => List.mem_append_right _ (hj.2 e he)⟩

section Injective

variable {S : Set (α × α)} (hf : Set.InjOn (fun e : α × α => f e.1 e.2) S)

include hf

theorem nodup_level {l : List α} (hS : ∀ e ∈ pairsOf l, e ∈ S) (hl : l.Nodup) : (level f l).Nodup := by
  have hfst : ((pairsOf l).map Prod.fst).Nodup := hl.sublist (map_fst_pairsOf_sublist l)
  exact hfst.of_map.map_on fun x hx y hy hxy => hf (hS x hx) (hS y hy) hxy

theorem nodup_iterate {d : Nat} {l : List α} (hS : ∀ j < d, ∀ e ∈ pairsOf ((level f)^[j] l), e ∈ S)
    (hl : l.Nodup) : ((level f)^[d] l).Nodup := by
  induction d with
  | zero => exact hl
  | succ d ih =>
    rw [Function.iterate_succ_apply']
    exact nodup_level hf (hS d (by omega)) (ih fun j hj => hS j (by omega))

theorem eq_of_iterate_eq {d : Nat} {l m : List α}
    (hSl : ∀ j < d, ∀ e ∈ pairsOf ((level f)^[j] l), e ∈ S)
    (hSm : ∀ j < d, ∀ e ∈ pairsOf ((level f)^[j] m), e ∈ S) (hl : l.Nodup) (hm : m.Nodup)
    (he : (level f)^[d] l = (level f)^[d] m) : l = m := by
  induction d generalizing l m with
  | zero => exact he
  | succ d ih =>
    have hSl0 := hSl 0 (by omega)
    have hSm0 := hSm 0 (by omega)
    have hlevel : level f l = level f m := ih (fun j hj => hSl (j + 1) (by omega))
      (fun j hj => hSm (j + 1) (by omega)) (nodup_level hf hSl0 hl) (nodup_level hf hSm0 hm) he
    have hpairs : pairsOf l = pairsOf m := by
      have hlen : (pairsOf l).length = (pairsOf m).length := by
        simpa only [level, List.length_map] using congrArg List.length hlevel
      refine List.ext_getElem hlen fun i hi hi' => hf (hSl0 _ (List.getElem_mem hi))
        (hSm0 _ (List.getElem_mem hi')) ?_
      have hget : (level f l)[i]? = (level f m)[i]? := by rw [hlevel]
      simpa [level, hi, hi'] using hget
    exact eq_of_pairsOf_eq hl hm hpairs

end Injective

end PairReduction
