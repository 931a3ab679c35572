import Mathlib

/-! Processes that take turns over a shared state. An annotation says what holds of
the shared state, of each process beside it and of each two processes; one rule
carries it over a turn, if the turn is correct and interferes with nobody. -/

namespace Interleaving

variable {σ π ι : Type*}

/-- A process keeps its place in the list. -/
structure System (σ π : Type*) where
  shared : σ
  processes : List π

/-- What a turn leaves behind: the shared state, what the process goes on as, and the processes it
has started. -/
structure Turn (σ π : Type*) where
  shared : σ
  next : π
  started : List π

namespace System

def turn (act : σ → π → ι → Turn σ π) (s : System σ π) (n : Nat) (i : ι) : Option (System σ π) :=
  (s.processes[n]?).map fun p =>
    let t := act s.shared p i
    ⟨t.shared, s.processes.set n t.next ++ t.started⟩

def spawn (s : System σ π) (p : π) : System σ π := { s with processes := s.processes ++ [p] }

variable {act : σ → π → ι → Turn σ π} {s t : System σ π} {n : Nat} {i : ι}

theorem turn_eq_some (h : s.turn act n i = some t) :
    ∃ p, s.processes[n]? = some p ∧ t.shared = (act s.shared p i).shared ∧
      t.processes = s.processes.set n (act s.shared p i).next ++ (act s.shared p i).started := by
  obtain ⟨p, hp, rfl⟩ := Option.map_eq_some_iff.mp h
  exact ⟨p, hp, rfl, rfl⟩

theorem mem_turn {p q : π} (h : s.turn act n i = some t) (hp : s.processes[n]? = some p)
    (hq : q ∈ s.processes) : q ∈ t.processes ∨ q = p := by
  obtain ⟨p', hp', -, ht⟩ := turn_eq_some h
  obtain rfl : p = p' := Option.some.inj (hp.symm.trans hp')
  obtain ⟨m, hm⟩ := List.mem_iff_getElem?.mp hq
  by_cases hmn : m = n
  · subst hmn
    exact .inr (Option.some.inj (hm.symm.trans hp))
  · refine .inl ?_
    rw [ht]
    refine List.mem_append_left _ (List.mem_iff_getElem?.mpr ⟨m, ?_⟩)
    rw [List.getElem?_set_ne (Ne.symm hmn)]
    exact hm

theorem next_mem_turn {p : π} (h : s.turn act n i = some t) (hp : s.processes[n]? = some p) :
    (act s.shared p i).next ∈ t.processes := by
  obtain ⟨p', hp', -, ht⟩ := turn_eq_some h
  obtain rfl : p = p' := Option.some.inj (hp.symm.trans hp')
  have hn : n < s.processes.length := (List.getElem?_eq_some_iff.mp hp).1
  rw [ht]
  exact List.mem_append_left _ (List.mem_set hn _)

theorem perm_turn {p : π} (h : s.turn act n i = some t) (hp : s.processes[n]? = some p) :
    s.processes.Perm (p :: s.processes.eraseIdx n) ∧
      t.processes.Perm
        ((act s.shared p i).next :: (s.processes.eraseIdx n ++ (act s.shared p i).started)) := by
  obtain ⟨p', hp', -, ht⟩ := turn_eq_some h
  obtain rfl : p = p' := Option.some.inj (hp.symm.trans hp')
  obtain ⟨hn, rfl⟩ := List.getElem?_eq_some_iff.mp hp
  refine ⟨(List.getElem_cons_eraseIdx_perm hn).symm, ?_⟩
  rw [ht]
  exact (List.set_perm_cons_eraseIdx hn _).append_right _

theorem countP_turn {p : π} (f : π → Bool) (h : s.turn act n i = some t)
    (hp : s.processes[n]? = some p) :
    t.processes.countP f + (f p).toNat =
      s.processes.countP f + (f (act s.shared p i).next).toNat +
        (act s.shared p i).started.countP f := by
  obtain ⟨p', hp', -, ht⟩ := turn_eq_some h
  obtain rfl : p = p' := Option.some.inj (hp.symm.trans hp')
  obtain ⟨hn, rfl⟩ := List.getElem?_eq_some_iff.mp hp
  have hself : (f s.processes[n]).toNat ≤ s.processes.countP f := by
    cases hf : f s.processes[n] with
    | false => exact Nat.zero_le _
    | true => exact List.countP_pos_iff.mpr ⟨_, List.getElem_mem hn, hf⟩
  have hite : ∀ b : Bool, (if b = true then 1 else 0) = b.toNat := by decide
  rw [ht, List.countP_append, List.countP_set hn, hite, hite]
  omega

end System

structure Annotation (σ π : Type*) where
  shared : σ → Prop
  own : σ → π → Prop
  pair : π → π → Prop
  symm : ∀ {p q}, pair p q → pair q p

namespace Annotation

variable (A : Annotation σ π)

structure Holds (s : System σ π) : Prop where
  shared : A.shared s.shared
  own : ∀ p ∈ s.processes, A.own s.shared p
  pair : s.processes.Pairwise A.pair

/-- A turn of `p` that keeps what is said of the shared state and of `p`, and does not interfere with
what is said of anybody else. A process it starts is in nobody's way. -/
structure Kept (before : σ) (p : π) (t : Turn σ π) : Prop where
  shared : A.shared t.shared
  next : A.own t.shared t.next
  started : ∀ r ∈ t.started, A.own t.shared r ∧ ∀ q, A.pair r q
  own : ∀ q, A.own before q → A.pair p q → A.own t.shared q
  pair : ∀ q, A.own before q → A.pair p q → A.pair t.next q

variable {A}

theorem pairwise_set {l : List π} {n : Nat} {p q : π} (hl : l.Pairwise A.pair) (hp : l[n]? = some p)
    (hq : ∀ r ∈ l, A.pair p r → A.pair q r) : (l.set n q).Pairwise A.pair := by
  rw [List.pairwise_iff_getElem] at hl ⊢
  obtain ⟨hn, rfl⟩ := List.getElem?_eq_some_iff.mp hp
  intro i j hi hj hij
  rw [List.length_set] at hi hj
  have hpair := hl i j hi hj hij
  rw [List.getElem_set, List.getElem_set]
  by_cases hni : n = i
  · subst hni
    rw [if_pos rfl, if_neg (by omega)]
    exact hq _ (List.getElem_mem hj) hpair
  · rw [if_neg hni]
    by_cases hnj : n = j
    · subst hnj
      rw [if_pos rfl]
      exact A.symm (hq _ (List.getElem_mem hi) (A.symm hpair))
    · rw [if_neg hnj]
      exact hpair

theorem pairwise_append_free {l started : List π} (hl : l.Pairwise A.pair)
    (hs : ∀ r ∈ started, ∀ q, A.pair r q) : (l ++ started).Pairwise A.pair := by
  refine List.pairwise_append.mpr ⟨hl, ?_, fun q _ r hr => A.symm (hs r hr q)⟩
  exact List.pairwise_of_forall_mem_list fun r hr q _ => hs r hr q

theorem Holds.turn {act : σ → π → ι → Turn σ π} {s t : System σ π} {n : Nat} {i : ι} {p : π}
    (h : A.Holds s) (ht : s.turn act n i = some t) (hp : s.processes[n]? = some p)
    (hk : A.own s.shared p → A.Kept s.shared p (act s.shared p i)) : A.Holds t := by
  obtain ⟨p', hp', hshared, hprocs⟩ := System.turn_eq_some ht
  obtain rfl : p = p' := Option.some.inj (hp.symm.trans hp')
  have kept := hk (h.own p (List.mem_of_getElem? hp))
  have hrest : ∀ m q, m ≠ n → s.processes[m]? = some q → A.pair p q := by
    intro m q hmn hq
    obtain ⟨hm, rfl⟩ := List.getElem?_eq_some_iff.mp hq
    obtain ⟨hn, rfl⟩ := List.getElem?_eq_some_iff.mp hp
    have hpw := List.pairwise_iff_getElem.mp h.pair
    rcases Nat.lt_or_gt_of_ne hmn with hlt | hgt
    · exact A.symm (hpw m n hm hn hlt)
    · exact hpw n m hn hm hgt
  refine ⟨hshared ▸ kept.shared, ?_, ?_⟩
  · intro q hq
    rw [hshared]
    rw [hprocs] at hq
    rcases List.mem_append.mp hq with hq | hq
    · obtain ⟨m, hm⟩ := List.mem_iff_getElem?.mp hq
      by_cases hmn : m = n
      · subst hmn
        have hlt : m < s.processes.length := (List.getElem?_eq_some_iff.mp hp).1
        rw [List.getElem?_set_self hlt] at hm
        exact Option.some.inj hm ▸ kept.next
      · rw [List.getElem?_set_ne (Ne.symm hmn)] at hm
        exact kept.own q (h.own q (List.mem_of_getElem? hm)) (hrest m q hmn hm)
    · exact (kept.started q hq).1
  · rw [hprocs]
    refine pairwise_append_free ?_ fun r hr => (kept.started r hr).2
    exact pairwise_set h.pair hp fun r hr hpr => kept.pair r (h.own r hr) hpr

theorem Holds.spawn {s : System σ π} {p : π} (h : A.Holds s) (hp : A.own s.shared p)
    (hfree : ∀ q, A.pair p q) : A.Holds (s.spawn p) := by
  refine ⟨h.shared, ?_, pairwise_append_free h.pair (by simpa using hfree)⟩
  intro q hq
  rcases List.mem_append.mp hq with hq | hq
  · exact h.own q hq
  · rw [List.mem_singleton.mp hq]
    exact hp

theorem Holds.outside {s : System σ π} {x : σ} (h : A.Holds s) (hx : A.shared x)
    (hown : ∀ p, A.own s.shared p → A.own x p) : A.Holds { s with shared := x } :=
  ⟨hx, fun p hp => hown p (h.own p hp), h.pair⟩

end Annotation

end Interleaving
