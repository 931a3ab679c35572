import Mathlib

/-! Hash tables as association lists with distinct keys: the map that a table stands for, the bulk
removal that Mathlib's lists do not have, the order in which a table gives its entries, and what insertion
and removal do to the number of entries of a kind and to the sum of the values. -/

namespace Tables

variable {κ ν : Type}

abbrev Table (κ ν : Type) := AList fun _ : κ => ν

/-- The entries for which `p` holds. -/
def retain (p : κ → ν → Bool) (t : Table κ ν) : Table κ ν :=
  ⟨t.entries.filter fun e => p e.1 e.2, List.NodupKeys.sublist List.filter_sublist t.nodupKeys⟩

theorem mem_lookup_retain [DecidableEq κ] {p : κ → ν → Bool} {t : Table κ ν} {k : κ} {v : ν} :
    v ∈ (retain p t).lookup k ↔ v ∈ t.lookup k ∧ p k v = true := by
  rw [AList.mem_lookup_iff, AList.mem_lookup_iff]
  exact List.mem_filter

theorem mem_lookup_erase [DecidableEq κ] {t : Table κ ν} {k k' : κ} {v : ν}
    (h : v ∈ (t.erase k').lookup k) : v ∈ t.lookup k := by
  by_cases hk : k = k'
  · subst hk
    rw [AList.lookup_erase] at h
    cases h
  · rwa [AList.lookup_erase_ne hk] at h

def view [DecidableEq κ] (t : Table κ ν) (k : κ) : Option ν := t.lookup k

theorem view_insert [DecidableEq κ] (t : Table κ ν) (k : κ) (v : ν) :
    view (t.insert k v) = Function.update (view t) k (some v) := by
  funext k'
  by_cases hk : k' = k
  · subst hk
    rw [view, AList.lookup_insert, Function.update_self]
  · rw [view, AList.lookup_insert_ne hk, Function.update_of_ne hk, view]

theorem view_erase [DecidableEq κ] (t : Table κ ν) (k : κ) :
    view (t.erase k) = Function.update (view t) k none := by
  funext k'
  by_cases hk : k' = k
  · subst hk
    rw [view, AList.lookup_erase, Function.update_self]
  · rw [view, AList.lookup_erase_ne hk, Function.update_of_ne hk, view]

theorem forall_mem_update [DecidableEq κ] {P : κ → ν → Prop} {f : κ → Option ν}
    (h : ∀ k, ∀ v ∈ f k, P k v) {k : κ} {new : Option ν} (hnew : ∀ v ∈ new, P k v) :
    ∀ k', ∀ v ∈ Function.update f k new k', P k' v := by
  intro k' v hv
  by_cases hk : k' = k
  · subst hk
    rw [Function.update_self] at hv
    exact hnew v hv
  · rw [Function.update_of_ne hk] at hv
    exact h k' v hv

/-- An order in which hash maps and sets give their entries. -/
structure MapOrder where
  list : {α : Type} → List α → List α
  perm : ∀ {α : Type} (l : List α), (list l).Perm l

theorem MapOrder.mem_list (order : MapOrder) {α : Type} {l : List α} {x : α} : x ∈ order.list l ↔ x ∈ l :=
  (order.perm l).mem_iff

def MapOrder.listed : MapOrder := ⟨fun l => l, fun l => .refl l⟩

def MapOrder.rotated (n : Nat) : MapOrder := ⟨fun l => l.rotate n, fun l => l.rotate_perm n⟩

section Rotations

variable {α : Type} {p : α → Bool}

theorem exists_filter_rotate_one (l : List α) : ∃ n, (l.rotate n).filter p = (l.filter p).rotate 1 := by
  cases hl : l.filter p with
  | nil => exact ⟨0, by rw [List.rotate_zero, hl]; rfl⟩
  | cons x xs =>
    obtain ⟨front, back, rfl, hfront, hx, hback⟩ := List.filter_eq_cons_iff.mp hl
    refine ⟨(front ++ [x]).length, ?_⟩
    rw [List.append_cons, List.rotate_append_length_eq, ← hback, List.filter_append, List.filter_append,
      List.filter_eq_nil_iff.mpr hfront, List.filter_cons_of_pos hx, List.rotate_cons_succ,
      List.rotate_zero]
    rfl

theorem exists_filter_rotate (l : List α) (k : Nat) :
    ∃ n, (l.rotate n).filter p = (l.filter p).rotate k := by
  induction k with
  | zero => exact ⟨0, by rw [List.rotate_zero, List.rotate_zero]⟩
  | succ k ih =>
    obtain ⟨n, hn⟩ := ih
    obtain ⟨m, hm⟩ := exists_filter_rotate_one (p := p) (l.rotate n)
    exact ⟨n + m, by rw [← List.rotate_rotate, hm, hn, List.rotate_rotate]⟩

theorem exists_order_getElem? {l : List α} {x : α} (h : x ∈ l.filter p) {i : Nat}
    (hi : i < (l.filter p).length) :
    ∃ order : MapOrder, ((order.list l).filter p).Perm (l.filter p) ∧ ((order.list l).filter p)[i]? = some x := by
  obtain ⟨j, hj, rfl⟩ := List.getElem_of_mem h
  obtain ⟨n, hn⟩ := exists_filter_rotate (p := p) l (j + ((l.filter p).length - i))
  refine ⟨.rotated n, ?_, ?_⟩
  · change ((l.rotate n).filter p).Perm _
    rw [hn]
    exact List.rotate_perm _ _
  · change ((l.rotate n).filter p)[i]? = _
    rw [hn, List.getElem?_rotate hi]
    have hplace : (i + (j + ((l.filter p).length - i))) % (l.filter p).length = j := by
      rw [show i + (j + ((l.filter p).length - i)) = j + (l.filter p).length by omega,
        Nat.add_mod_right, Nat.mod_eq_of_lt hj]
    rw [hplace, List.getElem?_eq_getElem hj]

end Rotations

section Counting

variable [DecidableEq κ] {t : Table κ ν} {k : κ} {v : ν}

theorem entries_perm_erase (h : v ∈ t.lookup k) : t.entries.Perm (⟨k, v⟩ :: (t.erase k).entries) := by
  have hk : k ∈ t.entries.keys := AList.lookup_isSome.mp (Option.isSome_of_mem h)
  obtain ⟨w, front, back, -, hl, he⟩ := List.exists_of_kerase hk
  have hw : w ∈ t.lookup k := AList.mem_lookup_iff.mpr (by simp [hl])
  obtain rfl : v = w := Option.mem_unique h hw
  change t.entries.Perm (⟨k, v⟩ :: t.entries.kerase k)
  rw [he, hl]
  exact List.perm_middle

theorem erase_eq_self (h : t.lookup k = none) : t.erase k = t :=
  AList.ext (List.kerase_of_notMem_keys (AList.lookup_eq_none.mp h))

/-- The entries whose value satisfies `p`. -/
def countValues (p : ν → Bool) (t : Table κ ν) : Nat := t.entries.countP fun e => p e.2

variable (p : ν → Bool)

theorem countValues_insert (h : k ∉ t) (v : ν) :
    countValues p (t.insert k v) = countValues p t + (p v).toNat := by
  rw [countValues, AList.entries_insert_of_notMem h, List.countP_cons]
  cases p v <;> rfl

theorem countValues_erase (h : v ∈ t.lookup k) :
    countValues p (t.erase k) + (p v).toNat = countValues p t := by
  rw [countValues, countValues, (entries_perm_erase h).countP_eq, List.countP_cons]
  cases p v <;> rfl

omit [DecidableEq κ] in
theorem countValues_retain (q : κ → ν → Bool) :
    countValues p (retain q t) = t.entries.countP fun e => p e.2 && q e.1 e.2 :=
  List.countP_filter

omit [DecidableEq κ] in
theorem length_entries_eq : t.entries.length = countValues (fun _ => true) t :=
  (congrFun List.countP_true t.entries).symm

omit [DecidableEq κ] in
theorem length_retain_add :
    (retain (fun _ v => !p v) t).entries.length + countValues p t = t.entries.length := by
  have hsplit := List.length_eq_countP_add_countP (l := t.entries) fun e => p e.2
  rw [countValues, hsplit, Nat.add_comm, Nat.add_left_cancel_iff]
  simp only [Bool.decide_eq_true, decide_not]
  exact List.countP_eq_length_filter.symm

def total (t : Table κ Nat) : Nat := (t.entries.map fun e => e.2).sum

variable {t : Table κ Nat}

theorem total_erase (k : κ) : total (t.erase k) + (t.lookup k).getD 0 = total t := by
  cases h : t.lookup k with
  | none =>
    rw [erase_eq_self h]
    rfl
  | some n =>
    rw [total, total, ((entries_perm_erase h).map _).sum_nat, List.map_cons, List.sum_cons, Nat.add_comm]
    rfl

theorem total_insert (k : κ) (n : Nat) :
    total (t.insert k n) + (t.lookup k).getD 0 = total t + n := by
  have herase := total_erase (t := t) k
  have hinsert : total (t.insert k n) = n + total (t.erase k) := rfl
  omega

end Counting

end Tables
