import Onvm.Tables

/-! Counters beside a table of pending requests. Each request has an owner; a total and one counter
per owner are adjusted by hand as requests are issued, closed, and dropped all at once for an owner.
Removing a counter is the same as setting it to zero. -/

namespace Tallies

open Tables

variable {ω τ : Type} [DecidableEq ω]

structure Tally (ω τ : Type) where
  pending : Table Nat (ω × τ)
  total : Nat
  perOwner : Table ω Nat
  next : Nat

namespace Tally

def counter (t : Tally ω τ) (o : ω) : Nat := (t.perOwner.lookup o).getD 0

def pendingOf (t : Tally ω τ) (o : ω) : Nat := countValues (fun v => v.1 = o) t.pending

def issue (t : Tally ω τ) (o : ω) (x : τ) : Tally ω τ where
  pending := t.pending.insert t.next (o, x)
  total := t.total + 1
  perOwner := t.perOwner.insert o (t.counter o + 1)
  next := t.next + 1

def decrease (c : Table ω Nat) (o : ω) : Table ω Nat :=
  match c.lookup o with
  | none => c
  | some n => if n - 1 = 0 then c.erase o else c.insert o (n - 1)

def close (t : Tally ω τ) (id : Nat) : Tally ω τ :=
  match t.pending.lookup id with
  | none => t
  | some (o, _) =>
    { t with
      pending := t.pending.erase id
      total := t.total - 1
      perOwner := decrease t.perOwner o }

def drop (t : Tally ω τ) (o : ω) : Tally ω τ :=
  let gone := t.pending.entries.filter fun e => e.2.1 = o
  { t with
    pending := retain (fun _ v => v.1 ≠ o) t.pending
    total := if 0 < gone.length then t.total - gone.length else t.total
    perOwner := if 0 < gone.length then t.perOwner.erase o else t.perOwner }

structure Sound (t : Tally ω τ) : Prop where
  fresh : ∀ id ∈ t.pending, id < t.next
  total : t.total = t.pending.entries.length
  perOwner : ∀ o, t.counter o = t.pendingOf o
  sum : t.total = Tables.total t.perOwner

variable {t : Tally ω τ} {o : ω}

theorem sound_empty : Sound (⟨∅, 0, ∅, 0⟩ : Tally ω τ) where
  fresh id hid := absurd hid (AList.notMem_empty id)
  total := rfl
  perOwner _ := rfl
  sum := rfl

theorem Sound.next_notMem (h : t.Sound) : t.next ∉ t.pending := fun hmem =>
  Nat.lt_irrefl _ (h.fresh _ hmem)

theorem counter_issue (x : τ) (o' : ω) :
    (t.issue o x).counter o' = t.counter o' + (decide (o = o')).toNat := by
  by_cases ho : o' = o
  · subst ho
    simp only [counter, issue, AList.lookup_insert, Option.getD_some, decide_true, Bool.toNat_true]
  · simp only [counter, issue, AList.lookup_insert_ne ho, Ne.symm ho, decide_false, Bool.toNat_false,
      Nat.add_zero]

theorem Sound.pendingOf_issue (h : t.Sound) (x : τ) (o' : ω) :
    (t.issue o x).pendingOf o' = t.pendingOf o' + (decide (o = o')).toNat :=
  countValues_insert _ h.next_notMem _

theorem Sound.issue (h : t.Sound) (x : τ) : (t.issue o x).Sound where
  fresh id hid := by
    rcases (AList.mem_insert _).mp hid with rfl | hid
    · exact Nat.lt_succ_self _
    · exact Nat.lt_succ_of_lt (h.fresh id hid)
  total := by
    have hlength : (t.issue o x).pending.entries.length = t.pending.entries.length + 1 := by
      rw [Tally.issue, AList.entries_insert_of_notMem h.next_notMem, List.length_cons]
    rw [hlength, ← h.total]
    rfl
  perOwner o' := by rw [counter_issue, h.pendingOf_issue, h.perOwner]
  sum := by
    have hinsert : Tables.total (t.issue o x).perOwner + t.counter o =
        Tables.total t.perOwner + (t.counter o + 1) := total_insert o (t.counter o + 1)
    have hsum := h.sum
    change t.total + 1 = _
    omega

theorem lookup_decrease (c : Table ω Nat) (o o' : ω) :
    ((decrease c o).lookup o').getD 0 = (c.lookup o').getD 0 - (decide (o = o')).toNat := by
  unfold decrease
  by_cases ho : o' = o
  · subst ho
    simp only [decide_true, Bool.toNat_true]
    split
    · rename_i hnone
      rw [hnone]
      rfl
    · rename_i n hn
      rw [hn, Option.getD_some]
      split
      · rename_i hzero
        rw [AList.lookup_erase, Option.getD_none, hzero]
      · rw [AList.lookup_insert, Option.getD_some]
  · simp only [Ne.symm ho, decide_false, Bool.toNat_false, Nat.sub_zero]
    split
    · rfl
    · split
      · rw [AList.lookup_erase_ne ho]
      · rw [AList.lookup_insert_ne ho]

theorem total_decrease {c : Table ω Nat} (h : 0 < (c.lookup o).getD 0) :
    Tables.total (decrease c o) + 1 = Tables.total c := by
  unfold decrease
  split
  · rename_i hnone
    rw [hnone, Option.getD_none] at h
    exact absurd h (Nat.lt_irrefl 0)
  · rename_i n hn
    have herase := total_erase (t := c) o
    have hinsert := total_insert (t := c) o (n - 1)
    rw [hn, Option.getD_some] at h herase hinsert
    split <;> omega

theorem pendingOf_close (id : Nat) (o' : ω) : (t.close id).pendingOf o' ≤ t.pendingOf o' := by
  unfold close
  split
  · exact Nat.le_refl _
  · rename_i hid
    exact Nat.le_of_add_right_le (Nat.le_of_eq (countValues_erase _ hid))

theorem total_close (id : Nat) : (t.close id).total ≤ t.total := by
  unfold close
  split
  · exact Nat.le_refl _
  · exact Nat.sub_le _ _

theorem Sound.close (h : t.Sound) (id : Nat) : (t.close id).Sound := by
  unfold Tally.close
  split
  · exact h
  rename_i o x hid
  have hlength := countValues_erase (fun _ => true) hid
  rw [← length_entries_eq, ← length_entries_eq, Bool.toNat_true, ← h.total] at hlength
  have hcount : ∀ o', countValues (fun v => v.1 = o') (t.pending.erase id) + (decide (o = o')).toNat =
      t.pendingOf o' := fun o' => countValues_erase _ hid
  refine ⟨fun id' hid' => h.fresh id' (AList.mem_erase.mp hid').2, ?_, ?_, ?_⟩
  · exact Nat.sub_eq_of_eq_add hlength.symm
  · intro o'
    have ho' : t.counter o' = t.pendingOf o' := h.perOwner o'
    change ((decrease t.perOwner o).lookup o').getD 0 = _
    rw [lookup_decrease]
    change t.counter o' - _ = _
    rw [ho', ← hcount o', Nat.add_sub_cancel]
    rfl
  · have hpos : 0 < t.counter o := by
      have ho := hcount o
      rw [decide_eq_true rfl, Bool.toNat_true, ← h.perOwner o] at ho
      omega
    have hsum := h.sum
    have hless := total_decrease hpos
    change t.total - 1 = Tables.total (decrease t.perOwner o)
    omega

theorem length_gone (o : ω) : (t.pending.entries.filter fun e => e.2.1 = o).length = t.pendingOf o :=
  List.countP_eq_length_filter.symm

theorem pendingOf_drop (o o' : ω) : (t.drop o).pendingOf o' = if o' = o then 0 else t.pendingOf o' := by
  have hretain : (t.drop o).pendingOf o' =
      t.pending.entries.countP fun e => decide (e.2.1 = o') && decide (e.2.1 ≠ o) :=
    countValues_retain (fun v : ω × τ => decide (v.1 = o')) fun _ v => decide (v.1 ≠ o)
  rw [hretain]
  split
  · rw [List.countP_eq_zero]
    intro e _
    simp only [‹o' = o›, Bool.and_eq_true, decide_eq_true_eq]
    exact fun hand => hand.2 hand.1
  · refine List.countP_congr fun e _ => ?_
    simp only [Bool.and_eq_true, decide_eq_true_eq]
    exact ⟨fun hand => hand.1, fun heq => ⟨heq, heq ▸ ‹¬ o' = o›⟩⟩

theorem total_drop (o : ω) : (t.drop o).total = t.total - t.pendingOf o := by
  change (if 0 < _ then _ else _) = _
  rw [length_gone]
  split
  · rfl
  · omega

theorem Sound.counter_drop (h : t.Sound) (o o' : ω) :
    (t.drop o).counter o' = if o' = o then 0 else t.counter o' := by
  change ((if 0 < _ then t.perOwner.erase o else t.perOwner : Table ω Nat).lookup o').getD 0 = _
  rw [length_gone]
  by_cases ho : o' = o
  · subst ho
    rw [if_pos rfl]
    split
    · rw [AList.lookup_erase, Option.getD_none]
    · have hcounter : (t.perOwner.lookup o').getD 0 = t.pendingOf o' := h.perOwner o'
      omega
  · rw [if_neg ho]
    split
    · rw [AList.lookup_erase_ne ho]
      rfl
    · rfl

theorem Sound.drop (h : t.Sound) (o : ω) : (t.drop o).Sound where
  fresh id hid := by
    obtain ⟨v, hv⟩ := Option.isSome_iff_exists.mp (AList.lookup_isSome.mpr hid)
    have hbefore := (mem_lookup_retain.mp hv).1
    exact h.fresh id (AList.lookup_isSome.mp (Option.isSome_of_mem hbefore))
  total := by
    have hlength := length_retain_add (t := t.pending) fun v => v.1 = o
    have hretain : (t.drop o).pending = retain (fun _ v => !decide (v.1 = o)) t.pending := by
      simp only [Tally.drop, ne_eq, decide_not]
    rw [total_drop, h.total, hretain, ← hlength]
    exact Nat.add_sub_cancel _ _
  perOwner o' := by rw [h.counter_drop, pendingOf_drop, h.perOwner]
  sum := by
    have hsum := h.sum
    have hcounter : (t.perOwner.lookup o).getD 0 = t.pendingOf o := h.perOwner o
    have herase := total_erase (t := t.perOwner) o
    rw [total_drop]
    change _ = Tables.total (if 0 < _ then _ else _)
    rw [length_gone]
    split <;> omega

end Tally

end Tallies
