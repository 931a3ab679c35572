import Mathlib

/-! Two writers that go through numbered batches of writes over one store. A batch that was begun can
be started over, and writers inside the same batch leave what one of them alone would leave; a write
of a batch that is already committed must find its value in place. -/

namespace BatchRaces

/-- A store that is known by the values under its keys, and writes that each set or clear one key. -/
structure Store (σ ω κ ν : Type*) where
  get : σ → κ → Option ν
  key : ω → κ
  value : ω → Option ν
  write : σ → ω → σ
  get_write_self : ∀ m w, get (write m w) (key w) = value w
  get_write_of_ne : ∀ m w k, key w ≠ k → get (write m w) k = get m k
  ext : ∀ m n, (∀ k, get m k = get n k) → m = n

namespace Store

variable {σ ω κ ν : Type*} (S : Store σ ω κ ν) {m n : σ} {w : ω} {ws front rest : List ω} {k : κ}

def writeAll (m : σ) (ws : List ω) : σ := ws.foldl S.write m

variable {S}

theorem get_writeAll_of_ne (hk : ∀ w ∈ ws, S.key w ≠ k) : S.get (S.writeAll m ws) k = S.get m k := by
  induction ws generalizing m with
  | nil => rfl
  | cons w ws ih =>
    have hh := ih (m := S.write m w) fun w' hw' => hk w' (List.mem_cons_of_mem _ hw')
    rw [S.get_write_of_ne m w k (hk w List.mem_cons_self)] at hh
    exact hh

theorem writeAll_congr (h : ∀ k, (∀ w ∈ ws, S.key w ≠ k) → S.get m k = S.get n k) :
    S.writeAll m ws = S.writeAll n ws := by
  induction ws generalizing m n with
  | nil => exact S.ext m n fun k => h k (by simp)
  | cons w ws ih =>
    refine ih (m := S.write m w) (n := S.write n w) fun k hk => ?_
    by_cases hw : S.key w = k
    · rw [← hw, S.get_write_self, S.get_write_self]
    · rw [S.get_write_of_ne _ _ _ hw, S.get_write_of_ne _ _ _ hw]
      exact h k (List.forall_mem_cons.mpr ⟨hw, hk⟩)

theorem writeAll_write_of_mem (h : w ∈ ws) : S.writeAll (S.write m w) ws = S.writeAll m ws :=
  writeAll_congr fun k hk => S.get_write_of_ne m w k (hk w h)

theorem writeAll_again (h : ws = front ++ rest) :
    S.writeAll (S.writeAll m front) ws = S.writeAll m ws :=
  writeAll_congr fun _ hk => get_writeAll_of_ne fun w hw => hk w (h ▸ List.mem_append_left rest hw)

theorem writeAll_of_suffix (h : rest <:+ ws) (he : S.writeAll m rest = S.writeAll n ws) :
    S.writeAll m ws = S.writeAll n ws := by
  refine writeAll_congr fun k hk => ?_
  have hrest := get_writeAll_of_ne (m := m) fun w hw => hk w (h.subset hw)
  have hws := get_writeAll_of_ne (m := n) hk
  rw [← hrest, he, hws]

end Store

/-- The store, the last committed batch with its root, and what each writer has left to write. -/
structure Race (σ ω ρ : Type*) where
  state : σ
  height : Nat
  latest : Option ρ
  batch : Bool → Option (Nat × List ω)

section Races

variable {σ ω κ ν ρ : Type*} (S : Store σ ω κ ν) (root : σ → ρ) (writes : Nat → List ω) (target : Nat → ρ)

inductive Step (r : Race σ ω ρ) : Race σ ω ρ → Prop
  | start (i : Bool) (n : Nat) (h : r.batch i = none) (hn : n ≤ r.height + 1)
    (hr : root (S.writeAll r.state (writes n)) = target n) :
    Step r { r with batch := Function.update r.batch i (some (n, writes n)) }
  | write (i : Bool) (n : Nat) (w : ω) (ws : List ω) (h : r.batch i = some (n, w :: ws))
    (hw : n ≤ r.height → S.write r.state w = r.state) :
    Step r { r with
      state := S.write r.state w
      batch := Function.update r.batch i (some (n, ws)) }
  | drop (i : Bool) (n : Nat) (h : r.batch i = some (n, [])) (hr : root r.state ≠ target n) :
    Step r { r with batch := Function.update r.batch i none }
  | commit (i : Bool) (n : Nat) (h : r.batch i = some (n, [])) :
    Step r { r with
      height := max r.height n
      latest := if r.height < n then some (target n) else r.latest
      batch := Function.update r.batch i none }

/-- No writer is inside the next batch, and the root is the latest one, or will be when a writer has
finished an old batch. -/
structure Idle (r : Race σ ω ρ) : Prop where
  old : ∀ i n ws, r.batch i = some (n, ws) → n ≤ r.height
  root : ∀ x, r.latest = some x →
    root r.state = x ∨ ∃ i n ws, r.batch i = some (n, ws) ∧ root (S.writeAll r.state ws) = x

/-- Writers are inside the next batch, and what the one with most left to do has left completes it. -/
structure Busy (r : Race σ ω ρ) (i : Bool) (ws : List ω) : Prop where
  last : r.batch i = some (r.height + 1, ws)
  suffix : ∀ j ws', r.batch j = some (r.height + 1, ws') → ws' <:+ ws
  done : ∃ base, S.writeAll r.state ws = S.writeAll base (writes (r.height + 1)) ∧
    root (S.writeAll base (writes (r.height + 1))) = target (r.height + 1)

structure Sane (r : Race σ ω ρ) : Prop where
  bound : ∀ i n ws, r.batch i = some (n, ws) → n ≤ r.height + 1 ∧ ws <:+ writes n
  phase : Idle S root r ∨ ∃ i ws, Busy S root writes target r i ws

variable {S root writes target} {r r' : Race σ ω ρ} {i j : Bool} {n : Nat} {w : ω} {ws : List ω}

theorem update_eq_some {β : Type*} {f : Bool → Option β} {v : Option β} {x : β}
    (h : Function.update f i v j = some x) : (j = i ∧ v = some x) ∨ (j ≠ i ∧ f j = some x) := by
  by_cases hji : j = i
  · subst hji
    rw [Function.update_self] at h
    exact Or.inl ⟨rfl, h⟩
  · rw [Function.update_of_ne hji] at h
    exact Or.inr ⟨hji, h⟩

theorem Sane.start (hr : Sane S root writes target r) (h : r.batch i = none) (hn : n ≤ r.height + 1)
    (ht : root (S.writeAll r.state (writes n)) = target n) :
    Sane S root writes target { r with batch := Function.update r.batch i (some (n, writes n)) } := by
  have hkeep : ∀ j x, r.batch j = some x → Function.update r.batch i (some (n, writes n)) j = some x := by
    intro j x hj
    have hji : j ≠ i := by
      rintro rfl
      rw [h] at hj
      cases hj
    rw [Function.update_of_ne hji]
    exact hj
  refine ⟨?_, ?_⟩
  · intro j k ws hj
    rcases update_eq_some hj with ⟨-, he⟩ | ⟨-, hj⟩
    · obtain ⟨rfl, rfl⟩ := Prod.mk.inj (Option.some.inj he)
      exact ⟨hn, List.suffix_refl _⟩
    · exact hr.bound j k ws hj
  · rcases Nat.lt_or_ge r.height n with hlt | hle
    · obtain rfl : n = r.height + 1 := by omega
      right
      refine ⟨i, writes (r.height + 1), Function.update_self .., ?_, ?_⟩
      · intro j ws' hj
        rcases update_eq_some hj with ⟨-, he⟩ | ⟨-, hj⟩
        · rw [(Prod.mk.inj (Option.some.inj he)).2]
        · exact (hr.bound j _ ws' hj).2
      · rcases hr.phase with hidle | ⟨j, ws, hbusy⟩
        · exact ⟨r.state, rfl, ht⟩
        · obtain ⟨base, hbase, hroot⟩ := hbusy.done
          have hsuf := (hr.bound j _ ws hbusy.last).2
          exact ⟨base, Store.writeAll_of_suffix hsuf hbase, hroot⟩
    · rcases hr.phase with hidle | ⟨j, ws, hbusy⟩
      · left
        refine ⟨?_, ?_⟩
        · intro j k ws hj
          rcases update_eq_some hj with ⟨-, he⟩ | ⟨-, hj⟩
          · rw [← (Prod.mk.inj (Option.some.inj he)).1]
            exact hle
          · exact hidle.old j k ws hj
        · intro x hx
          rcases hidle.root x hx with he | ⟨j, k, ws, hj, he⟩
          · exact Or.inl he
          · exact Or.inr ⟨j, k, ws, hkeep j _ hj, he⟩
      · right
        refine ⟨j, ws, hkeep j _ hbusy.last, ?_, hbusy.done⟩
        intro j' ws' hj'
        rcases update_eq_some hj' with ⟨-, he⟩ | ⟨-, hj'⟩
        · have hh := (Prod.mk.inj (Option.some.inj he)).1
          dsimp only at hh
          omega
        · exact hbusy.suffix j' ws' hj'

theorem Idle.write (hidle : Idle S root r) (h : r.batch i = some (n, w :: ws))
    (hstate : S.write r.state w = r.state) :
    Idle S root { r with
      state := S.write r.state w
      batch := Function.update r.batch i (some (n, ws)) } := by
  refine ⟨?_, ?_⟩
  · intro j k ws' hj
    rcases update_eq_some hj with ⟨-, he⟩ | ⟨-, hj⟩
    · rw [← (Prod.mk.inj (Option.some.inj he)).1]
      exact hidle.old i n _ h
    · exact hidle.old j k ws' hj
  · intro x hx
    rcases hidle.root x hx with he | ⟨j, k, ws', hj, he⟩
    · exact Or.inl (by simpa only [hstate] using he)
    · right
      by_cases hji : j = i
      · subst hji
        rw [h] at hj
        obtain ⟨rfl, rfl⟩ := Prod.mk.inj (Option.some.inj hj)
        exact ⟨j, n, ws, Function.update_self .., he⟩
      · exact ⟨j, k, ws', (Function.update_of_ne hji _ _).trans hj, by simpa only [hstate] using he⟩

theorem Busy.write_old {rest : List ω} (hbusy : Busy S root writes target r j rest)
    (h : r.batch i = some (n, w :: ws)) (hle : n ≤ r.height) (hstate : S.write r.state w = r.state) :
    Busy S root writes target { r with
      state := S.write r.state w
      batch := Function.update r.batch i (some (n, ws)) } j rest := by
  obtain ⟨base, hbase, hroot⟩ := hbusy.done
  have hji : j ≠ i := by
    rintro rfl
    rw [hbusy.last] at h
    have hh := (Prod.mk.inj (Option.some.inj h)).1
    omega
  refine ⟨(Function.update_of_ne hji _ _).trans hbusy.last, ?_, base,
    by simpa only [hstate] using hbase, hroot⟩
  intro j' ws' hj'
  rcases update_eq_some hj' with ⟨-, he⟩ | ⟨-, hj'⟩
  · have hh := (Prod.mk.inj (Option.some.inj he)).1
    dsimp only at hh
    omega
  · exact hbusy.suffix j' ws' hj'

theorem Busy.write {rest : List ω} (hbusy : Busy S root writes target r j rest)
    (h : r.batch i = some (r.height + 1, w :: ws)) :
    ∃ j rest, Busy S root writes target { r with
      state := S.write r.state w
      batch := Function.update r.batch i (some (r.height + 1, ws)) } j rest := by
  obtain ⟨base, hbase, hroot⟩ := hbusy.done
  have htail : ws <:+ w :: ws := List.suffix_cons w ws
  by_cases hji : j = i
  · subst hji
    rw [hbusy.last] at h
    obtain rfl := (Prod.mk.inj (Option.some.inj h)).2
    by_cases hother : r.batch (!j) = some (r.height + 1, w :: ws)
    · have hne : (!j) ≠ j := Bool.not_ne_self j
      refine ⟨!j, w :: ws, (Function.update_of_ne hne _ _).trans hother, ?_, base, ?_, hroot⟩
      · intro j' ws' hj'
        rcases update_eq_some hj' with ⟨-, he⟩ | ⟨-, hj'⟩
        · rw [← (Prod.mk.inj (Option.some.inj he)).2]
          exact htail
        · exact hbusy.suffix j' ws' hj'
      · rw [Store.writeAll_write_of_mem List.mem_cons_self]
        exact hbase
    · refine ⟨j, ws, Function.update_self .., ?_, base, hbase, hroot⟩
      intro j' ws' hj'
      rcases update_eq_some hj' with ⟨-, he⟩ | ⟨hne, hj'⟩
      · rw [(Prod.mk.inj (Option.some.inj he)).2]
      · rcases List.suffix_cons_iff.mp (hbusy.suffix j' ws' hj') with rfl | hs
        · rw [Bool.eq_not_of_ne hne] at hj'
          exact absurd hj' hother
        · exact hs
  · refine ⟨j, rest, (Function.update_of_ne hji _ _).trans hbusy.last, ?_, base, ?_, hroot⟩
    · intro j' ws' hj'
      rcases update_eq_some hj' with ⟨-, he⟩ | ⟨-, hj'⟩
      · rw [← (Prod.mk.inj (Option.some.inj he)).2]
        exact htail.trans (hbusy.suffix i _ h)
      · exact hbusy.suffix j' ws' hj'
    · rw [Store.writeAll_write_of_mem ((hbusy.suffix i _ h).subset List.mem_cons_self)]
      exact hbase

theorem Sane.write (hr : Sane S root writes target r) (h : r.batch i = some (n, w :: ws))
    (hw : n ≤ r.height → S.write r.state w = r.state) :
    Sane S root writes target { r with
      state := S.write r.state w
      batch := Function.update r.batch i (some (n, ws)) } := by
  obtain ⟨hn, hsuf⟩ := hr.bound i n _ h
  refine ⟨?_, ?_⟩
  · intro j k ws' hj
    rcases update_eq_some hj with ⟨-, he⟩ | ⟨-, hj⟩
    · obtain ⟨rfl, rfl⟩ := Prod.mk.inj (Option.some.inj he)
      exact ⟨hn, (List.suffix_cons w ws).trans hsuf⟩
    · exact hr.bound j k ws' hj
  rcases hr.phase with hidle | ⟨j, rest, hbusy⟩
  · exact Or.inl (hidle.write h (hw (hidle.old i n _ h)))
  · right
    rcases Nat.lt_or_ge r.height n with hlt | hle
    · obtain rfl : n = r.height + 1 := by omega
      exact hbusy.write h
    · exact ⟨j, rest, hbusy.write_old h hle (hw hle)⟩

theorem Busy.root_eq (h : Busy S root writes target r i ws) :
    root (S.writeAll r.state ws) = target (r.height + 1) := by
  obtain ⟨base, hbase, hroot⟩ := h.done
  rw [hbase]
  exact hroot

theorem update_none_eq_some {β : Type*} {f : Bool → Option β} {x : β}
    (h : Function.update f i none j = some x) : j ≠ i ∧ f j = some x := by
  rcases update_eq_some h with ⟨-, he⟩ | hj
  · cases he
  · exact hj

theorem Idle.leave (hidle : Idle S root r) (h : r.batch i = some (n, [])) :
    Idle S root { r with batch := Function.update r.batch i none } := by
  refine ⟨fun j k ws hj => hidle.old j k ws (update_none_eq_some hj).2, ?_⟩
  intro x hx
  rcases hidle.root x hx with he | ⟨j, k, ws, hj, he⟩
  · exact Or.inl he
  · by_cases hji : j = i
    · subst hji
      rw [h] at hj
      obtain ⟨-, rfl⟩ := Prod.mk.inj (Option.some.inj hj)
      exact Or.inl he
    · exact Or.inr ⟨j, k, ws, (Function.update_of_ne hji _ _).trans hj, he⟩

theorem Busy.leave (hbusy : Busy S root writes target r j ws) (hji : j ≠ i) :
    Busy S root writes target { r with batch := Function.update r.batch i none } j ws :=
  ⟨(Function.update_of_ne hji _ _).trans hbusy.last,
    fun j' ws' hj' => hbusy.suffix j' ws' (update_none_eq_some hj').2, hbusy.done⟩

theorem Sane.drop (hr : Sane S root writes target r) (h : r.batch i = some (n, []))
    (hroot : root r.state ≠ target n) :
    Sane S root writes target { r with batch := Function.update r.batch i none } := by
  refine ⟨fun j k ws hj => hr.bound j k ws (update_none_eq_some hj).2, ?_⟩
  rcases hr.phase with hidle | ⟨j, ws, hbusy⟩
  · exact Or.inl (hidle.leave h)
  · right
    by_cases hji : j = i
    · subst hji
      rw [hbusy.last] at h
      obtain ⟨rfl, rfl⟩ := Prod.mk.inj (Option.some.inj h)
      exact absurd hbusy.root_eq hroot
    · exact ⟨j, ws, hbusy.leave hji⟩

theorem Sane.commit (hr : Sane S root writes target r) (h : r.batch i = some (n, [])) :
    Sane S root writes target { r with
      height := max r.height n
      latest := if r.height < n then some (target n) else r.latest
      batch := Function.update r.batch i none } := by
  obtain ⟨hn, -⟩ := hr.bound i n _ h
  refine ⟨?_, ?_⟩
  · intro j k ws hj
    obtain ⟨hk, hsuf⟩ := hr.bound j k ws (update_none_eq_some hj).2
    exact ⟨by dsimp only; omega, hsuf⟩
  rcases Nat.lt_or_ge r.height n with hlt | hle
  · obtain rfl : n = r.height + 1 := by omega
    rw [Nat.max_eq_right (Nat.le_succ _), if_pos hlt]
    left
    refine ⟨fun j k ws hj => (hr.bound j k ws (update_none_eq_some hj).2).1, ?_⟩
    intro x hx
    obtain rfl := Option.some.inj hx
    rcases hr.phase with hidle | ⟨j, ws, hbusy⟩
    · exact absurd (hidle.old i _ _ h) (by omega)
    · by_cases hji : j = i
      · subst hji
        rw [hbusy.last] at h
        obtain ⟨-, rfl⟩ := Prod.mk.inj (Option.some.inj h)
        exact Or.inl hbusy.root_eq
      · exact Or.inr ⟨j, _, ws, (Function.update_of_ne hji _ _).trans hbusy.last, hbusy.root_eq⟩
  · rw [Nat.max_eq_left hle, if_neg (Nat.not_lt.mpr hle)]
    rcases hr.phase with hidle | ⟨j, ws, hbusy⟩
    · exact Or.inl (hidle.leave h)
    · have hji : j ≠ i := by
        rintro rfl
        rw [hbusy.last] at h
        have hh := (Prod.mk.inj (Option.some.inj h)).1
        omega
      exact Or.inr ⟨j, ws, hbusy.leave hji⟩

theorem Sane.step (hr : Sane S root writes target r) (h : Step S root writes target r r') :
    Sane S root writes target r' := by
  cases h with
  | start i n h hn ht => exact hr.start h hn ht
  | write i n w ws h hw => exact hr.write h hw
  | drop i n h ht => exact hr.drop h ht
  | commit i n h => exact hr.commit h

theorem sane_of_root (hb : ∀ i, r.batch i = none) (hroot : ∀ x, r.latest = some x → root r.state = x) :
    Sane S root writes target r := by
  have hno : ∀ {i x}, r.batch i ≠ some x := by
    intro i x hi
    rw [hb i] at hi
    cases hi
  exact ⟨fun i n ws hi => (hno hi).elim, .inl ⟨fun i n ws hi => (hno hi).elim, fun x hx => .inl (hroot x hx)⟩⟩

theorem Sane.root_eq (hr : Sane S root writes target r) (hb : ∀ i, r.batch i = none) {x : ρ}
    (hx : r.latest = some x) : root r.state = x := by
  rcases hr.phase with hidle | ⟨i, ws, hbusy⟩
  · rcases hidle.root x hx with he | ⟨i, n, ws, hi, -⟩
    · exact he
    · rw [hb i] at hi
      cases hi
  · have hi := hbusy.last
    rw [hb i] at hi
    cases hi

end Races

end BatchRaces
