import Mathlib

/-! Programs that spend fuel and call a host. A program is a function of the replies it gets, so a
run depends on the host only through the replies to the calls that are made. -/

namespace Metered

variable {κ C R S V ε : Type*}

/-- What a program does when it stops working for itself: it calls the host, ends, or fails. -/
inductive Next (κ C V ε : Type*)
  | call (c : C) (k : κ)
  | done (v : V)
  | fail (e : ε)

/-- Work that costs some fuel, and what comes after it. -/
structure Burst (κ C V ε : Type*) where
  cost : Nat
  next : Next κ C V ε

/-- Runs a program on some fuel. Work is paid unit by unit and a call costs one; `spent` is the
failure of a program that has no fuel left. -/
def drive (host : S → C → Except ε (R × S)) (resume : κ → R → Burst κ C V ε) (spent : ε) :
    Nat → S → Burst κ C V ε → Except ε (V × Nat × S)
  | fuel, s, ⟨0, .done v⟩ => .ok (v, fuel, s)
  | _, _, ⟨0, .fail e⟩ => .error e
  | 0, _, ⟨0, .call _ _⟩ => .error spent
  | 0, _, ⟨_ + 1, _⟩ => .error spent
  | fuel + 1, s, ⟨cost + 1, next⟩ => drive host resume spent fuel s ⟨cost, next⟩
  | fuel + 1, s, ⟨0, .call c k⟩ =>
    match host s c with
    | .error e => .error e
    | .ok (r, s') => drive host resume spent fuel s' (resume k r)

section Congruence

variable {host host' : S → C → Except ε (R × S)} {resume : κ → R → Burst κ C V ε} {spent : ε}

end Congruence

section Script

variable (host : S → C → Except ε (R × S))

def serve : S → List C → Except ε S
  | s, [] => .ok s
  | s, c :: cs =>
    match host s c with
    | .error e => .error e
    | .ok (_, s') => serve s' cs

def script (finish : R → V) : List C → R → Burst (List C) C V ε
  | [], r => ⟨0, .done (finish r)⟩
  | c :: cs, _ => ⟨0, .call c cs⟩

theorem drive_script (finish : R → V) (spent : ε) {s t : S} {cs : List C} {c c₀ : C} {rest : List C}
    (hcs : cs ++ [c] = c₀ :: rest) (ht : serve host s cs = .ok t) (n : Nat) :
    drive host (script finish) spent (n + cs.length + 1) s ⟨0, .call c₀ rest⟩ =
      (host t c).map fun rs => (finish rs.1, n, rs.2) := by
  induction cs generalizing s c₀ rest with
  | nil =>
    cases hcs
    cases ht
    simp only [List.length_nil, Nat.add_zero, drive]
    cases host t c with
    | error e => rfl
    | ok rs => cases n <;> rfl
  | cons d ds ih =>
    cases hcs
    rw [serve] at ht
    cases hh : host s d with
    | error e => rw [hh] at ht; cases ht
    | ok rs =>
      rw [hh] at ht
      obtain ⟨c₁, rest₁, hrest⟩ : ∃ c₁ rest₁, ds ++ [c] = c₁ :: rest₁ := by
        cases ds with
        | nil => exact ⟨c, [], rfl⟩
        | cons x xs => exact ⟨x, xs ++ [c], rfl⟩
      have hstep : drive host (script finish) spent (n + (d :: ds).length + 1) s ⟨0, .call d (ds ++ [c])⟩ =
          drive host (script finish) spent (n + ds.length + 1) rs.2 ⟨0, .call c₁ rest₁⟩ := by
        rw [List.length_cons, ← Nat.add_assoc, drive, hh, hrest]
        rfl
      exact hstep.trans (ih hrest ht)

end Script

section Calls

variable (host : S → C → Except ε (R × S)) (resume : κ → R → Burst κ C V ε)

def calls : Nat → S → Burst κ C V ε → List C
  | _, _, ⟨0, .done _⟩ => []
  | _, _, ⟨0, .fail _⟩ => []
  | 0, _, ⟨0, .call _ _⟩ => []
  | 0, _, ⟨_ + 1, _⟩ => []
  | fuel + 1, s, ⟨cost + 1, next⟩ => calls fuel s ⟨cost, next⟩
  | fuel + 1, s, ⟨0, .call c k⟩ =>
    match host s c with
    | .error _ => [c]
    | .ok (r, s') => c :: calls fuel s' (resume k r)

def transcript : S → List C → Except ε (List R × S)
  | s, [] => .ok ([], s)
  | s, c :: cs =>
    match host s c with
    | .error e => .error e
    | .ok (r, s') => (transcript s' cs).map fun (rs, t) => (r :: rs, t)

variable {host resume}

theorem serve_append (s : S) (cs ds : List C) :
    serve host s (cs ++ ds) = (serve host s cs).bind fun t => serve host t ds := by
  induction cs generalizing s with
  | nil => rfl
  | cons c cs ih =>
    rw [List.cons_append, serve, serve]
    cases host s c with
    | error e => rfl
    | ok rs => exact ih rs.2

theorem serve_map {C' : Type*} {host' : S → C' → Except ε (R × S)} {f : C → C'}
    (h : ∀ s c, host' s (f c) = host s c) (s : S) (cs : List C) :
    serve host' s (cs.map f) = serve host s cs := by
  induction cs generalizing s with
  | nil => rfl
  | cons c cs ih =>
    rw [List.map_cons, serve, serve, h]
    cases host s c with
    | error e => rfl
    | ok rs => exact ih rs.2

theorem serve_calls {spent : ε} {fuel n : Nat} {s t : S} {b : Burst κ C V ε} {v : V}
    (h : drive host resume spent fuel s b = .ok (v, n, t)) :
    serve host s (calls host resume fuel s b) = .ok t := by
  induction fuel generalizing s b with
  | zero =>
    rcases b with ⟨_ | cost, c | v | e⟩
    case zero.done => cases h; rfl
    all_goals cases h
  | succ fuel ih =>
    rcases b with ⟨_ | cost, next⟩
    · cases next with
      | done v => cases h; rfl
      | fail e => cases h
      | call c k =>
        rw [drive] at h
        rw [calls]
        cases hh : host s c with
        | error e => rw [hh] at h; cases h
        | ok rs =>
          rw [hh] at h
          simp only [serve, hh]
          exact ih h
    · exact ih h

theorem serve_of_transcript {s t : S} {cs : List C} {rs : List R}
    (h : transcript host s cs = .ok (rs, t)) : serve host s cs = .ok t := by
  induction cs generalizing s rs with
  | nil => cases h; rfl
  | cons c cs ih =>
    rw [transcript] at h
    rw [serve]
    cases hh : host s c with
    | error e => rw [hh] at h; cases h
    | ok rs =>
      rw [hh] at h
      dsimp only at h ⊢
      cases ht : transcript host rs.2 cs with
      | error e => rw [ht] at h; cases h
      | ok q =>
        rw [ht] at h
        cases h
        exact ih ht

end Calls

section Simulation

variable {S' ε' : Type*}

/-- Whatever `plain` answers in a related state, `host` answers as well. -/
def Simulates (host : S → C → Except ε (R × S)) (plain : S' → C → Except ε' (R × S'))
    (rel : S → S' → Prop) : Prop :=
  ∀ s s' c r t', rel s s' → plain s' c = .ok (r, t') → ∃ t, host s c = .ok (r, t) ∧ rel t t'

theorem Simulates.transcript {host : S → C → Except ε (R × S)} {plain : S' → C → Except ε' (R × S')}
    {rel : S → S' → Prop} (hsim : Simulates host plain rel) {s : S} {s' t' : S'} {cs : List C} {rs : List R}
    (hs : rel s s') (h : transcript plain s' cs = .ok (rs, t')) :
    ∃ t, transcript host s cs = .ok (rs, t) ∧ rel t t' := by
  induction cs generalizing s s' rs with
  | nil => cases h; exact ⟨s, rfl, hs⟩
  | cons c cs ih =>
    rw [Metered.transcript] at h
    cases hp : plain s' c with
    | error e => rw [hp] at h; cases h
    | ok q =>
      rw [hp] at h
      dsimp only at h
      cases hq : Metered.transcript plain q.2 cs with
      | error e => rw [hq] at h; cases h
      | ok q' =>
        rw [hq] at h
        cases h
        obtain ⟨u, hu, hrel⟩ := hsim s s' c q.1 q.2 hs hp
        obtain ⟨t, ht, hrel'⟩ := ih hrel hq
        refine ⟨t, ?_, hrel'⟩
        rw [Metered.transcript, hu]
        dsimp only
        rw [ht]
        rfl

end Simulation

end Metered
