import Mathlib

/-! Bounded windows over a log of timed entries. What a queue with a time to live and a
capacity holds is the end of the log: the last entries, as far as they are fresh. -/

namespace RecentWindows

variable {α : Type*} {k ttl now now' : ℕ} {log : List (α × ℕ)}

def Chronological (log : List (α × ℕ)) : Prop := log.Pairwise fun a b => a.2 ≤ b.2

def stale (ttl now : ℕ) (e : α × ℕ) : Bool := ttl < now - e.2

/-- The last `k` entries, from the first fresh one on. -/
def recent (k ttl now : ℕ) (log : List (α × ℕ)) : List (α × ℕ) :=
  (log.rtake k).dropWhile (stale ttl now)

theorem Chronological.rtake (h : Chronological log) (k : ℕ) : Chronological (log.rtake k) :=
  List.Pairwise.sublist (List.drop_sublist _ _) h

def lastTime (log : List (α × ℕ)) : ℕ := (log.getLast?.map Prod.snd).getD 0

theorem Chronological.lastTime_le {e : α × ℕ} (h : Chronological (log ++ [e])) : lastTime log ≤ e.2 := by
  obtain ⟨-, -, hlast⟩ := List.pairwise_append.mp h
  unfold lastTime
  cases hl : log.getLast? with
  | none => exact Nat.zero_le _
  | some a => exact hlast a (List.mem_of_getLast? hl) e (by simp)

theorem stale_later {e : α × ℕ} (hle : now ≤ now') (h : stale ttl now e) : stale ttl now' e := by
  simp only [stale, decide_eq_true_eq] at h ⊢
  omega

theorem mem_dropWhile_stale (h : Chronological log) {e : α × ℕ} :
    e ∈ log.dropWhile (stale ttl now) ↔ e ∈ log ∧ now - e.2 ≤ ttl := by
  induction log with
  | nil => simp
  | cons a log ih =>
    obtain ⟨ha, hlog⟩ := List.pairwise_cons.mp h
    by_cases hs : ttl < now - a.2
    · have hdrop : (a :: log).dropWhile (stale ttl now) = log.dropWhile (stale ttl now) := by
        simp [stale, hs]
      rw [hdrop, ih hlog, List.mem_cons]
      constructor
      · rintro ⟨he, hfresh⟩
        exact ⟨.inr he, hfresh⟩
      · rintro ⟨rfl | he, hfresh⟩
        · omega
        · exact ⟨he, hfresh⟩
    · have hdrop : (a :: log).dropWhile (stale ttl now) = a :: log := by simp [stale, hs]
      rw [hdrop]
      refine ⟨fun he => ⟨he, ?_⟩, And.left⟩
      rcases List.mem_cons.mp he with rfl | he
      · omega
      · have hle := ha e he
        omega

theorem mem_rtake {β : Type*} {l : List β} {e : β} :
    e ∈ l.rtake k ↔ ∃ front back, l = front ++ e :: back ∧ back.length < k := by
  constructor
  · intro he
    obtain ⟨front, back, hsplit⟩ := List.append_of_mem he
    refine ⟨l.take (l.length - k) ++ front, back, ?_, ?_⟩
    · rw [List.append_assoc, ← hsplit]
      exact (List.take_append_drop _ l).symm
    · have hlen := congrArg List.length hsplit
      simp only [List.rtake, List.length_drop, List.length_append, List.length_cons] at hlen
      omega
  · rintro ⟨front, back, rfl, hlt⟩
    have hle : (front ++ e :: back).length - k ≤ front.length := by
      simp only [List.length_append, List.length_cons]
      omega
    rw [List.rtake, List.drop_append_of_le_length hle]
    simp

theorem mem_recent (h : Chronological log) {e : α × ℕ} :
    e ∈ recent k ttl now log ↔
      ∃ front back, log = front ++ e :: back ∧ now - e.2 ≤ ttl ∧ back.length < k := by
  rw [recent, mem_dropWhile_stale (h.rtake k), mem_rtake]
  constructor
  · rintro ⟨⟨front, back, hsplit, hlt⟩, hfresh⟩
    exact ⟨front, back, hsplit, hfresh, hlt⟩
  · rintro ⟨front, back, hsplit, hfresh, hlt⟩
    exact ⟨⟨front, back, hsplit, hlt⟩, hfresh⟩

theorem recent_suffix (k ttl now : ℕ) (log : List (α × ℕ)) : recent k ttl now log <:+ log :=
  (List.dropWhile_suffix _).trans (List.drop_suffix _ _)

theorem dropWhile_dropWhile {β : Type*} {p q : β → Bool} (hpq : ∀ e, p e → q e) (l : List β) :
    (l.dropWhile p).dropWhile q = l.dropWhile q := by
  induction l with
  | nil => rfl
  | cons a l ih =>
    cases hp : p a with
    | false => simp [hp]
    | true => simp [hp, hpq a hp, ih]

theorem recent_later (hle : now ≤ now') (k ttl : ℕ) (log : List (α × ℕ)) :
    (recent k ttl now log).dropWhile (stale ttl now') = recent k ttl now' log :=
  dropWhile_dropWhile (fun _ => stale_later hle) _

theorem recent_concat (k ttl now : ℕ) (log : List (α × ℕ)) (x : α) :
    recent (k + 1) ttl now (log ++ [(x, now)]) = recent k ttl now log ++ [(x, now)] := by
  have hfresh : [(x, now)].dropWhile (stale ttl now) = [(x, now)] := by simp [stale]
  rw [recent, List.rtake_concat_succ, List.dropWhile_append, hfresh, ← recent]
  cases recent k ttl now log <;> rfl

theorem rtake_succ (k : ℕ) (log : List (α × ℕ)) :
    log.length ≤ k ∧ log.rtake (k + 1) = log.rtake k ∨
      ∃ a, log.rtake (k + 1) = a :: log.rtake k ∧ (log.rtake k).length = k := by
  by_cases hle : log.length ≤ k
  · refine .inl ⟨hle, ?_⟩
    rw [List.rtake, List.rtake, Nat.sub_eq_zero_of_le hle, Nat.sub_eq_zero_of_le (by omega)]
  · have hlt : log.length - (k + 1) < log.length := by omega
    refine .inr ⟨log[log.length - (k + 1)], ?_, ?_⟩
    · rw [List.rtake, List.drop_eq_getElem_cons hlt, List.rtake]
      congr 2
      omega
    · simp only [List.rtake, List.length_drop]
      omega

theorem recent_makeRoom (h : Chronological log) {c k : ℕ} (hk : k + 1 = max c 1) :
    (if c ≤ (recent (k + 1) ttl now log).length then (recent (k + 1) ttl now log).tail
      else recent (k + 1) ttl now log) = recent k ttl now log := by
  have hlen : (recent k ttl now log).length ≤ (log.rtake k).length :=
    (List.dropWhile_suffix _).length_le
  have hshort : (log.rtake k).length ≤ k := by
    simp only [List.rtake, List.length_drop]
    omega
  have hroom : recent (k + 1) ttl now log = recent k ttl now log →
      (if c ≤ (recent (k + 1) ttl now log).length then (recent (k + 1) ttl now log).tail
        else recent (k + 1) ttl now log) = recent k ttl now log := by
    intro hsame
    rw [hsame]
    split
    · have hzero : (recent k ttl now log).length = 0 := by omega
      rw [List.length_eq_zero_iff.mp hzero]
      rfl
    · rfl
  rcases rtake_succ k log with ⟨-, hsame⟩ | ⟨a, hcons, hfull⟩
  · exact hroom (by rw [recent, hsame, ← recent])
  · by_cases hs : stale ttl now a
    · exact hroom (by rw [recent, hcons, List.dropWhile_cons_of_pos hs, ← recent])
    · have hwhole : recent (k + 1) ttl now log = a :: log.rtake k := by
        rw [recent, hcons, List.dropWhile_cons_of_neg hs]
      have hrest : recent k ttl now log = log.rtake k := by
        have hchron := h.rtake (k + 1)
        rw [hcons] at hchron
        obtain ⟨ha, -⟩ := List.pairwise_cons.mp hchron
        rw [recent, List.dropWhile_eq_self_iff]
        intro hpos hs'
        have hle := ha _ (List.getElem_mem hpos)
        simp only [stale, decide_eq_true_eq] at hs hs'
        omega
      rw [hwhole, hrest, if_pos]
      · rfl
      · simp only [List.length_cons, hfull]
        omega

end RecentWindows
