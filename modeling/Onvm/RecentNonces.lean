import Onvm.RecentWindows
import Onvm.RpcAuth

/-! The nonce cache as a bounded set of recent nonces: the queue and the map hold the
same entries, and these are a window over the accepted calls. -/

namespace Onvm

open ByteString OrderedStore RecentWindows Std

namespace NonceCache

/-- The queue and the map hold the entries of `window`. -/
structure Holds (c : NonceCache) (window : List (Bytes × Nat)) : Prop where
  order : c.order = window.map Prod.fst
  nodup : (window.map Prod.fst).Nodup
  entries : ∀ x s, c.entries[x]? = some s ↔ (x, s) ∈ window
  size : c.entries.size = window.length

variable {c : NonceCache} {window : List (Bytes × Nat)} {x : Bytes} {now : Nat}

theorem Holds.contains (h : c.Holds window) : c.entries.contains x = true ↔ x ∈ window.map Prod.fst := by
  rw [← ExtTreeMap.isSome_getElem?_eq_contains, Option.isSome_iff_exists, List.mem_map]
  constructor
  · rintro ⟨s, hs⟩
    exact ⟨(x, s), (h.entries x s).mp hs, rfl⟩
  · rintro ⟨e, he, rfl⟩
    exact ⟨e.2, (h.entries e.1 e.2).mpr he⟩

theorem Holds.pop {e : Bytes × Nat} (h : c.Holds (e :: window)) :
    ({ c with entries := c.entries.erase e.1, order := c.order.tail } : NonceCache).Holds window := by
  obtain ⟨hfront, hnodup⟩ := List.nodup_cons.mp h.nodup
  refine ⟨?_, hnodup, ?_, ?_⟩
  · rw [h.order]
    rfl
  · intro x s
    show (c.entries.erase e.1)[x]? = some s ↔ _
    rw [ExtTreeMap.getElem?_erase]
    by_cases hx : e.1 = x
    · subst hx
      simp only [Std.ReflCmp.compare_self, if_true, reduceCtorEq, false_iff]
      exact fun hs => hfront (List.mem_map.mpr ⟨(e.1, s), hs, rfl⟩)
    · have hne : compare e.1 x ≠ .eq := fun hc => hx (Std.LawfulEqOrd.eq_of_compare hc)
      rw [if_neg hne, h.entries x s, List.mem_cons]
      refine or_iff_right fun he => hx ?_
      rw [← he]
  · have hmem : c.entries.contains e.1 = true := h.contains.mpr (by simp)
    show (c.entries.erase e.1).size = _
    rw [ExtTreeMap.size_erase, hmem, if_pos rfl, h.size]
    rfl

theorem Holds.evict (h : c.Holds window) (now : Nat) :
    (c.evict now).Holds (window.dropWhile (stale c.ttl now)) := by
  induction window generalizing c with
  | nil =>
    have hnil : c.evict now = c := by
      have horder : c.order = [] := h.order
      simp [NonceCache.evict, horder, evictLoop]
      rw [← horder]
    rw [hnil]
    exact h
  | cons e window ih =>
    have horder : c.order = e.1 :: window.map Prod.fst := h.order
    have hget : c.entries[e.1]? = some e.2 := (h.entries e.1 e.2).mpr (by simp)
    by_cases hs : c.ttl < now - e.2
    · have hstep : c.evict now =
          ({ c with entries := c.entries.erase e.1, order := c.order.tail } : NonceCache).evict now := by
        simp [NonceCache.evict, horder, evictLoop, hget, hs]
      rw [hstep, List.dropWhile_cons_of_pos (by simp [stale, hs])]
      exact ih h.pop
    · have hstay : c.evict now = c := by
        simp only [NonceCache.evict, horder, evictLoop, hget, hs, decide_false, Bool.false_eq_true, if_false]
        rw [← horder]
      rw [hstay, List.dropWhile_cons_of_neg (by simp [stale, hs])]
      exact h

theorem Holds.makeRoom (h : c.Holds window) :
    c.makeRoom.Holds (if c.capacity ≤ window.length then window.tail else window) := by
  unfold NonceCache.makeRoom
  rw [h.size]
  by_cases hfull : c.capacity ≤ window.length
  · rw [if_pos hfull, if_pos hfull]
    cases window with
    | nil =>
      have horder : c.order = [] := h.order
      simp only [horder, List.tail_nil]
      exact h
    | cons e window =>
      have horder : c.order = e.1 :: window.map Prod.fst := h.order
      have hpop := h.pop
      simp only [horder, List.tail_cons] at hpop ⊢
      exact hpop
  · rw [if_neg hfull, if_neg hfull]
    exact h

theorem Holds.push (h : c.Holds window) (hx : x ∉ window.map Prod.fst) (now : Nat) :
    ({ c with entries := c.entries.insert x now, order := c.order ++ [x] } : NonceCache).Holds
      (window ++ [(x, now)]) := by
  refine ⟨?_, ?_, ?_, ?_⟩
  · show c.order ++ [x] = _
    rw [h.order, List.map_append]
    rfl
  · rw [List.map_append, List.nodup_append]
    refine ⟨h.nodup, by simp, ?_⟩
    intro a ha b hb hab
    have hb : b = x := List.mem_singleton.mp hb
    exact hx (hb ▸ hab ▸ ha)
  · intro y s
    show (c.entries.insert x now)[y]? = some s ↔ _
    rw [ExtTreeMap.getElem?_insert, List.mem_append, List.mem_singleton, Prod.mk.injEq]
    by_cases hy : x = y
    · subst hy
      have hout : (x, s) ∉ window := fun hs => hx (List.mem_map.mpr ⟨(x, s), hs, rfl⟩)
      simp [hout, eq_comm]
    · have hne : compare x y ≠ .eq := fun hc => hy (Std.LawfulEqOrd.eq_of_compare hc)
      rw [if_neg hne, h.entries y s]
      simp [Ne.symm hy]
  · have hmem : ¬ c.entries.contains x = true := fun hm => hx (h.contains.mp hm)
    show (c.entries.insert x now).size = _
    rw [ExtTreeMap.size_insert, if_neg hmem, h.size, List.length_append]
    rfl

def call (s : NonceCache × List (Bytes × Nat)) (request : Bytes × Nat) : NonceCache × List (Bytes × Nat) :=
  let (c, accepted) := s.1.checkAndInsert request.1 request.2
  (c, if accepted then s.2 ++ [request] else s.2)

def serve (capacity ttl : Nat) (requests : List (Bytes × Nat)) : NonceCache × List (Bytes × Nat) :=
  requests.foldl call (.new capacity ttl, [])

/-- The cache holds what is recent of the calls accepted until `last`. -/
structure Recent (capacity ttl last : Nat) (s : NonceCache × List (Bytes × Nat)) : Prop where
  capacity_eq : s.1.capacity = capacity
  ttl_eq : s.1.ttl = ttl
  chronological : Chronological s.2
  past : ∀ e ∈ s.2, e.2 ≤ last
  window : s.1.Holds (recent (max capacity 1) ttl last s.2)

variable {capacity ttl last : Nat} {s : NonceCache × List (Bytes × Nat)}

theorem Recent.evict (h : Recent capacity ttl last s) (hle : last ≤ now) :
    (s.1.evict now).Holds (recent (max capacity 1) ttl now s.2) := by
  have hwindow := h.window.evict now
  rwa [h.ttl_eq, recent_later hle] at hwindow

theorem Recent.refused_iff (h : Recent capacity ttl last s) (hle : last ≤ now) :
    (s.1.checkAndInsert x now).2 = false ↔ x ∈ (recent (max capacity 1) ttl now s.2).map Prod.fst := by
  rw [← (h.evict hle).contains]
  cases hc : (s.1.evict now).entries.contains x <;> simp [checkAndInsert, hc]

theorem Recent.call (h : Recent capacity ttl last s) (hle : last ≤ now) :
    Recent capacity ttl now (NonceCache.call s (x, now)) := by
  have hevict := h.evict hle
  cases hc : (s.1.evict now).entries.contains x with
  | true =>
    have hcall : NonceCache.call s (x, now) = (s.1.evict now, s.2) := by
      simp [NonceCache.call, checkAndInsert, hc]
    rw [hcall]
    exact ⟨h.capacity_eq, h.ttl_eq, h.chronological, fun e he => (h.past e he).trans hle, hevict⟩
  | false =>
    have hcall : NonceCache.call s (x, now) =
        ({ (s.1.evict now).makeRoom with
            entries := (s.1.evict now).makeRoom.entries.insert x now
            order := (s.1.evict now).makeRoom.order ++ [x] }, s.2 ++ [(x, now)]) := by
      simp [NonceCache.call, checkAndInsert, hc]
    have hcap : (s.1.evict now).capacity = capacity := h.capacity_eq
    have hkept : ∀ c : NonceCache, c.makeRoom.capacity = c.capacity ∧ c.makeRoom.ttl = c.ttl := by
      intro c
      unfold NonceCache.makeRoom
      split
      · cases c.order <;> exact ⟨rfl, rfl⟩
      · exact ⟨rfl, rfl⟩
    have hnew : x ∉ (recent (max capacity 1) ttl now s.2).map Prod.fst := fun hx => by
      rw [hevict.contains.mpr hx] at hc
      cases hc
    obtain ⟨k, hk⟩ : ∃ k, k + 1 = max capacity 1 := ⟨max capacity 1 - 1, by omega⟩
    have hroom := hevict.makeRoom
    rw [hcap, ← hk, recent_makeRoom h.chronological hk] at hroom
    have hless : x ∉ (recent k ttl now s.2).map Prod.fst := by
      intro hx
      obtain ⟨e, he, hex⟩ := List.mem_map.mp hx
      obtain ⟨front, back, hsplit, hfresh, hlt⟩ := (mem_recent h.chronological).mp he
      refine hnew (List.mem_map.mpr ⟨e, (mem_recent h.chronological).mpr ?_, hex⟩)
      exact ⟨front, back, hsplit, hfresh, by omega⟩
    rw [hcall]
    refine ⟨(hkept _).1.trans h.capacity_eq, (hkept _).2.trans h.ttl_eq, ?_, ?_, ?_⟩
    · refine List.pairwise_append.mpr ⟨h.chronological, List.pairwise_singleton _ _, ?_⟩
      intro a ha b hb
      rw [List.mem_singleton.mp hb]
      exact (h.past a ha).trans hle
    · intro e he
      rcases List.mem_append.mp he with he | he
      · exact (h.past e he).trans hle
      · rw [List.mem_singleton.mp he]
    · rw [← hk, recent_concat]
      exact hroom.push hless now

variable (capacity ttl) in
theorem recent_new : Recent capacity ttl 0 (.new capacity ttl, []) := by
  have hnil : recent (max capacity 1) ttl 0 ([] : List (Bytes × Nat)) = [] := by simp [recent]
  refine ⟨rfl, rfl, .nil, by simp, ?_⟩
  rw [hnil]
  exact ⟨rfl, List.nodup_nil, by simp [new], rfl⟩

variable (capacity ttl) in
theorem recent_serve {requests : List (Bytes × Nat)} (h : Chronological requests) :
    Recent capacity ttl (lastTime requests) (serve capacity ttl requests) := by
  induction requests using List.reverseRecOn with
  | nil => exact recent_new capacity ttl
  | append_singleton requests r ih =>
    obtain ⟨hfront, -, -⟩ := List.pairwise_append.mp h
    have hcall := (ih hfront).call h.lastTime_le (x := r.1)
    have hlast : lastTime (requests ++ [r]) = r.2 := by simp [lastTime]
    rw [hlast, serve, List.foldl_append]
    exact hcall

end NonceCache

/-- For calls in the order of their times: the next one is refused exactly if its nonce was accepted
within the time to live and fewer calls than there are places were accepted since; and the queue holds
the keys of the map, each once, in the order in which they were accepted. -/
theorem nonceCache_recent {capacity ttl now : Nat} {requests : List (Bytes × Nat)} {x : Bytes}
    (h : Chronological (requests ++ [(x, now)])) :
    let s := NonceCache.serve capacity ttl requests
    ((s.1.checkAndInsert x now).2 = false ↔
      ∃ before since after, s.2 = before ++ (x, since) :: after ∧ now - since ≤ ttl ∧
        after.length < max capacity 1) ∧
    ∃ old kept, s.2 = old ++ kept ∧ s.1.order = kept.map Prod.fst ∧ s.1.order.Nodup ∧
      ∀ y since, s.1.entries[y]? = some since ↔ (y, since) ∈ kept := by
  intro s
  obtain ⟨hfront, -, -⟩ := List.pairwise_append.mp h
  have hs := NonceCache.recent_serve capacity ttl hfront
  refine ⟨?_, ?_⟩
  · rw [hs.refused_iff h.lastTime_le, List.mem_map]
    constructor
    · rintro ⟨e, he, rfl⟩
      obtain ⟨before, after, hsplit, hfresh, hlt⟩ := (mem_recent hs.chronological).mp he
      exact ⟨before, e.2, after, hsplit, hfresh, hlt⟩
    · rintro ⟨before, since, after, hsplit, hfresh, hlt⟩
      exact ⟨(x, since), (mem_recent hs.chronological).mpr ⟨before, after, hsplit, hfresh, hlt⟩, rfl⟩
  · obtain ⟨old, hold⟩ := recent_suffix (max capacity 1) ttl (lastTime requests) s.2
    exact ⟨old, _, hold.symm, hs.window.order, hs.window.order ▸ hs.window.nodup, hs.window.entries⟩

def sampleNonces : List (Bytes × Nat) := [([1], 0), ([2], 1), ([3], 2)]

theorem nonceCache_recent_sample :
    let s := NonceCache.serve 2 10 sampleNonces
    (s.1.checkAndInsert [1] 3).2 = true ∧ (s.1.checkAndInsert [2] 3).2 = false ∧
      ∃ before since after, s.2 = before ++ ([2], since) :: after ∧ 3 - since ≤ 10 ∧ after.length < max 2 1 := by
  have hsorted : Chronological (sampleNonces ++ [([2], 3)]) := by simp [Chronological, sampleNonces]
  have hnew : ((NonceCache.serve 2 10 sampleNonces).1.checkAndInsert [1] 3).2 = true := by decide +kernel
  have hrefused : ((NonceCache.serve 2 10 sampleNonces).1.checkAndInsert [2] 3).2 = false := by decide +kernel
  exact ⟨hnew, hrefused, (nonceCache_recent hsorted).1.mp hrefused⟩

end Onvm
