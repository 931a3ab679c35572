import Mathlib

/-! Bytes read as UTF-8 with a replacement character for what is not UTF-8. A byte
string is cut into pieces, each a character or a maximal start of one that breaks
off; the text determines the bytes exactly if every piece is a character other than
the replacement character itself. -/

namespace LossyUtf8

def isTail (b : UInt8) : Bool := 0x80 ≤ b && b ≤ 0xBF

/-- How many bytes a character has that begins with `b`; none begins with it if this is 0. -/
def width (b : UInt8) : Nat :=
  if b < 0x80 then 1
  else if 0xC2 ≤ b ∧ b ≤ 0xDF then 2
  else if 0xE0 ≤ b ∧ b ≤ 0xEF then 3
  else if 0xF0 ≤ b ∧ b ≤ 0xF4 then 4
  else 0

/-- The second byte of a character: some first bytes leave out overlong forms, surrogates and what is
beyond the last code point. -/
def isSecond (b c : UInt8) : Bool :=
  if b = 0xE0 then 0xA0 ≤ c && c ≤ 0xBF
  else if b = 0xED then 0x80 ≤ c && c ≤ 0x9F
  else if b = 0xF0 then 0x90 ≤ c && c ≤ 0xBF
  else if b = 0xF4 then 0x80 ≤ c && c ≤ 0x8F
  else isTail c

def tails : (limit : Nat) → List UInt8 → Nat
  | 0, _ => 0
  | _ + 1, [] => 0
  | n + 1, c :: cs => if isTail c then tails n cs + 1 else 0

/-- How many bytes after `b` belong to the character it begins. -/
def follow (b : UInt8) (rest : List UInt8) : Nat :=
  match width b - 1, rest with
  | 0, _ => 0
  | _ + 1, [] => 0
  | n + 1, c :: cs => if isSecond b c then tails n cs + 1 else 0

abbrev Piece := Bool × List UInt8

def piecesOf : (fuel : Nat) → List UInt8 → List Piece
  | 0, _ => []
  | _ + 1, [] => []
  | fuel + 1, b :: rest =>
    let n := follow b rest
    (decide (n + 1 = width b), b :: rest.take n) :: piecesOf fuel (rest.drop n)

def pieces (bs : List UInt8) : List Piece := piecesOf bs.length bs

def replacement : List UInt8 := [0xEF, 0xBF, 0xBD]

def render (p : Piece) : List UInt8 := if p.1 then p.2 else replacement

def lossy (bs : List UInt8) : List UInt8 := (pieces bs).flatMap render

theorem tails_le (n : Nat) (cs : List UInt8) : tails n cs ≤ n ∧ tails n cs ≤ cs.length := by
  induction n generalizing cs with
  | zero => simp [tails]
  | succ n ih =>
    cases cs with
    | nil => simp [tails]
    | cons c cs =>
      obtain ⟨h1, h2⟩ := ih cs
      simp only [tails, List.length_cons]
      split <;> omega

theorem follow_le_length (b : UInt8) (rest : List UInt8) : follow b rest ≤ rest.length := by
  unfold follow
  cases width b - 1 with
  | zero => simp
  | succ n =>
    cases rest with
    | nil => simp
    | cons c cs =>
      have h := (tails_le n cs).2
      simp only [List.length_cons]
      split <;> omega

theorem tails_append {n : Nat} {cs : List UInt8} (h : tails n cs = n) (rest : List UInt8) :
    tails n (cs ++ rest) = n := by
  induction n generalizing cs with
  | zero => rfl
  | succ n ih =>
    cases cs with
    | nil => simp [tails] at h
    | cons c cs =>
      simp only [tails] at h
      split at h
      · rename_i hc
        simp only [List.cons_append, tails, hc, if_true]
        rw [ih (by omega)]
      · omega

theorem follow_append {b : UInt8} {cs : List UInt8} (h : follow b cs + 1 = width b) (rest : List UInt8) :
    follow b (cs ++ rest) = follow b cs := by
  unfold follow at h ⊢
  cases hw : width b - 1 with
  | zero => rfl
  | succ n =>
    rw [hw] at h
    cases cs with
    | nil => simp only at h; omega
    | cons c cs =>
      simp only at h
      by_cases hc : isSecond b c
      · rw [if_pos hc] at h
        simp only [List.cons_append]
        rw [if_pos hc, if_pos hc, tails_append (by omega), show tails n cs = n by omega]
      · rw [if_neg hc] at h
        omega

theorem tails_take (n : Nat) (cs : List UInt8) : tails n (cs.take (tails n cs)) = tails n cs := by
  induction n generalizing cs with
  | zero => rfl
  | succ n ih =>
    cases cs with
    | nil => rfl
    | cons c cs =>
      by_cases hc : isTail c
      · simp only [tails, hc, if_true, List.take_succ_cons]
        rw [ih cs]
      · simp [tails, hc]

theorem follow_take (b : UInt8) (rest : List UInt8) :
    follow b (rest.take (follow b rest)) = follow b rest := by
  unfold follow
  cases width b - 1 with
  | zero => rfl
  | succ n =>
    cases rest with
    | nil => rfl
    | cons c cs =>
      by_cases hc : isSecond b c
      · simp only [hc, if_true, List.take_succ_cons]
        rw [tails_take n cs]
      · simp [hc]

theorem piecesOf_eq {fuel fuel' : Nat} {bs : List UInt8} (h : bs.length ≤ fuel) (h' : bs.length ≤ fuel') :
    piecesOf fuel bs = piecesOf fuel' bs := by
  induction fuel generalizing fuel' bs with
  | zero =>
    obtain rfl : bs = [] := List.length_eq_zero_iff.mp (by omega)
    cases fuel' <;> rfl
  | succ fuel ih =>
    cases bs with
    | nil => cases fuel' <;> rfl
    | cons b rest =>
      cases fuel' with
      | zero => simp at h'
      | succ fuel' =>
        simp only [List.length_cons] at h h'
        have hlen : (rest.drop (follow b rest)).length ≤ rest.length := by simp
        simp only [piecesOf]
        rw [ih (show _ ≤ fuel by omega) (show _ ≤ fuel' by omega)]

theorem pieces_cons (b : UInt8) (rest : List UInt8) :
    pieces (b :: rest) =
      (decide (follow b rest + 1 = width b), b :: rest.take (follow b rest)) ::
        pieces (rest.drop (follow b rest)) := by
  have hlen : (rest.drop (follow b rest)).length ≤ rest.length := by simp
  rw [pieces, List.length_cons, piecesOf, piecesOf_eq hlen le_rfl, pieces]

theorem flatMap_snd_pieces (bs : List UInt8) : (pieces bs).flatMap Prod.snd = bs := by
  induction hn : bs.length using Nat.strong_induction_on generalizing bs with
  | _ n ih =>
    cases bs with
    | nil => rfl
    | cons b rest =>
      have hlen : (rest.drop (follow b rest)).length < n := by
        simp only [List.length_cons] at hn
        simp only [List.length_drop]
        omega
      rw [pieces_cons, List.flatMap_cons, ih _ hlen _ rfl]
      simp

def IsChar (c : List UInt8) : Prop := pieces c = [(true, c)]

theorem isChar_replacement : IsChar replacement := by
  unfold IsChar
  decide

theorem IsChar.cons {c : List UInt8} (h : IsChar c) :
    ∃ b cs, c = b :: cs ∧ follow b cs = cs.length ∧ follow b cs + 1 = width b := by
  cases c with
  | nil => cases h
  | cons b cs =>
    rw [IsChar, pieces_cons] at h
    obtain ⟨hp, -⟩ := List.cons.inj h
    obtain ⟨hw, ht⟩ := Prod.mk.inj hp
    have htake : (cs.take (follow b cs)).length = cs.length := congrArg List.length (List.cons.inj ht).2
    rw [List.length_take] at htake
    have hle := follow_le_length b cs
    exact ⟨b, cs, rfl, by omega, of_decide_eq_true hw⟩

theorem pieces_append {c : List UInt8} (h : IsChar c) (rest : List UInt8) :
    pieces (c ++ rest) = (true, c) :: pieces rest := by
  obtain ⟨b, cs, rfl, hlen, hw⟩ := h.cons
  rw [List.cons_append, pieces_cons, follow_append hw rest, hlen]
  rw [hlen] at hw
  simp [hw]

theorem pieces_flatten_append {l : List (List UInt8)} (h : ∀ c ∈ l, IsChar c) (rest : List UInt8) :
    pieces (l.flatten ++ rest) = l.map (fun c => (true, c)) ++ pieces rest := by
  induction l with
  | nil => rfl
  | cons c l ih =>
    rw [List.flatten_cons, List.append_assoc, pieces_append (h c (by simp)),
      ih fun d hd => h d (by simp [hd])]
    rfl

theorem pieces_flatten {l : List (List UInt8)} (h : ∀ c ∈ l, IsChar c) :
    pieces l.flatten = l.map fun c => (true, c) := by
  have hp := pieces_flatten_append h []
  simpa [pieces, piecesOf] using hp

theorem isChar_of_mem {bs c : List UInt8} (h : (true, c) ∈ pieces bs) : IsChar c := by
  induction hn : bs.length using Nat.strong_induction_on generalizing bs with
  | _ n ih =>
    cases bs with
    | nil => cases h
    | cons b rest =>
      rw [pieces_cons] at h
      rcases List.mem_cons.mp h with hp | hmem
      · obtain ⟨hw, rfl⟩ := Prod.mk.inj hp
        have hw := of_decide_eq_true hw.symm
        have hle := follow_le_length b rest
        have hlen : (rest.take (follow b rest)).length = follow b rest := by
          rw [List.length_take]
          omega
        have hsame : follow b (rest.take (follow b rest)) = follow b rest := follow_take b rest
        rw [IsChar, pieces_cons, hsame, List.take_of_length_le hlen.le, List.drop_eq_nil_of_le hlen.le]
        simp [hw, pieces, piecesOf]
      · have hlt : (rest.drop (follow b rest)).length < n := by
          simp only [List.length_cons] at hn
          simp only [List.length_drop]
          omega
        exact ih _ hlt hmem rfl

theorem isChar_render {bs : List UInt8} {p : Piece} (h : p ∈ pieces bs) : IsChar (render p) := by
  obtain ⟨ok, c⟩ := p
  cases ok with
  | false => exact isChar_replacement
  | true => exact isChar_of_mem h

theorem pieces_lossy (bs : List UInt8) : pieces (lossy bs) = (pieces bs).map fun p => (true, render p) := by
  have hflat : lossy bs = ((pieces bs).map render).flatten := by rw [lossy, List.flatMap_def]
  rw [hflat, pieces_flatten, List.map_map]
  · rfl
  · intro c hc
    obtain ⟨p, hp, rfl⟩ := List.mem_map.mp hc
    exact isChar_render hp

theorem lossy_lossy (bs : List UInt8) : lossy (lossy bs) = lossy bs := by
  rw [lossy, pieces_lossy, List.flatMap_map, lossy]
  rfl

def Exact (bs : List UInt8) : Prop := ∀ p ∈ pieces bs, p.1 = true ∧ p.2 ≠ replacement

instance (bs : List UInt8) : Decidable (Exact bs) :=
  inferInstanceAs (Decidable (∀ p ∈ pieces bs, _))

theorem Exact.eq_of_render {p q : Piece} (hp : p.1 = true ∧ p.2 ≠ replacement) (h : render q = render p) :
    q.2 = p.2 := by
  obtain ⟨ok, c⟩ := q
  rw [show render p = p.2 by rw [render, if_pos hp.1]] at h
  cases ok with
  | false => exact absurd h.symm hp.2
  | true => exact h

theorem flatMap_snd_of_render {l m : List Piece} (hm : ∀ p ∈ m, p.1 = true ∧ p.2 ≠ replacement)
    (h : l.map render = m.map render) : l.flatMap Prod.snd = m.flatMap Prod.snd := by
  induction l generalizing m with
  | nil =>
    cases m with
    | nil => rfl
    | cons p m => cases h
  | cons q l ih =>
    cases m with
    | nil => cases h
    | cons p m =>
      obtain ⟨hq, hl⟩ := List.cons.inj h
      rw [List.flatMap_cons, List.flatMap_cons, Exact.eq_of_render (hm p (by simp)) hq,
        ih (fun r hr => hm r (by simp [hr])) hl]

theorem Exact.eq {bs cs : List UInt8} (hb : Exact bs) (h : lossy cs = lossy bs) : cs = bs := by
  have hpieces := congrArg pieces h
  rw [pieces_lossy, pieces_lossy] at hpieces
  have hrender : (pieces cs).map render = (pieces bs).map render := by
    have hsnd := congrArg (List.map Prod.snd) hpieces
    simpa [List.map_map, Function.comp_def] using hsnd
  rw [← flatMap_snd_pieces cs, ← flatMap_snd_pieces bs]
  exact flatMap_snd_of_render hb hrender

theorem pieces_cons_of_width {b : UInt8} (h : width b = 0) (rest : List UInt8) :
    pieces (b :: rest) = (false, [b]) :: pieces rest := by
  have hf : follow b rest = 0 := by simp [follow, h]
  rw [pieces_cons, hf, h]
  rfl

theorem lossy_flatten_append {l : List (List UInt8)} (h : ∀ c ∈ l, IsChar c) (rest : List UInt8) :
    lossy (l.flatten ++ rest) = l.flatten ++ lossy rest := by
  rw [lossy, pieces_flatten_append h, List.flatMap_append, List.flatMap_map, lossy]
  congr 1
  simp [render, List.flatMap_def]

theorem exists_ne_of_not_exact {bs : List UInt8} (h : ¬ Exact bs) : ∃ cs, cs ≠ bs ∧ lossy cs = lossy bs := by
  by_cases hvalid : ∀ p ∈ pieces bs, p.1 = true
  swap
  · refine ⟨lossy bs, fun he => hvalid fun p hp => ?_, lossy_lossy bs⟩
    rw [← he, pieces_lossy] at hp
    obtain ⟨q, -, rfl⟩ := List.mem_map.mp hp
    rfl
  · simp only [Exact, not_forall, not_and, not_not] at h
    obtain ⟨p, hp, hok⟩ := h
    obtain ⟨l, m, hlm⟩ := List.append_of_mem hp
    have hl : ∀ c ∈ l.map Prod.snd, IsChar c := by
      intro c hc
      obtain ⟨q, hq, rfl⟩ := List.mem_map.mp hc
      have hmem : q ∈ pieces bs := hlm ▸ List.mem_append_left _ hq
      have hpair : (true, q.2) ∈ pieces bs := by
        rw [← hvalid q hmem]
        exact hmem
      exact isChar_of_mem hpair
    have hbs : bs = (l.map Prod.snd).flatten ++ (replacement ++ m.flatMap Prod.snd) := by
      rw [← flatMap_snd_pieces bs, hlm, List.flatMap_append, List.flatMap_cons, hok (hvalid p hp),
        List.flatMap_def]
    refine ⟨(l.map Prod.snd).flatten ++ (0xFF :: m.flatMap Prod.snd), fun he => ?_, ?_⟩
    · rw [hbs] at he
      have hlen := congrArg List.length he
      simp [replacement] at hlen
    · rw [hbs, lossy_flatten_append hl, lossy_flatten_append hl]
      congr 1
      rw [lossy, lossy, pieces_cons_of_width (by decide), pieces_append isChar_replacement]
      rfl

theorem exact_iff {bs : List UInt8} : (∀ cs, lossy cs = lossy bs → cs = bs) ↔ Exact bs := by
  constructor
  · intro h
    by_contra hc
    obtain ⟨cs, hne, he⟩ := exists_ne_of_not_exact hc
    exact hne (h cs he)
  · exact fun h cs he => h.eq he

end LossyUtf8
