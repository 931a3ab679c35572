import Mathlib

/-! Values as a TOML library gives them, with tables kept in the order of their keys, and what is found in
a table after it has been filled key by key. -/

namespace Toml

inductive Value
  | string (s : String)
  | integer (i : Int64)
  | float (f : Float)
  | boolean (b : Bool)
  | datetime (text : String)
  | array (values : List Value)
  | table (entries : List (String × Value))

def insert (k : String) (v : Value) : List (String × Value) → List (String × Value)
  | [] => [(k, v)]
  | e :: m => if k < e.1 then (k, v) :: e :: m else if k = e.1 then (k, v) :: m else e :: insert k v m

theorem lookup_cons (e : String × Value) (m : List (String × Value)) (k : String) :
    (e :: m).lookup k = if k = e.1 then some e.2 else m.lookup k := by
  by_cases h : k = e.1
  · rw [if_pos h, List.lookup, beq_iff_eq.mpr h]
  · rw [if_neg h, List.lookup, beq_eq_false_iff_ne.mpr h]

theorem lookup_insert (k k' : String) (v : Value) (m : List (String × Value)) :
    (insert k v m).lookup k' = if k' = k then some v else m.lookup k' := by
  induction m with
  | nil => exact lookup_cons (k, v) [] k'
  | cons e m ih =>
    rw [insert]
    by_cases hlt : k < e.1
    · rw [if_pos hlt]
      exact lookup_cons (k, v) (e :: m) k'
    · rw [if_neg hlt]
      by_cases heq : k = e.1
      · rw [if_pos heq, lookup_cons, lookup_cons e, ← heq]
        split_ifs <;> rfl
      · rw [if_neg heq, lookup_cons, ih, lookup_cons]
        by_cases hk : k' = e.1
        · rw [if_pos hk, if_neg fun h => heq (h.symm.trans hk), if_pos hk]
        · rw [if_neg hk, if_neg hk]

def tableOf (entries : List (String × Value)) : Value :=
  .table (entries.foldl (fun m e => insert e.1 e.2 m) [])

namespace Value

def get (v : Value) (key : String) : Option Value :=
  match v with
  | table entries => entries.lookup key
  | _ => none

def asStr : Value → Option String
  | string s => some s
  | _ => none

def asInteger : Value → Option Int64
  | integer i => some i
  | _ => none

def asBool : Value → Option Bool
  | boolean b => some b
  | _ => none

def asArray : Value → Option (List Value)
  | array values => some values
  | _ => none

def read {α : Type} (kind : Value → Option α) (v : Value) (key : String) : Option α := (v.get key).bind kind

end Value

theorem lookup_fill (entries m : List (String × Value)) (h : (entries.map Prod.fst).Nodup) (k : String) :
    (entries.foldl (fun m e => insert e.1 e.2 m) m).lookup k = (entries.lookup k).or (m.lookup k) := by
  induction entries generalizing m with
  | nil => rfl
  | cons e entries ih =>
    have hnodup := List.nodup_cons.mp (List.map_cons .. ▸ h)
    rw [List.foldl_cons, ih _ hnodup.2, lookup_insert, lookup_cons]
    by_cases hk : k = e.1
    · have hnone : entries.lookup k = none := by
        rw [List.lookup_eq_none_iff]
        intro e' he'
        have hmem : e'.1 ∈ entries.map Prod.fst := List.mem_map_of_mem he'
        refine bne_iff_ne.mpr fun heq => hnodup.1 ?_
        rw [← hk, heq]
        exact hmem
      rw [if_pos hk, if_pos hk, hnone]
      rfl
    · rw [if_neg hk, if_neg hk]

theorem get_tableOf {entries : List (String × Value)} (h : (entries.map Prod.fst).Nodup) (k : String) :
    (tableOf entries).get k = entries.lookup k := by
  have hfill := lookup_fill entries [] h k
  rw [List.lookup_nil, Option.or_none] at hfill
  exact hfill

end Toml
