import Onvm.Tables
import Onvm.Types

/-! `merge_inventory` of `network_handlers.rs`. The first inventory is stored as it comes; later ones
are merged into it through hash sets and a hash map, which give their entries in some order. -/

namespace Onvm

open ByteString Tables

structure BloomFilter where
  bits : Bytes
  k : UInt8
  salt : Bytes32
deriving DecidableEq

structure BlobInventoryEntry where
  id : Bytes32
  hasData : Bool
  locations : List String
deriving DecidableEq

structure DagInventory where
  programs : List Bytes32
  programBloom : Option BloomFilter
  blobs : List BlobInventoryEntry
  executions : List Bytes32
deriving DecidableEq

structure SyncState where
  lastInventory : Option DagInventory
  lastSeen : Bool
deriving DecidableEq

def SyncState.new : SyncState := ⟨none, false⟩

def pushLocations : Finset String → List String → List String → List String
  | _, locations, [] => locations
  | seen, locations, loc :: locs =>
    if loc ∈ seen then pushLocations seen locations locs
    else pushLocations (insert loc seen) (locations ++ [loc]) locs

def BlobInventoryEntry.absorb (existing b : BlobInventoryEntry) : BlobInventoryEntry :=
  { existing with
    hasData := existing.hasData || b.hasData
    locations :=
      if b.locations.isEmpty then existing.locations
      else pushLocations existing.locations.toFinset existing.locations b.locations }

abbrev BlobTable := Table Bytes32 BlobInventoryEntry

def collectBlobs (blobs : List BlobInventoryEntry) : BlobTable :=
  blobs.foldl (fun t b => t.insert b.id b) ∅

def absorbBlob (t : BlobTable) (b : BlobInventoryEntry) : BlobTable :=
  match t.lookup b.id with
  | some existing => t.insert b.id (existing.absorb b)
  | none => t.insert b.id b

def mergeIds (order : MapOrder) (merged incoming : List Bytes32) : List Bytes32 :=
  order.list (merged ++ incoming).dedup

def mergeInventories (order : MapOrder) (merged inv : DagInventory) : DagInventory where
  programs := mergeIds order merged.programs inv.programs
  programBloom := none
  blobs := (order.list (inv.blobs.foldl absorbBlob (collectBlobs merged.blobs)).entries).map fun e => e.2
  executions := mergeIds order merged.executions inv.executions

def mergeInventory (order : MapOrder) (state : SyncState) (inv : DagInventory) : SyncState :=
  match state.lastInventory with
  | none => ⟨some inv, true⟩
  | some merged => ⟨some (mergeInventories order merged inv), true⟩

inductive InventoryFact
  | program (id : Bytes32)
  | execution (id : Bytes32)
  | blob (id : Bytes32)
  | data (id : Bytes32)
  | location (id : Bytes32) (place : String)

/-- Some entry for the blob satisfies `P`. -/
def DagInventory.HasBlob (inv : DagInventory) (id : Bytes32) (P : BlobInventoryEntry → Prop) : Prop :=
  ∃ b ∈ inv.blobs, b.id = id ∧ P b

def DagInventory.States (inv : DagInventory) : InventoryFact → Prop
  | .program id => id ∈ inv.programs
  | .execution id => id ∈ inv.executions
  | .blob id => inv.HasBlob id fun _ => True
  | .data id => inv.HasBlob id fun b => b.hasData = true
  | .location id place => inv.HasBlob id fun b => place ∈ b.locations

def SyncState.States (state : SyncState) (fact : InventoryFact) : Prop :=
  ∃ inv ∈ state.lastInventory, inv.States fact

instance (inv : DagInventory) (fact : InventoryFact) : Decidable (inv.States fact) :=
  match fact with
  | .program id => inferInstanceAs (Decidable (id ∈ inv.programs))
  | .execution id => inferInstanceAs (Decidable (id ∈ inv.executions))
  | .blob id => inferInstanceAs (Decidable (∃ b ∈ inv.blobs, b.id = id ∧ True))
  | .data id => inferInstanceAs (Decidable (∃ b ∈ inv.blobs, b.id = id ∧ b.hasData = true))
  | .location id place => inferInstanceAs (Decidable (∃ b ∈ inv.blobs, b.id = id ∧ place ∈ b.locations))

instance (state : SyncState) (fact : InventoryFact) : Decidable (state.States fact) :=
  inferInstanceAs (Decidable (∃ inv ∈ state.lastInventory, inv.States fact))

theorem mem_mergeIds {order : MapOrder} {merged incoming : List Bytes32} {id : Bytes32} :
    id ∈ mergeIds order merged incoming ↔ id ∈ merged ∨ id ∈ incoming := by
  rw [mergeIds, order.mem_list, List.mem_dedup, List.mem_append]

theorem mem_pushLocations {seen : Finset String} {locations locs : List String} {place : String}
    (hseen : ∀ l, l ∈ seen ↔ l ∈ locations) :
    place ∈ pushLocations seen locations locs ↔ place ∈ locations ∨ place ∈ locs := by
  induction locs generalizing seen locations with
  | nil => simp [pushLocations]
  | cons loc locs ih =>
    unfold pushLocations
    split
    · rename_i hloc
      rw [ih hseen, List.mem_cons]
      have hmem := (hseen loc).mp hloc
      constructor
      · exact fun h => h.imp_right .inr
      · rintro (h | rfl | h)
        · exact .inl h
        · exact .inl hmem
        · exact .inr h
    · have hseen' : ∀ l, l ∈ insert loc seen ↔ l ∈ locations ++ [loc] := by
        intro l
        rw [Finset.mem_insert, List.mem_append, List.mem_singleton, hseen]
        exact or_comm
      rw [ih hseen', List.mem_append, List.mem_singleton, List.mem_cons, or_assoc]

theorem mem_locations_absorb {a b : BlobInventoryEntry} {place : String} :
    place ∈ (a.absorb b).locations ↔ place ∈ a.locations ∨ place ∈ b.locations := by
  unfold BlobInventoryEntry.absorb
  dsimp only
  split
  · rename_i hempty
    rw [List.isEmpty_iff.mp hempty]
    simp
  · exact mem_pushLocations fun l => List.mem_toFinset

def Additive (P : BlobInventoryEntry → Prop) : Prop :=
  ∀ a b : BlobInventoryEntry, P (a.absorb b) ↔ P a ∨ P b

/-- The table has an entry for the blob that satisfies `P`. -/
def BlobTable.Has (t : BlobTable) (id : Bytes32) (P : BlobInventoryEntry → Prop) : Prop :=
  ∃ b ∈ t.lookup id, P b

section Blobs

variable {P : BlobInventoryEntry → Prop} {t : BlobTable} {b : BlobInventoryEntry} {id : Bytes32}

theorem has_insert_self : BlobTable.Has (t.insert id b) id P ↔ P b := by
  unfold BlobTable.Has
  rw [AList.lookup_insert]
  simp

theorem has_insert_of_ne {id' : Bytes32} (h : id ≠ id') :
    BlobTable.Has (t.insert id' b) id P ↔ BlobTable.Has t id P := by
  unfold BlobTable.Has
  rw [AList.lookup_insert_ne h]

theorem has_absorbBlob (hP : Additive P) :
    BlobTable.Has (absorbBlob t b) id P ↔ BlobTable.Has t id P ∨ (b.id = id ∧ P b) := by
  unfold absorbBlob
  by_cases hid : id = b.id
  · subst hid
    split
    · rename_i existing hexisting
      rw [has_insert_self, hP]
      simp [BlobTable.Has, hexisting]
    · rename_i hnone
      rw [has_insert_self]
      simp [BlobTable.Has, hnone]
  · have hne : ¬ b.id = id := fun heq => hid heq.symm
    split
    · rw [has_insert_of_ne hid]
      simp [hne]
    · rw [has_insert_of_ne hid]
      simp [hne]

theorem has_foldl_absorbBlob (hP : Additive P) (blobs : List BlobInventoryEntry) :
    BlobTable.Has (blobs.foldl absorbBlob t) id P ↔
      BlobTable.Has t id P ∨ ∃ b ∈ blobs, b.id = id ∧ P b := by
  induction blobs generalizing t with
  | nil => simp
  | cons b blobs ih =>
    rw [List.foldl_cons, ih, has_absorbBlob hP, or_assoc]
    simp

theorem has_collectBlobs {blobs : List BlobInventoryEntry} (h : (blobs.map fun b => b.id).Nodup) :
    BlobTable.Has (collectBlobs blobs) id P ↔ ∃ b ∈ blobs, b.id = id ∧ P b := by
  induction blobs using List.reverseRecOn with
  | nil => simp [collectBlobs, BlobTable.Has]
  | append_singleton blobs b ih =>
    rw [List.map_append, List.nodup_append] at h
    obtain ⟨hnodup, -, hnew⟩ := h
    have hother : ∀ b' ∈ blobs, b'.id ≠ b.id := fun b' hb' =>
      hnew b'.id (List.mem_map_of_mem hb') b.id (by simp)
    rw [collectBlobs, List.foldl_append]
    change BlobTable.Has ((collectBlobs blobs).insert b.id b) id P ↔ _
    by_cases hid : id = b.id
    · subst hid
      rw [has_insert_self]
      constructor
      · intro hb
        exact ⟨b, by simp, rfl, hb⟩
      · rintro ⟨b', hb', hid', hPb'⟩
        rcases List.mem_append.mp hb' with hb' | hb'
        · exact absurd hid' (hother b' hb')
        · rwa [List.mem_singleton.mp hb'] at hPb'
    · have hne : ¬ b.id = id := fun heq => hid heq.symm
      rw [has_insert_of_ne hid, ih hnodup]
      simp [or_and_right, exists_or, hne]

def BlobTable.Keyed (t : BlobTable) : Prop := ∀ e ∈ t.entries, e.2.id = e.1

theorem keyed_insert (h : BlobTable.Keyed t) (hb : b.id = id) : BlobTable.Keyed (t.insert id b) := by
  intro e he
  rcases List.mem_cons.mp he with rfl | he
  · exact hb
  · exact h e ((List.kerase_sublist _ _).subset he)

theorem keyed_collectBlobs (blobs : List BlobInventoryEntry) : BlobTable.Keyed (collectBlobs blobs) := by
  induction blobs using List.reverseRecOn with
  | nil => exact fun e he => nomatch he
  | append_singleton blobs b ih =>
    rw [collectBlobs, List.foldl_append]
    exact keyed_insert ih rfl

theorem keyed_foldl_absorbBlob (h : BlobTable.Keyed t) (blobs : List BlobInventoryEntry) :
    BlobTable.Keyed (blobs.foldl absorbBlob t) := by
  induction blobs generalizing t with
  | nil => exact h
  | cons b blobs ih =>
    refine ih ?_
    unfold absorbBlob
    split
    · rename_i existing hexisting
      exact keyed_insert h (h _ (AList.mem_lookup_iff.mp hexisting))
    · exact keyed_insert h rfl

end Blobs

section Messages

variable {order : MapOrder} {merged inv : DagInventory}

theorem nodup_mergeInventories :
    ((mergeInventories order merged inv).blobs.map fun b => b.id).Nodup := by
  have hkeyed := keyed_foldl_absorbBlob (keyed_collectBlobs merged.blobs) inv.blobs
  set t := inv.blobs.foldl absorbBlob (collectBlobs merged.blobs) with ht
  have hkeys : (order.list t.entries).map (fun e => e.2.id) = (order.list t.entries).map fun e => e.1 :=
    List.map_congr_left fun e he => hkeyed e (order.mem_list.mp he)
  have hperm : ((order.list t.entries).map fun e => e.1).Perm t.keys := (order.perm t.entries).map _
  change (((order.list t.entries).map fun e => e.2).map fun b => b.id).Nodup
  rw [List.map_map]
  exact hkeys ▸ hperm.nodup_iff.mpr t.keys_nodup

theorem hasBlob_mergeInventories {P : BlobInventoryEntry → Prop} (hP : Additive P) {id : Bytes32}
    (h : (merged.blobs.map fun b => b.id).Nodup) :
    (mergeInventories order merged inv).HasBlob id P ↔ merged.HasBlob id P ∨ inv.HasBlob id P := by
  have hkeyed := keyed_foldl_absorbBlob (keyed_collectBlobs merged.blobs) inv.blobs
  have htable : BlobTable.Has (inv.blobs.foldl absorbBlob (collectBlobs merged.blobs)) id P ↔
      merged.HasBlob id P ∨ inv.HasBlob id P :=
    (has_foldl_absorbBlob hP inv.blobs).trans (or_congr_left (has_collectBlobs h))
  refine Iff.trans ?_ htable
  constructor
  · rintro ⟨b, hb, hid, hPb⟩
    obtain ⟨e, he, rfl⟩ := List.mem_map.mp hb
    have he := order.mem_list.mp he
    have hkey : e.1 = id := (hkeyed e he).symm.trans hid
    exact ⟨e.2, hkey ▸ AList.mem_lookup_iff.mpr he, hPb⟩
  · rintro ⟨b, hb, hPb⟩
    have he := AList.mem_lookup_iff.mp hb
    exact ⟨b, List.mem_map.mpr ⟨_, order.mem_list.mpr he, rfl⟩, hkeyed _ he, hPb⟩

theorem states_mergeInventories (h : (merged.blobs.map fun b => b.id).Nodup) (fact : InventoryFact) :
    (mergeInventories order merged inv).States fact ↔ merged.States fact ∨ inv.States fact := by
  cases fact with
  | program id => exact mem_mergeIds
  | execution id => exact mem_mergeIds
  | blob id => exact hasBlob_mergeInventories (fun _ _ => (or_self_iff).symm) h
  | data id => exact hasBlob_mergeInventories (fun _ _ => Bool.or_eq_true_iff) h
  | location id place => exact hasBlob_mergeInventories (fun _ _ => mem_locations_absorb) h

end Messages

def mergeAll (messages : List (DagInventory × MapOrder)) (state : SyncState) : SyncState :=
  messages.foldl (fun s m => mergeInventory m.2 s m.1) state

theorem states_mergeAll {first : DagInventory} (messages : List (DagInventory × MapOrder))
    (h : (first.blobs.map fun b => b.id).Nodup) :
    ∃ inv, mergeAll messages ⟨some first, true⟩ = ⟨some inv, true⟩ ∧
      ∀ fact, inv.States fact ↔ first.States fact ∨ ∃ m ∈ messages, m.1.States fact := by
  induction messages generalizing first with
  | nil => exact ⟨first, rfl, by simp⟩
  | cons m messages ih =>
    have hnext : ((mergeInventories m.2 first m.1).blobs.map fun b => b.id).Nodup :=
      nodup_mergeInventories
    obtain ⟨inv, hinv, hstates⟩ := ih hnext
    refine ⟨inv, hinv, fun fact => ?_⟩
    rw [hstates, states_mergeInventories h, or_assoc]
    simp

theorem states_of_distinct {messages : List (DagInventory × MapOrder)}
    (h : ∀ m ∈ messages.head?, (m.1.blobs.map fun b => b.id).Nodup) (fact : InventoryFact) :
    (mergeAll messages .new).States fact ↔ ∃ m ∈ messages, m.1.States fact := by
  cases messages with
  | nil => simp [mergeAll, SyncState.new, SyncState.States]
  | cons m messages =>
    obtain ⟨inv, hinv, hstates⟩ := states_mergeAll messages (h m rfl)
    have hlast : (mergeAll (m :: messages) .new).lastInventory = some inv :=
      congrArg SyncState.lastInventory hinv
    simp [SyncState.States, hlast, hstates]

/-- If no blob occurs twice in the first message, the inventory states what some message states. So it
does not depend on the order of the messages, nor on how often each of them comes. -/
theorem inventory_is_union (messages : List (DagInventory × MapOrder))
    (h : ∀ m ∈ messages.head?, (m.1.blobs.map fun b => b.id).Nodup) :
    (∀ fact, (mergeAll messages .new).States fact ↔ ∃ m ∈ messages, m.1.States fact) ∧
      ∀ messages' : List (DagInventory × MapOrder),
        (∀ m ∈ messages'.head?, (m.1.blobs.map fun b => b.id).Nodup) →
        (∀ inv, inv ∈ messages.map Prod.fst ↔ inv ∈ messages'.map Prod.fst) →
        ∀ fact, (mergeAll messages .new).States fact ↔ (mergeAll messages' .new).States fact := by
  refine ⟨states_of_distinct h, fun messages' h' hsame fact => ?_⟩
  rw [states_of_distinct h, states_of_distinct h']
  have hex : ∀ l : List (DagInventory × MapOrder),
      (∃ m ∈ l, m.1.States fact) ↔ ∃ inv ∈ l.map Prod.fst, inv.States fact := fun l => by simp
  rw [hex, hex]
  simp only [hsame]

def listedBlob : Bytes32 := .ofByte 32 1

def repeatedBlob : DagInventory :=
  ⟨[], none, [⟨listedBlob, true, ["a"]⟩, ⟨listedBlob, false, ["b"]⟩], []⟩

def emptyInventory : DagInventory := ⟨[], none, [], []⟩

theorem inventory_is_union_sample :
    let messages := [(emptyInventory, .listed), (repeatedBlob, .listed)]
    (mergeAll messages .new).States (.data listedBlob) ↔ ∃ m ∈ messages, m.1.States (.data listedBlob) :=
  (inventory_is_union [(emptyInventory, .listed), (repeatedBlob, .listed)] (by decide +kernel)).1 _

/-- In the first message only the last entry of a blob survives the next merge, and the same two
messages the other way round keep all. -/
theorem repeated_blob_forgotten :
    repeatedBlob.States (.data listedBlob) ∧ repeatedBlob.States (.location listedBlob "a") ∧
      ¬ (mergeAll [(repeatedBlob, .listed), (emptyInventory, .listed)] .new).States (.data listedBlob) ∧
      ¬ (mergeAll [(repeatedBlob, .listed), (emptyInventory, .listed)] .new).States
        (.location listedBlob "a") ∧
      (mergeAll [(emptyInventory, .listed), (repeatedBlob, .listed)] .new).States (.data listedBlob) := by
  decide +kernel

end Onvm
