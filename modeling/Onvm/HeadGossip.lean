import Onvm.CommittedHeights
import Onvm.DeliveryOrder

/-! The heads that a node broadcasts (`sync_tasks.rs`), and what they are good for: a node that hears
the head of a longer chain asks for the next transition and so follows the chain to its end. -/

namespace Onvm

open ByteString OrderedStore Runs Std

/-- A node with the heads it last broadcast, and all that it has broadcast. -/
structure Announcer where
  node : Node
  lastBroadcastHeads : ExtTreeMap ProgramId (UInt64 × StateRoot)
  published : List ProgramHead

def Announcer.start (s : Node) : Announcer := ⟨s, ∅, []⟩

def headOf (cat : ProgramCatalog) (m : ProgramManifest) : UInt64 × StateRoot :=
  match cat.latestStateCommitment m.programId with
  | some c => (c.height, c.root)
  | none => (0, m.initialStateRoot)

def announceHead (a : Announcer) (m : ProgramManifest) : Announcer :=
  let head := headOf a.node.catalog m
  if a.lastBroadcastHeads[m.programId]? = some head then a
  else
    { a with
      lastBroadcastHeads := a.lastBroadcastHeads.insert m.programId head
      published := a.published ++ [⟨m.programId, head.1, head.2⟩] }

def broadcastProgramHeads (pf : Platform) (a : Announcer) : Announcer :=
  match a.node.catalog.listManifests pf with
  | .error _ => a
  | .ok manifests => manifests.foldl announceHead a

/-- `periodic_sync`, but for the inventory requests. -/
def periodicSync (pf : Platform) (a : Announcer) (peerCount : Nat) : Announcer :=
  if peerCount = 0 then a else broadcastProgramHeads pf a

def NodeEvent.restarts : NodeEvent → Bool
  | .op .restart => true
  | _ => false

inductive SyncEvent
  | node (e : NodeEvent)
  | sync (peerCount : Nat)

def SyncEvent.restarts : SyncEvent → Bool
  | .node e => e.restarts
  | .sync _ => false

def syncStep (pf : Platform) (sign : Bytes → Bytes) (a : Announcer) : SyncEvent → Option Announcer
  | .node e =>
    (nodeStep pf sign a.node e).map fun s =>
      { a with node := s, lastBroadcastHeads := if e.restarts then ∅ else a.lastBroadcastHeads }
  | .sync peerCount => some (periodicSync pf a peerCount)

def ProgramCatalog.Backs (cat : ProgramCatalog) (p : ProgramId) (height : UInt64) (root : StateRoot) : Prop :=
  height = 0 ∨ ∃ c, cat.getStateCommitment p height = some c ∧ c.root = root

section Heads

variable {pf : Platform} {sign : Bytes → Bytes} {cat : ProgramCatalog} {p : ProgramId}
  {height : UInt64} {root : StateRoot} {a a' : Announcer}

theorem ProgramCatalog.Backs.le (h : cat.Backs p height root) : height ≤ cat.localHeight p := by
  rw [UInt64.le_iff_toNat_le]
  rcases h with rfl | ⟨c, hc, -⟩
  · exact Nat.zero_le _
  · exact toNat_le_committedHeight (by rw [hc]; rfl)

theorem ProgramCatalog.Backs.unique {root' : StateRoot} (h : cat.Backs p height root)
    (h' : cat.Backs p height root') (h0 : height ≠ 0) : root = root' := by
  rcases h with h | ⟨c, hc, hr⟩
  · exact absurd h h0
  · rcases h' with h' | ⟨c', hc', hr'⟩
    · exact absurd h' h0
    · rw [hc] at hc'
      cases hc'
      rw [← hr, ← hr']

theorem backs_headOf (cat : ProgramCatalog) (m : ProgramManifest) :
    cat.Backs m.programId (headOf cat m).1 (headOf cat m).2 := by
  rw [headOf]
  cases hl : cat.latestStateCommitment m.programId with
  | none => exact Or.inl rfl
  | some c => exact Or.inr ⟨c, (ProgramCatalog.latestStateCommitment_eq_some hl).2.1, rfl⟩

theorem headOf_height (cat : ProgramCatalog) (m : ProgramManifest) :
    (headOf cat m).1 = cat.localHeight m.programId := by
  rw [headOf, ProgramCatalog.localHeight]
  cases cat.latestStateCommitment m.programId <;> rfl

/-- What was broadcast and what is remembered of it is committed, and no program's head went back. -/
structure Announcer.Sound (a : Announcer) : Prop where
  published : ∀ h ∈ a.published, a.node.catalog.Backs h.programId h.height h.stateRoot
  cached : ∀ p height root, a.lastBroadcastHeads[p]? = some (height, root) →
    a.node.catalog.Backs p height root
  ordered : a.published.Pairwise fun h h' => h.programId = h'.programId → h.height ≤ h'.height

/-- While the node has not restarted it remembers a head at least as high as any it has broadcast. -/
structure Announcer.Remembers (a : Announcer) : Prop where
  latest : ∀ h ∈ a.published, ∃ e, a.lastBroadcastHeads[h.programId]? = some e ∧ h.height ≤ e.1
  strict : a.published.Pairwise fun h h' =>
    h.programId = h'.programId → h.height < h'.height ∨ h'.height = 0

theorem Announcer.Sound.announceHead (h : a.Sound) (m : ProgramManifest) : (announceHead a m).Sound := by
  have hback := backs_headOf a.node.catalog m
  simp only [Onvm.announceHead]
  split_ifs with hc
  · exact h
  refine ⟨?_, ?_, ?_⟩
  · intro x hx
    rcases List.mem_append.mp hx with hx | hx
    · exact h.published x hx
    · rw [List.mem_singleton.mp hx]
      exact hback
  · intro p height root hp
    dsimp only at hp
    rw [ExtTreeMap.getElem?_insert] at hp
    split_ifs at hp with he
    · rw [← LawfulEqOrd.eq_of_compare he]
      have hhead : headOf a.node.catalog m = (height, root) := Option.some.inj hp
      rw [hhead] at hback
      exact hback
    · exact h.cached p height root hp
  · rw [List.pairwise_append]
    refine ⟨h.ordered, List.pairwise_singleton .., ?_⟩
    intro x hx y hy hp
    rw [List.mem_singleton.mp hy] at hp ⊢
    have hle := (h.published x hx).le
    rw [hp, ← headOf_height] at hle
    exact hle

theorem Announcer.Remembers.announceHead (h : a.Remembers) (hs : a.Sound) (m : ProgramManifest) :
    (announceHead a m).Remembers := by
  have hback := backs_headOf a.node.catalog m
  simp only [Onvm.announceHead]
  split_ifs with hc
  · exact h
  refine ⟨?_, ?_⟩
  · intro x hx
    dsimp only
    rw [ExtTreeMap.getElem?_insert]
    split_ifs with he
    · refine ⟨_, rfl, ?_⟩
      have hp := LawfulEqOrd.eq_of_compare he
      rcases List.mem_append.mp hx with hx | hx
      · have hle := (hs.published x hx).le
        rw [← hp, ← headOf_height] at hle
        exact hle
      · rw [List.mem_singleton.mp hx]
        exact UInt64.le_refl _
    · rcases List.mem_append.mp hx with hx | hx
      · exact h.latest x hx
      · rw [List.mem_singleton.mp hx] at he
        exact absurd ReflCmp.compare_self he
  · rw [List.pairwise_append]
    refine ⟨h.strict, List.pairwise_singleton .., ?_⟩
    intro x hx y hy hp
    rw [List.mem_singleton.mp hy] at hp ⊢
    obtain ⟨⟨k, r⟩, hk, hle⟩ := h.latest x hx
    rw [hp] at hk
    have hkback := hs.cached _ k r hk
    by_cases h0 : (headOf a.node.catalog m).1 = 0
    · exact Or.inr h0
    · left
      have hkle := hkback.le
      rw [← headOf_height] at hkle
      refine UInt64.lt_of_le_of_lt hle (UInt64.lt_of_le_of_ne hkle ?_)
      intro he
      have hk' : k = (headOf a.node.catalog m).1 := he
      rw [hk'] at hkback
      have hr : r = (headOf a.node.catalog m).2 := hkback.unique hback h0
      apply hc
      rw [hk, hk', hr]

theorem foldl_announceHead (hs : a.Sound) (ms : List ProgramManifest) :
    (ms.foldl announceHead a).Sound ∧ (a.Remembers → (ms.foldl announceHead a).Remembers) := by
  induction ms generalizing a with
  | nil => exact ⟨hs, id⟩
  | cons m ms ih =>
    obtain ⟨hsound, hremembers⟩ := ih (hs.announceHead m)
    exact ⟨hsound, fun h => hremembers (h.announceHead hs m)⟩

theorem ProgramCatalog.Backs.nodeStep {s s' : Node} {e : NodeEvent} (h : s.catalog.Backs p height root)
    (hs : nodeStep pf sign s e = some s') : s'.catalog.Backs p height root := by
  rcases h with h | ⟨c, hc, hr⟩
  · exact Or.inl h
  · exact Or.inr ⟨c, nodeStep_getStateCommitment hs hc, hr⟩

theorem syncStep_node {e : NodeEvent} (h : syncStep pf sign a (.node e) = some a') :
    nodeStep pf sign a.node e = some a'.node ∧ a'.published = a.published ∧
      a'.lastBroadcastHeads = if e.restarts then ∅ else a.lastBroadcastHeads := by
  obtain ⟨s, hs, rfl⟩ := Option.map_eq_some_iff.mp h
  exact ⟨hs, rfl, rfl⟩

theorem periodicSync_eq (pf : Platform) (a : Announcer) (peerCount : Nat) :
    ∃ ms : List ProgramManifest, periodicSync pf a peerCount = ms.foldl announceHead a := by
  rw [periodicSync, broadcastProgramHeads]
  split_ifs
  · exact ⟨[], rfl⟩
  · cases a.node.catalog.listManifests pf with
    | error e => exact ⟨[], rfl⟩
    | ok ms => exact ⟨ms, rfl⟩

theorem Announcer.Sound.syncStep {e : SyncEvent} (h : a.Sound) (hs : syncStep pf sign a e = some a') :
    a'.Sound := by
  cases e with
  | node e =>
    obtain ⟨hn, hp, hc⟩ := syncStep_node hs
    refine ⟨?_, ?_, ?_⟩
    · rw [hp]
      exact fun x hx => (h.published x hx).nodeStep hn
    · intro p height root hh
      rw [hc] at hh
      split_ifs at hh
      · simp at hh
      · exact (h.cached p height root hh).nodeStep hn
    · rw [hp]
      exact h.ordered
  | sync peerCount =>
    cases hs
    obtain ⟨ms, hms⟩ := periodicSync_eq pf a peerCount
    rw [hms]
    exact (foldl_announceHead h ms).1

theorem Announcer.Remembers.syncStep {e : SyncEvent} (h : a.Remembers) (hsound : a.Sound)
    (he : e.restarts = false) (hs : syncStep pf sign a e = some a') : a'.Remembers := by
  cases e with
  | node e =>
    obtain ⟨-, hp, hc⟩ := syncStep_node hs
    have hno : e.restarts = false := he
    rw [hno, if_neg (by decide)] at hc
    exact ⟨by rw [hp, hc]; exact h.latest, by rw [hp]; exact h.strict⟩
  | sync peerCount =>
    cases hs
    obtain ⟨ms, hms⟩ := periodicSync_eq pf a peerCount
    rw [hms]
    exact (foldl_announceHead hsound ms).2 h

theorem Announcer.start_sound (s : Node) : (Announcer.start s).Sound :=
  ⟨by simp [Announcer.start], by simp [Announcer.start], List.Pairwise.nil⟩

theorem Announcer.start_remembers (s : Node) : (Announcer.start s).Remembers :=
  ⟨by simp [Announcer.start], List.Pairwise.nil⟩

theorem remembers_of_run {evs : List SyncEvent} (h : a.Sound ∧ a.Remembers)
    (he : ∀ e ∈ evs, e.restarts = false) (hrun : run (syncStep pf sign) a evs = some a') : a'.Remembers :=
  (invariant_run (I := fun a => a.Sound ∧ a.Remembers) (P := fun _ e => e.restarts = false)
    (fun _ _ _ h he hs => ⟨h.1.syncStep hs, h.2.syncStep h.1 he hs⟩) h (along_of_forall he) hrun).2

end Heads

/-- Whatever a node does between its broadcasts, every head it has broadcast with a height is the one
it has committed, no head of a program is lower than an earlier one, and while the node has not
restarted none is repeated: each is higher than all before it, or of a program without a height. -/
theorem program_heads_advance {pf : Platform} {sign : Bytes → Bytes} {s : Node} {a : Announcer}
    {evs : List SyncEvent} (hrun : run (syncStep pf sign) (.start s) evs = some a) :
    (∀ h ∈ a.published, h.height ≠ 0 → ∃ c,
      a.node.catalog.getStateCommitment h.programId h.height = some c ∧ c.root = h.stateRoot) ∧
    (a.published.Pairwise fun h h' => h.programId = h'.programId → h.height ≤ h'.height) ∧
    ((∀ e ∈ evs, e.restarts = false) → a.published.Pairwise fun h h' =>
      h.programId = h'.programId → h.height < h'.height ∨ h'.height = 0) := by
  have hsound : a.Sound :=
    always_run (I := Announcer.Sound) (fun _ _ _ h hs => h.syncStep hs) (Announcer.start_sound s) hrun
  refine ⟨?_, hsound.ordered, ?_⟩
  · intro h hh h0
    exact (hsound.published h hh).resolve_left h0
  · intro he
    exact (remembers_of_run ⟨Announcer.start_sound s, Announcer.start_remembers s⟩ he hrun).strict

/-- A member that commits two heights broadcasts the head of each once. -/
theorem program_heads_advance_sample :
    let evs := (twoHeights.take 14).map (SyncEvent.node ∘ .op) ++ [.sync 1, .sync 1] ++
      (twoHeights.drop 14).map (SyncEvent.node ∘ .op) ++ [.sync 0, .sync 2]
    ∃ a, run (syncStep sampleRuntime sampleSign) (.start (sampleStart 1)) evs = some a ∧
      a.published.map (·.height) = [1, 2] ∧
      a.published.Pairwise fun h h' => h.programId = h'.programId → h.height < h'.height ∨ h'.height = 0 := by
  intro evs
  have hrun : ((run (syncStep sampleRuntime sampleSign) (.start (sampleStart 1)) evs).any fun a =>
      a.published.map (·.height) = [1, 2]) = true := by decide +kernel
  obtain ⟨a, ha, hh⟩ := exists_of_any hrun
  exact ⟨a, ha, hh, (program_heads_advance ha).2.2 (by decide +kernel)⟩

/-- The answer of a peer to `GetFinalizedTransition`. -/
def serveFinalizedTransition (peer : Node) (p : ProgramId) (height : UInt64) : FinalizedTransitionResponse :=
  ⟨p, height, peer.loadFinalizedTransition p height⟩

/-- A head that a node hears, and the answers that arrive if it asks: at most one from each of the
peers asked, and none if all are lost. -/
structure HeadRound where
  clock : UInt64 → UInt64
  head : ProgramHead
  answers : List (UInt64 → UInt64)

def hearHead (pf : Platform) (peer : Node) (s : Node) (r : HeadRound) : Node :=
  let s' := handleProgramHead pf r.clock s r.head
  match s'.requests.drop s.requests.length with
  | .finalizedTransition p height :: _ =>
    r.answers.foldl (fun t clock =>
      handleFinalizedTransitionResponse pf clock t (serveFinalizedTransition peer p height)) s'
  | _ => s'

def HeadRound.answered (r : HeadRound) : Bool := !r.answers.isEmpty

section Following

variable {pf : Platform} {m : ProgramManifest} {C : CommitteeCertificate}
  {bs D : List AggregatedReceiptBundle} {s peer : Node}

def delivered (bs D : List AggregatedReceiptBundle) : List AggregatedReceiptBundle :=
  bs.takeWhile (· ∈ D)

theorem delivered_append (bs D E : List AggregatedReceiptBundle) :
    (delivered bs D).length ≤ (delivered bs (D ++ E)).length := by
  induction bs with
  | nil => exact Nat.le_refl _
  | cons b bs ih =>
    simp only [delivered, List.takeWhile_cons] at ih ⊢
    by_cases hb : b ∈ D
    · have hb' : b ∈ D ++ E := List.mem_append_left _ hb
      simp only [hb, hb', decide_true, if_true, List.length_cons]
      omega
    · simp [hb]

theorem delivered_next {b : AggregatedReceiptBundle} {rest : List AggregatedReceiptBundle}
    (hbs : bs = delivered bs D ++ b :: rest) {E : List AggregatedReceiptBundle} (hb : b ∈ E) :
    (delivered bs D).length + 1 ≤ (delivered bs (D ++ E)).length := by
  have hpre : ∀ x ∈ delivered bs D ++ [b], decide (x ∈ D ++ E) = true := by
    intro x hx
    rcases List.mem_append.mp hx with hx | hx
    · have hxD : x ∈ D := by simpa using List.mem_takeWhile_imp hx
      exact decide_eq_true (List.mem_append_left _ hxD)
    · rw [List.mem_singleton.mp hx]
      exact decide_eq_true (List.mem_append_right _ hb)
  have hsplit : bs = (delivered bs D ++ [b]) ++ rest := by simpa using hbs
  have htake : delivered bs (D ++ E) = (delivered bs D ++ [b]) ++ rest.takeWhile (· ∈ D ++ E) := by
    conv_lhs => rw [delivered, hsplit]
    rw [List.takeWhile_append_of_pos hpre]
  rw [htake]
  simp only [List.length_append, List.length_singleton]
  omega

theorem Delivered.answers (hC : m.committee = some C) (hchain : ValidChain pf m.programId C bs)
    (hK : Set.InjOn pf.hashBytes (chainKeys bs)) (hD : D ⊆ bs) {b : AggregatedReceiptBundle} (hb : b ∈ bs)
    (hpeer : peer.loadFinalizedTransition m.programId b.receipt.receipt.height = some b)
    (h : Delivered pf m bs D true s.ledger) (clocks : List (UInt64 → UInt64)) :
    Delivered pf m bs (D ++ clocks.map fun _ => b) true
      (clocks.foldl (fun t clock => handleFinalizedTransitionResponse pf clock t
        (serveFinalizedTransition peer m.programId b.receipt.receipt.height)) s).ledger := by
  induction clocks generalizing s D with
  | nil => simpa using h
  | cons clock clocks ih =>
    have hstep := h.bundle_step hC hchain hK hD hb clock
    have heq : handleFinalizedTransitionResponse pf clock s
        (serveFinalizedTransition peer m.programId b.receipt.receipt.height) =
        deliver pf m s (.bundle clock b) := by
      simp only [handleFinalizedTransitionResponse, serveFinalizedTransition, hpeer, deliver]
    rw [List.foldl_cons, heq, List.map_cons, List.append_cons]
    refine ih ?_ hstep
    intro x hx
    rcases List.mem_append.mp hx with hx | hx
    · exact hD hx
    · rw [List.mem_singleton.mp hx]
      exact hb

theorem delivered_split (h : (delivered bs D).length < bs.length) :
    ∃ b rest, bs = delivered bs D ++ b :: rest ∧ b ∈ bs ∧ b ∉ D := by
  have hsplit : delivered bs D ++ bs.dropWhile (· ∈ D) = bs := List.takeWhile_append_dropWhile
  cases hdrop : bs.dropWhile (· ∈ D) with
  | nil =>
    rw [hdrop, List.append_nil] at hsplit
    rw [hsplit] at h
    omega
  | cons b rest =>
    refine ⟨b, rest, by rw [← hdrop, hsplit], ?_, ?_⟩
    · rw [← hsplit, hdrop]
      exact List.mem_append_right _ List.mem_cons_self
    have hhead := List.head?_dropWhile_not (fun x => decide (x ∈ D)) bs
    rw [hdrop] at hhead
    simpa using hhead

theorem Delivered.localHeight (hchain : ValidChain pf m.programId C bs)
    (h : Delivered pf m bs D true s.ledger) :
    (s.catalog.localHeight m.programId).toNat = (delivered bs D).length := by
  have hlen : (delivered bs D).length < 2 ^ 64 :=
    Nat.lt_of_le_of_lt (List.takeWhile_prefix _).length_le hchain.length_lt
  exact h.holds.committedHeight hlen

theorem Delivered.asks (hchain : ValidChain pf m.programId C bs) (hD : D ⊆ bs)
    (h : Delivered pf m bs D true s.ledger) {r : HeadRound} (hp : r.head.programId = m.programId)
    (hle : r.head.height.toNat ≤ bs.length)
    (hlag : s.catalog.localHeight r.head.programId < r.head.height) :
    ∃ b rest, bs = delivered bs D ++ b :: rest ∧ b ∈ bs ∧ handleProgramHead pf r.clock s r.head =
      s.request (.finalizedTransition m.programId b.receipt.receipt.height) := by
  have hlt := UInt64.lt_iff_toNat_lt.mp hlag
  have hlocal := h.localHeight hchain
  rw [hp, hlocal] at hlt
  obtain ⟨b, rest, hbs, hmem, hbD⟩ := delivered_split (Nat.lt_of_lt_of_le hlt hle)
  have hb := hchain _ b rest hbs
  have hnext : s.catalog.localHeight m.programId + 1 = b.receipt.receipt.height := by
    rw [← UInt64.toNat_inj, hb.height, UInt64.toNat_add, hlocal]
    exact Nat.mod_eq_of_lt (by have := r.head.height.toNat_lt; have : (1 : UInt64).toNat = 1 := rfl; omega)
  have hnone : s.loadFinalizedTransition m.programId b.receipt.receipt.height = none := by
    cases hl : s.loadFinalizedTransition m.programId b.receipt.receipt.height with
    | none => rfl
    | some b' =>
      obtain ⟨hb', hheight⟩ := (h.bundles _ b').mp hl
      rw [hchain.eq_of_height (hD hb') hmem hheight] at hb'
      exact absurd hb' hbD
  refine ⟨b, rest, hbs, hmem, ?_⟩
  have hask := @handleProgramHead_of_none pf r.clock s _ hlag
    (by rw [hp, hnext]; exact hnone)
  rw [hp, hnext] at hask
  exact hask

def HeadRound.useful (len : Nat) (r : HeadRound) : Bool := r.answered && r.head.height.toNat == len

section Rounds

variable (hC : m.committee = some C) (hchain : ValidChain pf m.programId C bs)
  (hK : Set.InjOn pf.hashBytes (chainKeys bs))
  (hpeer : ∀ b ∈ bs, peer.loadFinalizedTransition m.programId b.receipt.receipt.height = some b)

include hC hchain hK hpeer

theorem Delivered.hearHead (hD : D ⊆ bs) (h : Delivered pf m bs D true s.ledger) {r : HeadRound}
    (hp : r.head.programId = m.programId) (hle : r.head.height.toNat ≤ bs.length) :
    ∃ D', D' ⊆ bs ∧ Delivered pf m bs D' true (hearHead pf peer s r).ledger ∧
      min bs.length ((delivered bs D).length + if r.useful bs.length then 1 else 0) ≤
        (delivered bs D').length := by
  by_cases hlag : r.head.height ≤ s.catalog.localHeight r.head.programId
  · have hsame : Onvm.hearHead pf peer s r = s := by
      simp [Onvm.hearHead, handleProgramHead, hlag]
    refine ⟨D, hD, by rw [hsame]; exact h, ?_⟩
    have hnat := UInt64.le_iff_toNat_le.mp hlag
    rw [hp, h.localHeight hchain] at hnat
    by_cases hu : r.useful bs.length
    · have hlen : r.head.height.toNat = bs.length := by
        simp only [HeadRound.useful, Bool.and_eq_true, beq_iff_eq] at hu
        exact hu.2
      omega
    · rw [if_neg hu]
      omega
  · obtain ⟨b, rest, hbs, hmem, hask⟩ := h.asks hchain hD hp hle (UInt64.not_le.mp hlag)
    have hhear : Onvm.hearHead pf peer s r = r.answers.foldl (fun t clock =>
        handleFinalizedTransitionResponse pf clock t
          (serveFinalizedTransition peer m.programId b.receipt.receipt.height))
        (s.request (.finalizedTransition m.programId b.receipt.receipt.height)) := by
      simp [Onvm.hearHead, hask, Node.request]
    have hask' : Delivered pf m bs D true
        (s.request (.finalizedTransition m.programId b.receipt.receipt.height)).ledger := h
    refine ⟨D ++ r.answers.map fun _ => b, ?_, ?_, ?_⟩
    · intro x hx
      rcases List.mem_append.mp hx with hx | hx
      · exact hD hx
      · obtain ⟨-, -, rfl⟩ := List.mem_map.mp hx
        exact hmem
    · rw [hhear]
      exact hask'.answers hC hchain hK hD hmem (hpeer b hmem) r.answers
    · by_cases hu : r.useful bs.length
      · have hans : b ∈ r.answers.map fun _ => b := by
          simp only [HeadRound.useful, HeadRound.answered, Bool.and_eq_true, Bool.not_eq_true',
            List.isEmpty_eq_false_iff_exists_mem] at hu
          obtain ⟨clock, hclock⟩ := hu.1
          exact List.mem_map.mpr ⟨clock, hclock, rfl⟩
        have hnext := delivered_next hbs hans
        rw [if_pos hu]
        omega
      · have hmono := delivered_append bs D (r.answers.map fun _ => b)
        rw [if_neg hu]
        omega

theorem Delivered.hearHeads (hD : D ⊆ bs) (h : Delivered pf m bs D true s.ledger) {rounds : List HeadRound}
    (hr : ∀ r ∈ rounds, r.head.programId = m.programId ∧ r.head.height.toNat ≤ bs.length) :
    ∃ D', D' ⊆ bs ∧ Delivered pf m bs D' true (rounds.foldl (Onvm.hearHead pf peer) s).ledger ∧
      min bs.length ((delivered bs D).length + rounds.countP (·.useful bs.length)) ≤
        (delivered bs D').length := by
  induction rounds generalizing s D with
  | nil => exact ⟨D, hD, h, Nat.min_le_right _ _⟩
  | cons r rounds ih =>
    obtain ⟨hp, hle⟩ := hr r List.mem_cons_self
    obtain ⟨D₁, hD₁, h₁, hlen₁⟩ := h.hearHead hC hchain hK hpeer hD hp hle
    obtain ⟨D₂, hD₂, h₂, hlen₂⟩ := ih hD₁ h₁ fun r' hr' => hr r' (List.mem_cons_of_mem _ hr')
    refine ⟨D₂, hD₂, h₂, ?_⟩
    rw [List.countP_cons]
    omega

end Rounds

end Following

/-- A node that has the manifest of a program, and any part of its chain in any order, hears heads of
the chain from a peer that holds it: each time a peer answers, it gains a height at least, whatever
answers are lost or doubled, until it has the chain; what it has is always a part of the chain from
its beginning, with the state and the commitments of that part. -/
theorem heads_close_gap {pf : Platform} {m : ProgramManifest} {C : CommitteeCertificate}
    {bs : List AggregatedReceiptBundle} {s peer : Node} {ds : List Delivery} {rounds : List HeadRound}
    (hC : m.committee = some C) (hsub : m.subnetMembership.isSome) (hchain : ValidChain pf m.programId C bs)
    (hK : Set.InjOn pf.hashBytes (chainKeys bs)) (hs : s.Lacks m.programId)
    (hds : ∀ b ∈ ds.filterMap Delivery.bundle?, b ∈ bs) (hm : ds.any Delivery.isManifest = true)
    (hpeer : ∀ b ∈ bs, peer.loadFinalizedTransition m.programId b.receipt.receipt.height = some b)
    (hr : ∀ r ∈ rounds, r.head.programId = m.programId ∧ r.head.height.toNat ≤ bs.length) :
    let s₀ := ds.foldl (deliver pf m) s
    let s' := rounds.foldl (hearHead pf peer) s₀
    let height := s'.catalog.committedHeight m.programId
    min bs.length (s₀.catalog.committedHeight m.programId + rounds.countP (·.useful bs.length)) ≤ height ∧
      height ≤ bs.length ∧ s'.states.entries m.programId = replayed (bs.take height) ∧
      ∀ k, (s'.catalog.getStateCommitment m.programId k).map (·.root) = rootAt (bs.take height) k := by
  intro s₀ s' height
  have h₀ := delivered_of_deliveries hC hsub hchain hK hs hds
  rw [hm] at h₀
  obtain ⟨D', -, h', hlen⟩ := h₀.hearHeads hC hchain hK hpeer hds hr
  have hheight₀ : s₀.catalog.committedHeight m.programId =
    (delivered bs (ds.filterMap Delivery.bundle?)).length := h₀.localHeight hchain
  have hheight : height = (delivered bs D').length := h'.localHeight hchain
  have hprefix : delivered bs D' <+: bs := List.takeWhile_prefix _
  have htake : bs.take height = delivered bs D' := by
    rw [hheight]
    exact (List.prefix_iff_eq_take.mp hprefix).symm
  rw [htake, hheight₀]
  refine ⟨by rw [hheight]; exact hlen, by rw [hheight]; exact hprefix.length_le, h'.holds.entries,
    h'.holds.commitments⟩

def samplePeer : Node := (run (step sampleRuntime) (sampleStart 1) twoHeights).getD (sampleStart 1)

/-- The first answer is lost, the second comes twice. -/
theorem heads_close_gap_sample :
    let head : ProgramHead := ⟨sampleProgram, 2, smtEmpty⟩
    let rounds : List HeadRound := [⟨fun _ => 0, head, []⟩, ⟨fun _ => 0, head, [fun _ => 0, fun _ => 0]⟩,
      ⟨fun _ => 0, head, [fun _ => 0]⟩]
    let m := sampleManifest (sampleCommittee sampleProgram [1] 1)
    2 ≤ (rounds.foldl (hearHead sampleRuntime samplePeer)
      ([Delivery.manifest fun _ => 0].foldl (deliver sampleRuntime m) (sampleStart 2))).catalog.committedHeight
        sampleProgram := by
  intro head rounds m
  have hchain : ValidChain sampleRuntime sampleProgram (sampleCommittee sampleProgram [1] 1)
      publishedBundles := validChain_iff.mpr (by decide +kernel)
  have hkeys : ∀ b ∈ publishedBundles, ∀ w ∈ b.stateWrites, w.key = [1] := by decide +kernel
  have hK : Set.InjOn sampleRuntime.hashBytes (chainKeys publishedBundles) := by
    rintro k ⟨b, hb, w, hw, rfl⟩ k' ⟨b', hb', w', hw', rfl⟩ -
    rw [hkeys b hb w hw, hkeys b' hb' w' hw']
  have hpeer : ∀ b ∈ publishedBundles,
      samplePeer.loadFinalizedTransition sampleProgram b.receipt.receipt.height = some b := by decide +kernel
  have hlen : publishedBundles.length = 2 := by decide +kernel
  have hheads : ∀ r ∈ rounds, r.head = head := by simp [rounds]
  have h := (@heads_close_gap _ m _ _ _ _ [.manifest fun _ => 0] rounds rfl rfl hchain hK
    (sampleStart_lacks 2) (by simp [Delivery.bundle?]) rfl hpeer (fun r hr => by
      rw [hheads r hr, hlen]
      exact ⟨rfl, Nat.le_refl 2⟩)).1
  have hcount : rounds.countP (·.useful publishedBundles.length) = 2 := by
    rw [hlen]
    decide
  rw [hcount, hlen] at h
  exact Nat.le_trans (by omega) h

end Onvm
