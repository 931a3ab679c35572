import Onvm.NetworkService
import Onvm.Runs

/-! What the service tells the rest of the node about its peers. The shared set, the set of ready
peers and the events are updated by hand in every branch; the events are the changes of the set. -/

namespace Onvm

open Tables Runs

/-- A list of changes of a switch that is off at first: each one turns it over, and it is `now`. -/
structure Toggles (l : List Bool) (now : Bool) : Prop where
  first : ∀ b ∈ l.head?, b = true
  alternates : l.IsChain (· ≠ ·)
  last : l.getLast?.getD false = now

namespace Toggles

variable {l : List Bool} {now : Bool}

theorem nil : Toggles [] false where
  first _ h := nomatch h
  alternates := .nil
  last := rfl

theorem concat (h : Toggles l now) : Toggles (l ++ [!now]) (!now) := by
  refine ⟨?_, ?_, ?_⟩
  · intro b hb
    cases l with
    | nil =>
      have hoff : false = now := h.last
      subst hoff
      exact (Option.mem_some_iff.mp hb).symm
    | cons a l => exact h.first b hb
  · refine List.isChain_append.mpr ⟨h.alternates, .singleton _, ?_⟩
    intro a ha b hb
    have hb : (!now) = b := Option.mem_some_iff.mp hb
    have ha : a = now := by
      rw [← h.last, Option.mem_def.mp ha]
      rfl
    rw [ha, ← hb]
    exact (Bool.not_ne_self now).symm
  · rw [List.getLast?_concat]
    rfl

/-- The change from `before` to `after`, if there is one. -/
def change (before after : Bool) : List Bool := if before = after then [] else [after]

theorem append_change (h : Toggles l now) (after : Bool) : Toggles (l ++ change now after) after := by
  unfold change
  split
  · rename_i heq
    rw [List.append_nil, ← heq]
    exact h
  · rename_i hne
    obtain rfl : after = !now := Bool.eq_not.mpr (Ne.symm hne)
    exact h.concat

end Toggles

variable {ρ β : Type}

def NetworkEvent.status? (peer : PeerId) : NetworkEvent ρ β → Option Bool
  | .peerConnected p => if p = peer then some true else none
  | .peerDisconnected p => if p = peer then some false else none
  | _ => none

def Action.event? : Action ρ β → Option (NetworkEvent ρ β)
  | .event e => some e
  | _ => none

def Action.status? (peer : PeerId) (a : Action ρ β) : Option Bool := a.event?.bind (NetworkEvent.status? peer)

def Quiet (acts : List (Action ρ β)) : Prop := ∀ a ∈ acts, ∀ peer, a.status? peer = none

namespace Quiet

variable {acts acts' : List (Action ρ β)}

theorem nil : Quiet ([] : List (Action ρ β)) := fun _ h => nomatch h

theorem cons {a : Action ρ β} (ha : ∀ peer, a.status? peer = none) (h : Quiet acts) : Quiet (a :: acts) := by
  intro b hb
  rcases List.mem_cons.mp hb with rfl | hb
  · exact ha
  · exact h b hb

theorem append (h : Quiet acts) (h' : Quiet acts') : Quiet (acts ++ acts') := by
  intro a ha
  rcases List.mem_append.mp ha with ha | ha
  · exact h a ha
  · exact h' a ha

theorem filterMap_eq_nil (h : Quiet acts) (peer : PeerId) : acts.filterMap (Action.status? peer) = [] :=
  List.filterMap_eq_nil_iff.mpr fun a ha => h a ha peer

theorem refuse (reply : Option (Ticket β)) (error : String) :
    Quiet (Action.refuse reply error : List (Action ρ β)) := by
  intro a ha
  obtain ⟨ticket, _, rfl⟩ := List.mem_map.mp ha
  exact fun _ => rfl

end Quiet

namespace Transfers

variable (cfg : ServiceConfig) (ready blocked : Finset PeerId) (peer : PeerId) (t : Transfers ρ β)

theorem quiet_drainPeer (jobs : List (TransferJob ρ β)) : Quiet (drainPeer cfg peer jobs t).2 := by
  refine drainPeer_induction (P := fun _ r => Quiet r.2) (fun _ => .nil) (fun _ => .nil) ?_ jobs t
  intro _ _ _ _ _ _ h
  exact .cons (fun _ => rfl) h

theorem quiet_drainPeers (peers : List PeerId) : Quiet (drainPeers cfg ready blocked peers t).2 := by
  refine drainPeers_induction (P := fun _ r => Quiet r.2) (fun _ => .nil) ?_ peers t
  intro t peer jobs _ _ h
  exact (quiet_drainPeer cfg peer t jobs).append h

theorem quiet_refill (queue queued : List (TransferJob ρ β)) : Quiet (refill queue queued).2 := by
  induction queued generalizing queue with
  | nil => exact .nil
  | cons job queued ih =>
    unfold refill
    split
    · exact (Quiet.refuse _ _).append (ih queue)
    · exact ih _

theorem quiet_unbuffer : Quiet (t.unbuffer peer).2 := by
  unfold unbuffer
  split
  · exact .nil
  · exact quiet_refill _ _

theorem quiet_abort : Quiet (t.abort cfg peer).2 := by
  intro a ha
  obtain ⟨e, _, ha⟩ := List.mem_flatMap.mp ha
  exact Quiet.refuse _ _ a ha

theorem quiet_hold (job : TransferJob ρ β) : Quiet (t.hold job).2 := by
  unfold hold
  split
  · split
    · exact Quiet.refuse _ _
    · exact .nil
  · exact .nil

theorem mem_queue_drainPeer {q : PeerId} (jobs : List (TransferJob ρ β))
    (h : q ∈ (drainPeer cfg peer jobs t).1.queue) : q = peer ∨ q ∈ t.queue := by
  refine drainPeer_induction (P := fun t r => q ∈ r.1.queue → q = peer ∨ q ∈ t.queue) (fun _ => .inr) ?_ ?_
    jobs t h
  · intro t hq
    exact .inr (AList.mem_erase.mp hq).2
  · intro t job rest drained _ _ ih hq
    rcases ih hq with hq | hq
    · exact .inl hq
    · exact (AList.mem_insert _).mp hq

theorem mem_queue_drainPeers {q : PeerId} (peers : List PeerId)
    (h : q ∈ (drainPeers cfg ready blocked peers t).1.queue) : q ∈ ready ∨ q ∈ t.queue := by
  refine drainPeers_induction (P := fun t r => q ∈ r.1.queue → q ∈ ready ∨ q ∈ t.queue) (fun _ => .inr) ?_
    peers t h
  intro t peer jobs others hready ih hq
  rcases ih hq with hq | hq
  · exact .inl hq
  · rcases mem_queue_drainPeer cfg peer t jobs hq with rfl | hq
    · exact .inl hready
    · exact .inr hq

theorem mem_queue_unbuffer {q : PeerId} (h : q ∈ (t.unbuffer peer).1.queue) : q = peer ∨ q ∈ t.queue := by
  unfold unbuffer at h
  split at h
  · exact .inr h
  · exact (AList.mem_insert _).mp h

theorem mem_queue_settle {q : PeerId} {id : OutboundRequestId} (h : q ∈ (t.settle id).1.queue) :
    q ∈ t.queue := by
  unfold settle at h
  split at h
  · exact h
  · exact h

theorem mem_queue_hold {q : PeerId} {job : TransferJob ρ β} (h : q ∈ (t.hold job).1.queue) :
    q ∈ t.queue := by
  unfold hold at h
  split at h
  · split at h
    · exact h
    · exact h
  · exact h

end Transfers

namespace Service

structure Consistent (s : Service ρ β) : Prop where
  shared : s.status.peers = s.status.transferReady
  apart : Disjoint s.status.transferReady s.status.transferBlocked
  queued : ∀ peer ∈ s.transfers.queue, peer ∈ s.status.transferReady

/-- The outcome is consistent, and the actions tell how the shared set has changed from `before`. -/
structure Tells (before : Finset PeerId) (r : Service ρ β × List (Action ρ β)) : Prop where
  consistent : r.1.Consistent
  told : ∀ peer, r.2.filterMap (Action.status? peer) =
    Toggles.change (decide (peer ∈ before)) (decide (peer ∈ r.1.status.peers))

variable {cfg : ServiceConfig} {order : List PeerId → List PeerId} {s : Service ρ β} {peer : PeerId}
  {acts : List (Action ρ β)}

theorem consistent_new : (new : Service ρ β).Consistent where
  shared := rfl
  apart := Finset.disjoint_empty_left _
  queued peer h := absurd h (AList.notMem_empty peer)

theorem tells_of_quiet {before : Finset PeerId} {r : Service ρ β × List (Action ρ β)}
    (hr : r.1.Consistent) (hpeers : r.1.status.peers = before) (hquiet : Quiet r.2) : Tells before r :=
  ⟨hr, fun peer => by rw [hquiet.filterMap_eq_nil, hpeers, Toggles.change, if_pos rfl]⟩

theorem Tells.surround {before : Finset PeerId} {r : Service ρ β × List (Action ρ β)} (h : Tells before r)
    {pre post : List (Action ρ β)} (hpre : Quiet pre) (hpost : Quiet post) :
    Tells before (r.1, pre ++ r.2 ++ post) :=
  ⟨h.consistent, fun peer => by
    rw [List.filterMap_append, List.filterMap_append, hpre.filterMap_eq_nil, hpost.filterMap_eq_nil,
      List.nil_append, List.append_nil, h.told]⟩

theorem Consistent.drain (h : s.Consistent) : (s.drain cfg order).1.Consistent := by
  refine ⟨h.shared, h.apart, fun peer hq => ?_⟩
  rcases Transfers.mem_queue_drainPeers cfg _ _ _ _ hq with hready | hq
  · exact hready
  · exact h.queued peer hq

theorem quiet_drain : Quiet (s.drain cfg order).2 := Transfers.quiet_drainPeers _ _ _ _ _

theorem told_connected (before : Finset PeerId) (peer q : PeerId) :
    (if peer ∈ before then [] else [.event (.peerConnected peer)] : List (Action ρ β)).filterMap
        (Action.status? q) =
      Toggles.change (decide (q ∈ before)) (decide (q ∈ insert peer before)) := by
  by_cases hq : q = peer
  · subst hq
    by_cases hin : q ∈ before <;>
      simp [hin, Toggles.change, Action.status?, Action.event?, NetworkEvent.status?]
  · by_cases hin : peer ∈ before <;>
      simp [hin, hq, Ne.symm hq, Toggles.change, Action.status?, Action.event?, NetworkEvent.status?]

theorem told_disconnected (before : Finset PeerId) (peer q : PeerId) :
    (if peer ∈ before then [.event (.peerDisconnected peer)] else [] : List (Action ρ β)).filterMap
        (Action.status? q) =
      Toggles.change (decide (q ∈ before)) (decide (q ∈ before.erase peer)) := by
  by_cases hq : q = peer
  · subst hq
    by_cases hin : q ∈ before <;>
      simp [hin, Toggles.change, Action.status?, Action.event?, NetworkEvent.status?]
  · by_cases hin : peer ∈ before <;>
      simp [hin, hq, Ne.symm hq, Toggles.change, Action.status?, Action.event?, NetworkEvent.status?]

theorem tells_welcome (h : s.Consistent) (peer : PeerId) :
    Tells s.status.peers (s.welcome cfg order peer) := by
  have hready : Consistent
      { s with status := s.status.ready peer, transfers := (s.transfers.unbuffer peer).1 } := by
    refine ⟨congrArg (insert peer) h.shared, ?_, fun q hq => ?_⟩
    · refine Finset.disjoint_left.mpr fun q hq hblocked => ?_
      obtain ⟨hne, hblocked⟩ := Finset.mem_erase.mp hblocked
      have hq := Finset.mem_of_mem_insert_of_ne hq hne
      exact Finset.disjoint_left.mp h.apart hq hblocked
    · rcases Transfers.mem_queue_unbuffer peer _ hq with rfl | hq
      · exact Finset.mem_insert_self _ _
      · exact Finset.mem_insert_of_mem (h.queued q hq)
  refine ⟨hready.drain, fun q => ?_⟩
  rw [welcome, List.filterMap_append, List.filterMap_append, quiet_drain.filterMap_eq_nil,
    (Transfers.quiet_unbuffer peer s.transfers).filterMap_eq_nil, List.append_nil, List.append_nil]
  exact told_connected s.status.peers peer q

theorem Consistent.remove (h : s.Consistent) (c : Connections) {st : PeerStatus} {t : Transfers ρ β}
    (hpeers : st.peers = s.status.peers.erase peer)
    (hready : st.transferReady = s.status.transferReady.erase peer)
    (hblocked : st.transferBlocked ⊆ insert peer s.status.transferBlocked)
    (hqueue : ∀ q ∈ t.queue, q ≠ peer ∧ q ∈ s.transfers.queue) :
    Consistent ⟨c, st, t⟩ := by
  refine ⟨?_, ?_, ?_⟩
  · rw [hpeers, hready, h.shared]
  · refine Finset.disjoint_left.mpr fun q hq hb => ?_
    rw [hready] at hq
    obtain ⟨hne, hq⟩ := Finset.mem_erase.mp hq
    have hb := Finset.mem_of_mem_insert_of_ne (hblocked hb) hne
    exact Finset.disjoint_left.mp h.apart hq hb
  · intro q hq
    obtain ⟨hne, hq⟩ := hqueue q hq
    rw [hready]
    exact Finset.mem_erase.mpr ⟨hne, h.queued q hq⟩

theorem tells_block (h : s.Consistent) (peer : PeerId) : Tells s.status.peers (s.block peer) :=
  ⟨h.remove _ rfl rfl subset_rfl fun _ hq => AList.mem_erase.mp hq,
    told_disconnected s.status.peers peer⟩

theorem tells_connectionEstablished (h : s.Consistent) (peer : PeerId) (connection : ConnectionId)
    (inbound : Bool) (num : Nat) :
    Tells s.status.peers (s.connectionEstablished cfg peer connection inbound num) := by
  unfold connectionEstablished
  split
  · dsimp only
    split
    · refine tells_of_quiet ⟨h.shared, h.apart, h.queued⟩ rfl ?_
      exact .cons (fun _ => rfl) .nil
    · exact tells_of_quiet ⟨h.shared, h.apart, h.queued⟩ rfl .nil
  · refine tells_of_quiet h rfl ?_
    exact .cons (fun _ => rfl) .nil

theorem tells_connectionClosed (h : s.Consistent) (peer : PeerId) (connection : ConnectionId)
    (num : Nat) : Tells s.status.peers (s.connectionClosed cfg peer connection num) := by
  have habort := Transfers.quiet_abort cfg peer s.transfers
  unfold connectionClosed
  dsimp only
  split
  · refine ⟨?_, fun q => ?_⟩
    · exact h.remove _ rfl rfl (Finset.subset_insert _ _) fun _ hq => AList.mem_erase.mp hq
    · rw [List.filterMap_append, habort.filterMap_eq_nil, List.nil_append]
      exact told_disconnected s.status.peers peer q
  split
  · exact tells_of_quiet ⟨h.shared, h.apart, h.queued⟩ rfl habort
  · exact tells_of_quiet ⟨h.shared, h.apart, h.queued⟩ rfl .nil

theorem tells_handshakeRequest (h : s.Consistent) (peer : PeerId) (request : HandshakeRequest) :
    Tells s.status.peers (s.handshakeRequest cfg order peer request) := by
  have hnext : Tells s.status.peers
      (if cfg.accepts request then s.welcome cfg order peer else s.block peer) := by
    split
    · exact tells_welcome h peer
    · exact tells_block h peer
  exact ⟨hnext.consistent, hnext.told⟩

theorem tells_handshakeResponse (h : s.Consistent) (id : OutboundRequestId)
    (response : HandshakeResponse) :
    Tells s.status.peers (s.handshakeResponse cfg order id response) := by
  unfold handshakeResponse
  split
  · exact tells_of_quiet h rfl .nil
  · rename_i peer _
    have hsettled : Consistent { s with status := s.status.settle id peer } :=
      ⟨h.shared, h.apart, h.queued⟩
    dsimp only
    split
    · exact tells_block hsettled peer
    split
    · exact tells_block hsettled peer
    · exact tells_welcome hsettled peer

theorem tells_handshakeFailure (h : s.Consistent) (peer : PeerId) (id : OutboundRequestId) :
    Tells s.status.peers (s.handshakeFailure peer id) := by
  have hsettled : Consistent { s with status := s.status.settle id peer } :=
    ⟨h.shared, h.apart, h.queued⟩
  exact tells_block hsettled peer

theorem Consistent.settle (h : s.Consistent) (id : OutboundRequestId) :
    Consistent { s with transfers := (s.transfers.settle id).1 } :=
  ⟨h.shared, h.apart, fun q hq => h.queued q (Transfers.mem_queue_settle _ hq)⟩

theorem tells_transferResponse (h : s.Consistent) (peer : PeerId) (id : OutboundRequestId)
    (response : β) : Tells s.status.peers (s.transferResponse cfg order peer id response) := by
  refine tells_of_quiet (h.settle id).drain rfl (.cons ?_ quiet_drain)
  intro q
  split <;> rfl

theorem tells_transferInboundFailure (h : s.Consistent) (peer : PeerId) (error : TransferFailure) :
    Tells s.status.peers (s.transferInboundFailure peer error) := by
  unfold transferInboundFailure
  split
  · exact tells_block h peer
  · exact tells_of_quiet h rfl .nil

theorem tells_transferFailure (h : s.Consistent) (peer : PeerId) (id : OutboundRequestId)
    (error : TransferFailure) : Tells s.status.peers (s.transferFailure cfg order peer id error) := by
  have hblocked := tells_transferInboundFailure (h.settle id) peer error
  refine ⟨hblocked.consistent.drain, fun q => ?_⟩
  exact (hblocked.surround (Quiet.refuse _ _) quiet_drain).told q

theorem tells_transferJob (h : s.Consistent) (job : TransferJob ρ β) :
    Tells s.status.peers (s.transferJob cfg order job) := by
  unfold transferJob
  split
  · exact tells_of_quiet h rfl .nil
  split
  · refine tells_of_quiet ⟨h.shared, h.apart, fun q hq => ?_⟩ rfl (Transfers.quiet_hold _ _)
    exact h.queued q (Transfers.mem_queue_hold _ hq)
  · rename_i hready
    dsimp only
    split
    · exact tells_of_quiet h rfl (Quiet.refuse _ _)
    · refine tells_of_quiet (Consistent.drain ⟨h.shared, h.apart, fun q hq => ?_⟩) rfl quiet_drain
      rcases (AList.mem_insert _).mp hq with rfl | hq
      · exact not_not.mp hready
      · exact h.queued q hq

theorem tells_handle (h : s.Consistent) (e : ServiceEvent ρ β) :
    Tells s.status.peers (s.handle cfg order e) := by
  cases e with
  | memTick availableMb => exact tells_of_quiet ⟨h.shared, h.apart, h.queued⟩ rfl .nil
  | connectionEstablished peer connection inbound num =>
    exact tells_connectionEstablished h peer connection inbound num
  | connectionClosed peer connection num => exact tells_connectionClosed h peer connection num
  | handshakeRequest peer request => exact tells_handshakeRequest h peer request
  | handshakeResponse id response => exact tells_handshakeResponse h id response
  | handshakeFailure peer id => exact tells_handshakeFailure h peer id
  | transferRequest peer request => exact tells_of_quiet h rfl (.cons (fun _ => rfl) .nil)
  | transferResponse peer id response => exact tells_transferResponse h peer id response
  | transferFailure peer id error => exact tells_transferFailure h peer id error
  | transferInboundFailure peer error => exact tells_transferInboundFailure h peer error
  | transferJob job => exact tells_transferJob h job

end Service

/-- The service, and the events it has emitted so far. -/
structure ServiceTrace (ρ β : Type) where
  service : Service ρ β
  events : List (NetworkEvent ρ β)

namespace ServiceTrace

def start : ServiceTrace ρ β := ⟨.new, []⟩

def step (cfg : ServiceConfig) (t : ServiceTrace ρ β) (op : ServiceOp ρ β) : Option (ServiceTrace ρ β) :=
  let handled := t.service.handle cfg op.order op.event
  some ⟨handled.1, t.events ++ handled.2.filterMap Action.event?⟩

def statusOf (t : ServiceTrace ρ β) (peer : PeerId) : List Bool :=
  t.events.filterMap (NetworkEvent.status? peer)

structure Consistent (t : ServiceTrace ρ β) : Prop where
  service : t.service.Consistent
  toggles : ∀ peer, Toggles (t.statusOf peer) (decide (peer ∈ t.service.status.peers))

theorem consistent_start : (start : ServiceTrace ρ β).Consistent :=
  ⟨Service.consistent_new, fun _ => Toggles.nil⟩

theorem Consistent.step {cfg : ServiceConfig} {t u : ServiceTrace ρ β} {op : ServiceOp ρ β}
    (h : t.Consistent) (hu : t.step cfg op = some u) : u.Consistent := by
  cases hu
  have htells : Service.Tells t.service.status.peers (t.service.handle cfg op.order op.event) :=
    Service.tells_handle h.service op.event
  refine ⟨htells.consistent, fun peer => ?_⟩
  have hnew := (List.filterMap_filterMap ..).trans (htells.told peer)
  rw [statusOf, List.filterMap_append, hnew]
  exact (h.toggles peer).append_change _

end ServiceTrace

/-- After every iteration the shared set is the set of ready peers, none of them blocked, only ready
peers have a queue, and the events about a peer alternate, the last one telling whether it is shared. -/
theorem peer_status_consistent (cfg : ServiceConfig) (ops : List (ServiceOp ρ β)) (t : ServiceTrace ρ β)
    (hrun : run (ServiceTrace.step cfg) .start ops = some t) :
    t.service.status.peers = t.service.status.transferReady ∧
      Disjoint t.service.status.transferReady t.service.status.transferBlocked ∧
      (∀ peer ∈ t.service.transfers.queue, peer ∈ t.service.status.transferReady) ∧
      ∀ peer, Toggles (t.statusOf peer) (decide (peer ∈ t.service.status.peers)) := by
  have hconsistent : t.Consistent :=
    always_run (I := ServiceTrace.Consistent) (fun _ _ _ h hu => h.step hu)
      ServiceTrace.consistent_start hrun
  exact ⟨hconsistent.service.shared, hconsistent.service.apart, hconsistent.service.queued,
    hconsistent.toggles⟩

def blockedAndBack : List (ServiceOp Unit Unit) :=
  [⟨.handshakeRequest (sampleIds true) sampleServiceConfig.handshakeRequest, id⟩,
    ⟨.transferInboundFailure (sampleIds true) ⟨true, ""⟩, id⟩,
    ⟨.handshakeRequest (sampleIds true) sampleServiceConfig.handshakeRequest, id⟩]

theorem peer_status_consistent_sample :
    ∃ t : ServiceTrace Unit Unit, run (ServiceTrace.step sampleServiceConfig) .start blockedAndBack = some t ∧
      t.statusOf (sampleIds true) = [true, false, true] ∧ Toggles [true, false, true] true := by
  obtain ⟨t, ht, hstatus, hpeer⟩ : ∃ t : ServiceTrace Unit Unit,
      run (ServiceTrace.step sampleServiceConfig) .start blockedAndBack = some t ∧
        t.statusOf (sampleIds true) = [true, false, true] ∧
        sampleIds true ∈ t.service.status.peers := exists_of_any (by decide +kernel)
  have htoggles := (peer_status_consistent sampleServiceConfig blockedAndBack t ht).2.2.2 (sampleIds true)
  rw [hstatus, decide_eq_true hpeer] at htoggles
  exact ⟨t, ht, hstatus, htoggles⟩

end Onvm
