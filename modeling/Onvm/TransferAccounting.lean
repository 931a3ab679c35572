import Onvm.NetworkService
import Onvm.Runs
import Onvm.Tallies

/-! The counters of outbound transfers. Each is the number of pending requests of its kind, whatever
the order of responses, failures and disconnects, so the limits hold for the requests themselves. -/

namespace Onvm

open Tables Tallies Runs

variable {ρ β : Type}

namespace Transfers

/-- The pending requests with their counters; the owner of a request is the peer it was sent to. -/
def tally (t : Transfers ρ β) : Tally PeerId (Option (Ticket β)) :=
  ⟨t.pending, t.inflightTotal, t.inflightPerPeer, t.nextTransferId⟩

variable {cfg : ServiceConfig} {t : Transfers ρ β} {peer : PeerId}

theorem tally_send (job : TransferJob ρ β) (rest : List (TransferJob ρ β)) :
    (t.send peer job rest).tally = t.tally.issue peer job.reply := rfl

theorem tally_settle (id : OutboundRequestId) : (t.settle id).1.tally = t.tally.close id := by
  have hpending : t.tally.pending = t.pending := rfl
  rw [settle, Tally.close, hpending]
  cases t.pending.lookup id with
  | none => rfl
  | some v => rfl

theorem tally_abort (peer : PeerId) : (t.abort cfg peer).1.tally = t.tally.drop peer := rfl

theorem tally_unbuffer (peer : PeerId) : (t.unbuffer peer).1.tally = t.tally := by
  unfold unbuffer
  split <;> rfl

theorem tally_hold (job : TransferJob ρ β) : (t.hold job).1.tally = t.tally := by
  unfold hold
  split
  · split <;> rfl
  · rfl

/-- The counters are right and within the limits. -/
structure Accounted (cfg : ServiceConfig) (t : Tally PeerId (Option (Ticket β))) : Prop where
  sound : t.Sound
  total : t.total ≤ cfg.maxOutboundTransferStreamsTotal
  perPeer : ∀ peer, t.pendingOf peer ≤ cfg.maxOutboundTransferStreamsPerPeer

theorem accounted_new : Accounted cfg (new : Transfers ρ β).tally :=
  ⟨Tally.sound_empty, Nat.zero_le _, fun _ => Nat.zero_le _⟩

theorem Accounted.issue {t : Tally PeerId (Option (Ticket β))} (h : Accounted cfg t)
    (reply : Option (Ticket β)) (htotal : t.total < cfg.maxOutboundTransferStreamsTotal)
    (hpeer : t.counter peer < cfg.maxOutboundTransferStreamsPerPeer) :
    Accounted cfg (t.issue peer reply) := by
  refine ⟨h.sound.issue reply, htotal, fun q => ?_⟩
  have hq := h.perPeer q
  rw [h.sound.perOwner] at hpeer
  rw [h.sound.pendingOf_issue]
  by_cases hpq : peer = q
  · subst hpq
    rw [decide_eq_true rfl, Bool.toNat_true]
    exact hpeer
  · rwa [decide_eq_false hpq, Bool.toNat_false, Nat.add_zero]

theorem Accounted.close {t : Tally PeerId (Option (Ticket β))} (h : Accounted cfg t)
    (id : OutboundRequestId) : Accounted cfg (t.close id) :=
  ⟨h.sound.close id, Nat.le_trans (Tally.total_close id) h.total,
    fun q => Nat.le_trans (Tally.pendingOf_close id q) (h.perPeer q)⟩

theorem Accounted.drop {t : Tally PeerId (Option (Ticket β))} (h : Accounted cfg t) (peer : PeerId) :
    Accounted cfg (t.drop peer) := by
  refine ⟨h.sound.drop peer, ?_, fun q => ?_⟩
  · rw [Tally.total_drop]
    exact Nat.le_trans (Nat.sub_le _ _) h.total
  · rw [Tally.pendingOf_drop]
    split
    · exact Nat.zero_le _
    · exact h.perPeer q

theorem Accounted.drainPeer (h : Accounted cfg t.tally) (jobs : List (TransferJob ρ β)) :
    Accounted cfg (drainPeer cfg peer jobs t).1.tally := by
  refine drainPeer_induction (P := fun t r => Accounted cfg t.tally → Accounted cfg r.1.tally)
    (fun _ h => h) (fun _ h => h) ?_ jobs t h
  intro t job rest drained htotal hpeer ih h
  apply ih
  rw [tally_send]
  exact h.issue job.reply htotal hpeer

theorem Accounted.drainPeers (h : Accounted cfg t.tally) (ready blocked : Finset PeerId)
    (peers : List PeerId) : Accounted cfg (drainPeers cfg ready blocked peers t).1.tally := by
  refine drainPeers_induction (P := fun t r => Accounted cfg t.tally → Accounted cfg r.1.tally)
    (fun _ h => h) ?_ peers t h
  intro t peer jobs others _ ih h
  exact ih (h.drainPeer jobs)

end Transfers

namespace Service

open Transfers

variable {cfg : ServiceConfig} {order : List PeerId → List PeerId} {s : Service ρ β}

theorem accounted_drain (h : Accounted cfg s.transfers.tally) :
    Accounted cfg (s.drain cfg order).1.transfers.tally := h.drainPeers _ _ _

theorem accounted_welcome (h : Accounted cfg s.transfers.tally) (peer : PeerId) :
    Accounted cfg (s.welcome cfg order peer).1.transfers.tally := by
  refine accounted_drain ?_
  change Accounted cfg (s.transfers.unbuffer peer).1.tally
  rwa [tally_unbuffer]

theorem accounted_connectionEstablished (h : Accounted cfg s.transfers.tally) (peer : PeerId)
    (connection : ConnectionId) (inbound : Bool) (num : Nat) :
    Accounted cfg (s.connectionEstablished cfg peer connection inbound num).1.transfers.tally := by
  unfold connectionEstablished
  split
  · split <;> exact h
  · exact h

theorem accounted_connectionClosed (h : Accounted cfg s.transfers.tally) (peer : PeerId)
    (connection : ConnectionId) (num : Nat) :
    Accounted cfg (s.connectionClosed cfg peer connection num).1.transfers.tally := by
  have hdrop : Accounted cfg (s.transfers.abort cfg peer).1.tally := by
    rw [tally_abort]
    exact h.drop peer
  unfold connectionClosed
  split
  · exact hdrop
  split
  · exact hdrop
  · exact h

theorem accounted_handshakeRequest (h : Accounted cfg s.transfers.tally) (peer : PeerId)
    (request : HandshakeRequest) :
    Accounted cfg (s.handshakeRequest cfg order peer request).1.transfers.tally := by
  unfold handshakeRequest
  cases cfg.accepts request with
  | true => exact accounted_welcome h peer
  | false => exact h

theorem accounted_handshakeResponse (h : Accounted cfg s.transfers.tally) (id : OutboundRequestId)
    (response : HandshakeResponse) :
    Accounted cfg (s.handshakeResponse cfg order id response).1.transfers.tally := by
  unfold handshakeResponse
  split
  · exact h
  · dsimp only
    split
    · exact h
    split
    · exact h
    · exact accounted_welcome h _

theorem accounted_transferResponse (h : Accounted cfg s.transfers.tally) (peer : PeerId)
    (id : OutboundRequestId) (response : β) :
    Accounted cfg (s.transferResponse cfg order peer id response).1.transfers.tally := by
  refine accounted_drain ?_
  change Accounted cfg (s.transfers.settle id).1.tally
  rw [tally_settle]
  exact h.close id

theorem accounted_transferFailure (h : Accounted cfg s.transfers.tally) (peer : PeerId)
    (id : OutboundRequestId) (error : TransferFailure) :
    Accounted cfg (s.transferFailure cfg order peer id error).1.transfers.tally := by
  have hclose : Accounted cfg (s.transfers.settle id).1.tally := by
    rw [tally_settle]
    exact h.close id
  refine accounted_drain ?_
  cases error.invalidData with
  | true => exact hclose
  | false => exact hclose

theorem accounted_transferJob (h : Accounted cfg s.transfers.tally) (job : TransferJob ρ β) :
    Accounted cfg (s.transferJob cfg order job).1.transfers.tally := by
  unfold transferJob
  split
  · exact h
  split
  · change Accounted cfg (s.transfers.hold job).1.tally
    rwa [tally_hold]
  · dsimp only
    split
    · exact h
    · exact accounted_drain h

theorem accounted_handle (h : Accounted cfg s.transfers.tally) (e : ServiceEvent ρ β) :
    Accounted cfg (s.handle cfg order e).1.transfers.tally := by
  cases e with
  | memTick availableMb => exact h
  | connectionEstablished peer connection inbound num =>
    exact accounted_connectionEstablished h peer connection inbound num
  | connectionClosed peer connection num => exact accounted_connectionClosed h peer connection num
  | handshakeRequest peer request => exact accounted_handshakeRequest h peer request
  | handshakeResponse id response => exact accounted_handshakeResponse h id response
  | handshakeFailure peer id => exact h
  | transferRequest peer request => exact h
  | transferResponse peer id response => exact accounted_transferResponse h peer id response
  | transferFailure peer id error => exact accounted_transferFailure h peer id error
  | transferInboundFailure peer error =>
    change Accounted cfg (s.transferInboundFailure peer error).1.transfers.tally
    unfold transferInboundFailure
    split <;> exact h
  | transferJob job => exact accounted_transferJob h job

def step (cfg : ServiceConfig) (s : Service ρ β) (op : ServiceOp ρ β) : Option (Service ρ β) :=
  some (s.handle cfg op.order op.event).1

end Service

/-- After every iteration the counters are the numbers of pending requests, and no limit is passed. -/
theorem transfers_accounted (cfg : ServiceConfig) (ops : List (ServiceOp ρ β)) (s : Service ρ β)
    (hrun : run (Service.step cfg) .new ops = some s) :
    s.transfers.inflightTotal = s.transfers.pending.entries.length ∧
      s.transfers.inflightTotal = (s.transfers.inflightPerPeer.entries.map fun e => e.2).sum ∧
      (∀ peer, (s.transfers.inflightPerPeer.lookup peer).getD 0 =
        s.transfers.pending.entries.countP fun e => e.2.1 = peer) ∧
      s.transfers.pending.entries.length ≤ cfg.maxOutboundTransferStreamsTotal ∧
      ∀ peer, (s.transfers.pending.entries.countP fun e => e.2.1 = peer) ≤
        cfg.maxOutboundTransferStreamsPerPeer := by
  have haccounted : Transfers.Accounted cfg s.transfers.tally := by
    refine always_run (I := fun s : Service ρ β => Transfers.Accounted cfg s.transfers.tally) ?_
      Transfers.accounted_new hrun
    intro s op t h ht
    cases ht
    exact Service.accounted_handle h op.event
  have hsound := haccounted.sound
  refine ⟨hsound.total, hsound.sum, hsound.perOwner, ?_, haccounted.perPeer⟩
  exact hsound.total ▸ haccounted.total

def answeredTransfer : List (ServiceOp Unit Unit) :=
  [⟨.handshakeRequest (sampleIds true) sampleServiceConfig.handshakeRequest, id⟩,
    ⟨.transferJob ⟨sampleIds true, (), none⟩, id⟩, ⟨.transferJob ⟨sampleIds true, (), none⟩, id⟩,
    ⟨.transferJob ⟨sampleIds true, (), none⟩, id⟩, ⟨.transferResponse (sampleIds true) 1 (), id⟩]

theorem transfers_accounted_sample :
    ∃ s : Service Unit Unit, run (Service.step sampleServiceConfig) .new answeredTransfer = some s ∧
      s.transfers.inflightTotal = 2 ∧ s.transfers.pending.entries.length = 2 := by
  obtain ⟨s, hs, htwo⟩ : ∃ s : Service Unit Unit,
      run (Service.step sampleServiceConfig) .new answeredTransfer = some s ∧
        s.transfers.inflightTotal = 2 := exists_of_any (by decide +kernel)
  have htotal := (transfers_accounted sampleServiceConfig answeredTransfer s hs).1
  exact ⟨s, hs, htwo, htotal.symm.trans htwo⟩

end Onvm
