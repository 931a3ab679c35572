import Mathlib.Data.Finset.Card
import Onvm.Tables
import Onvm.Types

/-! The loop of `network/service.rs`: what the service keeps about its connections, about the peers
it has shaken hands with, and about the transfers it sends to them. Each event of the loop is one
function of the state; what it does besides (messages, replies, events for the node) is the list of
actions it returns. -/

namespace Onvm

open ByteString Tables

abbrev ConnectionId := Nat
abbrev OutboundRequestId := Nat

structure HandshakeRequest where
  nodeVersion : String
  transferProtocol : String
  transferCodecFingerprint : Bytes32
deriving DecidableEq

structure HandshakeResponse where
  ok : Bool
  nodeVersion : String
  transferProtocol : String
  transferCodecFingerprint : Bytes32
  message : Option String
deriving DecidableEq

structure MemoryThrottleConfig where
  enable : Bool
  minAvailableMb : Nat
  maxTotalConnectionsUnderPressure : Nat

/-- What a build and its settings fix: the constants of `codec.rs`, and the limits of the service. -/
structure ServiceConfig where
  nodeVersion : String
  transferProtocol : String
  transferCodecFingerprint : Bytes32
  maxTotalConnections : Nat
  maxConnectionsPerPeer : Nat
  maxInboundConnections : Nat
  maxInboundStreams : Nat
  memoryThrottle : MemoryThrottleConfig
  showPeer : PeerId → String

namespace ServiceConfig

def maxOutboundTransferStreamsPerPeer (cfg : ServiceConfig) : Nat :=
  let v := cfg.maxInboundStreams / 4
  let v := if v < 2 then 2 else v
  if 32 < v then 32 else v

def maxOutboundTransferStreamsTotal (cfg : ServiceConfig) : Nat :=
  max cfg.maxOutboundTransferStreamsPerPeer (min 256 (cfg.maxOutboundTransferStreamsPerPeer * 8))

def handshakeRequest (cfg : ServiceConfig) : HandshakeRequest :=
  ⟨cfg.nodeVersion, cfg.transferProtocol, cfg.transferCodecFingerprint⟩

def accepts (cfg : ServiceConfig) (request : HandshakeRequest) : Bool :=
  request.transferProtocol = cfg.transferProtocol ∧
    request.transferCodecFingerprint = cfg.transferCodecFingerprint

def handshakeResponse (cfg : ServiceConfig) (ok : Bool) : HandshakeResponse where
  ok := ok
  nodeVersion := cfg.nodeVersion
  transferProtocol := cfg.transferProtocol
  transferCodecFingerprint := cfg.transferCodecFingerprint
  message :=
    if ok then none
    else some ("transfer mismatch: expected proto=" ++ cfg.transferProtocol ++ " fp=" ++
      hexEncode cfg.transferCodecFingerprint.bytes)

end ServiceConfig

/-- The sending half of the one-shot channel on which a caller waits for a response of type `β`. -/
structure Ticket (β : Type) where
  id : Nat
deriving DecidableEq

structure TransferJob (ρ β : Type) where
  peer : PeerId
  req : ρ
  reply : Option (Ticket β)

inductive NetworkEvent (ρ β : Type)
  | peerConnected (peer : PeerId)
  | peerDisconnected (peer : PeerId)
  | transferRequest (peer : PeerId) (request : ρ)
  | transferResponse (peer : PeerId) (response : β)

inductive Action (ρ β : Type)
  | closeConnection (connection : ConnectionId)
  | sendHandshake (id : OutboundRequestId) (peer : PeerId) (request : HandshakeRequest)
  | answerHandshake (peer : PeerId) (response : HandshakeResponse)
  | sendTransfer (id : OutboundRequestId) (peer : PeerId) (request : ρ)
  | reply (ticket : Ticket β) (result : Except String β)
  | event (e : NetworkEvent ρ β)

/-- `reply.send(Err(..))`, where somebody waits. -/
def Action.refuse {ρ β : Type} (reply : Option (Ticket β)) (error : String) : List (Action ρ β) :=
  reply.toList.map fun ticket => .reply ticket (.error error)

structure Connections where
  totalConnections : Nat
  inboundConnections : Nat
  countedConnections : Finset ConnectionId
  countedInbound : Finset ConnectionId
  memoryPressure : Bool

namespace Connections

def new : Connections := ⟨0, 0, ∅, ∅, false⟩

def effectiveMaxTotal (cfg : ServiceConfig) (c : Connections) : Nat :=
  max (if cfg.memoryThrottle.enable ∧ c.memoryPressure then
    cfg.memoryThrottle.maxTotalConnectionsUnderPressure else max cfg.maxTotalConnections 1) 1

def admits (cfg : ServiceConfig) (c : Connections) (inbound : Bool) (numEstablished : Nat) : Bool :=
  ¬ (inbound ∧ max cfg.maxInboundConnections 1 ≤ c.inboundConnections) ∧
    ¬ c.effectiveMaxTotal cfg ≤ c.totalConnections ∧
    ¬ max cfg.maxConnectionsPerPeer 1 < numEstablished

def count (c : Connections) (connection : ConnectionId) (inbound : Bool) : Connections :=
  { c with
    countedConnections := insert connection c.countedConnections
    totalConnections := c.totalConnections + 1
    countedInbound := if inbound then insert connection c.countedInbound else c.countedInbound
    inboundConnections := if inbound then c.inboundConnections + 1 else c.inboundConnections }

def uncount (c : Connections) (connection : ConnectionId) : Connections :=
  { c with
    countedConnections := c.countedConnections.erase connection
    totalConnections :=
      if connection ∈ c.countedConnections then c.totalConnections - 1 else c.totalConnections
    countedInbound := c.countedInbound.erase connection
    inboundConnections :=
      if connection ∈ c.countedInbound then c.inboundConnections - 1 else c.inboundConnections }

def memTick (cfg : ServiceConfig) (c : Connections) (availableMb : Nat) : Connections :=
  if cfg.memoryThrottle.enable then
    { c with memoryPressure := availableMb < cfg.memoryThrottle.minAvailableMb }
  else c

/-- The counters are the sizes of the sets, and what is counted is open. -/
structure Tallied (links : Finset ConnectionId) (c : Connections) : Prop where
  total : c.totalConnections = c.countedConnections.card
  inbound : c.inboundConnections = c.countedInbound.card
  counted : c.countedConnections ⊆ links
  countedInbound : c.countedInbound ⊆ links

variable {links : Finset ConnectionId} {c : Connections} {connection : ConnectionId}

theorem tallied_new : Tallied ∅ new := ⟨rfl, rfl, subset_rfl, subset_rfl⟩

theorem Tallied.count (h : Tallied links c) (hnew : connection ∉ links) (inbound : Bool) :
    Tallied (insert connection links) (c.count connection inbound) := by
  have hc : connection ∉ c.countedConnections := fun hm => hnew (h.counted hm)
  have hi : connection ∉ c.countedInbound := fun hm => hnew (h.countedInbound hm)
  have hopen : c.countedInbound ⊆ insert connection links :=
    h.countedInbound.trans (Finset.subset_insert _ _)
  refine ⟨?_, ?_, Finset.insert_subset_insert _ h.counted, ?_⟩
  · simp only [Connections.count, Finset.card_insert_of_notMem hc, h.total]
  · cases inbound with
    | false => exact h.inbound
    | true => simp only [Connections.count, if_true, Finset.card_insert_of_notMem hi, h.inbound]
  · cases inbound with
    | false => exact hopen
    | true => exact Finset.insert_subset_insert _ h.countedInbound

theorem Tallied.uncount (h : Tallied links c) :
    Tallied (links.erase connection) (c.uncount connection) := by
  refine ⟨?_, ?_, Finset.erase_subset_erase _ h.counted, Finset.erase_subset_erase _ h.countedInbound⟩
  · simp only [Connections.uncount, Finset.card_erase_eq_ite, h.total]
  · simp only [Connections.uncount, Finset.card_erase_eq_ite, h.inbound]

theorem Tallied.open (h : Tallied links c) : Tallied (insert connection links) c :=
  ⟨h.total, h.inbound, h.counted.trans (Finset.subset_insert _ _),
    h.countedInbound.trans (Finset.subset_insert _ _)⟩

theorem Tallied.memTick (h : Tallied links c) (cfg : ServiceConfig) (availableMb : Nat) :
    Tallied links (c.memTick cfg availableMb) := by
  unfold Connections.memTick
  split
  · exact ⟨h.total, h.inbound, h.counted, h.countedInbound⟩
  · exact h

theorem Tallied.admits_first (h : Tallied ∅ c) (cfg : ServiceConfig) (inbound : Bool) :
    c.admits cfg inbound 1 = true := by
  have ht : c.totalConnections = 0 := by
    rw [h.total, Finset.subset_empty.mp h.counted, Finset.card_empty]
  have hi : c.inboundConnections = 0 := by
    rw [h.inbound, Finset.subset_empty.mp h.countedInbound, Finset.card_empty]
  simp only [admits, effectiveMaxTotal, ht, hi, decide_eq_true_eq]
  omega

end Connections

/-- Who has shaken hands: `peers` is the set shared with the rest of the node. -/
structure PeerStatus where
  peers : Finset PeerId
  transferReady : Finset PeerId
  transferBlocked : Finset PeerId
  handshakeInflight : Finset PeerId
  handshakePending : Table OutboundRequestId PeerId
  nextHandshakeId : OutboundRequestId

namespace PeerStatus

def new : PeerStatus := ⟨∅, ∅, ∅, ∅, ∅, 0⟩

def greets (st : PeerStatus) (peer : PeerId) : Bool :=
  peer ∉ st.transferReady ∧ peer ∉ st.handshakeInflight ∧ peer ∉ st.transferBlocked

def greet (st : PeerStatus) (peer : PeerId) : PeerStatus :=
  { st with
    handshakePending := st.handshakePending.insert st.nextHandshakeId peer
    handshakeInflight := insert peer st.handshakeInflight
    nextHandshakeId := st.nextHandshakeId + 1 }

def ready (st : PeerStatus) (peer : PeerId) : PeerStatus :=
  { st with
    peers := insert peer st.peers
    transferBlocked := st.transferBlocked.erase peer
    transferReady := insert peer st.transferReady }

def block (st : PeerStatus) (peer : PeerId) : PeerStatus :=
  { st with
    peers := st.peers.erase peer
    transferReady := st.transferReady.erase peer
    transferBlocked := insert peer st.transferBlocked }

def forget (st : PeerStatus) (peer : PeerId) : PeerStatus :=
  { st with
    handshakeInflight := st.handshakeInflight.erase peer
    handshakePending := retain (fun _ p => p ≠ peer) st.handshakePending }

def settle (st : PeerStatus) (id : OutboundRequestId) (peer : PeerId) : PeerStatus :=
  { st with
    handshakePending := st.handshakePending.erase id
    handshakeInflight := st.handshakeInflight.erase peer }

def leave (st : PeerStatus) (peer : PeerId) : PeerStatus :=
  { st.forget peer with
    peers := st.peers.erase peer
    transferReady := st.transferReady.erase peer }

end PeerStatus

structure Transfers (ρ β : Type) where
  buffer : Table PeerId (List (TransferJob ρ β))
  queue : Table PeerId (List (TransferJob ρ β))
  pending : Table OutboundRequestId (PeerId × Option (Ticket β))
  inflightTotal : Nat
  inflightPerPeer : Table PeerId Nat
  nextTransferId : OutboundRequestId

namespace Transfers

variable {ρ β : Type}

def new : Transfers ρ β := ⟨∅, ∅, ∅, 0, ∅, 0⟩

/-- The first job of the peer's queue is sent; `rest` stays. -/
def send (t : Transfers ρ β) (peer : PeerId) (job : TransferJob ρ β) (rest : List (TransferJob ρ β)) :
    Transfers ρ β :=
  { t with
    queue := t.queue.insert peer rest
    pending := t.pending.insert t.nextTransferId (peer, job.reply)
    inflightTotal := t.inflightTotal + 1
    inflightPerPeer := t.inflightPerPeer.insert peer ((t.inflightPerPeer.lookup peer).getD 0 + 1)
    nextTransferId := t.nextTransferId + 1 }

/-- The inner loop of `drain_transfer_queues` over the jobs of one peer. Its `return` at the total
limit is a `break` here: the outer loop makes the same check for the next peer. -/
def drainPeer (cfg : ServiceConfig) (peer : PeerId) :
    List (TransferJob ρ β) → Transfers ρ β → Transfers ρ β × List (Action ρ β)
  | [], t =>
    if cfg.maxOutboundTransferStreamsTotal ≤ t.inflightTotal then (t, [])
    else if cfg.maxOutboundTransferStreamsPerPeer ≤ (t.inflightPerPeer.lookup peer).getD 0 then (t, [])
    else ({ t with queue := t.queue.erase peer }, [])
  | job :: rest, t =>
    if cfg.maxOutboundTransferStreamsTotal ≤ t.inflightTotal then (t, [])
    else if cfg.maxOutboundTransferStreamsPerPeer ≤ (t.inflightPerPeer.lookup peer).getD 0 then (t, [])
    else
      let drained := drainPeer cfg peer rest (t.send peer job rest)
      (drained.1, .sendTransfer t.nextTransferId peer job.req :: drained.2)

theorem drainPeer_induction {cfg : ServiceConfig} {peer : PeerId}
    {P : Transfers ρ β → Transfers ρ β × List (Action ρ β) → Prop} (stop : ∀ t, P t (t, []))
    (emptied : ∀ t : Transfers ρ β, P t ({ t with queue := t.queue.erase peer }, []))
    (send : ∀ t job rest drained, t.inflightTotal < cfg.maxOutboundTransferStreamsTotal →
      (t.inflightPerPeer.lookup peer).getD 0 < cfg.maxOutboundTransferStreamsPerPeer →
      P (t.send peer job rest) drained →
      P t (drained.1, .sendTransfer t.nextTransferId peer job.req :: drained.2))
    (jobs : List (TransferJob ρ β)) (t : Transfers ρ β) : P t (drainPeer cfg peer jobs t) := by
  induction jobs generalizing t with
  | nil =>
    unfold drainPeer
    split
    · exact stop t
    split
    · exact stop t
    · exact emptied t
  | cons job rest ih =>
    unfold drainPeer
    split
    · exact stop t
    split
    · exact stop t
    · rename_i htotal hpeer
      exact send t job rest _ (Nat.lt_of_not_le htotal) (Nat.lt_of_not_le hpeer) (ih _)

def drainPeers (cfg : ServiceConfig) (ready blocked : Finset PeerId) :
    List PeerId → Transfers ρ β → Transfers ρ β × List (Action ρ β)
  | [], t => (t, [])
  | peer :: peers, t =>
    if cfg.maxOutboundTransferStreamsTotal ≤ t.inflightTotal then (t, [])
    else if peer ∈ blocked ∨ peer ∉ ready then drainPeers cfg ready blocked peers t
    else
      let drained := drainPeer cfg peer ((t.queue.lookup peer).getD []) t
      let others := drainPeers cfg ready blocked peers drained.1
      (others.1, drained.2 ++ others.2)

theorem drainPeers_induction {cfg : ServiceConfig} {ready blocked : Finset PeerId}
    {P : Transfers ρ β → Transfers ρ β × List (Action ρ β) → Prop} (stop : ∀ t, P t (t, []))
    (next : ∀ t peer jobs others, peer ∈ ready → P (drainPeer cfg peer jobs t).1 others →
      P t (others.1, (drainPeer cfg peer jobs t).2 ++ others.2))
    (peers : List PeerId) (t : Transfers ρ β) : P t (drainPeers cfg ready blocked peers t) := by
  induction peers generalizing t with
  | nil => exact stop t
  | cons peer peers ih =>
    unfold drainPeers
    split
    · exact stop t
    split
    · exact ih t
    · rename_i hpeer
      have hready : peer ∈ ready := not_not.mp fun hnot => hpeer (.inr hnot)
      exact next t peer _ _ hready (ih _)

/-- `drain_transfer_queues`; `order` is the order in which the map gives its keys. -/
def drainTransferQueues (cfg : ServiceConfig) (order : List PeerId → List PeerId) (st : PeerStatus)
    (t : Transfers ρ β) : Transfers ρ β × List (Action ρ β) :=
  drainPeers cfg st.transferReady st.transferBlocked (order t.queue.keys) t

def refill : List (TransferJob ρ β) → List (TransferJob ρ β) → List (TransferJob ρ β) × List (Action ρ β)
  | queue, [] => (queue, [])
  | queue, job :: queued =>
    if 256 ≤ queue.length then
      let filled := refill queue queued
      (filled.1, Action.refuse job.reply "transfer queue full" ++ filled.2)
    else refill (queue ++ [job]) queued

def unbuffer (t : Transfers ρ β) (peer : PeerId) : Transfers ρ β × List (Action ρ β) :=
  match t.buffer.lookup peer with
  | none => (t, [])
  | some queued =>
    let filled := refill ((t.queue.lookup peer).getD []) queued
    ({ t with buffer := t.buffer.erase peer, queue := t.queue.insert peer filled.1 }, filled.2)

def discard (t : Transfers ρ β) (peer : PeerId) : Transfers ρ β :=
  { t with buffer := t.buffer.erase peer, queue := t.queue.erase peer }

def abort (cfg : ServiceConfig) (t : Transfers ρ β) (peer : PeerId) :
    Transfers ρ β × List (Action ρ β) :=
  let gone := t.pending.entries.filter fun e => e.2.1 = peer
  ({ t with
      pending := retain (fun _ v => v.1 ≠ peer) t.pending
      inflightTotal := if 0 < gone.length then t.inflightTotal - gone.length else t.inflightTotal
      inflightPerPeer :=
        if 0 < gone.length then t.inflightPerPeer.erase peer else t.inflightPerPeer },
    gone.flatMap fun e => Action.refuse e.2.2 ("peer " ++ cfg.showPeer peer ++ " disconnected"))

def settle (t : Transfers ρ β) (id : OutboundRequestId) :
    Transfers ρ β × Option (PeerId × Option (Ticket β)) :=
  match t.pending.lookup id with
  | none => (t, none)
  | some (peer, reply) =>
    ({ t with
        pending := t.pending.erase id
        inflightTotal := t.inflightTotal - 1
        inflightPerPeer :=
          match t.inflightPerPeer.lookup peer with
          | none => t.inflightPerPeer
          | some inflight =>
            if inflight - 1 = 0 then t.inflightPerPeer.erase peer
            else t.inflightPerPeer.insert peer (inflight - 1) },
      some (peer, reply))

def hold (t : Transfers ρ β) (job : TransferJob ρ β) : Transfers ρ β × List (Action ρ β) :=
  match (t.buffer.lookup job.peer).getD [] with
  | dropped :: kept =>
    if 64 ≤ (dropped :: kept).length then
      ({ t with buffer := t.buffer.insert job.peer (kept ++ [job]) },
        Action.refuse dropped.reply "transfer buffer full (peer not ready)")
    else ({ t with buffer := t.buffer.insert job.peer (dropped :: kept ++ [job]) }, [])
  | [] => ({ t with buffer := t.buffer.insert job.peer [job] }, [])

end Transfers

structure Service (ρ β : Type) where
  connections : Connections
  status : PeerStatus
  transfers : Transfers ρ β

/-- Why a transfer request failed, with the text of its debug format. Only a frame that does not
decode, an I/O error of kind `InvalidData`, is told from the rest. -/
structure TransferFailure where
  invalidData : Bool
  debug : String

inductive ServiceEvent (ρ β : Type)
  | memTick (availableMb : Nat)
  | connectionEstablished (peer : PeerId) (connection : ConnectionId) (inbound : Bool)
      (numEstablished : Nat)
  | connectionClosed (peer : PeerId) (connection : ConnectionId) (numEstablished : Nat)
  | handshakeRequest (peer : PeerId) (request : HandshakeRequest)
  | handshakeResponse (id : OutboundRequestId) (response : HandshakeResponse)
  | handshakeFailure (peer : PeerId) (id : OutboundRequestId)
  | transferRequest (peer : PeerId) (request : ρ)
  | transferResponse (peer : PeerId) (id : OutboundRequestId) (response : β)
  | transferFailure (peer : PeerId) (id : OutboundRequestId) (error : TransferFailure)
  | transferInboundFailure (peer : PeerId) (error : TransferFailure)
  | transferJob (job : TransferJob ρ β)

namespace Service

variable {ρ β : Type}

def new : Service ρ β := ⟨.new, .new, .new⟩

variable (cfg : ServiceConfig) (order : List PeerId → List PeerId) (s : Service ρ β)

def drain : Service ρ β × List (Action ρ β) :=
  let drained := s.transfers.drainTransferQueues cfg order s.status
  ({ s with transfers := drained.1 }, drained.2)

/-- The peer speaks the same transfer protocol: it is ready, and what was buffered for it is sent. -/
def welcome (peer : PeerId) : Service ρ β × List (Action ρ β) :=
  let unbuffered := s.transfers.unbuffer peer
  let drained := drain cfg order { s with status := s.status.ready peer, transfers := unbuffered.1 }
  (drained.1,
    (if peer ∈ s.status.peers then [] else [.event (.peerConnected peer)]) ++
      unbuffered.2 ++ drained.2)

def block (peer : PeerId) : Service ρ β × List (Action ρ β) :=
  ({ s with status := s.status.block peer, transfers := s.transfers.discard peer },
    if peer ∈ s.status.peers then [.event (.peerDisconnected peer)] else [])

def connectionEstablished (peer : PeerId) (connection : ConnectionId) (inbound : Bool)
    (numEstablished : Nat) : Service ρ β × List (Action ρ β) :=
  if s.connections.admits cfg inbound numEstablished then
    let connections := s.connections.count connection inbound
    if s.status.greets peer then
      ({ s with connections := connections, status := s.status.greet peer },
        [.sendHandshake s.status.nextHandshakeId peer cfg.handshakeRequest])
    else ({ s with connections := connections }, [])
  else (s, [.closeConnection connection])

def connectionClosed (peer : PeerId) (connection : ConnectionId) (numEstablished : Nat) :
    Service ρ β × List (Action ρ β) :=
  let connections := s.connections.uncount connection
  let aborted := s.transfers.abort cfg peer
  if numEstablished = 0 then
    ({ connections := connections
       status := s.status.leave peer
       transfers := aborted.1.discard peer },
      aborted.2 ++ if peer ∈ s.status.peers then [.event (.peerDisconnected peer)] else [])
  else if peer ∉ s.status.transferReady ∧ peer ∉ s.status.transferBlocked then
    ({ connections := connections, status := s.status.forget peer, transfers := aborted.1 }, aborted.2)
  else ({ s with connections := connections }, [])

def handshakeRequest (peer : PeerId) (request : HandshakeRequest) :
    Service ρ β × List (Action ρ β) :=
  let ok := cfg.accepts request
  let next := if ok then s.welcome cfg order peer else s.block peer
  (next.1, .answerHandshake peer (cfg.handshakeResponse ok) :: next.2)

def handshakeResponse (id : OutboundRequestId) (response : HandshakeResponse) :
    Service ρ β × List (Action ρ β) :=
  match s.status.handshakePending.lookup id with
  | none => (s, [])
  | some peer =>
    let s := { s with status := s.status.settle id peer }
    if ¬ response.ok then s.block peer
    else if response.transferProtocol ≠ cfg.transferProtocol ∨
        response.transferCodecFingerprint ≠ cfg.transferCodecFingerprint then s.block peer
    else s.welcome cfg order peer

def handshakeFailure (peer : PeerId) (id : OutboundRequestId) : Service ρ β × List (Action ρ β) :=
  block { s with status := s.status.settle id peer } peer

def transferResponse (peer : PeerId) (id : OutboundRequestId) (response : β) :
    Service ρ β × List (Action ρ β) :=
  let settled := s.transfers.settle id
  let drained := drain cfg order { s with transfers := settled.1 }
  (drained.1,
    (match settled.2 with
      | some (_, some ticket) => .reply ticket (.ok response)
      | some (_, none) => .event (.transferResponse peer response)
      | none => .event (.transferResponse peer response)) :: drained.2)

def transferFailure (peer : PeerId) (id : OutboundRequestId) (error : TransferFailure) :
    Service ρ β × List (Action ρ β) :=
  let settled := s.transfers.settle id
  let refused := Action.refuse (settled.2.bind Prod.snd)
    ("transfer outbound failure to " ++ cfg.showPeer peer ++ ": " ++ error.debug)
  let s := { s with transfers := settled.1 }
  let blocked := if error.invalidData then s.block peer else (s, [])
  let drained := blocked.1.drain cfg order
  (drained.1, refused ++ blocked.2 ++ drained.2)

def transferInboundFailure (peer : PeerId) (error : TransferFailure) :
    Service ρ β × List (Action ρ β) :=
  if error.invalidData then s.block peer else (s, [])

def transferJob (job : TransferJob ρ β) : Service ρ β × List (Action ρ β) :=
  if job.peer ∈ s.status.transferBlocked then (s, [])
  else if job.peer ∉ s.status.transferReady then
    let held := s.transfers.hold job
    ({ s with transfers := held.1 }, held.2)
  else
    let queue := (s.transfers.queue.lookup job.peer).getD []
    if 256 ≤ queue.length then (s, Action.refuse job.reply "transfer queue full")
    else drain cfg order
      { s with transfers := { s.transfers with queue := s.transfers.queue.insert job.peer (queue ++ [job]) } }

def handle : ServiceEvent ρ β → Service ρ β × List (Action ρ β)
  | .memTick availableMb => ({ s with connections := s.connections.memTick cfg availableMb }, [])
  | .connectionEstablished peer connection inbound num =>
    s.connectionEstablished cfg peer connection inbound num
  | .connectionClosed peer connection num => s.connectionClosed cfg peer connection num
  | .handshakeRequest peer request => s.handshakeRequest cfg order peer request
  | .handshakeResponse id response => s.handshakeResponse cfg order id response
  | .handshakeFailure peer id => s.handshakeFailure peer id
  | .transferRequest peer request => (s, [.event (.transferRequest peer request)])
  | .transferResponse peer id response => s.transferResponse cfg order peer id response
  | .transferFailure peer id error => s.transferFailure cfg order peer id error
  | .transferInboundFailure peer error => s.transferInboundFailure peer error
  | .transferJob job => s.transferJob cfg order job

end Service

/-- An iteration of the loop: the event, and the order in which the transfer queue gives its keys. -/
structure ServiceOp (ρ β : Type) where
  event : ServiceEvent ρ β
  order : List PeerId → List PeerId

def sampleServiceConfig : ServiceConfig where
  nodeVersion := "0.1.0"
  transferProtocol := "/onvm/transfer/3.0.0"
  transferCodecFingerprint := .ofByte 32 7
  maxTotalConnections := 64
  maxConnectionsPerPeer := 2
  maxInboundConnections := 32
  maxInboundStreams := 64
  memoryThrottle := ⟨false, 0, 0⟩
  showPeer _ := ""

def sampleIds (x : Bool) : PeerId := ⟨[if x then 1 else 0]⟩

end Onvm
