import Onvm.ForwardTurns
import Onvm.ReceiptOrigins

/-! The nodes as a network. Calls that a node does not lead are requests to the other nodes, which run
`submit_execution` themselves if they lead; every message about a receipt was sent by a node. -/

namespace Onvm

open ByteString OrderedStore Runs Std

/-- `handle_execute_via_leader_request` up to the call of `submit_execution`, which is `none`. -/
def handleExecuteViaLeaderRequest (pf : Platform) (s : Node) (p : ProgramId) : Option LeaderReply :=
  match s.catalog.getManifest pf p with
  | .error e => some (.error ("loading program manifest failed: " ++ e))
  | .ok none => some (.error "program not found")
  | .ok (some m) =>
    match m.committee with
    | none => some (.error "committee not set for program")
    | some c =>
      match leaderForHeight c (s.catalog.nextHeight p) with
      | none => some (.error "committee has no leader")
      | some leader => if leader = s.nodeId then none else some (.redirect leader)

/-- What has become of a request: its sender waits for it until it is answered, or gives it up. -/
inductive RequestStatus (ι : Type)
  | sent
  | refused (reply : LeaderReply)
  /-- The member runs the call, unless it has restarted since. -/
  | accepted (call : Option (ι × Nat))
  /-- Given up on its way; it may still arrive. -/
  | dropped
  | closed
deriving DecidableEq

structure LeaderRequest (ι : Type) where
  programId : ProgramId
  input : Bytes
  target : NodeId
  status : RequestStatus ι

/-- The nodes, the calls of theirs that forward, and the requests between them. -/
structure Net (ι : Type) where
  nodes : ι → Node
  forwards : ι → Nat → Option Forward
  requests : Nat → Option (LeaderRequest ι)

inductive NetEvent (ι : Type)
  /-- A client calls `submit_execution`. -/
  | client (i : ι) (t : Nat) (p : ProgramId) (input : Bytes)
  /-- A step that takes no message of another node about a receipt. -/
  | own (i : ι) (op : Op)
  /-- The `k`-th message that `j` has sent reaches `i`. -/
  | relay (j : ι) (k : Nat) (i : ι) (clock : UInt64 → UInt64)
  /-- `i` gets what `j` has stored for a height. -/
  | supply (j i : ι) (p : ProgramId) (height : UInt64) (clock : UInt64 → UInt64)
  | enter (i : ι) (t : Nat)
  | turn (i : ι) (t : Nat) (request : Nat)
  /-- The request reaches the member asked, whose call it becomes if it leads. -/
  | handle (request : Nat) (j : ι) (t : Nat)
  | answer (i : ι) (t : Nat)
  /-- The request has failed or timed out. -/
  | giveUp (i : ι) (t : Nat)
  | restart (i : ι)

def Phase.result : Phase → Option (Except String ExecutionOutcome)
  | .returned result | .concluded _ result => some result
  | _ => none

def LeaderReply.ofResult : Except String ExecutionOutcome → LeaderReply
  | .ok o => .outcome o
  | .error e => .error e

def Outgoing.op (clock : UInt64 → UInt64) : Outgoing → Op
  | .proposal m => .proposal m
  | .vote v => .deliver clock (.vote v)
  | .aggregatedReceipt b => .deliver clock (.aggregatedReceipt b)

namespace RequestStatus

variable {ι : Type}

def giveUp : RequestStatus ι → Option (RequestStatus ι)
  | .sent => some .dropped
  | .refused _ => some .closed
  | .accepted call => some (.accepted call)
  | .dropped | .closed => none

def refuse (reply : LeaderReply) : RequestStatus ι → Option (RequestStatus ι)
  | .sent => some (.refused reply)
  | .dropped => some .closed
  | _ => none

def arrives : RequestStatus ι → Bool
  | .sent | .dropped => true
  | _ => false

def lose [DecidableEq ι] (i : ι) : RequestStatus ι → RequestStatus ι
  | .accepted (some (j, t)) => if j = i then .accepted none else .accepted (some (j, t))
  | status => status

end RequestStatus

namespace Net

variable {ι : Type} [DecidableEq ι] (pf : Platform) (net : Net ι)

def start (boot : ι → Node) : Net ι := ⟨boot, fun _ _ => none, fun _ => none⟩

def setNode (i : ι) (s : Node) : Net ι := { net with nodes := Function.update net.nodes i s }

theorem nodes_setNode {i : ι} (s : Node) (i' : ι) :
    (net.setNode i s).nodes i' = if i' = i then s else net.nodes i' :=
  Function.update_apply ..

def setForward (i : ι) (t : Nat) (f : Option Forward) : Net ι :=
  { net with forwards := Function.update net.forwards i (Function.update (net.forwards i) t f) }

def setRequest (id : Nat) (q : LeaderRequest ι) : Net ι :=
  { net with requests := Function.update net.requests id (some q) }

def take (i : ι) (op : Op) : Option (Net ι) := (step pf (net.nodes i) op).map (net.setNode i)

/-- The steps of a node that ask nothing of the others: of these only calls that are to be forwarded,
and the messages about receipts, are left to the other events. -/
def free (i : ι) : Op → Bool
  | .call t (.route _) =>
    (net.forwards i t).isNone && ((net.nodes i).tasks[t]?.bind (startForward (net.nodes i))).isNone
  | .submit .. | .call _ (.forward _) | .proposal _ | .restart => false
  | .deliver _ (.vote _) | .deliver _ (.aggregatedReceipt _) | .deliver _ (.finalizedTransition _) => false
  | _ => true

def resume (i : ι) (t : Nat) (task : SubmitTask) : ForwardTurn → Option (Net ι)
  | .finish r => (afterForward (net.nodes i) t task r).map fun s => (net.setForward i t none).setNode i s
  | .next f => some (net.setForward i t (some { f with waiting := none }))
  | .ask .. => none

def awaited (i : ι) (t : Nat) : Option (Nat × LeaderRequest ι) :=
  ((net.forwards i t).bind (·.waiting)).bind fun id => (net.requests id).map (id, ·)

def replyTo (q : LeaderRequest ι) : Option LeaderReply :=
  match q.status with
  | .refused reply => some reply
  | .accepted (some (j, t)) => ((net.nodes j).tasks[t]?.bind (·.phase.result)).map .ofResult
  | _ => none

def conclude (i : ι) (t id : Nat) (q : LeaderRequest ι) (status : RequestStatus ι)
    (reply : Option LeaderReply) : Option (Net ι) :=
  match (net.nodes i).tasks[t]?, net.forwards i t with
  | some task, some f => (net.setRequest id { q with status := status }).resume i t task (forwardReply f reply)
  | _, _ => none

def handle (id : Nat) (q : LeaderRequest ι) (j : ι) (t : Nat) : Option (Net ι) :=
  match handleExecuteViaLeaderRequest pf (net.nodes j) q.programId with
  | some reply => (q.status.refuse reply).map fun status => net.setRequest id { q with status := status }
  | none =>
    (net.setRequest id { q with status := .accepted (some (j, t)) }).take pf j (.submit t q.programId q.input)

end Net

def netStep {ι : Type} [DecidableEq ι] (pf : Platform) (net : Net ι) : NetEvent ι → Option (Net ι)
  | .client i t p input => net.take pf i (.submit t p input)
  | .own i op => if net.free i op then net.take pf i op else none
  | .relay j k i clock => (net.nodes j).published[k]?.bind fun m => net.take pf i (m.op clock)
  | .supply j i p height clock =>
    net.take pf i
      (.deliver clock (.finalizedTransition ⟨p, height, (net.nodes j).loadFinalizedTransition p height⟩))
  | .enter i t =>
    match (net.nodes i).tasks[t]?.bind (startForward (net.nodes i)), net.forwards i t with
    | some f, none => some (net.setForward i t (some f))
    | _, _ => none
  | .turn i t id =>
    match (net.nodes i).tasks[t]?, net.forwards i t with
    | some task, some f =>
      if f.waiting.isSome then none
      else
        match forwardTurn pf (net.nodes i) task.programId f with
        | .ask target f' =>
          match net.requests id with
          | some _ => none
          | none =>
            some ((net.setForward i t (some { f' with waiting := some id })).setRequest id
              ⟨task.programId, task.input, target, .sent⟩)
        | turn => net.resume i t task turn
    | _, _ => none
  | .handle id j t =>
    (net.requests id).bind fun q =>
      if q.status.arrives ∧ (pf.peerIdOf q.target.bytes).toOption = some (net.nodes j).peerId then
        net.handle pf id q j t
      else none
  | .answer i t =>
    (net.awaited i t).bind fun w =>
      (net.replyTo w.2).bind fun reply => net.conclude i t w.1 w.2 .closed (some reply)
  | .giveUp i t =>
    (net.awaited i t).bind fun w => w.2.status.giveUp.bind fun status => net.conclude i t w.1 w.2 status none
  | .restart i =>
    some ⟨Function.update net.nodes i (net.nodes i).restart, Function.update net.forwards i fun _ => none,
      fun id => (net.requests id).map fun q => { q with status := q.status.lose i }⟩

end Onvm
