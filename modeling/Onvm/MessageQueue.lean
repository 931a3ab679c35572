import Onvm.Runs
import Onvm.Tables
import Onvm.HostApis

/-! The queue of cross-program messages of `message_queue.rs`: the entries in memory, their copies in the
database and the messages that wait for a response. Database writes succeed, and the copies are given as
the entries that they encode. -/

namespace Onvm

open ByteString Tables

structure CrossProgramMessage where
  id : Bytes32
  sourceProgram : ProgramId
  sourceSubnet : SubnetId
  targetProgram : ProgramId
  targetSubnet : SubnetId
  method : String
  payload : Bytes
  nonce : UInt64
  timestampMs : UInt64
  expiresAt : Option UInt64
  responseFor : Option Bytes32
deriving DecidableEq

inductive MessageStatus
  | pending
  | inFlight
  | delivered
  | failed
  | expired
  | responseReceived
deriving DecidableEq

structure MessageQueueEntry where
  message : CrossProgramMessage
  retryCount : UInt32
  nextRetryAt : UInt64
  status : MessageStatus
deriving DecidableEq

inductive MessageResult
  | success
  | methodNotFound
  | invalidPayload
  | trap
  | timeout
  | destinationUnavailable
  | forbidden
deriving DecidableEq

def MessageResult.code : MessageResult → Int32
  | success => 0
  | methodNotFound => -10
  | invalidPayload => -11
  | trap => -12
  | timeout => -13
  | destinationUnavailable => -14
  | forbidden => -15

structure MessageResponse where
  messageId : Bytes32
  result : MessageResult
  payload : Bytes
  errorCode : Option UInt32
  timestampMs : UInt64
deriving DecidableEq

def maxRetries : UInt32 := 5

def baseRetryDelayMs : UInt64 := 1000

def messageExpiryMs : UInt64 := 300000

structure MessageQueue where
  /-- The tree `cross_program_messages`. -/
  tree : Table Bytes32 MessageQueueEntry
  pending : Table Bytes32 MessageQueueEntry
  pendingResponses : Table Bytes32 CrossProgramMessage

/-- The random bytes and the clock readings of an asynchronous call. -/
structure CallReadings where
  id : Bytes32
  nonce : UInt64
  createdMs : UInt64
  expiryBaseMs : UInt64
  enqueuedMs : UInt64

def createCrossProgramMessage (sourceProgram : ProgramId) (sourceSubnet : SubnetId)
    (targetProgram : ProgramId) (targetSubnet : SubnetId) (method : String) (payload : Bytes)
    (responseFor : Option Bytes32) (readings : CallReadings) : CrossProgramMessage where
  id := readings.id
  sourceProgram
  sourceSubnet
  targetProgram
  targetSubnet
  method
  payload
  nonce := readings.nonce
  timestampMs := readings.createdMs
  expiresAt := some (readings.expiryBaseMs + messageExpiryMs)
  responseFor

def MessageQueueEntry.expired (entry : MessageQueueEntry) (now : UInt64) : Bool :=
  maxRetries ≤ entry.retryCount || entry.message.expiresAt.any fun e => e < now

namespace MessageQueue

def new : MessageQueue := ⟨∅, ∅, ∅⟩

variable (q : MessageQueue)

def persistEntry (entry : MessageQueueEntry) : MessageQueue :=
  { q with tree := q.tree.insert entry.message.id entry }

def removeEntry (id : Bytes32) : MessageQueue := { q with tree := q.tree.erase id }

def put (id : Bytes32) (entry : MessageQueueEntry) : MessageQueue :=
  { q with pending := q.pending.insert id entry }

def enqueue (message : CrossProgramMessage) (now : UInt64) : MessageQueue × Bytes32 :=
  let entry := ⟨message, 0, now, .pending⟩
  ((q.put message.id entry).persistEntry entry, message.id)

def registerResponseWait (message : CrossProgramMessage) : MessageQueue :=
  { q with pendingResponses := q.pendingResponses.insert message.id message }

def enqueueAsyncCall (sourceProgram targetProgram : ProgramId) (method : String) (payload : Bytes)
    (readings : CallReadings) : MessageQueue × Bytes32 :=
  let message := createCrossProgramMessage sourceProgram ⟨sourceProgram.bytes⟩ targetProgram
    ⟨targetProgram.bytes⟩ method payload none readings
  (q.registerResponseWait message).enqueue message readings.enqueuedMs

def pollResponse (id : Bytes32) (now : UInt64) : Option MessageResponse :=
  match q.pendingResponses.lookup id with
  | some _ => some ⟨id, .success, [], none, now⟩
  | none => none

/-- `onvm_call_result` with a queue, after the id has been read: the code, and the guest's memory. -/
def callResult (mem : Memory) (id : Bytes32) (outPtr outCap : Int32) (now : UInt64) : Int32 × Memory :=
  match q.pollResponse id now with
  | some response =>
    let len := Int32.ofNat response.payload.length
    if outCap < len then (-len, mem)
    else
      match mem.write (usize outPtr) response.payload with
      | none => (-4, mem)
      | some mem' => (response.result.code, mem')
  | none => (-1, mem)

def markInFlight (id : Bytes32) : MessageQueue :=
  match q.pending.lookup id with
  | some entry =>
    let entry := { entry with status := .inFlight }
    (q.put id entry).persistEntry entry
  | none => q

def markDelivered (id : Bytes32) : MessageQueue :=
  match q.pending.lookup id with
  | some _ => ({ q with pending := q.pending.erase id }).removeEntry id
  | none => q

def markFailed (id : Bytes32) (now : UInt64) : MessageQueue :=
  match q.pending.lookup id with
  | some entry =>
    let entry := { entry with retryCount := entry.retryCount + 1 }
    if entry.expired now then
      let entry := { entry with status := .failed }
      let q := (q.put id entry).persistEntry entry
      { q with pending := q.pending.erase id }
    else
      let entry := { entry with
        status := .pending
        nextRetryAt := now + baseRetryDelayMs * UInt64.ofNat (2 ^ entry.retryCount.toNat) }
      (q.put id entry).persistEntry entry
  | none => q

def handleResponse (response : MessageResponse) : MessageQueue × Option CrossProgramMessage :=
  match q.pendingResponses.lookup response.messageId with
  | some message =>
    let q := { q with pendingResponses := q.pendingResponses.erase response.messageId }
    match q.pending.lookup response.messageId with
    | some entry => (q.put response.messageId { entry with status := .responseReceived }, some message)
    | none => (q, some message)
  | none => (q, none)

end MessageQueue

inductive QueueOp
  | enqueue (message : CrossProgramMessage) (now : UInt64)
  | enqueueAsyncCall (sourceProgram targetProgram : ProgramId) (method : String) (payload : Bytes)
    (readings : CallReadings)
  | registerResponseWait (message : CrossProgramMessage)
  | markInFlight (id : Bytes32)
  | markDelivered (id : Bytes32)
  | markFailed (id : Bytes32) (now : UInt64)
  | handleResponse (response : MessageResponse)

namespace MessageQueue

def step (q : MessageQueue) : QueueOp → MessageQueue
  | .enqueue message now => (q.enqueue message now).1
  | .enqueueAsyncCall source target method payload readings =>
    (q.enqueueAsyncCall source target method payload readings).1
  | .registerResponseWait message => q.registerResponseWait message
  | .markInFlight id => q.markInFlight id
  | .markDelivered id => q.markDelivered id
  | .markFailed id now => q.markFailed id now
  | .handleResponse response => (q.handleResponse response).1

def run (ops : List QueueOp) : MessageQueue := ops.foldl step new

end MessageQueue

def QueueOp.wait (id : Bytes32) : QueueOp → Option Bool
  | .enqueueAsyncCall _ _ _ _ readings => if readings.id = id then some true else none
  | .registerResponseWait message => if message.id = id then some true else none
  | .handleResponse response => if response.messageId = id then some false else none
  | _ => none

def Awaits (ops : List QueueOp) (id : Bytes32) : Prop := Runs.lastNews (QueueOp.wait id) ops = some true

instance (ops : List QueueOp) (id : Bytes32) : Decidable (Awaits ops id) :=
  inferInstanceAs (Decidable (_ = _))

namespace MessageQueue

variable {q : MessageQueue}

theorem isSome_update {waits : Bytes32 → Option CrossProgramMessage} {id id' : Bytes32}
    {b : Option CrossProgramMessage} :
    (Function.update waits id b id').isSome =
      (if id = id' then some b.isSome else none).getD (waits id').isSome := by
  by_cases h : id = id'
  · subst h
    simp
  · simp [h, Function.update_of_ne (Ne.symm h)]

theorem waits_handleResponse (response : MessageResponse) :
    view (q.handleResponse response).1.pendingResponses =
      Function.update (view q.pendingResponses) response.messageId none := by
  unfold handleResponse
  cases h : q.pendingResponses.lookup response.messageId with
  | none => exact (Function.update_eq_self_iff.mpr h.symm).symm
  | some message =>
    dsimp only
    rw [← view_erase]
    split <;> rfl

theorem pendingResponses_markFailed (id : Bytes32) (now : UInt64) :
    (q.markFailed id now).pendingResponses = q.pendingResponses := by
  unfold markFailed
  cases q.pending.lookup id with
  | none => rfl
  | some entry =>
    dsimp only
    split_ifs <;> rfl

theorem waiting_step (op : QueueOp) (id : Bytes32) :
    (view (q.step op).pendingResponses id).isSome =
      (op.wait id).getD (view q.pendingResponses id).isSome := by
  cases op with
  | enqueue message now => rfl
  | enqueueAsyncCall source target method payload readings =>
    have h := view_insert q.pendingResponses readings.id
      (createCrossProgramMessage source ⟨source.bytes⟩ target ⟨target.bytes⟩ method payload none readings)
    exact (congrArg Option.isSome (congrFun h id)).trans isSome_update
  | registerResponseWait message =>
    have h := view_insert q.pendingResponses message.id message
    exact (congrArg Option.isSome (congrFun h id)).trans isSome_update
  | markInFlight id' =>
    dsimp only [step, markInFlight]
    cases q.pending.lookup id' <;> rfl
  | markDelivered id' =>
    dsimp only [step, markDelivered]
    cases q.pending.lookup id' <;> rfl
  | markFailed id' now =>
    rw [step, pendingResponses_markFailed]
    rfl
  | handleResponse response =>
    rw [step, waits_handleResponse]
    exact isSome_update

theorem waiting_iff_awaits (ops : List QueueOp) (id : Bytes32) :
    (view (run ops).pendingResponses id).isSome = true ↔ Awaits ops id := by
  refine Runs.history_foldl (f := step)
    (I := fun ops q => (view q.pendingResponses id).isSome = true ↔ Awaits ops id) ?_ ?_ ops
  · exact Iff.intro nofun nofun
  · intro ops q op h
    rw [waiting_step, Awaits, Runs.lastNews_concat]
    cases op.wait id with
    | none => exact h
    | some b => simp

theorem pollResponse_eq_some {id : Bytes32} {now : UInt64} {r : MessageResponse} :
    q.pollResponse id now = some r ↔
      (view q.pendingResponses id).isSome = true ∧ r = ⟨id, .success, [], none, now⟩ := by
  unfold pollResponse view
  cases q.pendingResponses.lookup id with
  | none => simp
  | some message => simp [eq_comm]

end MessageQueue

def Reported (ops : List QueueOp) (id : Bytes32) (result : MessageResult) (payload : Bytes) : Prop :=
  ∃ response, QueueOp.handleResponse response ∈ ops ∧ response.messageId = id ∧
    response.result = result ∧ response.payload = payload

/-- A poll answers while the message waits, always with an empty success. So it is faithful just if no
wait is open, or if an empty success has been received before. -/
theorem poll_faithful_iff (ops : List QueueOp) (id : Bytes32) (now : UInt64) :
    ((MessageQueue.run ops).pollResponse id now = none ↔ ¬ Awaits ops id) ∧
      ((∀ r, (MessageQueue.run ops).pollResponse id now = some r → Reported ops id r.result r.payload) ↔
        (¬ Awaits ops id ∨ Reported ops id .success [])) := by
  have hpoll : ∀ r, (MessageQueue.run ops).pollResponse id now = some r ↔
      Awaits ops id ∧ r = ⟨id, .success, [], none, now⟩ := fun r => by
    rw [MessageQueue.pollResponse_eq_some, MessageQueue.waiting_iff_awaits]
  constructor
  · rw [Option.eq_none_iff_forall_ne_some]
    constructor
    · intro hnone hawaits
      exact hnone _ ((hpoll _).mpr ⟨hawaits, rfl⟩)
    · intro hnot r hr
      exact hnot ((hpoll r).mp hr).1
  · constructor
    · intro hfaithful
      by_cases hawaits : Awaits ops id
      · exact .inr (hfaithful _ ((hpoll _).mpr ⟨hawaits, rfl⟩))
      · exact .inl hawaits
    · rintro (hnot | hreported) r hr
      · exact absurd ((hpoll r).mp hr).1 hnot
      · obtain ⟨-, rfl⟩ := (hpoll r).mp hr
        exact hreported

/-- The operation ends a message for good, or brings the response to a message that is still there. -/
def MessageQueue.Parts (q : MessageQueue) : QueueOp → Prop
  | .markFailed id now =>
    ∃ entry ∈ view q.pending id, { entry with retryCount := entry.retryCount + 1 }.expired now = true
  | .handleResponse response =>
    (view q.pendingResponses response.messageId).isSome = true ∧
      (view q.pending response.messageId).isSome = true
  | _ => False

/-- What an operation does to the copies and to the entries in memory. -/
inductive MessageQueue.Writes (q : MessageQueue) (op : QueueOp) (q' : MessageQueue) : Prop
  | none (h : ¬ q.Parts op) (htree : view q'.tree = view q.tree) (hpending : view q'.pending = view q.pending)
  | both (h : ¬ q.Parts op) (id : Bytes32) (entry : MessageQueueEntry) (hid : entry.message.id = id)
    (hretries : entry.retryCount < maxRetries) (hstatus : entry.status ≠ .responseReceived)
    (htree : view q'.tree = Function.update (view q.tree) id (some entry))
    (hpending : view q'.pending = Function.update (view q.pending) id (some entry))
  | removed (h : ¬ q.Parts op) (id : Bytes32) (htree : view q'.tree = Function.update (view q.tree) id none)
    (hpending : view q'.pending = Function.update (view q.pending) id none)
  | failed (h : q.Parts op) (id : Bytes32) (entry : MessageQueueEntry) (hstatus : entry.status = .failed)
    (htree : view q'.tree = Function.update (view q.tree) id (some entry))
    (hpending : view q'.pending = Function.update (view q.pending) id none)
  | answered (h : q.Parts op) (id : Bytes32) (entry : MessageQueueEntry) (hentry : entry ∈ view q.pending id)
    (htree : view q'.tree = view q.tree)
    (hpending : view q'.pending =
      Function.update (view q.pending) id (some { entry with status := .responseReceived }))

/-- Entries are kept under their own id with retries left, and no copy says that the response is there. -/
structure MessageQueue.Sound (q : MessageQueue) : Prop where
  held : ∀ id, ∀ entry ∈ view q.pending id, entry.message.id = id ∧ entry.retryCount < maxRetries
  stored : ∀ id, ∀ entry ∈ view q.tree id, entry.status ≠ .responseReceived

namespace MessageQueue

variable {q : MessageQueue}

theorem writes_persisted {op : QueueOp} {q' : MessageQueue} {id : Bytes32} {entry : MessageQueueEntry}
    (h : ¬ q.Parts op) (hid : entry.message.id = id) (hretries : entry.retryCount < maxRetries)
    (hstatus : entry.status ≠ .responseReceived) (htree : q'.tree = q.tree)
    (hpending : q'.pending = q.pending) :
    q.Writes op ((q'.put id entry).persistEntry entry) := by
  refine .both h id entry hid hretries hstatus ?_ ?_
  · rw [← htree, ← view_insert, ← hid]
    rfl
  · rw [← hpending, ← view_insert]
    rfl

theorem writes_markFailed (hq : q.Sound) (id : Bytes32) (now : UInt64) :
    q.Writes (.markFailed id now) (q.markFailed id now) := by
  unfold markFailed
  cases hl : q.pending.lookup id with
  | none =>
    refine .none (fun hparts => ?_) rfl rfl
    obtain ⟨entry, hentry, -⟩ := hparts
    exact Option.some_ne_none entry (hentry.symm.trans hl)
  | some entry =>
    have hid := (hq.held id entry hl).1
    dsimp only
    split_ifs with hexpired
    · refine .failed ⟨entry, hl, hexpired⟩ id
        { entry with retryCount := entry.retryCount + 1, status := .failed } rfl ?_ ?_
      · rw [← hid, ← view_insert]
        rfl
      · change view ((q.pending.insert id _).erase id) = _
        rw [view_erase, view_insert, Function.update_idem]
    · have hretries : entry.retryCount + 1 < maxRetries := by
        unfold MessageQueueEntry.expired at hexpired
        simp only [Bool.or_eq_true, not_or, decide_eq_true_eq] at hexpired
        exact UInt32.not_le.mp hexpired.1
      refine writes_persisted (fun hparts => ?_) hid hretries nofun rfl rfl
      obtain ⟨entry', hentry', hexpired'⟩ := hparts
      obtain rfl := Option.some.inj (hentry'.symm.trans hl)
      exact hexpired hexpired'

theorem writes_handleResponse (response : MessageResponse) :
    q.Writes (.handleResponse response) (q.handleResponse response).1 := by
  unfold handleResponse
  cases hw : q.pendingResponses.lookup response.messageId with
  | none =>
    refine .none (fun hparts => ?_) rfl rfl
    have hwaits := hparts.1
    rw [view, hw] at hwaits
    cases hwaits
  | some message =>
    dsimp only
    cases hl : q.pending.lookup response.messageId with
    | none =>
      refine .none (fun hparts => ?_) rfl rfl
      have hheld := hparts.2
      rw [view, hl] at hheld
      cases hheld
    | some entry =>
      refine .answered ⟨?_, ?_⟩ response.messageId entry hl rfl (view_insert q.pending _ _)
      · rw [view, hw]
        rfl
      · rw [view, hl]
        rfl

theorem writes_step (hq : q.Sound) (op : QueueOp) : q.Writes op (q.step op) := by
  have hfirst : (0 : UInt32) < maxRetries := by decide
  cases op with
  | enqueue message now => exact writes_persisted id rfl hfirst nofun rfl rfl
  | enqueueAsyncCall source target method payload readings =>
    exact writes_persisted id rfl hfirst nofun rfl rfl
  | registerResponseWait message => exact .none id rfl rfl
  | markInFlight id' =>
    dsimp only [step, markInFlight]
    cases hl : q.pending.lookup id' with
    | none => exact .none id rfl rfl
    | some entry =>
      obtain ⟨hid, hretries⟩ := hq.held id' entry hl
      exact writes_persisted id hid hretries nofun rfl rfl
  | markDelivered id' =>
    dsimp only [step, markDelivered]
    cases hl : q.pending.lookup id' with
    | none => exact .none id rfl rfl
    | some entry => exact .removed id id' (view_erase q.tree id') (view_erase q.pending id')
  | markFailed id' now => exact writes_markFailed hq id' now
  | handleResponse response => exact writes_handleResponse response

theorem Sound.step (hq : q.Sound) (op : QueueOp) : (q.step op).Sound := by
  cases writes_step hq op with
  | none _ htree hpending => exact ⟨hpending ▸ hq.held, htree ▸ hq.stored⟩
  | both _ id entry hid hretries hstatus htree hpending =>
    constructor
    · rw [hpending]
      exact forall_mem_update hq.held (by simpa using ⟨hid, hretries⟩)
    · rw [htree]
      exact forall_mem_update hq.stored (by simpa using hstatus)
  | removed _ id htree hpending =>
    constructor
    · rw [hpending]
      exact forall_mem_update hq.held nofun
    · rw [htree]
      exact forall_mem_update hq.stored nofun
  | failed _ id entry hstatus htree hpending =>
    constructor
    · rw [hpending]
      exact forall_mem_update hq.held nofun
    · rw [htree]
      exact forall_mem_update hq.stored (by simp [hstatus])
  | answered _ id entry hentry htree hpending =>
    constructor
    · rw [hpending]
      exact forall_mem_update hq.held (by simpa using hq.held id entry hentry)
    · rw [htree]
      exact hq.stored

theorem sound_new : new.Sound := by
  constructor <;> intro id entry hentry <;> cases hentry

theorem sound_run (ops : List QueueOp) : (run ops).Sound :=
  Runs.history_foldl (I := fun (_ : List QueueOp) (q : MessageQueue) => q.Sound) sound_new
    (fun _ _ op hq => hq.step op) ops

def Mirrored (q : MessageQueue) : Prop := view q.tree = view q.pending

theorem Mirrored.step_iff (h : q.Mirrored) (hq : q.Sound) (op : QueueOp) :
    (q.step op).Mirrored ↔ ¬ q.Parts op := by
  unfold Mirrored at h ⊢
  cases writes_step hq op with
  | none hparts htree hpending =>
    rw [htree, hpending]
    exact iff_of_true h hparts
  | both hparts id entry _ _ _ htree hpending =>
    rw [htree, hpending, h]
    exact iff_of_true rfl hparts
  | removed hparts id htree hpending =>
    rw [htree, hpending, h]
    exact iff_of_true rfl hparts
  | failed hparts id entry _ htree hpending =>
    refine iff_of_false (fun heq => ?_) (not_not_intro hparts)
    rw [htree, hpending] at heq
    have hat := congrFun heq id
    rw [Function.update_self, Function.update_self] at hat
    cases hat
  | answered hparts id entry hentry htree hpending =>
    refine iff_of_false (fun heq => ?_) (not_not_intro hparts)
    rw [htree, hpending] at heq
    have hat := congrFun heq id
    rw [Function.update_self] at hat
    exact hq.stored id _ hat rfl

end MessageQueue

/-- Entries in memory have retries left. The copies are the same entries after each operation, with
retries left too, just if no message fails for good and none is answered while it is still there. -/
theorem queue_mirrored_iff (ops : List QueueOp) :
    (∀ id, ∀ entry ∈ view (MessageQueue.run ops).pending id, entry.retryCount < 5) ∧
      ((∀ front, front <+: ops →
          view (MessageQueue.run front).tree = view (MessageQueue.run front).pending ∧
            ∀ id, ∀ entry ∈ view (MessageQueue.run front).tree id, entry.retryCount < 5) ↔
        ∀ front op, front ++ [op] <+: ops → ¬ (MessageQueue.run front).Parts op) := by
  have hconcat : ∀ (front : List QueueOp) (op : QueueOp),
      MessageQueue.run (front ++ [op]) = (MessageQueue.run front).step op := fun front op => by
    rw [MessageQueue.run, List.foldl_append]
    rfl
  refine ⟨fun id entry hentry => ((MessageQueue.sound_run ops).held id entry hentry).2,
    fun hmirrored front op hbegin => ?_, fun hkept => ?_⟩
  · have hfront := (hmirrored front ((List.prefix_append front [op]).trans hbegin)).1
    have hafter := (hmirrored (front ++ [op]) hbegin).1
    rw [hconcat] at hafter
    exact (MessageQueue.Mirrored.step_iff hfront (MessageQueue.sound_run front) op).mp hafter
  · have hmirrored : ∀ front, front <+: ops → (MessageQueue.run front).Mirrored := by
      intro front
      induction front using List.reverseRecOn with
      | nil => exact fun _ => rfl
      | append_singleton front op ih =>
        intro hbegin
        have hfront := ih ((List.prefix_append front [op]).trans hbegin)
        rw [hconcat]
        exact (hfront.step_iff (MessageQueue.sound_run front) op).mpr (hkept front op hbegin)
    intro front hbegin
    have hfront : view _ = view _ := hmirrored front hbegin
    refine ⟨hfront, ?_⟩
    rw [hfront]
    exact fun id entry hentry => ((MessageQueue.sound_run front).held id entry hentry).2

def sampleMessage : CrossProgramMessage :=
  ⟨.ofByte 32 1, ⟨.ofByte 32 2⟩, ⟨.ofByte 32 2⟩, ⟨.ofByte 32 3⟩, ⟨.ofByte 32 3⟩, "m", [], 0, 0, some 10, none⟩

def sampleResponse : MessageResponse := ⟨.ofByte 32 1, .trap, [7], some 1, 5⟩

/-- A message without a response is polled as answered, and after its response as unanswered. -/
theorem unanswered_poll_succeeds :
    (MessageQueue.run [.registerResponseWait sampleMessage, .enqueue sampleMessage 0]).pollResponse
        sampleMessage.id 3 = some ⟨sampleMessage.id, .success, [], none, 3⟩ ∧
      (MessageQueue.run [.registerResponseWait sampleMessage, .enqueue sampleMessage 0,
        .handleResponse sampleResponse]).pollResponse sampleMessage.id 6 = none := by
  decide +kernel

/-- A failed message stays in the database, and a response is only noted in memory. -/
theorem copies_differ :
    view (MessageQueue.run [.enqueue sampleMessage 0, .markFailed sampleMessage.id 11]).tree
        sampleMessage.id = some ⟨sampleMessage, 1, 0, .failed⟩ ∧
      view (MessageQueue.run [.enqueue sampleMessage 0, .markFailed sampleMessage.id 11]).pending
        sampleMessage.id = none ∧
      view (MessageQueue.run [.registerResponseWait sampleMessage, .enqueue sampleMessage 0,
        .handleResponse sampleResponse]).tree sampleMessage.id = some ⟨sampleMessage, 0, 0, .pending⟩ ∧
      view (MessageQueue.run [.registerResponseWait sampleMessage, .enqueue sampleMessage 0,
        .handleResponse sampleResponse]).pending sampleMessage.id =
          some ⟨sampleMessage, 0, 0, .responseReceived⟩ := by
  decide +kernel

end Onvm
