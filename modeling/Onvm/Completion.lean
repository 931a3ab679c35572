import Onvm.CommittedChain
import Onvm.Threads

/-! What a call of `submit_execution` may conclude from the result it is sent. The result travels from a
pending transition through `handle_finalized_receipt`, whose Ok also covers the cases in which nothing was
committed, and other threads may come between any two of its reads and writes. -/

namespace Onvm

open ByteString OrderedStore Runs Std

/-- What `φ` says of the receipt and the outcome of a call that has proposed and not returned;
a call that has returned may own anything, one that has not proposed nothing. -/
def Phase.Owns (φ : ExecutionReceipt → ExecutionOutcome → Prop) : Phase → Prop
  | .sign _ r o => φ r o
  | .settle r o => φ r o
  | .wait r o => φ r o
  | .concluded _ _ => True
  | _ => False

def Phase.proposed : Phase → Option (ExecutionReceipt × ExecutionOutcome)
  | .sign _ r o => some (r, o)
  | .settle r o => some (r, o)
  | .wait r o => some (r, o)
  | _ => none

theorem Phase.not_owns_of_early {φ : ExecutionReceipt → ExecutionOutcome → Prop} {phase : Phase}
    (h : phase.early = true) : ¬ phase.Owns φ := by
  cases phase <;> first | exact id | cases h

theorem Phase.Owns.of_proposed {φ : ExecutionReceipt → ExecutionOutcome → Prop} {phase : Phase}
    {r : ExecutionReceipt} {o : ExecutionOutcome} (hp : phase.Owns φ) (h : phase.proposed = some (r, o)) :
    φ r o := by
  cases phase <;> first | (cases h; exact hp) | cases h

theorem Phase.Owns.imp {φ ψ : ExecutionReceipt → ExecutionOutcome → Prop} {phase : Phase} (hp : phase.Owns φ)
    (h : ∀ r o, phase.proposed = some (r, o) → φ r o → ψ r o) : phase.Owns ψ := by
  cases phase <;> first | exact h _ _ rfl hp | exact hp

theorem Phase.Owns.after {φ : ExecutionReceipt → ExecutionOutcome → Prop} {phase : Phase}
    (h : phase.Owns φ) : phase.after.Owns φ := by
  cases phase <;> exact h

/-- `φ` holds of what the call `t` has proposed and waits for. -/
def Node.Owned (s : Node) (t : Nat) (φ : ProgramId → ExecutionReceipt → ExecutionOutcome → Prop) : Prop :=
  ∃ task, s.tasks[t]? = some task ∧ task.phase.Owns (φ task.programId)

def Node.KeepsOwned (s s' : Node) : Prop := ∀ t φ, s.Owned t φ → s'.Owned t φ

/-- A pending transition of the receipt `r` holds the sender of the call `t`. -/
def Node.Awaits (s : Node) (t : Nat) (r : ExecutionReceipt) (writes : List StateWrite) : Prop :=
  ∃ (id : ReceiptId) (e : PendingTransition), s.pending[id]? = some e ∧ e.completion = some t ∧
    e.receipt = r ∧ e.stateWrites = writes

/-- No transition waits for a call in `s'` that did not in `s`. -/
def Node.Carries (s s' : Node) : Prop := ∀ t r writes, s'.Awaits t r writes → s.Awaits t r writes

/-- The receipt `r` and the writes are those of the call's own proposal. -/
structure Promises (pf : Platform) (r : ExecutionReceipt) (writes : List StateWrite) (p : ProgramId)
    (r' : ExecutionReceipt) (o : ExecutionOutcome) : Prop where
  receipt : r = r'
  writes : writes = o.stateWrites
  program : r.programId = p
  root : r.stateRootOut = o.stateRoot
  digest : stateWritesDigest pf o.stateWrites = r.writeDigest

section Calls

variable {pf : Platform} {s s' : Node} {t t' : Nat} {φ ψ : ProgramId → ExecutionReceipt → ExecutionOutcome → Prop}

theorem Node.Owned.imp (h : s.Owned t φ) (hi : ∀ task r o, s.tasks[t]? = some task →
      task.phase.proposed = some (r, o) → φ task.programId r o → ψ task.programId r o) : s.Owned t ψ := by
  obtain ⟨task, ht, ho⟩ := h
  exact ⟨task, ht, ho.imp fun r o hp => hi task r o ht hp⟩

theorem Node.keepsOwned_of_tasks (h : s'.tasks = s.tasks) : s.KeepsOwned s' := by
  rintro t φ ⟨task, ht, ho⟩
  exact ⟨task, h ▸ ht, ho⟩

theorem Node.keepsOwned_of_insert {task' : SubmitTask} (h : s'.tasks = s.tasks.insert t task')
    (hkeep : ∀ task, s.tasks[t]? = some task → ∀ φ : ProgramId → ExecutionReceipt → ExecutionOutcome → Prop,
      task.phase.Owns (φ task.programId) → task'.phase.Owns (φ task'.programId)) : s.KeepsOwned s' := by
  rintro t' φ ⟨task, ht, ho⟩
  rw [Node.Owned, h, getElem?_insert_nat]
  split
  · rename_i heq
    subst heq
    exact ⟨task', rfl, hkeep task ht φ ho⟩
  · exact ⟨task, ht, ho⟩

theorem Node.keepsOwned_of_early {task task' : SubmitTask} (ht : s.tasks[t]? = some task)
    (hearly : task.phase.early = true) (h : s'.tasks = s.tasks.insert t task') : s.KeepsOwned s' := by
  refine Node.keepsOwned_of_insert h fun task₁ ht₁ φ ho => ?_
  rw [ht] at ht₁
  cases ht₁
  exact absurd ho (Phase.not_owns_of_early hearly)

theorem Node.keepsOwned_of_phase {task : SubmitTask} {phase : Phase} (ht : s.tasks[t]? = some task)
    (h : s'.tasks = s.tasks.insert t { task with phase := phase })
    (hkeep : ∀ φ, task.phase.Owns φ → phase.Owns φ) : s.KeepsOwned s' := by
  refine Node.keepsOwned_of_insert h fun task₁ ht₁ φ ho => ?_
  rw [ht] at ht₁
  cases ht₁
  exact hkeep _ ho

theorem Node.carries_of_pending (h : s'.pending = s.pending) : s.Carries s' := by
  rintro t r writes ⟨id, e, he, hh⟩
  exact ⟨id, e, h ▸ he, hh⟩

theorem Node.carries_of_erase {id : ReceiptId} (h : s'.pending = s.pending.erase id) : s.Carries s' := by
  rintro t r writes ⟨id', e, he, hh⟩
  rw [h, ExtTreeMap.getElem?_erase] at he
  split at he
  · cases he
  · exact ⟨id', e, he, hh⟩

theorem Node.carries_of_renews {id : ReceiptId} {e : PendingTransition} (hr : s.Renews id e)
    (h : s'.pending = s.pending.insert id e) : s.Carries s' := by
  rintro t r writes ⟨id', e', he', hc, rfl, rfl⟩
  rw [h, ExtTreeMap.getElem?_insert] at he'
  split at he'
  · cases he'
    obtain ⟨old, ho, hoc, hreceipt, hwrites⟩ := hr t hc
    exact ⟨id, old, ho, hoc, hreceipt.symm, hwrites.symm⟩
  · exact ⟨id', e', he', hc, rfl, rfl⟩

end Calls

section Starts

variable {pf : Platform} {S S' : NodeThreads}

/-- What the beginning of an operation does to the calls. -/
structure KeepsCalls (pf : Platform) (s s' : Node) : Prop where
  owned : s.KeepsOwned s'
  pending : ∀ t r writes, s'.Awaits t r writes → s.Awaits t r writes ∨ s'.Owned t (Promises pf r writes)
  sent : s'.sent = s.sent

theorem KeepsCalls.of_pending {s s' : Node} (howned : s.KeepsOwned s') (hpending : s'.pending = s.pending)
    (hsent : s'.sent = s.sent) : KeepsCalls pf s s' :=
  ⟨howned, fun t r writes h => .inl (Node.carries_of_pending hpending t r writes h), hsent⟩

theorem KeepsCalls.propose {s : Node} {t : Nat} {task : SubmitTask} (ht : s.tasks[t]? = some task)
    (hearly : task.phase.early = true) (c : CommitteeCertificate) (height : UInt64) (rootIn : StateRoot)
    (o : ExecutionOutcome) : KeepsCalls pf s (submitPropose pf s t task c height rootIn o) := by
  obtain ⟨e, hs⟩ | ⟨-, hs⟩ := @submitPropose_cases pf s t task c height rootIn o
  · rw [hs]
    exact .of_pending (Node.keepsOwned_of_early ht hearly rfl) rfl rfl
  · rw [hs]
    refine ⟨Node.keepsOwned_of_early ht hearly rfl, ?_, rfl⟩
    rintro t' r writes ⟨id, e, he, hc, rfl, rfl⟩
    simp only [ExtTreeMap.getElem?_insert] at he
    split at he
    · cases he
      cases hc
      right
      simp only [Node.Owned]
      rw [getElem?_insert_nat, if_pos rfl]
      exact ⟨_, rfl, Promises.mk rfl rfl rfl rfl rfl⟩
    · exact .inl ⟨id, e, he, hc, rfl, rfl⟩

theorem CallStart.calls {t : Nat} {task : SubmitTask} (ht : S.shared.tasks[t]? = some task)
    (h : CallStart pf S t task S') : KeepsCalls pf S.shared S'.shared := by
  have hsame : KeepsCalls pf S.shared S.shared := .of_pending (Node.keepsOwned_of_tasks rfl) rfl rfl
  cases h with
  | advance hearly ha =>
    refine .of_pending ?_ ha.pending ha.sent
    rcases ha.tasks with htasks | ⟨phase, -, htasks⟩
    · exact Node.keepsOwned_of_tasks htasks
    · exact Node.keepsOwned_of_early ht hearly htasks
  | propose hph => exact .propose ht (by rw [hph]; rfl) _ _ _ _
  | refused => exact .of_pending (Node.keepsOwned_of_phase ht rfl fun _ _ => trivial) rfl rfl
  | sign => exact .of_pending (Node.keepsOwned_of_tasks rfl) rfl rfl
  | settle => exact hsame
  | expire => exact hsame
  | finish hph hs =>
    obtain ⟨result, rfl, -⟩ := submitFinish_cases hs
    exact .of_pending (Node.keepsOwned_of_phase ht rfl fun _ _ => trivial) rfl rfl

theorem Start.calls {op : Op} (h : Start pf S op S') :
    S' = .idle S.shared.restart ∨ KeepsCalls pf S.shared S'.shared := by
  have hsame : ∀ {s' : Node}, s'.tasks = S.shared.tasks → s'.pending = S.shared.pending →
      s'.sent = S.shared.sent → KeepsCalls pf S.shared s' :=
    fun htasks hpending hsent => .of_pending (Node.keepsOwned_of_tasks htasks) hpending hsent
  cases h with
  | submit hnone =>
    refine .inr (.of_pending (Node.keepsOwned_of_insert rfl fun task ht => ?_) rfl rfl)
    rw [hnone] at ht
    cases ht
  | call ht hc => exact .inr (hc.calls ht)
  | restart => exact .inl rfl
  | _ => exact .inr (hsame rfl rfl rfl)

end Starts

def ThreadPoint.carried : ThreadPoint → Option (AggregatedReceiptBundle × Nat)
  | .receive h | .defer h | .ingest h | .keep h | .readHeight h | .apply _ (some h) _ =>
    h.completion.join.map fun t => (h.bundle, t)
  | .announce b completion => completion.map fun t => (b, t)
  | _ => none

def ThreadPoint.tells (t : Nat) : ThreadPoint → Bool
  | .notify t' (.ok _) => t' == t
  | _ => false

def ThreadPoint.entering : ThreadPoint → Option AggregatedReceiptBundle
  | .receive ⟨b, some (some _)⟩ => some b
  | _ => none

section Moves

variable {pf : Platform} {clock : UInt64 → UInt64} {th : Thread} {s s' : Node} {x y : ThreadPoint} {t : Nat}
  {b : AggregatedReceiptBundle}

theorem Node.calls_of_core (h : s'.core = s.core) :
    s'.tasks = s.tasks ∧ s'.pending = s.pending ∧ s'.sent = s.sent := by
  have htasks := congrArg Node.tasks h
  have hpend := congrArg Node.pending h
  have hsent := congrArg Node.sent h
  exact ⟨htasks, hpend, hsent⟩

theorem Move.calls (h : Move pf clock th s x s' y) : s.KeepsOwned s' ∧ s.Carries s' := by
  have hsame : ∀ {s' : Node}, s'.tasks = s.tasks ∧ s'.pending = s.pending ∧ s'.sent = s.sent →
      s.KeepsOwned s' ∧ s.Carries s' :=
    fun h => ⟨Node.keepsOwned_of_tasks h.1, Node.carries_of_pending h.2.1⟩
  cases h with
  | aside _ _ h => exact hsame (Node.calls_of_core h)
  | renew _ _ h => exact ⟨Node.keepsOwned_of_tasks rfl, Node.carries_of_renews h rfl⟩
  | finalize => exact ⟨Node.keepsOwned_of_tasks rfl, Node.carries_of_erase rfl⟩
  | enter h => exact hsame (Node.calls_of_core h)
  | apply hs => exact hsame (Node.calls_of_rest (applyStep_cases hs).rest)
  | notify => exact ⟨Node.keepsOwned_of_tasks rfl, Node.carries_of_pending rfl⟩
  | expire ht => exact ⟨Node.keepsOwned_of_phase ht rfl fun _ _ => trivial, Node.carries_of_erase rfl⟩
  | resume ht => exact ⟨Node.keepsOwned_of_phase ht rfl fun _ ho => ho.after, Node.carries_of_pending rfl⟩
  | _ => exact hsame ⟨rfl, rfl, rfl⟩

theorem Move.sent (h : Move pf clock th s x s' y) :
    s'.sent = s.sent ∨ ∃ t result, x = .notify t result ∧ s'.sent = s.sent.insert t result := by
  cases h with
  | aside _ _ h => exact .inl (Node.calls_of_core h).2.2
  | enter h => exact .inl (Node.calls_of_core h).2.2
  | apply hs => exact .inl (Node.calls_of_rest (applyStep_cases hs).rest).2.2
  | notify => exact .inr ⟨_, _, rfl, rfl⟩
  | _ => exact .inl rfl

theorem ThreadPoint.carried_of_starting (h : x.starting = true) : x.carried = none := by
  cases x with
  | receive h' => rw [ThreadPoint.carried, Option.isNone_iff_eq_none.mp h]; rfl
  | _ => first | rfl | cases h

theorem ThreadPoint.tells_of_starting (h : x.starting = true) : x.tells t = false := by
  cases x <;> first | rfl | cases h

theorem ThreadPoint.carried_of_quiet (h : x.quiet = true) : x.carried = none :=
  ThreadPoint.carried_of_starting (ThreadPoint.starting_of_quiet h)

theorem ThreadPoint.tells_of_quiet (h : x.quiet = true) : x.tells t = false :=
  ThreadPoint.tells_of_starting (ThreadPoint.starting_of_quiet h)

theorem notifyPoint_carried (completion : Option Nat) (result : Except String Unit) :
    (notifyPoint th completion result).carried = none := by
  cases completion
  · exact ThreadPoint.carried_of_quiet Thread.over_quiet
  · rfl

theorem notifyPoint_tells {completion : Option Nat} {result : Except String Unit}
    (h : (notifyPoint th completion result).tells t = true) : completion = some t ∧ result = .ok () := by
  cases completion with
  | none => rw [notifyPoint, ThreadPoint.tells_of_quiet Thread.over_quiet] at h; cases h
  | some t' =>
    cases result with
    | error e => cases h
    | ok u => exact ⟨congrArg some (beq_iff_eq.mp h), rfl⟩

theorem handledPoint_tells (h : Option Handling) (result : Except String Unit) :
    (handledPoint th h result).tells t = false := by
  unfold handledPoint
  split
  · split
    · rfl
    · by_contra ht
      cases (notifyPoint_tells ((Bool.not_eq_false _).mp ht)).2
  · exact ThreadPoint.tells_of_quiet Thread.over_quiet

theorem handledPoint_carried {h : Option Handling} {result : Except String Unit}
    (hc : (handledPoint th h result).carried = some (b, t)) :
    result = .ok () ∧ h = some ⟨b, some (some t)⟩ := by
  unfold handledPoint at hc
  split at hc
  · split at hc
    · obtain ⟨t', rfl, he⟩ := Option.map_eq_some_iff.mp hc
      cases he
      exact ⟨rfl, rfl⟩
    · rw [notifyPoint_carried] at hc
      cases hc
  · rw [ThreadPoint.carried_of_quiet Thread.over_quiet] at hc
    cases hc

theorem Move.carried (h : Move pf clock th s x s' y) (hy : y.carried = some (b, t)) :
    x.carried = some (b, t) ∨ s.Awaits t b.receipt.receipt b.stateWrites ∧ ∃ hd, y = .receive hd := by
  have hquiet : ∀ {y : ThreadPoint}, y.quiet = true → y.carried = some (b, t) → False := by
    intro y hq hy
    rw [ThreadPoint.carried_of_quiet hq] at hy
    cases hy
  cases h with
  | aside _ hq => exact (hquiet hq hy).elim
  | renew _ hq => exact (hquiet hq hy).elim
  | @finalize x id entry _ hr =>
    unfold finalizePoint at hy
    split at hy
    · rename_i b' hb
      obtain ⟨t', ht, he⟩ := Option.map_eq_some_iff.mp hy
      cases he
      obtain ⟨old, ho, hc, hreceipt, hwrites⟩ := hr _ ht
      obtain ⟨hbr, -, hbw⟩ := assembleBundle_fields hb
      refine .inr ⟨⟨id, old, ho, hc, (hbr.trans hreceipt).symm, (hbw.trans hwrites).symm⟩,
        ⟨b', some entry.completion⟩, ?_⟩
      rw [finalizePoint, hb]
    · exact (hquiet Thread.over_quiet hy).elim
  | mismatch =>
    obtain ⟨-, hd⟩ := handledPoint_carried hy
    cases hd
    exact .inl rfl
  | fail =>
    cases (handledPoint_carried hy).1
  | defer =>
    obtain ⟨-, hd⟩ := handledPoint_carried hy
    cases hd
    exact .inl rfl
  | @apply p h x y _ hs =>
    left
    cases y with
    | done r =>
      obtain ⟨-, rfl⟩ := handledPoint_carried hy
      rfl
    | _ => cases h <;> exact hy
  | announce =>
    rw [notifyPoint_carried] at hy
    cases hy
  | notify => exact (hquiet Thread.over_quiet hy).elim
  | _ => first | exact .inl hy | cases hy

theorem Move.tells (h : Move pf clock th s x s' y) (hy : y.tells t = true) :
    ∃ b, x = .announce b (some t) := by
  have hquiet : ∀ {y : ThreadPoint}, y.quiet = true → y.tells t = true → False := by
    intro y hq hy
    rw [ThreadPoint.tells_of_quiet hq] at hy
    cases hy
  have hhandled : ∀ {hd : Option Handling} {result : Except String Unit},
      (handledPoint th hd result).tells t = true → False := by
    intro hd result hy
    rw [handledPoint_tells] at hy
    cases hy
  cases h with
  | announce =>
    obtain ⟨rfl, -⟩ := notifyPoint_tells hy
    exact ⟨_, rfl⟩
  | aside _ hq => exact (hquiet hq hy).elim
  | renew _ hq => exact (hquiet hq hy).elim
  | finalize =>
    unfold finalizePoint at hy
    split at hy
    · cases hy
    · exact (hquiet Thread.over_quiet hy).elim
  | mismatch => exact (hhandled hy).elim
  | fail => exact (hhandled hy).elim
  | defer => exact (hhandled hy).elim
  | @apply p h x y _ hs =>
    cases y with
    | done r => exact (hhandled hy).elim
    | _ => cases hy
  | notify => exact (hquiet Thread.over_quiet hy).elim
  | _ => cases hy

end Moves

def Ledger.CommitsReceipt (L : Ledger) (r : ExecutionReceipt) : Prop :=
  ∃ c, L.catalog.getStateCommitment r.programId r.height = some c ∧ c.root = r.stateRootOut ∧
    c.stateDeltaRoot = some r.writeDigest

def Node.committed (s : Node) (p : ProgramId) (height : UInt64) : Option (StateRoot × Option Bytes32) :=
  (s.catalog.getStateCommitment p height).map fun c => (c.root, c.stateDeltaRoot)

def Node.CommitsOutcome (pf : Platform) (s : Node) (p : ProgramId) (r : ExecutionReceipt)
    (o : ExecutionOutcome) : Prop :=
  s.committed p r.height = some (o.stateRoot, some (stateWritesDigest pf o.stateWrites))

/-- The bundle can be applied to the ledger as it is, or its receipt is the one committed at its height. -/
structure InPlace (pf : Platform) (L : Ledger) (b : AggregatedReceiptBundle) : Prop where
  committee : L.catalog.committee pf b.receipt.receipt.programId = .ok (some b.committee)
  applies : (L.catalog.expectedHeight b.receipt.receipt.programId = .ok b.receipt.receipt.height ∧
      b.receipt.receipt.stateRootIn = L.root pf b.receipt.receipt.programId ∧
      computeRootAfterWrites pf L.states b.receipt.receipt.programId b.stateWrites =
        b.receipt.receipt.stateRootOut) ∨
    L.CommitsReceipt b.receipt.receipt

/-- All that the handling of the bundle reads is the same in `L'`. -/
structure SameView (pf : Platform) (b : AggregatedReceiptBundle) (L L' : Ledger) : Prop where
  entries : L'.states.entries b.receipt.receipt.programId = L.states.entries b.receipt.receipt.programId
  committee : L'.catalog.committee pf b.receipt.receipt.programId =
    L.catalog.committee pf b.receipt.receipt.programId
  latest : L'.catalog.latestStateCommitment b.receipt.receipt.programId =
    L.catalog.latestStateCommitment b.receipt.receipt.programId
  commitment : L'.catalog.getStateCommitment b.receipt.receipt.programId b.receipt.receipt.height =
    L.catalog.getStateCommitment b.receipt.receipt.programId b.receipt.receipt.height
  bundle : L'.finalized.get (bundleKey b) = L.finalized.get (bundleKey b)

def ApplyPoint.Tracks (pf : Platform) (L : Ledger) (b : AggregatedReceiptBundle) : ApplyPoint → Prop
  | .readCommittee => Appliable pf b.receipt.receipt.programId L b
  | .readHeight C => C = b.committee ∧ Appliable pf b.receipt.receipt.programId L b
  | .loadBundle C height =>
    C = b.committee ∧ height = b.receipt.receipt.height ∧ Appliable pf b.receipt.receipt.programId L b
  | .ingest b' | .readRoot b' | .predict b' _ => b' = b ∧ Appliable pf b.receipt.receipt.programId L b
  | .write b' _ rest =>
    b' = b ∧ rootOfMap pf (writeEntries (L.states.entries b.receipt.receipt.programId) rest) =
      b.receipt.receipt.stateRootOut
  | .readApplied b' _ =>
    b' = b ∧ rootOfMap pf (L.states.entries b.receipt.receipt.programId) = b.receipt.receipt.stateRootOut
  | .commit b' _ root => b' = b ∧ root = b.receipt.receipt.stateRootOut
  | .done _ => False

/-- The loop is beyond `height`. -/
def ApplyPoint.Past (height : UInt64) : ApplyPoint → Prop
  | .loadBundle _ height' => height < height'
  | .ingest b | .readRoot b | .predict b _ | .write b _ _ | .readApplied b _ | .commit b _ _ =>
    height < b.receipt.receipt.height
  | _ => True

def ThreadPoint.OnTrack (pf : Platform) (L : Ledger) (b : AggregatedReceiptBundle) : ThreadPoint → Prop
  | .ingest _ => InPlace pf L b
  | .keep _ => InPlace pf L b ∧ verifyAggregatedReceipt pf b.receipt b.committee = .ok ()
  | .readHeight _ => Appliable pf b.receipt.receipt.programId L b ∨ L.CommitsReceipt b.receipt.receipt
  | .apply p _ x => p = b.receipt.receipt.programId ∧
      (x.Tracks pf L b ∨ L.CommitsReceipt b.receipt.receipt ∧ x.Past b.receipt.receipt.height)
  | .defer _ => False
  | .announce _ _ => L.CommitsReceipt b.receipt.receipt
  | _ => True

section Tracks

variable {pf : Platform} {clock : UInt64 → UInt64} {K : List Bytes} {s s' : Node} {L L' : Ledger}
  {b : AggregatedReceiptBundle}

theorem SameView.root (h : SameView pf b L L') :
    L'.root pf b.receipt.receipt.programId = L.root pf b.receipt.receipt.programId :=
  StateStore.sparseRootScoped_congr _ pf h.entries

theorem SameView.predicted (h : SameView pf b L L') (ws : List StateWrite) :
    computeRootAfterWrites pf L'.states b.receipt.receipt.programId ws =
      computeRootAfterWrites pf L.states b.receipt.receipt.programId ws := by
  rw [StateStore.computeRootAfterWrites_eq, StateStore.computeRootAfterWrites_eq, h.entries]

theorem SameView.expected (h : SameView pf b L L') :
    L'.catalog.expectedHeight b.receipt.receipt.programId =
      L.catalog.expectedHeight b.receipt.receipt.programId := by
  rw [ProgramCatalog.expectedHeight, ProgramCatalog.expectedHeight, h.latest]

theorem SameView.commitsReceipt (h : SameView pf b L L') (hc : L.CommitsReceipt b.receipt.receipt) :
    L'.CommitsReceipt b.receipt.receipt := by
  rw [Ledger.CommitsReceipt, h.commitment]
  exact hc

theorem SameView.appliable (h : SameView pf b L L') (ha : Appliable pf b.receipt.receipt.programId L b) :
    Appliable pf b.receipt.receipt.programId L' b :=
  ⟨h.committee.trans ha.committee, h.expected.trans ha.height, h.bundle.trans ha.stored, ha.verified,
    ha.rootIn.trans h.root.symm, ha.digest, (h.predicted _).trans ha.rootOut⟩

theorem SameView.inPlace (h : SameView pf b L L') (hp : InPlace pf L b) : InPlace pf L' b := by
  refine ⟨h.committee.trans hp.committee, ?_⟩
  rcases hp.applies with ⟨hheight, hin, hout⟩ | hc
  · exact .inl ⟨h.expected.trans hheight, hin.trans h.root.symm, (h.predicted _).trans hout⟩
  · exact .inr (h.commitsReceipt hc)

theorem SameView.tracks (h : SameView pf b L L') {x : ApplyPoint} (hx : x.Tracks pf L b) : x.Tracks pf L' b := by
  cases x with
  | readCommittee => exact h.appliable hx
  | readHeight C => exact ⟨hx.1, h.appliable hx.2⟩
  | loadBundle C height => exact ⟨hx.1, hx.2.1, h.appliable hx.2.2⟩
  | ingest b' => exact ⟨hx.1, h.appliable hx.2⟩
  | readRoot b' => exact ⟨hx.1, h.appliable hx.2⟩
  | predict b' root => exact ⟨hx.1, h.appliable hx.2⟩
  | write b' root rest =>
    rw [ApplyPoint.Tracks, h.entries]
    exact hx
  | readApplied b' root =>
    rw [ApplyPoint.Tracks, h.entries]
    exact hx
  | commit b' root applied => exact hx
  | done r => exact hx

theorem SameView.onTrack (h : SameView pf b L L') {x : ThreadPoint} (hx : x.OnTrack pf L b) : x.OnTrack pf L' b := by
  cases x with
  | ingest hd => exact h.inPlace hx
  | keep hd => exact ⟨h.inPlace hx.1, hx.2⟩
  | readHeight hd => exact hx.imp h.appliable h.commitsReceipt
  | apply p hd x => exact ⟨hx.1, hx.2.imp h.tracks fun hc => ⟨h.commitsReceipt hc.1, hc.2⟩⟩
  | announce b' completion => exact h.commitsReceipt hx
  | _ => exact hx

theorem commitsReceipt_store (hp : b.receipt.receipt.programId = p) {root : StateRoot}
    (hroot : root = b.receipt.receipt.stateRootOut) (parent : StateRoot) :
    { s with catalog := s.catalog.storeStateCommitment (commitmentOf clock p b root parent) }.ledger.CommitsReceipt
      b.receipt.receipt := by
  refine ⟨commitmentOf clock p b root parent, ?_, hroot, rfl⟩
  exact (ProgramCatalog.getStateCommitment_storeStateCommitment _ _).trans (if_pos ⟨hp.symm, rfl⟩)

theorem past_applyStep {p : ProgramId} {x y : ApplyPoint} {r : ExecutionReceipt} (hp : p = r.programId)
    (h : ApplyMove pf clock p s x s' y) (hc : s.ledger.CommitsReceipt r) (hx : x.Past r.height) :
    s'.ledger.CommitsReceipt r ∧ y.Past r.height := by
  subst hp
  cases h with
  | stop => exact ⟨hc, trivial⟩
  | ask => exact ⟨hc, trivial⟩
  | committee => exact ⟨hc, trivial⟩
  | height h =>
    refine ⟨hc, UInt64.lt_iff_toNat_lt.mpr ?_⟩
    obtain ⟨c, hget, -⟩ := hc
    rw [ProgramCatalog.toNat_of_expectedHeight h]
    exact Nat.lt_succ_of_le (ProgramCatalog.toNat_le_committedHeight (Option.isSome_iff_exists.mpr ⟨c, hget⟩))
  | load h =>
    refine ⟨hc, ?_⟩
    rw [ApplyPoint.Past, (Node.loadFinalizedTransition_eq_some h).2]
    exact hx
  | @commit b root applied =>
    obtain ⟨c, hget, hh⟩ := hc
    refine ⟨⟨c, ?_, hh⟩, trivial⟩
    refine (ProgramCatalog.getStateCommitment_storeStateCommitment _ _).trans ?_
    rw [if_neg fun he => ?_]
    · exact hget
    · have hlt : r.height < b.receipt.receipt.height := hx
      have heq : b.receipt.receipt.height = r.height := he.2
      rw [heq] at hlt
      exact UInt64.lt_irrefl _ hlt
  | _ => exact ⟨hc, hx⟩

theorem tracks_applyStep (hK : Set.InjOn pf.hashBytes { k | k ∈ K }) (hkeys : s.states.KeysIn K)
    {x y : ApplyPoint} (hs : applyStep pf clock b.receipt.receipt.programId s x = (s', y))
    (hx : x.Tracks pf s.ledger b) :
    y.Tracks pf s'.ledger b ∨ s'.ledger.CommitsReceipt b.receipt.receipt ∧ y.Past b.receipt.receipt.height := by
  cases x with
  | readCommittee =>
    have hC : s.catalog.committee pf b.receipt.receipt.programId = .ok (some b.committee) := hx.committee
    rw [applyStep, hC] at hs
    cases hs
    exact .inl ⟨rfl, hx⟩
  | readHeight C =>
    have hh : s.catalog.expectedHeight b.receipt.receipt.programId = .ok b.receipt.receipt.height := hx.2.height
    rw [applyStep, hh] at hs
    cases hs
    exact .inl ⟨hx.1, rfl, hx.2⟩
  | loadBundle C height =>
    obtain ⟨rfl, rfl, ha⟩ := hx
    have hl : s.loadFinalizedTransition b.receipt.receipt.programId b.receipt.receipt.height = some b := ha.stored
    rw [applyStep, hl] at hs
    simp only [ne_eq, not_true_eq_false, if_false] at hs
    cases hs
    exact .inl ⟨rfl, ha⟩
  | ingest b' =>
    obtain ⟨rfl, ha⟩ := hx
    rw [applyStep, Node.ingestAggregatedReceipt, ha.verified] at hs
    cases hs
    exact .inl ⟨rfl, ha.committee, ha.height, ha.stored, ha.verified, ha.rootIn, ha.digest, ha.rootOut⟩
  | readRoot b' =>
    obtain ⟨rfl, ha⟩ := hx
    have hin : b'.receipt.receipt.stateRootIn = s.states.sparseRootScoped b'.receipt.receipt.programId pf := ha.rootIn
    simp only [applyStep, ne_eq, hin, ha.digest, not_true_eq_false, if_false] at hs
    cases hs
    exact .inl ⟨rfl, ha⟩
  | predict b' root =>
    obtain ⟨rfl, ha⟩ := hx
    have hout : computeRootAfterWrites pf s.states b'.receipt.receipt.programId b'.stateWrites =
      b'.receipt.receipt.stateRootOut := ha.rootOut
    simp only [applyStep, ne_eq, hout, not_true_eq_false, if_false] at hs
    cases hs
    exact .inl ⟨rfl, hout⟩
  | write b' root rest =>
    obtain ⟨rfl, hout⟩ := hx
    cases rest with
    | nil =>
      cases hs
      exact .inl ⟨rfl, hout⟩
    | cons w rest =>
      cases hs
      refine .inl ⟨rfl, ?_⟩
      rw [← hout]
      exact congrArg (fun e => rootOfMap pf (writeEntries e rest)) (StateStore.entries_applyWrite _ _ w)
  | readApplied b' root =>
    obtain ⟨rfl, hout⟩ := hx
    have hr : s.states.sparseRootScoped b'.receipt.receipt.programId pf = b'.receipt.receipt.stateRootOut :=
      (StateStore.sparseRootScoped_eq _ _ pf hK fun k hk => hkeys.mem hk).trans hout
    simp only [applyStep, ne_eq, hr, not_true_eq_false, if_false] at hs
    cases hs
    exact .inl ⟨rfl, rfl⟩
  | commit b' root applied =>
    obtain ⟨rfl, hroot⟩ := hx
    cases hs
    exact .inr ⟨commitsReceipt_store rfl hroot root, trivial⟩
  | done r => exact hx.elim

theorem Handling.eq_of_carried {h : Handling} {t : Nat}
    (hc : h.completion.join.map (fun t => (h.bundle, t)) = some (b, t)) : h = ⟨b, some (some t)⟩ := by
  obtain ⟨b', completion⟩ := h
  rcases completion with _ | _ | t' <;> cases hc
  rfl

theorem Node.ledger_of_core (h : s'.core = s.core) : s'.ledger = s.ledger := by
  have hl := congrArg Node.ledger h
  exact hl

theorem handledPoint_onTrack {th : Thread} {h : Option Handling} {result : Except String Unit} {t : Nat}
    (hc : (handledPoint th h result).carried = some (b, t)) (hL : L.CommitsReceipt b.receipt.receipt) :
    (handledPoint th h result).OnTrack pf L b := by
  obtain ⟨rfl, rfl⟩ := handledPoint_carried hc
  exact hL

theorem Move.onTrack (hK : Set.InjOn pf.hashBytes { k | k ∈ K }) (hkeys : s.states.KeysIn K) {th : Thread}
    {x y : ThreadPoint} {t : Nat} (h : Move pf clock th s x s' y)
    (hd : stateWritesDigest pf b.stateWrites = b.receipt.receipt.writeDigest)
    (hx : x.carried = some (b, t)) (hin : x.entering = some b → InPlace pf s.ledger b)
    (ht : x.OnTrack pf s.ledger b) (hy : y.carried = some (b, t)) : y.OnTrack pf s'.ledger b := by
  have hquiet : x.quiet = true → y.OnTrack pf s'.ledger b := by
    intro hq
    rw [ThreadPoint.carried_of_quiet hq] at hx
    cases hx
  cases h with
  | aside hq => exact hquiet hq
  | renew hq => exact hquiet hq
  | finalize hq => exact hquiet hq
  | catchUp hq => exact hquiet hq
  | begin =>
    cases Handling.eq_of_carried hx
    exact hin rfl
  | mismatch hC =>
    cases Handling.eq_of_carried hx
    exact absurd (hin rfl).committee hC
  | unknown hC =>
    cases Handling.eq_of_carried hx
    exact absurd (hin rfl).committee hC
  | fail => cases (handledPoint_carried hy).1
  | defer => exact ht.elim
  | ingest hv =>
    cases Handling.eq_of_carried hx
    exact ⟨⟨ht.committee, ht.applies⟩, hv⟩
  | keep =>
    cases Handling.eq_of_carried hx
    obtain ⟨hp, hv⟩ := ht
    rcases hp.applies with ⟨hheight, hin, hout⟩ | hc
    · exact .inl ⟨hp.committee, hheight, Keyed.get_put_self _ b, hv, hin, hd, hout⟩
    · exact .inr hc
  | enter hs =>
    cases Handling.eq_of_carried hx
    rw [Node.ledger_of_core hs]
    exact ⟨rfl, ht.imp_right fun hc => ⟨hc, trivial⟩⟩
  | @apply p h x y s' hs =>
    obtain ⟨rfl, htr⟩ := ht
    have hstep : y.Tracks pf s'.ledger b ∨
        s'.ledger.CommitsReceipt b.receipt.receipt ∧ y.Past b.receipt.receipt.height := by
      rcases htr with htr | ⟨hc, hpast⟩
      · exact tracks_applyStep hK hkeys hs htr
      · exact .inr (past_applyStep rfl (applyStep_cases hs) hc hpast)
    cases y with
    | done r => exact handledPoint_onTrack hy (hstep.resolve_left id).1
    | _ => exact ⟨rfl, hstep⟩
  | announce =>
    rw [notifyPoint_carried] at hy
    cases hy
  | _ => cases hx

end Tracks

def NodeThreads.told (S : NodeThreads) (t : Nat) : Bool :=
  (S.shared.sent[t]?).any Except.isOk || S.processes.any fun a => a.point.tells t

def ThreadEvent.index : ThreadEvent → Option Nat
  | .start _ => none
  | .turn n _ => some n

/-- A transition that a thread begins to handle for a waiting call is in place. While it does, the other
threads leave what it reads alone, and from then on until the call returns the commitment at its height. -/
structure CompletesInPlace (pf : Platform) (S : NodeThreads) (e : ThreadEvent) : Prop where
  inPlace : ∀ n ∈ e.index, ∀ a ∈ S.processes[n]?, ∀ b ∈ a.point.entering, InPlace pf S.shared.ledger b
  others : ∀ S' ∈ threadStep pf S e, ∀ x ∈ S.processes.zipIdx, e.index ≠ some x.2 →
    ∀ carried ∈ x.1.point.carried, SameView pf carried.1 S.shared.ledger S'.shared.ledger
  kept : ∀ S' ∈ threadStep pf S e, ∀ x ∈ S.shared.tasks.toList, S.told x.1 = true →
    ∀ own ∈ x.2.phase.proposed, S'.shared.committed x.2.programId own.1.height =
      S.shared.committed x.2.programId own.1.height

def KeysRemain (pf : Platform) (K : List Bytes) (S : NodeThreads) (e : ThreadEvent) : Prop :=
  ∀ S' ∈ threadStep pf S e, S'.shared.states.KeysIn K

instance (L : Ledger) (r : ExecutionReceipt) : Decidable (L.CommitsReceipt r) :=
  inferInstanceAs (Decidable (∃ c ∈ L.catalog.getStateCommitment r.programId r.height,
    c.root = r.stateRootOut ∧ c.stateDeltaRoot = some r.writeDigest))

instance (pf : Platform) (L : Ledger) (b : AggregatedReceiptBundle) : Decidable (InPlace pf L b) :=
  decidable_of_iff
    (L.catalog.committee pf b.receipt.receipt.programId = .ok (some b.committee) ∧
      ((L.catalog.expectedHeight b.receipt.receipt.programId = .ok b.receipt.receipt.height ∧
        b.receipt.receipt.stateRootIn = L.root pf b.receipt.receipt.programId ∧
        computeRootAfterWrites pf L.states b.receipt.receipt.programId b.stateWrites =
          b.receipt.receipt.stateRootOut) ∨ L.CommitsReceipt b.receipt.receipt))
    ⟨fun h => ⟨h.1, h.2⟩, fun h => ⟨h.1, h.2⟩⟩

instance (pf : Platform) (b : AggregatedReceiptBundle) (L L' : Ledger) : Decidable (SameView pf b L L') :=
  decidable_of_iff
    ((L'.states.entries b.receipt.receipt.programId).toList =
        (L.states.entries b.receipt.receipt.programId).toList ∧
      L'.catalog.committee pf b.receipt.receipt.programId = L.catalog.committee pf b.receipt.receipt.programId ∧
      L'.catalog.latestStateCommitment b.receipt.receipt.programId =
        L.catalog.latestStateCommitment b.receipt.receipt.programId ∧
      L'.catalog.getStateCommitment b.receipt.receipt.programId b.receipt.receipt.height =
        L.catalog.getStateCommitment b.receipt.receipt.programId b.receipt.receipt.height ∧
      L'.finalized.get (bundleKey b) = L.finalized.get (bundleKey b))
    ⟨fun ⟨h1, h2, h3, h4, h5⟩ => ⟨ExtTreeMap.toList_inj.mp h1, h2, h3, h4, h5⟩,
      fun h => ⟨ExtTreeMap.toList_inj.mpr h.1, h.2, h.3, h.4, h.5⟩⟩

instance (pf : Platform) (S : NodeThreads) (e : ThreadEvent) : Decidable (CompletesInPlace pf S e) :=
  decidable_of_iff
    ((∀ n ∈ e.index, ∀ a ∈ S.processes[n]?, ∀ b ∈ a.point.entering, InPlace pf S.shared.ledger b) ∧
      (∀ S' ∈ threadStep pf S e, ∀ x ∈ S.processes.zipIdx, e.index ≠ some x.2 →
        ∀ carried ∈ x.1.point.carried, SameView pf carried.1 S.shared.ledger S'.shared.ledger) ∧
      ∀ S' ∈ threadStep pf S e, ∀ x ∈ S.shared.tasks.toList, S.told x.1 = true →
        ∀ own ∈ x.2.phase.proposed, S'.shared.committed x.2.programId own.1.height =
          S.shared.committed x.2.programId own.1.height)
    ⟨fun ⟨h1, h2, h3⟩ => ⟨h1, h2, h3⟩, fun h => ⟨h.1, h.2, h.3⟩⟩

instance (pf : Platform) (K : List Bytes) (S : NodeThreads) (e : ThreadEvent) : Decidable (KeysRemain pf K S e) :=
  inferInstanceAs (Decidable (∀ S' ∈ threadStep pf S e, _))

/-- What is known of calls that have proposed, of the transitions and the threads that hold their senders,
and of the results sent to them. -/
structure CallsTracked (pf : Platform) (K : List Bytes) (S : NodeThreads) : Prop where
  keys : S.shared.states.KeysIn K
  pending : ∀ t r writes, S.shared.Awaits t r writes → S.shared.Owned t (Promises pf r writes)
  carried : ∀ a ∈ S.processes, ∀ b t, a.point.carried = some (b, t) → S.shared.Owned t fun p r o =>
    Promises pf b.receipt.receipt b.stateWrites p r o ∧ a.point.OnTrack pf S.shared.ledger b
  told : ∀ t, S.told t = true → S.shared.Owned t (S.shared.CommitsOutcome pf)

section Invariant

variable {pf : Platform} {clock : UInt64 → UInt64} {K : List Bytes} {S S' : NodeThreads} {n : Nat}

theorem callsTracked_idle {s : Node} (hkeys : s.states.KeysIn K) (hpending : s.pending = ∅) (hsent : s.sent = ∅) :
    CallsTracked pf K (.idle s) := by
  refine ⟨hkeys, ?_, fun a ha => ?_, fun t ht => ?_⟩
  · rintro t r writes ⟨id, e, he, -⟩
    have hnone : s.pending[id]? = none := by simp [hpending]
    cases hnone.symm.trans he
  · cases ha
  · simp [NodeThreads.told, NodeThreads.idle, hsent] at ht

theorem Promises.commitsOutcome {s : Node} {r r' : ExecutionReceipt} {writes : List StateWrite} {p : ProgramId}
    {o : ExecutionOutcome} (h : Promises pf r writes p r' o) (hc : s.ledger.CommitsReceipt r) :
    s.CommitsOutcome pf p r' o := by
  obtain ⟨rfl, -, rfl, hroot, hdigest⟩ := h
  obtain ⟨c, hget, hcroot, hdelta⟩ := hc
  have hget' : s.catalog.getStateCommitment r.programId r.height = some c := hget
  rw [Node.CommitsOutcome, Node.committed, hget', Option.map_some, hcroot, hdelta, hroot, hdigest]

theorem CallsTracked.still_told (hs : CallsTracked pf K S) {e : ThreadEvent} (hu : CompletesInPlace pf S e)
    (h : threadStep pf S e = some S') (hkeep : S.shared.KeepsOwned S'.shared) {t : Nat} (ht : S.told t = true) :
    S'.shared.Owned t (S'.shared.CommitsOutcome pf) := by
  refine hkeep _ _ ((hs.told t ht).imp fun task r o htask hp hc => ?_)
  have hsame := hu.kept S' h (t, task) (ExtTreeMap.mem_toList_iff_getElem?_eq_some.mpr htask) ht (r, o) hp
  exact hsame.trans hc

theorem NodeThreads.told_of_mem {a : Activity} {t : Nat} (ha : a ∈ S.processes) (ht : a.point.tells t = true) :
    S.told t = true := by
  rw [NodeThreads.told, Bool.or_eq_true]
  exact .inr (List.any_eq_true.mpr ⟨a, ha, ht⟩)

theorem NodeThreads.told_of_sent {t : Nat} (h : S'.shared.sent = S.shared.sent)
    (ht : (S'.shared.sent[t]?).any Except.isOk = true) : S.told t = true := by
  rw [h] at ht
  rw [NodeThreads.told, ht]
  rfl

theorem CallsTracked.start (hs : CallsTracked pf K S) {op : Op} (hu : CompletesInPlace pf S (.start op))
    (h : threadStep pf S (.start op) = some S') (hkeys : S'.shared.states.KeysIn K) : CallsTracked pf K S' := by
  have hstart := start_cases h
  rcases hstart.calls with rfl | hcalls
  · exact callsTracked_idle hkeys rfl rfl
  constructor
  case keys => exact hkeys
  case pending =>
    intro t r writes hw
    rcases hcalls.pending t r writes hw with hold | hnew
    · exact hcalls.owned _ _ (hs.pending t r writes hold)
    · exact hnew
  case carried =>
    intro a ha b t hc
    rcases hstart.processes ha with hold | hnew
    · rw [hstart.ledger]
      exact hcalls.owned _ _ (hs.carried a hold b t hc)
    · rw [ThreadPoint.carried_of_starting hnew] at hc
      cases hc
  case told =>
    intro t ht
    refine hs.still_told hu h hcalls.owned ?_
    rcases (Bool.or_eq_true _ _).mp ht with hsent | hproc
    · exact NodeThreads.told_of_sent hcalls.sent hsent
    · obtain ⟨a, ha, htells⟩ := List.any_eq_true.mp hproc
      rcases hstart.processes ha with hold | hnew
      · exact NodeThreads.told_of_mem hold htells
      · rw [ThreadPoint.tells_of_starting hnew] at htells
        cases htells

theorem told_of_turn {a : Activity} {y : ThreadPoint} (ha : S.processes[n]? = some a)
    (hmove : Move pf clock a.thread S.shared a.point S'.shared y)
    (hafter : S'.processes.Perm (⟨a.thread, y⟩ :: S.processes.eraseIdx n)) {t : Nat} (ht : S'.told t = true) :
    S.told t = true ∨ ∃ b, a.point = .announce b (some t) := by
  rcases (Bool.or_eq_true _ _).mp ht with hsent | hproc
  · left
    rcases hmove.sent with heq | ⟨t', result, hx, heq⟩
    · exact NodeThreads.told_of_sent heq hsent
    · rw [heq, getElem?_insert_nat] at hsent
      split at hsent
      · rename_i htt
        refine NodeThreads.told_of_mem (List.mem_of_getElem? ha) ?_
        rw [hx, htt]
        cases result with
        | error e => cases hsent
        | ok u => exact beq_self_eq_true t
      · rw [NodeThreads.told, hsent]
        rfl
  · obtain ⟨a', ha', htells⟩ := List.any_eq_true.mp hproc
    rcases List.mem_cons.mp (hafter.mem_iff.mp ha') with rfl | hmem
    · exact .inr (hmove.tells htells)
    · exact .inl (NodeThreads.told_of_mem (List.mem_of_mem_eraseIdx hmem) htells)

theorem CallsTracked.turn (hs : CallsTracked pf K S) (hK : Set.InjOn pf.hashBytes { k | k ∈ K })
    (hu : CompletesInPlace pf S (.turn n clock)) (h : threadStep pf S (.turn n clock) = some S')
    (hkeys : S'.shared.states.KeysIn K) : CallsTracked pf K S' := by
  obtain ⟨a, y, ha, hmove, -, hafter⟩ := threadStep_turn h
  obtain ⟨hkeep, hcarry⟩ := hmove.calls
  have hmem := List.mem_of_getElem? ha
  constructor
  case keys => exact hkeys
  case pending =>
    intro t r writes hw
    exact hkeep _ _ (hs.pending t r writes (hcarry t r writes hw))
  case carried =>
    intro a' ha' b t hc
    rcases List.mem_cons.mp (hafter.mem_iff.mp ha') with rfl | hother
    · rcases hmove.carried hc with hx | ⟨haw, hd, hy⟩
      · refine hkeep _ _ ((hs.carried a hmem b t hx).imp fun task r o _ _ ⟨hpr, htr⟩ => ⟨hpr, ?_⟩)
        have hdigest : stateWritesDigest pf b.stateWrites = b.receipt.receipt.writeDigest := by
          rw [hpr.writes]
          exact hpr.digest
        exact hmove.onTrack hK hs.keys hdigest hx (fun he => hu.inPlace n rfl a ha b he) htr hc
      · refine hkeep _ _ ((hs.pending t _ _ haw).imp fun task r o _ _ hpr => ⟨hpr, ?_⟩)
        rw [hy]
        trivial
    · obtain ⟨m, hm, ha'⟩ := List.mem_eraseIdx_iff_getElem?.mp hother
      have hne : ThreadEvent.index (.turn n clock) ≠ some m := fun he => hm (Option.some.inj he).symm
      have hview := hu.others S' h (a', m) (List.mem_zipIdx_iff_getElem?.mpr ha') hne (b, t) hc
      refine hkeep _ _ ((hs.carried a' (List.mem_of_getElem? ha') b t hc).imp ?_)
      exact fun task r o _ _ ⟨hpr, htr⟩ => ⟨hpr, hview.onTrack htr⟩
  case told =>
    intro t ht
    rcases told_of_turn ha hmove hafter ht with hold | ⟨b, hx⟩
    · exact hs.still_told hu h hkeep hold
    · have hc : a.point.carried = some (b, t) := by rw [hx]; rfl
      refine hkeep _ _ ((hs.carried a hmem b t hc).imp fun task r o _ _ ⟨hpr, htr⟩ => hpr.commitsOutcome ?_)
      rw [hx] at htr hmove
      have hled : S'.shared.ledger = S.shared.ledger := by
        generalize S'.shared = s' at hmove
        cases hmove with
        | announce => rfl
        | aside hq => cases hq
        | renew hq => cases hq
        | finalize hq => cases hq
        | catchUp hq => cases hq
        | fail hx => rcases hx with hx | hx | hx <;> cases hx
      rw [hled]
      exact htr

theorem CallsTracked.step (hs : CallsTracked pf K S) (hK : Set.InjOn pf.hashBytes { k | k ∈ K })
    {e : ThreadEvent} (hkeys : KeysRemain pf K S e) (hu : CompletesInPlace pf S e) (h : threadStep pf S e = some S') :
    CallsTracked pf K S' := by
  cases e with
  | start op => exact hs.start hu h (hkeys S' h)
  | turn n clock => exact hs.turn hK hu h (hkeys S' h)

theorem CallStart.concluded {t : Nat} {task task' : SubmitTask} {r : ExecutionReceipt} {o : ExecutionOutcome}
    (h : CallStart pf S t task S') (ht : S.shared.tasks[t]? = some task)
    (ht' : S'.shared.tasks[t]? = some task') (hph : task'.phase = .concluded r (.ok o)) :
    task'.programId = task.programId ∧ task.phase.proposed = some (r, o) ∧
      S.shared.sent[t]? = some (.ok ()) := by
  have hnew : ∀ {phase : Phase}, S'.shared.tasks = S.shared.tasks.insert t { task with phase := phase } →
      task' = { task with phase := phase } := by
    intro phase he
    rw [he, getElem?_insert_nat, if_pos rfl] at ht'
    exact (Option.some.inj ht').symm
  have hold : S'.shared.tasks = S.shared.tasks → task.phase = .concluded r (.ok o) := by
    intro he
    rw [he, ht] at ht'
    cases ht'
    exact hph
  cases h with
  | advance hearly ha =>
    rcases ha.tasks with he | ⟨phase, hphase, he⟩
    · rw [hold he] at hearly
      cases hearly
    · have hearly' := hphase.early
      rw [hnew he] at hph
      rw [show phase = _ from hph] at hearly'
      cases hearly'
  | @propose c height rootIn o' =>
    obtain ⟨e, hs⟩ | ⟨-, hs⟩ := @submitPropose_cases pf S.shared t task c height rootIn o'
    · rw [hnew (congrArg Node.tasks hs)] at hph
      cases hph
    · rw [hnew (congrArg Node.tasks hs)] at hph
      cases hph
  | refused =>
    rw [hnew rfl] at hph
    cases hph
  | sign hph' => cases hph'.symm.trans (hold rfl)
  | settle hph' => cases hph'.symm.trans (hold rfl)
  | expire hph' => cases hph'.symm.trans (hold rfl)
  | finish hph' hs =>
    obtain ⟨result, rfl, hok⟩ := submitFinish_cases hs
    rw [hnew rfl] at hph ⊢
    cases hph
    obtain ⟨rfl, hsent⟩ := hok o rfl
    exact ⟨rfl, by rw [hph']; rfl, hsent⟩

end Invariant

/-- In every run without colliding keys in which the transition of a waiting call is in place when a thread
begins to handle it, and no other thread disturbs that, a call that proposed a receipt and returns Ok has
its outcome committed at that moment. -/
theorem concluded_ok_committed {pf : Platform} {K : List Bytes} {s₀ : Node} {S S' : NodeThreads}
    {events : List ThreadEvent} (h₀ : s₀.Fresh) (hK : Set.InjOn pf.hashBytes { k | k ∈ K })
    (hkeys : Along (threadStep pf) (KeysRemain pf K) (.idle s₀) events)
    (hund : Along (threadStep pf) (CompletesInPlace pf) (.idle s₀) events)
    (hrun : run (threadStep pf) (.idle s₀) events = some S) {t : Nat}
    (hfin : threadStep pf S (.start (.call t .finish)) = some S') {task : SubmitTask} {r : ExecutionReceipt}
    {o : ExecutionOutcome} (ht : S'.shared.tasks[t]? = some task) (hph : task.phase = .concluded r (.ok o)) :
    ∃ c, S'.shared.catalog.getStateCommitment task.programId r.height = some c ∧ c.root = o.stateRoot ∧
      c.stateDeltaRoot = some (stateWritesDigest pf o.stateWrites) := by
  have hinit : CallsTracked pf K (.idle s₀) := by
    rw [h₀]
    exact callsTracked_idle (by simp [StateStore.KeysIn, Node.fresh, StateStore.empty]) rfl rfl
  have hinv : CallsTracked pf K S :=
    invariant_run (fun _ _ _ hs hh h => hs.step hK hh.1 hh.2 h) hinit (hkeys.and hund) hrun
  have hstart : Start pf S (.call t .finish) S' := start_cases hfin
  cases hstart with
  | call ht₀ hcall =>
    obtain ⟨hp, hproposed, hsent⟩ := hcall.concluded ht₀ ht hph
    have htold : S.told t = true := by
      rw [NodeThreads.told, hsent]
      rfl
    obtain ⟨task₁, ht₁, howns⟩ := hinv.told t htold
    cases ht₀.symm.trans ht₁
    obtain ⟨c, hget, hc⟩ := Option.map_eq_some_iff.mp (howns.of_proposed hproposed)
    have hled := congrArg (fun L => L.catalog.getStateCommitment task.programId r.height) hcall.ledger
    rw [hp] at hled ⊢
    obtain ⟨hroot, hdelta⟩ := Prod.mk.inj hc
    exact ⟨c, hled.trans hget, hroot, hdelta⟩

section Sample

def Phase.completed : Phase → Option (ExecutionReceipt × ExecutionOutcome)
  | .concluded r (.ok o) => some (r, o)
  | _ => none

theorem Phase.eq_concluded {phase : Phase} {r : ExecutionReceipt} {o : ExecutionOutcome}
    (h : phase.completed = some (r, o)) : phase = .concluded r (.ok o) := by
  unfold Phase.completed at h
  split at h
  · cases h; rfl
  · cases h

/-- A call with `input` by the only member of a committee. A job with `jobInput` begins while the call's
transition is applied, and ends before the new root is read. -/
def overlapped (input jobInput : Bytes) : List ThreadEvent :=
  let before := sampleSetup (sampleCommittee sampleProgram [1] 1) ++ sampleCall 0 input
  let n := before.countP fun op => op.turns ≠ 0
  let turns (k n : Nat) : List ThreadEvent := List.replicate k (.turn n fun _ => 0)
  oneByOne 0 before ++ [.start (.call 0 (.settle fun _ => 0))] ++ turns 11 n ++
    [.start (.job sampleProgram jobInput 100 0 (.ofByte 32 0) 0)] ++ turns 3 (n + 1) ++ turns 11 n

/-- The job writes nothing. -/
theorem concluded_ok_committed_sample :
    let events := overlapped [1] []
    ∃ S S' task r o, run (threadStep sampleRuntime) (.idle (sampleStart 1)) events = some S ∧
      threadStep sampleRuntime S (.start (.call 0 .finish)) = some S' ∧ S'.shared.tasks[0]? = some task ∧
      task.phase = .concluded r (.ok o) ∧
      ∃ c, S'.shared.catalog.getStateCommitment task.programId r.height = some c ∧ c.root = o.stateRoot ∧
        c.stateDeltaRoot = some (stateWritesDigest sampleRuntime o.stateWrites) := by
  intro events
  have hrun : ((run (threadStep sampleRuntime) (.idle (sampleStart 1)) events).any fun S =>
      (threadStep sampleRuntime S (.start (.call 0 .finish))).any fun S' =>
        (S'.shared.tasks[0]?.bind fun task => task.phase.completed).isSome) = true := by decide +kernel
  obtain ⟨S, hS, hfin⟩ := (Option.any_eq_true _ _).mp hrun
  obtain ⟨S', hS', hsome⟩ := (Option.any_eq_true _ _).mp hfin
  obtain ⟨⟨r, o⟩, hro⟩ := Option.isSome_iff_exists.mp hsome
  obtain ⟨task, ht, hph⟩ := Option.bind_eq_some_iff.mp hro
  have hph := Phase.eq_concluded hph
  exact ⟨S, S', task, r, o, hS, hS', ht, hph,
    @concluded_ok_committed sampleRuntime [[1]] (sampleStart 1) S S' events (sampleStart_fresh 1) (by simp)
      (by decide +kernel) (by decide +kernel) hS 0 hS' task r o ht hph⟩

/-- The job writes, so that the root is not the predicted one: the transition is not committed, and the
call returns Ok. -/
theorem concluded_ok_without_commitment :
    ¬ ∀ (events : List ThreadEvent) (S S' : NodeThreads) (t : Nat) (task : SubmitTask) (r : ExecutionReceipt)
        (o : ExecutionOutcome),
      Along (threadStep sampleRuntime) (KeysRemain sampleRuntime [[1]]) (.idle (sampleStart 1)) events →
      run (threadStep sampleRuntime) (.idle (sampleStart 1)) events = some S →
      threadStep sampleRuntime S (.start (.call t .finish)) = some S' → S'.shared.tasks[t]? = some task →
      task.phase = .concluded r (.ok o) →
      ∃ c, S'.shared.catalog.getStateCommitment task.programId r.height = some c ∧ c.root = o.stateRoot ∧
        c.stateDeltaRoot = some (stateWritesDigest sampleRuntime o.stateWrites) := by
  intro hall
  let events := overlapped [] [1]
  have hrun : ((run (threadStep sampleRuntime) (.idle (sampleStart 1)) events).any fun S =>
      (threadStep sampleRuntime S (.start (.call 0 .finish))).any fun S' =>
        (S'.shared.tasks[0]?.bind fun task => task.phase.completed.map fun ro =>
          (S'.shared.catalog.getStateCommitment task.programId ro.1.height).isSome) = some false) = true := by
    decide +kernel
  obtain ⟨S, hS, hfin⟩ := (Option.any_eq_true _ _).mp hrun
  obtain ⟨S', hS', hbad⟩ := (Option.any_eq_true _ _).mp hfin
  obtain ⟨task, ht, hbad⟩ := Option.bind_eq_some_iff.mp (of_decide_eq_true hbad)
  obtain ⟨⟨r, o⟩, hph, hnone⟩ := Option.map_eq_some_iff.mp hbad
  obtain ⟨c, hc, -⟩ := hall events S S' 0 task r o (by decide +kernel) hS hS' ht (Phase.eq_concluded hph)
  rw [hc] at hnone
  cases hnone

end Sample

end Onvm
