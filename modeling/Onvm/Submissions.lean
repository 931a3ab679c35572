import Onvm.SubmissionPlaces

/-! One call of a client, one transition, unless a node gives up a request that the member asked carries
out and has another member carry it out too. -/

namespace Onvm

open ByteString Handover OrderedStore Runs Std

variable {ι : Type} {p : ProgramId} {input : Bytes}

/-- A forwarded call for `p` and `input` is given up only if the member asked has not taken it on, and
then the member does not take it on when it comes to it later. -/
def Kept (pf : Platform) (p : ProgramId) (input : Bytes) (net : Net ι) : NetEvent ι → Prop
  | .giveUp i t => ∀ w ∈ net.awaited i t, w.2.For p input → w.2.status.undecided = true
  | .handle id j _ =>
    ∀ q ∈ net.requests id, q.For p input → q.status = .dropped →
      (handleExecuteViaLeaderRequest pf (net.nodes j) q.programId).isSome = true
  | _ => True

instance [DecidableEq ι] (pf : Platform) (p : ProgramId) (input : Bytes) (net : Net ι) :
    ∀ e, Decidable (Kept pf p input net e)
  | .giveUp i t => inferInstanceAs (Decidable (∀ w ∈ net.awaited i t, _))
  | .handle id _ _ => inferInstanceAs (Decidable (∀ q ∈ net.requests id, _))
  | .client .. | .own .. | .relay .. | .supply .. | .enter .. | .turn .. | .answer .. | .restart .. =>
    inferInstanceAs (Decidable True)

def NetEvent.submits (p : ProgramId) (input : Bytes) : NetEvent ι → Bool
  | .client _ _ p' input' => p' = p ∧ input' = input
  | _ => false

section Net

variable [DecidableEq ι] {pf : Platform} {net net' : Net ι} {e : NetEvent ι}

theorem handle_passes {q : LeaderRequest ι} {id t : Nat} {j : ι} (hreq : net.requests id = some q)
    (h : net.handle pf id q j t = some net')
    (hkept : q.For p input → q.status = .dropped →
      (handleExecuteViaLeaderRequest pf (net.nodes j) q.programId).isSome = true)
    (harr : q.status.arrives = true) :
    Passes Place.final {x | net.Carries p input x} {x | net'.Carries p input x} := by
  rw [Net.handle] at h
  split at h
  · obtain ⟨status, hst, rfl⟩ := Option.map_eq_some_iff.mp h
    refine .keep fun x hx => ?_
    rcases carries_setRequest hx with ⟨hx, -⟩ | ⟨rfl, hfor, hu⟩
    · exact hx
    · refine .request hreq hfor ?_
      cases hs : q.status with
      | sent => rfl
      | dropped =>
        rw [hs] at hst
        cases hst
        cases hu
      | _ =>
        rw [hs] at harr
        cases harr
  · rename_i hnone
    have hcarr : ∀ x, net'.Carries p input x →
        net.Carries p input x ∧ x ≠ .request id ∨ x = .call j t ∧ q.For p input := by
      intro x hx
      rcases carries_submit h hx with hx | ⟨rfl, hp, hi⟩
      · rcases carries_setRequest hx with hx | ⟨-, -, hu⟩
        · exact .inl hx
        · cases hu
      · exact .inr ⟨rfl, hp, hi⟩
    by_cases hfor : q.For p input
    · have hu : q.status.undecided = true := by
        cases hs : q.status with
        | sent => rfl
        | dropped =>
          have hsome := hkept hfor hs
          rw [hnone] at hsome
          cases hsome
        | _ =>
          rw [hs] at harr
          cases harr
      refine .hand (.request id) (.call j t) (.request hreq hfor hu) (fun h => h) fun x hx => ?_
      rcases hcarr x hx with hold | ⟨rfl, -⟩
      · exact .inr hold
      · exact .inl rfl
    · refine .keep fun x hx => ?_
      rcases hcarr x hx with ⟨hold, -⟩ | ⟨-, he⟩
      · exact hold
      · exact absurd he hfor

theorem restart_passes {i : ι} (h : netStep pf net (.restart i) = some net') :
    Passes Place.final {x | net.Carries p input x} {x | net'.Carries p input x} := by
  cases h
  refine .keep fun x hx => ?_
  cases hx with
  | @call i' t hl hw =>
    dsimp only at hl
    by_cases he : i' = i
    · subst he
      rw [Function.update_self] at hl
      obtain ⟨task, ht, -⟩ := hl
      simp [Node.restart] at ht
    · rw [Function.update_of_ne he] at hl
      refine .call hl fun id hid => hw id ?_
      rw [Net.Waits]
      dsimp only
      rw [Function.update_of_ne he]
      exact hid
  | @request id q hq hfor hu =>
    obtain ⟨q', hq', rfl⟩ := Option.map_eq_some_iff.mp hq
    refine .request hq' hfor ?_
    cases hs : q'.status with
    | sent => rfl
    | refused reply => rfl
    | accepted call =>
      rw [hs, RequestStatus.lose.eq_def] at hu
      (repeat' split at hu) <;> cases hu
    | _ =>
      rw [hs] at hu
      cases hu
  | @receipt i' r hr hp hi =>
    dsimp only at hr
    by_cases he : i' = i
    · subst he
      rw [Function.update_self] at hr
      have hstep : step pf (net.nodes i') .restart = some (net.nodes i').restart := rfl
      rcases holds_step hstep hr with hr | hr | ⟨t, -, -, -, -, -, he, -⟩
      · exact .receipt hr hp hi
      · cases hr
      · cases he
    · rw [Function.update_of_ne he] at hr
      exact .receipt hr hp hi

theorem Net.Wired.restart (hw : net.Wired) {i : ι} (h : netStep pf net (.restart i) = some net') :
    net'.Wired := by
  cases h
  intro i' t f hf
  dsimp only at hf
  have he : i' ≠ i := by
    rintro rfl
    rw [Function.update_self] at hf
    cases hf
  rw [Function.update_of_ne he] at hf
  obtain ⟨task, ht, hres, hwait⟩ := hw i' t f hf
  refine ⟨task, ?_, hres, fun id hid => ?_⟩
  · dsimp only
    rw [Function.update_of_ne he]
    exact ht
  · obtain ⟨q, hq, hfor⟩ := hwait id hid
    refine ⟨{ q with status := q.status.lose i }, ?_, hfor⟩
    dsimp only
    rw [hq]
    rfl

theorem not_waiting {f : Forward} (h : ¬ f.waiting.isSome = true) : f.waiting = none := by
  cases hf : f.waiting with
  | none => rfl
  | some id =>
    rw [hf] at h
    exact absurd rfl h

theorem turn_cases {i : ι} {t id : Nat} (hw : net.Wired) (h : netStep pf net (.turn i t id) = some net') :
    ∃ task f, (net.nodes i).tasks[t]? = some task ∧ net.forwards i t = some f ∧ f.waiting = none ∧
      task.phase.resume.isSome = true ∧
      ((∃ (target : NodeId) (f' : Forward), net.requests id = none ∧
        net' = (net.setForward i t (some { f' with waiting := some id })).setRequest id
          ⟨task.programId, task.input, target, .sent⟩) ∨
        ∃ turn, net.resume i t task turn = some net') := by
  simp only [netStep] at h
  split at h
  case h_2 => cases h
  rename_i task f ht hf
  split at h
  · cases h
  rename_i hwait
  obtain ⟨task', ht', hres, -⟩ := hw i t f hf
  cases ht.symm.trans ht'
  refine ⟨task, f, ht, hf, not_waiting hwait, hres, ?_⟩
  split at h
  · rename_i target f' _
    split at h
    · cases h
    · rename_i hnone
      cases h
      exact .inl ⟨target, f', hnone, rfl⟩
  · exact .inr ⟨_, h⟩

theorem wired_netStep (hw : net.Wired) (h : netStep pf net e = some net') : net'.Wired := by
  cases e with
  | client i t p input => exact hw.take h (fun h => by cases h) fun t act h => by cases h
  | own i op =>
    simp only [netStep] at h
    split at h
    case isFalse => cases h
    rename_i hfree
    refine hw.take h (not_restart_of_free hfree) ?_
    rintro t act rfl
    exact forwards_of_free hw hfree h
  | relay j k i clock =>
    obtain ⟨m, -, h⟩ := Option.bind_eq_some_iff.mp h
    cases m <;> exact hw.take h (fun h => by cases h) fun t act h => by cases h
  | supply j i p height clock => exact hw.take h (fun h => by cases h) fun t act h => by cases h
  | enter i t =>
    simp only [netStep] at h
    split at h
    case h_2 => cases h
    rename_i f hstart _
    cases h
    obtain ⟨task, ht, hf⟩ := Option.bind_eq_some_iff.mp hstart
    obtain ⟨hres, hwait⟩ := startForward_spec hf
    refine hw.setForward fun f' hf' => ⟨task, ht, hres, fun id hid => ?_⟩
    cases hf'
    rw [hwait] at hid
    cases hid
  | turn i t id =>
    obtain ⟨task, f, ht, hf, hwait, hres, ⟨target, f', hnone, rfl⟩ | ⟨turn, h⟩⟩ := turn_cases hw h
    · exact hw.ask ht hres hnone
    · exact hw.resume h ht hres
  | handle id j t =>
    obtain ⟨q, hq, h⟩ := Option.bind_eq_some_iff.mp h
    split at h
    case isFalse => cases h
    have hset : ∀ status, (net.setRequest id { q with status := status }).Wired := by
      refine fun status => hw.setRequest fun q' hq' => ?_
      cases hq.symm.trans hq'
      exact ⟨rfl, rfl⟩
    rw [Net.handle] at h
    split at h
    · obtain ⟨status, -, rfl⟩ := Option.map_eq_some_iff.mp h
      exact hset status
    · exact (hset _).take h (fun h => by cases h) fun t act h => by cases h
  | answer i t =>
    obtain ⟨⟨id, q⟩, hq, h⟩ := Option.bind_eq_some_iff.mp h
    obtain ⟨reply, -, h⟩ := Option.bind_eq_some_iff.mp h
    exact hw.conclude hq h
  | giveUp i t =>
    obtain ⟨⟨id, q⟩, hq, h⟩ := Option.bind_eq_some_iff.mp h
    obtain ⟨status, -, h⟩ := Option.bind_eq_some_iff.mp h
    exact hw.conclude hq h
  | restart i => exact hw.restart h

omit [DecidableEq ι] in
theorem forwardReply_of_accepted {q : LeaderRequest ι} {reply : LeaderReply}
    (hreply : net.replyTo q = some reply) (hu : q.status.undecided = false) (f : Forward) :
    ∃ r ≠ .ok none, forwardReply f (some reply) = .finish r := by
  rw [Net.replyTo] at hreply
  split at hreply
  · rename_i hs
    rw [hs] at hu
    cases hu
  · obtain ⟨result, -, rfl⟩ := Option.map_eq_some_iff.mp hreply
    cases result with
    | ok o => exact ⟨.ok (some o), by simp, rfl⟩
    | error e => exact ⟨.error e, by simp, rfl⟩
  · cases hreply

omit [DecidableEq ι] in
theorem giveUp_undecided {status status' : RequestStatus ι} (h : status.giveUp = some status') :
    status'.undecided = false := by
  cases status <;> cases h <;> rfl

theorem netStep_passes (hw : net.Wired) (hk : Kept pf p input net e) (h : netStep pf net e = some net')
    (hnew : e.submits p input = false) :
    Passes Place.final {x | net.Carries p input x} {x | net'.Carries p input x} := by
  cases e with
  | client i t p' input' =>
    refine .keep fun x hx => ?_
    rcases carries_submit h hx with hx | ⟨-, he⟩
    · exact hx
    · exact absurd he (of_decide_eq_false hnew)
  | own i op =>
    simp only [netStep] at h
    split at h
    · rename_i hfree
      exact own_passes hw hfree h
    · cases h
  | relay j k i clock =>
    obtain ⟨m, hm, h⟩ := Option.bind_eq_some_iff.mp h
    have hmem := List.mem_of_getElem? hm
    cases m with
    | proposal m =>
      refine delivered_passes h (fun _ _ _ h => by cases h) (fun _ _ h => by cases h) fun r hr => ?_
      exact ⟨j, .published _ hmem hr⟩
    | vote v =>
      exact delivered_passes h (fun _ _ _ h => by cases h) (fun _ _ h => by cases h) fun r hr => by cases hr
    | aggregatedReceipt b =>
      refine delivered_passes h (fun _ _ _ h => by cases h) (fun _ _ h => by cases h) fun r hr => ?_
      exact ⟨j, .published _ hmem hr⟩
  | supply j i p' height clock =>
    refine delivered_passes h (fun _ _ _ h => by cases h) (fun _ _ h => by cases h) fun r hr => ?_
    obtain ⟨b, hb, hr⟩ := Option.map_eq_some_iff.mp hr
    exact ⟨j, .stored _ b hb hr⟩
  | enter i t =>
    simp only [netStep] at h
    split at h
    case h_2 => cases h
    rename_i f hstart hnone
    cases h
    refine .keep fun x hx => ?_
    rcases carries_setForward hx with hx | ⟨rfl, hl, -⟩
    · exact hx
    · exact .call hl (not_waits (by rw [hnone]; rfl))
  | turn i t id =>
    obtain ⟨task, f, ht, hf, hwait, hres, ⟨target, f', hnone, rfl⟩ | ⟨turn, h⟩⟩ := turn_cases hw h
    · exact ask_passes hf hwait ht hres
    · refine .keep fun x hx => ?_
      rcases resume_carries h ht hres hx with hx | ⟨rfl, hl, -⟩
      · exact hx
      · exact .call hl (not_waits (by rw [hf]; exact hwait))
  | handle id j t =>
    obtain ⟨q, hq, h⟩ := Option.bind_eq_some_iff.mp h
    split at h
    · rename_i harr
      exact handle_passes hq h (hk q hq) harr.1
    · cases h
  | answer i t =>
    obtain ⟨⟨id, q⟩, hq, h⟩ := Option.bind_eq_some_iff.mp h
    obtain ⟨reply, hreply, h⟩ := Option.bind_eq_some_iff.mp h
    refine conclude_passes hw hq h rfl fun _ => ?_
    cases hu : q.status.undecided with
    | true => exact .inl rfl
    | false => exact .inr (forwardReply_of_accepted hreply hu)
  | giveUp i t =>
    obtain ⟨⟨id, q⟩, hq, h⟩ := Option.bind_eq_some_iff.mp h
    obtain ⟨status, hs, h⟩ := Option.bind_eq_some_iff.mp h
    exact conclude_passes hw hq h (giveUp_undecided hs) fun hfor => .inl (hk (id, q) hq hfor)
  | restart i => exact restart_passes h

theorem netStep_conserves (pf : Platform) (p : ProgramId) (input : Bytes) :
    Conserves (@netStep ι _ pf) Net.Wired (Kept pf p input) (fun net => {x | net.Carries p input x})
      Place.final (NetEvent.submits p input) := by
  refine ⟨fun net e net' hw _ h => wired_netStep hw h, fun net e net' hw hk h => netStep_passes hw hk h, ?_⟩
  intro net e net' _ _ h hnew
  cases e with
  | client i t p' input' =>
    refine ⟨.call i t, fun x hx => ?_⟩
    rcases carries_submit h hx with hx | ⟨rfl, -⟩
    · exact .inr hx
    · exact .inl rfl
  | _ => cases hnew

end Net

/-- The node has committed, at this height, a transition for `p` that carries `input`. -/
def Node.CommitsInput (s : Node) (p : ProgramId) (input : Bytes) (height : UInt64) : Prop :=
  (s.catalog.getStateCommitment p height).isSome = true ∧
    (s.loadFinalizedTransition p height).map (·.receipt.receipt.call.calldata) = some input

instance (s : Node) (p : ProgramId) (input : Bytes) (height : UInt64) :
    Decidable (s.CommitsInput p input height) :=
  inferInstanceAs (Decidable (_ ∧ _))

theorem Node.CommitsInput.holds {s : Node} {height : UInt64} (h : s.CommitsInput p input height) :
    ∃ r, s.Holds r ∧ r.programId = p ∧ r.call.calldata = input ∧ r.height = height := by
  obtain ⟨b, hb, hi⟩ := Option.map_eq_some_iff.mp h.2
  obtain ⟨hp, hh⟩ := Node.loadFinalizedTransition_eq_some hb
  exact ⟨b.receipt.receipt, .stored _ b hb rfl, hp, hi, hh⟩

theorem carries_start {boot : ι → Node} (hboot : ∀ i, (boot i).Fresh) :
    {x | (Net.start boot).Carries p input x} = ∅ := by
  refine Set.eq_empty_iff_forall_notMem.mpr fun x hx => ?_
  cases hx with
  | @call i t hl _ =>
    obtain ⟨task, ht, -⟩ := hl
    change (boot i).tasks[t]? = _ at ht
    rw [hboot i] at ht
    simp [Node.fresh] at ht
  | request hq => cases hq
  | @receipt i r hr =>
    change (boot i).Holds r at hr
    rw [hboot i] at hr
    cases hr with
    | published m hm _ => cases hm
    | pending id e he _ => simp [Node.fresh] at he
    | handling task ht _ => cases ht
    | stored k b hb _ => simp [Node.fresh] at hb

theorem wired_start (boot : ι → Node) : (Net.start boot).Wired := by
  intro i t f hf
  cases hf

/-- In every run of the nodes in which a client calls `submit_execution` with this input at most once
and no request is given up that a member carries out, all transitions committed with this input, on
any node and at any time, are at one height. -/
theorem committed_once [DecidableEq ι] {pf : Platform} {boot : ι → Node} {net₁ net₂ : Net ι}
    {events₁ events₂ : List (NetEvent ι)} (hboot : ∀ i, (boot i).Fresh)
    (hone : (events₁ ++ events₂).countP (NetEvent.submits p input) ≤ 1)
    (hkept : Along (netStep pf) (Kept pf p input) (Net.start boot) (events₁ ++ events₂))
    (hrun₁ : run (netStep pf) (Net.start boot) events₁ = some net₁)
    (hrun₂ : run (netStep pf) net₁ events₂ = some net₂) {i j : ι} {height height' : UInt64}
    (hi : (net₁.nodes i).CommitsInput p input height) (hj : (net₂.nodes j).CommitsInput p input height') :
    height = height' := by
  obtain ⟨r, hr, hp, hc, hh⟩ := hi.holds
  obtain ⟨r', hr', hp', hc', hh'⟩ := hj.holds
  have hx : net₁.Carries p input (.receipt r) := .receipt hr hp hc
  have hy : net₂.Carries p input (.receipt r') := .receipt hr' hp' hc'
  have he := (netStep_conserves pf p input).final_unique (wired_start boot) (carries_start hboot) hkept hone
    hrun₁ hrun₂ hx trivial hy
  cases he
  rw [← hh, ← hh']

section Sample

def pair : CommitteeCertificate := sampleCommittee sampleProgram [1, 2] 1

def pairNode (i : Fin 3) : Node := sampleStart (UInt8.ofNat (i.val + 1))

def pairSetup : List (NetEvent (Fin 3)) := [0, 1, 2].flatMap fun i => (sampleSetup pair).map (.own i)

def pairAsks : List (NetEvent (Fin 3)) :=
  [.client 2 0 sampleProgram [7], .own 2 (.call 0 (.resolve false)), .enter 2 0, .turn 2 0 0, .handle 0 0 0]

def pairLeads (i : Fin 3) : List (NetEvent (Fin 3)) :=
  [.resolve false, .route fun _ => none, .acquire, .lead, .prepare, .readRoot, .execute 0, .propose, .sign,
    .settle fun _ => 0, .finish].map fun act => .own i (.call 0 act)

/-- The leader commits and answers, and its bundle reaches the other member. -/
theorem committed_once_pair :
    let events₁ := pairSetup ++ pairAsks ++ pairLeads 0
    let events₂ := [.answer 2 0, .relay 0 2 1 fun _ => 0]
    ∃ net₁ net₂, run (netStep sampleRuntime) (Net.start pairNode) events₁ = some net₁ ∧
      run (netStep sampleRuntime) net₁ events₂ = some net₂ ∧
      (net₁.nodes 0).CommitsInput sampleProgram [7] 1 ∧ (net₂.nodes 1).CommitsInput sampleProgram [7] 1 ∧
      ∀ i j height height', (net₁.nodes i).CommitsInput sampleProgram [7] height →
        (net₂.nodes j).CommitsInput sampleProgram [7] height' → height = height' := by
  intro events₁ events₂
  have hrun : ((run (netStep sampleRuntime) (Net.start pairNode) events₁).any fun net₁ =>
      (net₁.nodes 0).CommitsInput sampleProgram [7] 1 ∧
      ((run (netStep sampleRuntime) net₁ events₂).any fun net₂ =>
        (net₂.nodes 1).CommitsInput sampleProgram [7] 1) = true) = true := by decide +kernel
  obtain ⟨net₁, hnet₁, hi, hrun⟩ := exists_of_any hrun
  obtain ⟨net₂, hnet₂, hj⟩ := exists_of_any hrun
  refine ⟨net₁, net₂, hnet₁, hnet₂, hi, hj, fun i j height height' => ?_⟩
  have hfresh : ∀ i, (pairNode i).Fresh := fun _ => rfl
  exact committed_once hfresh (by decide +kernel) (by decide +kernel) hnet₁ hnet₂

/-- Node 2 gives up the request that the leader is carrying out. When the leader has committed
height 1, node 2 asks the other member, which leads height 2 and commits the same call again. -/
theorem forwarded_call_commits_twice :
    let events := pairSetup ++ pairAsks ++ [.giveUp 2 0] ++ pairLeads 0 ++
      [.relay 0 2 1 fun _ => 0, .turn 2 0 1, .handle 1 1 0] ++ pairLeads 1
    (∀ i, (pairNode i).Fresh) ∧ events.countP (NetEvent.submits sampleProgram [7]) = 1 ∧
      ∃ net, run (netStep sampleRuntime) (Net.start pairNode) events = some net ∧
        (net.nodes 1).CommitsInput sampleProgram [7] 1 ∧ (net.nodes 1).CommitsInput sampleProgram [7] 2 := by
  intro events
  refine ⟨fun _ => rfl, by decide +kernel, ?_⟩
  have hrun : ((run (netStep sampleRuntime) (Net.start pairNode) events).any fun net =>
      (net.nodes 1).CommitsInput sampleProgram [7] 1 ∧ (net.nodes 1).CommitsInput sampleProgram [7] 2) =
      true := by decide +kernel
  exact exists_of_any hrun

end Sample

end Onvm
