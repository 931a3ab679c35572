import Onvm.Handover
import Onvm.LeaderRequests

/-! Where a submission is. Until a receipt is proposed for it, it is with a call or with a request; each
step of the network leaves it there or hands it over. -/

namespace Onvm

open ByteString Handover OrderedStore Runs Std

variable {ι : Type} {p : ProgramId} {input : Bytes}

inductive Place (ι : Type)
  | call (i : ι) (t : Nat)
  | request (id : Nat)
  | receipt (r : ExecutionReceipt)

def RequestStatus.undecided : RequestStatus ι → Bool
  | .sent | .refused _ => true
  | _ => false

def LeaderRequest.For (q : LeaderRequest ι) (p : ProgramId) (input : Bytes) : Prop :=
  q.programId = p ∧ q.input = input

instance (q : LeaderRequest ι) (p : ProgramId) (input : Bytes) : Decidable (q.For p input) :=
  inferInstanceAs (Decidable (_ ∧ _))

namespace Net

def Waits (net : Net ι) (i : ι) (t id : Nat) : Prop := (net.forwards i t).bind (·.waiting) = some id

/-- The places that may bring about a receipt for `p` and `input`, and those receipts. A call that
waits for a request is not one: the request stands for it. -/
inductive Carries (net : Net ι) (p : ProgramId) (input : Bytes) : Place ι → Prop
  | call {i : ι} {t : Nat} (hl : (net.nodes i).LiveCall p input t) (hw : ∀ id, ¬ net.Waits i t id) :
    Carries net p input (.call i t)
  | request {id : Nat} {q : LeaderRequest ι} (hq : net.requests id = some q) (hfor : q.For p input)
    (hu : q.status.undecided = true) : Carries net p input (.request id)
  | receipt {i : ι} {r : ExecutionReceipt} (hr : (net.nodes i).Holds r) (hp : r.programId = p)
    (hi : r.call.calldata = input) : Carries net p input (.receipt r)

def Wired (net : Net ι) : Prop :=
  ∀ i t f, net.forwards i t = some f →
    ∃ task, (net.nodes i).tasks[t]? = some task ∧ task.phase.resume.isSome = true ∧
      ∀ id, f.waiting = some id → ∃ q, net.requests id = some q ∧ q.For task.programId task.input

end Net

def Place.final : Place ι → Prop
  | .receipt _ => True
  | _ => False

theorem not_waits {net : Net ι} {i : ι} {t : Nat} (h : (net.forwards i t).bind (·.waiting) = none)
    (id : Nat) : ¬ net.Waits i t id := by
  rw [Net.Waits, h]
  exact nofun

section Frames

variable [DecidableEq ι] {net net' : Net ι} {i : ι} {t id : Nat} {x : Place ι}

theorem forwards_setForward (f : Option Forward) (i' : ι) (t' : Nat) :
    (net.setForward i t f).forwards i' t' = if i' = i ∧ t' = t then f else net.forwards i' t' := by
  rw [Net.setForward]
  dsimp only
  by_cases hi : i' = i
  · subst hi
    rw [Function.update_self, Function.update_apply]
    simp
  · rw [Function.update_of_ne hi, if_neg fun h => hi h.1]

omit [DecidableEq ι] in
theorem requests_setRequest (q : LeaderRequest ι) (id' : Nat) :
    (net.setRequest id q).requests id' = if id' = id then some q else net.requests id' :=
  Function.update_apply ..

theorem carries_setNode {s' : Node} {X : Place ι → Prop}
    (hlive : ∀ t, s'.LiveCall p input t → (net.nodes i).LiveCall p input t ∨ X (.call i t))
    (hholds : ∀ r, s'.Holds r → r.programId = p → r.call.calldata = input →
      (net.nodes i).Holds r ∨ net.Carries p input (.receipt r) ∨ X (.receipt r))
    (hx : (net.setNode i s').Carries p input x) : net.Carries p input x ∨ X x := by
  cases hx with
  | @call i' t hl hw =>
    rw [Net.nodes_setNode] at hl
    split at hl
    · rename_i he
      subst he
      exact (hlive t hl).imp_left fun hl => .call hl hw
    · exact .inl (.call hl hw)
  | request hq hfor hu => exact .inl (.request hq hfor hu)
  | @receipt i' r hr hp hi =>
    rw [Net.nodes_setNode] at hr
    split at hr
    · rcases hholds r hr hp hi with hr | hr | hr
      · exact .inl (.receipt hr hp hi)
      · exact .inl hr
      · exact .inr hr
    · exact .inl (.receipt hr hp hi)

omit [DecidableEq ι] in
theorem carries_setRequest {q : LeaderRequest ι} (hx : (net.setRequest id q).Carries p input x) :
    net.Carries p input x ∧ x ≠ .request id ∨
      x = .request id ∧ q.For p input ∧ q.status.undecided = true := by
  cases hx with
  | call hl hw => exact .inl ⟨.call hl hw, fun h => by cases h⟩
  | @request id' q' hq hfor hu =>
    rw [requests_setRequest] at hq
    split at hq
    · rename_i he
      cases hq
      exact .inr ⟨by rw [he], hfor, hu⟩
    · rename_i hne
      exact .inl ⟨.request hq hfor hu, fun h => hne (by cases h; rfl)⟩
  | receipt hr hp hi => exact .inl ⟨.receipt hr hp hi, fun h => by cases h⟩

theorem carries_setForward {f : Option Forward} (hx : (net.setForward i t f).Carries p input x) :
    net.Carries p input x ∨
      x = .call i t ∧ (net.nodes i).LiveCall p input t ∧ f.bind (·.waiting) = none := by
  cases hx with
  | @call i' t' hl hw =>
    by_cases he : i' = i ∧ t' = t
    · obtain ⟨rfl, rfl⟩ := he
      refine .inr ⟨rfl, hl, Option.eq_none_iff_forall_ne_some.mpr fun id hid => hw id ?_⟩
      rw [Net.Waits, forwards_setForward, if_pos ⟨rfl, rfl⟩]
      exact hid
    · refine .inl (.call hl fun id hid => hw id ?_)
      rw [Net.Waits, forwards_setForward, if_neg he]
      exact hid
  | request hq hfor hu => exact .inl (.request hq hfor hu)
  | receipt hr hp hi => exact .inl (.receipt hr hp hi)

theorem Net.Wired.setNode (hw : net.Wired) {s' : Node}
    (hs : ∀ t f task, net.forwards i t = some f → (net.nodes i).tasks[t]? = some task →
      s'.tasks[t]? = some task) : (net.setNode i s').Wired := by
  intro i' t f hf
  obtain ⟨task, ht, hres, hwait⟩ := hw i' t f hf
  refine ⟨task, ?_, hres, hwait⟩
  rw [Net.nodes_setNode]
  split
  · rename_i he
    subst he
    exact hs t f task hf ht
  · exact ht

omit [DecidableEq ι] in
theorem Net.Wired.setRequest (hw : net.Wired) {q : LeaderRequest ι}
    (hq : ∀ q', net.requests id = some q' → q.For q'.programId q'.input) : (net.setRequest id q).Wired := by
  intro i t f hf
  obtain ⟨task, ht, hres, hwait⟩ := hw i t f hf
  refine ⟨task, ht, hres, fun id' hid => ?_⟩
  obtain ⟨q', hq', hp, hi⟩ := hwait id' hid
  rw [requests_setRequest]
  split
  · rename_i he
    subst he
    obtain ⟨hp', hi'⟩ := hq q' hq'
    exact ⟨q, rfl, hp'.trans hp, hi'.trans hi⟩
  · exact ⟨q', hq', hp, hi⟩

theorem Net.Wired.setForward (hw : net.Wired) {f : Option Forward}
    (hf : ∀ f' ∈ f, ∃ task, (net.nodes i).tasks[t]? = some task ∧ task.phase.resume.isSome = true ∧
      ∀ id, f'.waiting = some id → ∃ q, net.requests id = some q ∧ q.For task.programId task.input) :
    (net.setForward i t f).Wired := by
  intro i' t' f' hf'
  rw [forwards_setForward] at hf'
  split at hf'
  · rename_i he
    obtain ⟨rfl, rfl⟩ := he
    exact hf f' hf'
  · exact hw i' t' f' hf'

end Frames

section Calls

variable {pf : Platform} {s s' : Node} {t : Nat} {task : SubmitTask} {r : Except String (Option ExecutionOutcome)}

theorem Phase.live_of_resume {phase : Phase} (h : phase.resume.isSome = true) : phase.live = true := by
  cases phase <;> first | rfl | cases h

theorem callStep_of_resume {act : CallStep} (h : callStep pf s t task act task.phase = some s')
    (hres : task.phase.resume.isSome = true) :
    (∃ answers, act = .route answers) ∨ ∃ answers, act = .forward answers := by
  cases hph : task.phase with
  | route c =>
    rw [hph] at h
    cases act with
    | route answers => exact .inl ⟨answers, rfl⟩
    | _ => cases h
  | forward c height leader =>
    rw [hph] at h
    cases act with
    | forward answers => exact .inr ⟨answers, rfl⟩
    | _ => cases h
  | _ =>
    rw [hph] at hres
    cases hres

theorem afterForward_cases (h : afterForward s t task r = some s') :
    ∃ phase : Phase, s'.tasks = s.tasks.insert t { task with phase := phase } ∧
      s'.published = s.published ∧ s'.pending = s.pending ∧ s'.handling = s.handling ∧
      s'.finalizedStore = s.finalizedStore ∧ (r ≠ .ok none → phase.live = false) := by
  rcases r with e | _ | o
  · cases h
    exact ⟨_, rfl, rfl, rfl, rfl, rfl, fun _ => rfl⟩
  · obtain ⟨phase, -, rfl⟩ := Option.map_eq_some_iff.mp h
    exact ⟨phase, rfl, rfl, rfl, rfl, rfl, fun h => absurd rfl h⟩
  · cases h
    exact ⟨_, rfl, rfl, rfl, rfl, rfl, fun _ => rfl⟩

theorem afterForward_holds (h : afterForward s t task r = some s') {x : ExecutionReceipt} (hx : s'.Holds x) :
    s.Holds x := by
  obtain ⟨phase, -, hpub, hpend, hhand, hfin, -⟩ := afterForward_cases h
  refine ((@Node.gains_of_same s s' (fun _ => False) hpub hpend hhand).holds ?_ hx).elim id False.elim
  intro k b hb
  rw [hfin] at hb
  exact .inl hb

theorem afterForward_liveCall (h : afterForward s t task r = some s') (ht : s.tasks[t]? = some task)
    (hlive : task.phase.live = true) {t' : Nat} (hl : s'.LiveCall p input t') : s.LiveCall p input t' := by
  obtain ⟨phase, htasks, -⟩ := afterForward_cases h
  rcases Node.liveCall_of_insert htasks hl with hl | ⟨rfl, hp, hi, -⟩
  · exact hl
  · exact ⟨task, ht, hp, hi, hlive⟩

theorem afterForward_closes (h : afterForward s t task r = some s') (hr : r ≠ .ok none) :
    ¬ s'.LiveCall p input t := by
  obtain ⟨phase, htasks, -, -, -, -, hdead⟩ := afterForward_cases h
  rintro ⟨x, hx, -, -, hl⟩
  rw [htasks, getElem?_insert_nat, if_pos rfl] at hx
  cases hx
  rw [hdead hr] at hl
  cases hl

theorem startForward_spec {f : Forward} (h : startForward s task = some f) :
    task.phase.resume.isSome = true ∧ f.waiting = none := by
  rw [startForward] at h
  split at h
  · rename_i c hph
    rw [hph]
    split at h
    · cases h
    split at h
    · cases h
    · cases h
      exact ⟨rfl, rfl⟩
  · rename_i hph
    rw [hph]
    cases h
    exact ⟨rfl, rfl⟩
  · cases h

end Calls

section Free

variable {net : Net ι} {i : ι} {op : Op}

theorem carried_of_free (hfree : net.free i op = true) : op.carried = none := by
  cases op with
  | proposal m => cases hfree
  | deliver clock m => cases m <;> first | rfl | cases hfree
  | _ => rfl

theorem not_submit_of_free (hfree : net.free i op = true) (t : Nat) (p : ProgramId) (input : Bytes) :
    op ≠ .submit t p input := by
  rintro rfl
  cases hfree

theorem not_restart_of_free (hfree : net.free i op = true) : op ≠ .restart := by
  rintro rfl
  cases hfree

end Free

section Steps

variable [DecidableEq ι] {pf : Platform} {net net' : Net ι} {i : ι} {t : Nat} {op : Op}

theorem take_eq_some (h : net.take pf i op = some net') :
    ∃ s', step pf (net.nodes i) op = some s' ∧ net' = net.setNode i s' := by
  obtain ⟨s', hs, rfl⟩ := Option.map_eq_some_iff.mp h
  exact ⟨s', hs, rfl⟩

theorem Net.Wired.take (hw : net.Wired) (h : net.take pf i op = some net') (hrestart : op ≠ .restart)
    (hcall : ∀ t act, op = .call t act → net.forwards i t = none) : net'.Wired := by
  obtain ⟨s', hs, rfl⟩ := take_eq_some h
  refine hw.setNode fun t f task hf ht => step_task hs hrestart (fun act he => ?_) ht
  rw [hcall t act he] at hf
  cases hf

theorem carries_take (h : net.take pf i op = some net') (hsub : ∀ t p input, op ≠ .submit t p input)
    {x : Place ι} (hx : net'.Carries p input x) : net.Carries p input x ∨
      ∃ r, x = .receipt r ∧ r.programId = p ∧ r.call.calldata = input ∧
        (op.carried = some r ∨ (net.nodes i).Proposes pf op r) := by
  obtain ⟨s', hs, rfl⟩ := take_eq_some h
  refine carries_setNode (X := fun x => ∃ r, x = .receipt r ∧ r.programId = p ∧ r.call.calldata = input ∧
    (op.carried = some r ∨ (net.nodes i).Proposes pf op r)) (fun t hl => .inl (liveCall_step hs hsub hl))
    (fun r hr hp hi => ?_) hx
  rcases holds_step hs hr with hr | hr
  · exact .inl hr
  · exact .inr (.inr ⟨r, rfl, hp, hi, hr⟩)

theorem carries_submit {p' : ProgramId} {input' : Bytes}
    (h : net.take pf i (.submit t p' input') = some net') {x : Place ι} (hx : net'.Carries p input x) :
    net.Carries p input x ∨ x = .call i t ∧ p' = p ∧ input' = input := by
  obtain ⟨s', hs, rfl⟩ := take_eq_some h
  refine carries_setNode (X := fun x => x = .call i t ∧ p' = p ∧ input' = input) (fun t' hl => ?_)
    (fun r hr _ _ => ?_) hx
  · refine (liveCall_submit hs hl).imp_right ?_
    rintro ⟨rfl, hp, hi⟩
    exact ⟨rfl, hp, hi⟩
  · rcases holds_step hs hr with hr | hr | hr
    · exact .inl hr
    · cases hr
    · obtain ⟨t', -, -, -, -, -, he, -⟩ := hr
      cases he

theorem forwards_of_free (hw : net.Wired) {act : CallStep} (hfree : net.free i (.call t act) = true)
    (h : net.take pf i (.call t act) = some net') : net.forwards i t = none := by
  cases hf : net.forwards i t with
  | none => rfl
  | some f =>
    obtain ⟨task, ht, hres, -⟩ := hw i t f hf
    obtain ⟨s', hs, rfl⟩ := take_eq_some h
    simp only [step, ht] at hs
    rcases callStep_of_resume hs hres with ⟨answers, rfl⟩ | ⟨answers, rfl⟩
    · simp [Net.free, hf] at hfree
    · cases hfree

theorem own_passes (hw : net.Wired) (hfree : net.free i op = true) (h : net.take pf i op = some net') :
    Passes Place.final {x | net.Carries p input x} {x | net'.Carries p input x} := by
  have hcarr : ∀ x, net'.Carries p input x → net.Carries p input x ∨
      ∃ r, x = .receipt r ∧ r.programId = p ∧ r.call.calldata = input ∧ (net.nodes i).Proposes pf op r := by
    intro x hx
    refine (carries_take h (not_submit_of_free hfree) hx).imp_right ?_
    rintro ⟨r, hr, hp, hi, hc | hc⟩
    · rw [carried_of_free hfree] at hc
      cases hc
    · exact ⟨r, hr, hp, hi, hc⟩
  by_cases hprop : ∃ r, (net.nodes i).Proposes pf op r ∧ r.programId = p ∧ r.call.calldata = input
  · obtain ⟨r, hr, rfl, rfl⟩ := hprop
    obtain ⟨s', hs, rfl⟩ := take_eq_some h
    obtain ⟨t, rfl, hlive, hdead, task, c, height, rootIn, o, ht, hph⟩ := hr.liveCall hs
    have hidle : (net.forwards i t).bind (·.waiting) = none := by
      rw [forwards_of_free hw hfree h]
      rfl
    refine .hand (.call i t) (.receipt r) (.call hlive (not_waits hidle)) id fun x hx => ?_
    rcases hcarr x hx with hold | ⟨r', rfl, -, -, hr'⟩
    · refine .inr ⟨hold, ?_⟩
      rintro rfl
      cases hx with
      | call hl _ =>
        rw [Net.nodes_setNode, if_pos rfl] at hl
        exact hdead hl
    · rw [hr.unique hr']
      exact .inl rfl
  · refine .keep fun x hx => ?_
    rcases hcarr x hx with hold | ⟨r, -, hp, hi, hr⟩
    · exact hold
    · exact absurd ⟨r, hr, hp, hi⟩ hprop

theorem delivered_passes (h : net.take pf i op = some net') (hsub : ∀ t p input, op ≠ .submit t p input)
    (hcall : ∀ t act, op ≠ .call t act) (hheld : ∀ r, op.carried = some r → ∃ j, (net.nodes j).Holds r) :
    Passes Place.final {x | net.Carries p input x} {x | net'.Carries p input x} := by
  refine .keep fun x hx => ?_
  rcases carries_take h hsub hx with hold | ⟨r, rfl, hp, hi, hc | hc⟩
  · exact hold
  · obtain ⟨j, hj⟩ := hheld r hc
    exact .receipt hj hp hi
  · obtain ⟨t, -, -, -, -, -, he, -⟩ := hc
    exact absurd he (hcall t _)

end Steps

section Forwarding

variable [DecidableEq ι] {pf : Platform} {net net' : Net ι} {i : ι} {t id : Nat} {task : SubmitTask}
  {turn : ForwardTurn} {x : Place ι}

theorem resume_carries (h : net.resume i t task turn = some net') (ht : (net.nodes i).tasks[t]? = some task)
    (hres : task.phase.resume.isSome = true) (hx : net'.Carries p input x) :
    net.Carries p input x ∨
      x = .call i t ∧ (net.nodes i).LiveCall p input t ∧ (net'.nodes i).LiveCall p input t := by
  have hback : net.Carries p input x ∨ x = .call i t ∧ (net.nodes i).LiveCall p input t := by
    cases turn with
    | finish r =>
      obtain ⟨s', hs, rfl⟩ := Option.map_eq_some_iff.mp h
      have hlive := fun t' => @afterForward_liveCall p input _ _ _ _ _ hs ht (Phase.live_of_resume hres) t'
      have hx' : (net.setForward i t none).Carries p input x ∨ False :=
        carries_setNode (X := fun _ => False) (fun t' hl => .inl (hlive t' hl))
          (fun r hr _ _ => .inl (afterForward_holds hs hr)) hx
      exact (carries_setForward (hx'.resolve_right id)).imp_right fun hx => ⟨hx.1, hx.2.1⟩
    | next f =>
      cases h
      exact (carries_setForward hx).imp_right fun hx => ⟨hx.1, hx.2.1⟩
    | ask target f => cases h
  refine hback.imp_right fun ⟨he, hl⟩ => ⟨he, hl, ?_⟩
  subst he
  cases hx with
  | call hl' _ => exact hl'

theorem resume_closes {r : Except String (Option ExecutionOutcome)}
    (h : net.resume i t task (.finish r) = some net') (hr : r ≠ .ok none) :
    ¬ (net'.nodes i).LiveCall p input t := by
  obtain ⟨s', hs, rfl⟩ := Option.map_eq_some_iff.mp h
  rw [Net.nodes_setNode, if_pos rfl]
  exact afterForward_closes hs hr

theorem Net.Wired.resume (hw : net.Wired) (h : net.resume i t task turn = some net')
    (ht : (net.nodes i).tasks[t]? = some task) (hres : task.phase.resume.isSome = true) : net'.Wired := by
  cases turn with
  | finish r =>
    obtain ⟨s', hs, rfl⟩ := Option.map_eq_some_iff.mp h
    obtain ⟨phase, htasks, -⟩ := afterForward_cases hs
    refine (hw.setForward fun f' hf' => by cases hf').setNode fun t' f task' hf ht' => ?_
    rw [forwards_setForward] at hf
    have hne : t ≠ t' := by
      rintro rfl
      rw [if_pos ⟨rfl, rfl⟩] at hf
      cases hf
    rw [htasks, getElem?_insert_nat, if_neg hne]
    exact ht'
  | next f =>
    cases h
    refine hw.setForward fun f' hf' => ?_
    cases hf'
    exact ⟨task, ht, hres, fun id hid => by cases hid⟩
  | ask target f => cases h

theorem Net.Wired.ask (hw : net.Wired) {f' : Forward} {target : NodeId}
    (ht : (net.nodes i).tasks[t]? = some task) (hres : task.phase.resume.isSome = true)
    (hnone : net.requests id = none) :
    ((net.setForward i t (some { f' with waiting := some id })).setRequest id
      ⟨task.programId, task.input, target, .sent⟩).Wired := by
  intro i' t' f hf
  change (net.setForward i t _).forwards i' t' = _ at hf
  rw [forwards_setForward] at hf
  split at hf
  · rename_i he
    obtain ⟨rfl, rfl⟩ := he
    cases hf
    refine ⟨task, ht, hres, fun id' hid => ?_⟩
    cases hid
    rw [requests_setRequest, if_pos rfl]
    exact ⟨_, rfl, rfl, rfl⟩
  · obtain ⟨task', ht', hres', hwait⟩ := hw i' t' f hf
    refine ⟨task', ht', hres', fun id' hid => ?_⟩
    obtain ⟨q, hq, hfor⟩ := hwait id' hid
    have hne : id' ≠ id := by
      rintro rfl
      rw [hnone] at hq
      cases hq
    refine ⟨q, ?_, hfor⟩
    rw [requests_setRequest, if_neg hne]
    exact hq

theorem ask_passes {f f' : Forward} {target : NodeId} (hf : net.forwards i t = some f)
    (hwait : f.waiting = none) (ht : (net.nodes i).tasks[t]? = some task)
    (hres : task.phase.resume.isSome = true) :
    Passes Place.final {x | net.Carries p input x}
      {x | ((net.setForward i t (some { f' with waiting := some id })).setRequest id
        ⟨task.programId, task.input, target, .sent⟩).Carries p input x} := by
  have hback : ∀ x, ((net.setForward i t (some { f' with waiting := some id })).setRequest id
      ⟨task.programId, task.input, target, .sent⟩).Carries p input x →
      net.Carries p input x ∨ x = .request id ∧ task.programId = p ∧ task.input = input := by
    intro x hx
    rcases carries_setRequest hx with ⟨hx, -⟩ | ⟨rfl, hfor, -⟩
    · rcases carries_setForward hx with hx | ⟨-, -, hnone⟩
      · exact .inl hx
      · cases hnone
    · exact .inr ⟨rfl, hfor⟩
  by_cases hfor : task.programId = p ∧ task.input = input
  · have hidle : (net.forwards i t).bind (·.waiting) = none := by
      rw [hf]
      exact hwait
    refine .hand (.call i t) (.request id)
      (.call ⟨task, ht, hfor.1, hfor.2, Phase.live_of_resume hres⟩ (not_waits hidle)) (fun h => h)
      fun x hx => ?_
    rcases hback x hx with hold | ⟨rfl, -⟩
    · refine .inr ⟨hold, ?_⟩
      rintro rfl
      cases hx with
      | call hl hw =>
        refine hw id ?_
        show ((net.setForward i t (some { f' with waiting := some id })).forwards i t).bind _ = some id
        rw [forwards_setForward, if_pos ⟨rfl, rfl⟩]
        rfl
    · exact .inl rfl
  · refine .keep fun x hx => ?_
    rcases hback x hx with hold | ⟨-, he⟩
    · exact hold
    · exact absurd he hfor

omit [DecidableEq ι] in
theorem awaited_eq_some {q : LeaderRequest ι} (h : net.awaited i t = some (id, q)) :
    ∃ f, net.forwards i t = some f ∧ f.waiting = some id ∧ net.requests id = some q := by
  obtain ⟨id', hid, h⟩ := Option.bind_eq_some_iff.mp h
  obtain ⟨f, hf, hid⟩ := Option.bind_eq_some_iff.mp hid
  obtain ⟨q', hq, he⟩ := Option.map_eq_some_iff.mp h
  cases he
  exact ⟨f, hf, hid, hq⟩

theorem conclude_eq_some {q : LeaderRequest ι} {status : RequestStatus ι} {reply : Option LeaderReply}
    (h : net.conclude i t id q status reply = some net') :
    ∃ task f, (net.nodes i).tasks[t]? = some task ∧ net.forwards i t = some f ∧
      (net.setRequest id { q with status := status }).resume i t task (forwardReply f reply) = some net' := by
  rw [Net.conclude] at h
  split at h
  · rename_i task f ht hf
    exact ⟨task, f, ht, hf, h⟩
  · cases h

theorem Net.Wired.conclude (hw : net.Wired) {q : LeaderRequest ι} {status : RequestStatus ι}
    {reply : Option LeaderReply} (hq : net.awaited i t = some (id, q))
    (h : net.conclude i t id q status reply = some net') : net'.Wired := by
  obtain ⟨task, f, ht, hf, h⟩ := conclude_eq_some h
  obtain ⟨task', ht', hres, -⟩ := hw i t f hf
  cases ht.symm.trans ht'
  obtain ⟨-, -, -, hreq⟩ := awaited_eq_some hq
  refine Net.Wired.resume (hw.setRequest fun q' hq' => ?_) h ht hres
  cases hreq.symm.trans hq'
  exact ⟨rfl, rfl⟩

theorem conclude_passes (hw : net.Wired) {q : LeaderRequest ι} {status : RequestStatus ι}
    {reply : Option LeaderReply} (hq : net.awaited i t = some (id, q))
    (h : net.conclude i t id q status reply = some net') (hstatus : status.undecided = false)
    (hback : q.For p input → q.status.undecided = true ∨ ∀ f, ∃ r ≠ .ok none, forwardReply f reply = .finish r) :
    Passes Place.final {x | net.Carries p input x} {x | net'.Carries p input x} := by
  obtain ⟨task, f, ht, hf, h⟩ := conclude_eq_some h
  obtain ⟨task', ht', hres, hwait⟩ := hw i t f hf
  cases ht.symm.trans ht'
  obtain ⟨f', hf', hid, hreq⟩ := awaited_eq_some hq
  cases hf.symm.trans hf'
  obtain ⟨q', hreq', hfor'⟩ := hwait id hid
  cases hreq.symm.trans hreq'
  have hcarr : ∀ x, net'.Carries p input x → net.Carries p input x ∧ x ≠ .request id ∨
      x = .call i t ∧ (net.nodes i).LiveCall p input t ∧ (net'.nodes i).LiveCall p input t := by
    intro x hx
    refine (resume_carries h ht hres hx).imp_left fun hx => ?_
    rcases carries_setRequest hx with hx | ⟨-, -, hu⟩
    · exact hx
    · rw [hstatus] at hu
      cases hu
  by_cases hu : q.For p input ∧ q.status.undecided = true
  · refine .hand (.request id) (.call i t) (.request hreq hu.1 hu.2) (fun h => h) fun x hx => ?_
    rcases hcarr x hx with hold | ⟨rfl, -⟩
    · exact .inr hold
    · exact .inl rfl
  · refine .keep fun x hx => ?_
    rcases hcarr x hx with ⟨hold, -⟩ | ⟨-, hlive, hlive'⟩
    · exact hold
    obtain ⟨task', ht', hp, hi, -⟩ := hlive
    cases ht.symm.trans ht'
    have hfor : q.For p input := ⟨hfor'.1.trans hp, hfor'.2.trans hi⟩
    rcases hback hfor with hund | hfin
    · exact absurd ⟨hfor, hund⟩ hu
    · obtain ⟨r, hr, hfin⟩ := hfin f
      rw [hfin] at h
      exact absurd hlive' (resume_closes h hr)

end Forwarding

end Onvm
