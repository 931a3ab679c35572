import Onvm.Threads

/-! One vote per height. The database remembers the last vote of a node across restarts, but a signature
is made before it gets there, and the leader's own signature is not measured against it. -/

namespace Onvm

open ByteString OrderedStore Runs Std

def ThreadPoint.unrecorded : ThreadPoint → Option ExecutionReceipt
  | .record v => some v.receipt
  | _ => none

def NodeThreads.unrecorded (S : NodeThreads) : List ExecutionReceipt :=
  S.processes.filterMap fun a => a.point.unrecorded

def Node.signedSince (s' s : Node) : List ExecutionReceipt :=
  s'.signed.take (s'.signed.length - s.signed.length)

def ThreadEvent.isRestart : ThreadEvent → Bool
  | .start .restart => true
  | _ => false

/-- What is signed, the vote on record allows, and no other signature for the program is on its way there.
A node does not stop while a signature is. -/
structure VoteGuarded (pf : Platform) (S : NodeThreads) (e : ThreadEvent) : Prop where
  allowed : ∀ S' ∈ threadStep pf S e, ∀ r ∈ S'.shared.signedSince S.shared,
    voteAllowed S.shared.lastVotedStore[r.programId]? r.height (r.id pf) = true
  alone : ∀ S' ∈ threadStep pf S e, ∀ r ∈ S'.shared.signedSince S.shared,
    ∀ r' ∈ S.unrecorded, r'.programId ≠ r.programId
  durable : e.isRestart = true → S.unrecorded = []

instance (pf : Platform) (S : NodeThreads) (e : ThreadEvent) : Decidable (VoteGuarded pf S e) :=
  decidable_of_iff
    ((∀ S' ∈ threadStep pf S e, ∀ r ∈ S'.shared.signedSince S.shared,
        voteAllowed S.shared.lastVotedStore[r.programId]? r.height (r.id pf) = true) ∧
      (∀ S' ∈ threadStep pf S e, ∀ r ∈ S'.shared.signedSince S.shared,
        ∀ r' ∈ S.unrecorded, r'.programId ≠ r.programId) ∧
      (e.isRestart = true → S.unrecorded = []))
    ⟨fun ⟨h1, h2, h3⟩ => ⟨h1, h2, h3⟩, fun h => ⟨h.1, h.2, h.3⟩⟩

/-- A vote at `height` for `id` is the recorded one, or the record is of a later height. -/
def Covers (v : UInt64 × ReceiptId) (height : UInt64) (id : ReceiptId) : Prop :=
  height < v.1 ∨ height = v.1 ∧ id = v.2

def OneVotePerHeight (pf : Platform) (s : Node) : Prop :=
  ∀ r ∈ s.signed, ∀ r' ∈ s.signed, r.programId = r'.programId → r.height = r'.height →
    r.id pf = r'.id pf

instance (pf : Platform) (s : Node) : Decidable (OneVotePerHeight pf s) :=
  inferInstanceAs (Decidable (∀ r ∈ s.signed, ∀ r' ∈ s.signed, _))

def Node.ballots (s : Node) : List ExecutionReceipt × ExtTreeMap ProgramId (UInt64 × ReceiptId) :=
  (s.signed, s.lastVotedStore)

theorem Node.ballots_of_votes {s s' : Node} (h : s'.votes = s.votes) : s'.ballots = s.ballots := by
  have hb := congrArg (fun v => (v.1, v.2.1)) h
  exact hb

theorem Node.ballots_of_core {s s' : Node} (h : s'.core = s.core) : s'.ballots = s.ballots := by
  have hb := congrArg Node.ballots h
  exact hb

theorem ThreadPoint.unrecorded_of_quiet {x : ThreadPoint} (h : x.quiet = true) : x.unrecorded = none := by
  cases x <;> first | rfl | cases h

section Moves

variable {pf : Platform} {clock : UInt64 → UInt64} {th : Thread} {s s' : Node}

theorem notifyPoint_unrecorded (completion : Option Nat) (result : Except String Unit) :
    (notifyPoint th completion result).unrecorded = none := by
  cases completion
  · exact ThreadPoint.unrecorded_of_quiet Thread.over_quiet
  · rfl

theorem handledPoint_unrecorded (h : Option Handling) (result : Except String Unit) :
    (handledPoint th h result).unrecorded = none := by
  unfold handledPoint
  split
  · split
    · rfl
    · exact notifyPoint_unrecorded _ _
  · exact ThreadPoint.unrecorded_of_quiet Thread.over_quiet

theorem finalizePoint_unrecorded (entry : PendingTransition) : (finalizePoint pf th entry).unrecorded = none := by
  unfold finalizePoint
  split
  · rfl
  · exact ThreadPoint.unrecorded_of_quiet Thread.over_quiet

theorem applyPoint_unrecorded (p : ProgramId) (h : Option Handling) (x : ApplyPoint) :
    (applyPoint th p h x).unrecorded = none := by
  cases x <;> first | exact handledPoint_unrecorded _ _ | rfl

theorem Move.ballots {x y : ThreadPoint} (h : Move pf clock th s x s' y) :
    (x.unrecorded = none ∧ y.unrecorded = none ∧ s'.ballots = s.ballots) ∨
    (∃ r, x.unrecorded = none ∧ y.unrecorded = some r ∧ s'.ballots = (r :: s.signed, s.lastVotedStore)) ∨
    ∃ r, x.unrecorded = some r ∧ y.unrecorded = none ∧
      s'.ballots = (s.signed, s.lastVotedStore.insert r.programId (r.height, r.id pf)) := by
  cases h with
  | aside hx hy h =>
    exact .inl ⟨ThreadPoint.unrecorded_of_quiet hx, ThreadPoint.unrecorded_of_quiet hy, Node.ballots_of_core h⟩
  | sign => exact .inr (.inl ⟨_, rfl, rfl, rfl⟩)
  | record => exact .inr (.inr ⟨_, rfl, rfl, rfl⟩)
  | renew hx hy => exact .inl ⟨ThreadPoint.unrecorded_of_quiet hx, ThreadPoint.unrecorded_of_quiet hy, rfl⟩
  | finalize hx => exact .inl ⟨ThreadPoint.unrecorded_of_quiet hx, finalizePoint_unrecorded _, rfl⟩
  | mismatch => exact .inl ⟨rfl, handledPoint_unrecorded _ _, rfl⟩
  | fail hx => exact .inl ⟨by rcases hx with rfl | rfl | rfl <;> rfl, handledPoint_unrecorded _ _, rfl⟩
  | defer => exact .inl ⟨rfl, handledPoint_unrecorded _ _, rfl⟩
  | enter hs => exact .inl ⟨rfl, rfl, Node.ballots_of_core hs⟩
  | catchUp hx => exact .inl ⟨ThreadPoint.unrecorded_of_quiet hx, rfl, rfl⟩
  | apply hs =>
    have hb := congrArg Node.ballots (applyStep_cases hs).rest
    exact .inl ⟨rfl, applyPoint_unrecorded _ _ _, hb⟩
  | announce => exact .inl ⟨rfl, notifyPoint_unrecorded _ _, rfl⟩
  | notify => exact .inl ⟨rfl, ThreadPoint.unrecorded_of_quiet Thread.over_quiet, rfl⟩
  | _ => exact .inl ⟨rfl, rfl, rfl⟩

end Moves

section Steps

variable {pf : Platform} {S S' : NodeThreads} {e : ThreadEvent}

theorem NodeThreads.unrecorded_of_perm {a : Activity} {others : List Activity} (h : S.processes.Perm (a :: others)) :
    S.unrecorded.Perm (a.point.unrecorded.toList ++ others.filterMap fun a => a.point.unrecorded) := by
  have hp := h.filterMap fun a => a.point.unrecorded
  rw [List.filterMap_cons] at hp
  cases hx : a.point.unrecorded <;> rw [hx] at hp <;> exact hp

theorem NodeThreads.unrecorded_begin (s : Node) (th : Thread) (x : ThreadPoint) :
    (S.begin s th x).unrecorded = S.unrecorded ++ x.unrecorded.toList := by
  rw [unrecorded, NodeThreads.begin, Interleaving.System.spawn, List.filterMap_append]
  cases hx : x.unrecorded <;> simp [hx] <;> rfl

/-- How a step changes the signatures and the votes on record. -/
inductive BallotStep (pf : Platform) (S : NodeThreads) (e : ThreadEvent) (S' : NodeThreads) : Prop
  | kept (h : S'.shared.ballots = S.shared.ballots) (hu : S'.unrecorded.Perm S.unrecorded)
  | lost (h : S'.shared.ballots = S.shared.ballots) (he : e.isRestart = true) (hu : S'.unrecorded = [])
  | signed (r : ExecutionReceipt) (h : S'.shared.ballots = (r :: S.shared.signed, S.shared.lastVotedStore))
    (hu : S'.unrecorded.Perm (r :: S.unrecorded))
  | recorded (r : ExecutionReceipt) (hu : S.unrecorded.Perm (r :: S'.unrecorded))
    (h : S'.shared.ballots =
      (S.shared.signed, S.shared.lastVotedStore.insert r.programId (r.height, r.id pf)))

theorem BallotStep.of_begin {s : Node} {th : Thread} {x : ThreadPoint} (h : s.ballots = S.shared.ballots)
    (hx : x.unrecorded = none) : BallotStep pf S e (S.begin s th x) := by
  refine .kept h ?_
  rw [NodeThreads.unrecorded_begin, hx]
  exact List.Perm.of_eq (List.append_nil _)

theorem Inbound.point_unrecorded (m : Inbound) : (m.point pf).unrecorded = none := by
  rcases @Inbound.point_cases pf m with h | ⟨b, h⟩
  · exact ThreadPoint.unrecorded_of_quiet h
  · rw [h]
    rfl

theorem CallStart.ballots {t : Nat} {task : SubmitTask} (h : CallStart pf S t task S') : BallotStep pf S e S' := by
  cases h with
  | advance hearly ha => exact .kept (Node.ballots_of_votes ha.untouched.2) (.refl _)
  | propose => exact .kept (Node.ballots_of_votes (submitPropose_untouched ..).2) (.refl _)
  | refused => exact .kept rfl (.refl _)
  | @sign c r o sig =>
    refine .signed r rfl ?_
    rw [NodeThreads.unrecorded_begin]
    exact List.perm_append_singleton _ _
  | settle => exact .of_begin rfl rfl
  | expire => exact .of_begin rfl rfl
  | finish hph hs =>
    obtain ⟨result, rfl, -⟩ := submitFinish_cases hs
    exact .kept rfl (.refl _)

theorem threadStep_ballots (h : threadStep pf S e = some S') : BallotStep pf S e S' := by
  cases e with
  | start op =>
    cases start_cases h with
    | call ht hc => exact hc.ballots
    | deliver => exact .of_begin rfl (Inbound.point_unrecorded _)
    | proposal => exact .of_begin rfl rfl
    | endorse => exact .of_begin rfl rfl
    | job => exact .of_begin rfl rfl
    | restart => exact .lost rfl rfl rfl
    | _ => exact .kept rfl (.refl _)
  | turn n clock =>
    obtain ⟨a, y, -, hmove, hbefore, hafter⟩ := threadStep_turn h
    have hb := NodeThreads.unrecorded_of_perm hbefore
    have ha := NodeThreads.unrecorded_of_perm hafter
    rcases hmove.ballots with ⟨hx, hy, hs⟩ | ⟨r, hx, hy, hs⟩ | ⟨r, hx, hy, hs⟩
    · rw [hx] at hb
      rw [hy] at ha
      exact .kept hs (ha.trans hb.symm)
    · rw [hx] at hb
      rw [hy] at ha
      exact .signed r hs (ha.trans (hb.symm.cons r))
    · rw [hx] at hb
      rw [hy] at ha
      exact .recorded r (hb.trans (ha.symm.cons r)) hs

end Steps

/-- The signatures of a node, its votes on record, and the signatures on their way there. -/
structure VotesRecorded (pf : Platform) (S : NodeThreads) : Prop where
  covered : ∀ r ∈ S.shared.signed, r ∈ S.unrecorded ∨
    ∃ v, S.shared.lastVotedStore[r.programId]? = some v ∧ Covers v r.height (r.id pf)
  allowed : ∀ r ∈ S.unrecorded,
    voteAllowed S.shared.lastVotedStore[r.programId]? r.height (r.id pf) = true
  apart : S.unrecorded.Pairwise fun r r' => r.programId ≠ r'.programId
  unique : OneVotePerHeight pf S.shared

section Invariant

variable {pf : Platform} {S S' : NodeThreads} {e : ThreadEvent} {r : ExecutionReceipt}

theorem covers_of_voteAllowed {v : UInt64 × ReceiptId} {height height' : UInt64} {id id' : ReceiptId}
    (h : voteAllowed (some v) height' id' = true) (hc : Covers v height id) :
    Covers (height', id') height id := by
  obtain ⟨last, voted⟩ := v
  simp only [voteAllowed, Bool.and_eq_true, Bool.not_eq_true', Bool.and_eq_false_iff, beq_eq_false_iff_ne,
    bne_eq_false_iff_eq, decide_eq_false_iff_not] at h
  obtain ⟨hsame, hlater⟩ := h
  have hle : last ≤ height' := UInt64.not_lt.mp hlater
  rcases hc with hlt | ⟨he, hid⟩
  · exact .inl (UInt64.lt_of_lt_of_le hlt hle)
  · dsimp only at he hid
    subst he hid
    rcases UInt64.lt_or_eq_of_le hle with hlt | heq
    · exact .inl hlt
    · exact .inr ⟨heq, hsame.resolve_left fun hne => hne heq⟩

theorem VotesRecorded.covers (hs : VotesRecorded pf S)
    (hr : voteAllowed S.shared.lastVotedStore[r.programId]? r.height (r.id pf) = true) {x : ExecutionReceipt}
    (hx : x ∈ S.shared.signed) (hp : x.programId = r.programId) (hu : x ∉ S.unrecorded) :
    Covers (r.height, r.id pf) x.height (x.id pf) := by
  obtain ⟨v, hv, hc⟩ := (hs.covered x hx).resolve_left hu
  rw [hp] at hv
  rw [hv] at hr
  exact covers_of_voteAllowed hr hc

theorem pairwise_programs_of_perm {l l' : List ExecutionReceipt} (h : l.Perm l')
    (hl : l.Pairwise fun r r' => r.programId ≠ r'.programId) :
    l'.Pairwise fun r r' => r.programId ≠ r'.programId :=
  (h.pairwise_iff fun hne => hne.symm).mp hl

theorem VotesRecorded.kept (hs : VotesRecorded pf S) (h : S'.shared.ballots = S.shared.ballots)
    (hu : S'.unrecorded.Perm S.unrecorded) : VotesRecorded pf S' := by
  obtain ⟨hsig, hstore⟩ := Prod.mk.inj h
  refine ⟨fun r hr => ?_, fun r hr => ?_, pairwise_programs_of_perm hu.symm hs.apart, ?_⟩
  · rw [hstore, hu.mem_iff]
    exact hs.covered r (hsig ▸ hr)
  · rw [hstore]
    exact hs.allowed r (hu.mem_iff.mp hr)
  · rw [OneVotePerHeight, hsig]
    exact hs.unique

theorem VotesRecorded.signs (hs : VotesRecorded pf S)
    (hr : voteAllowed S.shared.lastVotedStore[r.programId]? r.height (r.id pf) = true)
    (halone : ∀ r' ∈ S.unrecorded, r'.programId ≠ r.programId)
    (h : S'.shared.ballots = (r :: S.shared.signed, S.shared.lastVotedStore))
    (hu : S'.unrecorded.Perm (r :: S.unrecorded)) : VotesRecorded pf S' := by
  obtain ⟨hsig, hstore⟩ := Prod.mk.inj h
  have huniq : ∀ x ∈ S.shared.signed, x.programId = r.programId → x.height = r.height → x.id pf = r.id pf := by
    intro x hx hp hh
    rcases hs.covers hr hx hp fun hmem => halone x hmem hp with hlt | ⟨-, hid⟩
    · exact absurd (hh ▸ hlt) (UInt64.lt_irrefl _)
    · exact hid
  refine ⟨fun x hx => ?_, fun x hx => ?_, ?_, fun x hx y hy hp hh => ?_⟩
  · rw [hstore, hu.mem_iff]
    rw [hsig] at hx
    rcases List.mem_cons.mp hx with rfl | hx
    · exact .inl List.mem_cons_self
    · exact (hs.covered x hx).imp_left (List.mem_cons_of_mem _)
  · rw [hstore]
    rcases List.mem_cons.mp (hu.mem_iff.mp hx) with rfl | hx
    · exact hr
    · exact hs.allowed x hx
  · refine pairwise_programs_of_perm hu.symm (List.pairwise_cons.mpr ⟨fun x hx => ?_, hs.apart⟩)
    exact (halone x hx).symm
  · rw [hsig] at hx hy
    rcases List.mem_cons.mp hx with rfl | hxs <;> rcases List.mem_cons.mp hy with rfl | hys
    · rfl
    · exact (huniq y hys hp.symm hh.symm).symm
    · exact huniq x hxs hp hh
    · exact hs.unique x hxs y hys hp hh

theorem VotesRecorded.records (hs : VotesRecorded pf S) (hu : S.unrecorded.Perm (r :: S'.unrecorded))
    (h : S'.shared.ballots =
      (S.shared.signed, S.shared.lastVotedStore.insert r.programId (r.height, r.id pf))) :
    VotesRecorded pf S' := by
  obtain ⟨hsig, hstore⟩ := Prod.mk.inj h
  obtain ⟨hothers, hrest⟩ := List.pairwise_cons.mp (pairwise_programs_of_perm hu hs.apart)
  have hr := hs.allowed r (hu.mem_iff.mpr List.mem_cons_self)
  refine ⟨fun x hx => ?_, fun x hx => ?_, hrest, ?_⟩
  · rw [hsig] at hx
    rw [hstore, ExtTreeMap.getElem?_insert]
    by_cases hp : r.programId = x.programId
    · refine .inr ⟨(r.height, r.id pf), by simp [hp], ?_⟩
      by_cases hmem : x ∈ S.unrecorded
      · rcases List.mem_cons.mp (hu.mem_iff.mp hmem) with rfl | hmem
        · exact .inr ⟨rfl, rfl⟩
        · exact absurd hp (hothers x hmem)
      · exact hs.covers hr hx hp.symm hmem
    · rw [if_neg fun hc => hp (LawfulEqOrd.eq_of_compare hc)]
      refine (hs.covered x hx).imp_left fun hmem => ?_
      exact (List.mem_cons.mp (hu.mem_iff.mp hmem)).resolve_left fun he => hp (he ▸ rfl)
  · rw [hstore, ExtTreeMap.getElem?_insert,
      if_neg fun hc => hothers x hx (LawfulEqOrd.eq_of_compare hc)]
    exact hs.allowed x (hu.mem_iff.mpr (List.mem_cons_of_mem _ hx))
  · rw [OneVotePerHeight, hsig]
    exact hs.unique

theorem signedSince_of_ballots {s s' : Node} (h : s'.ballots = (r :: s.signed, s.lastVotedStore)) :
    s'.signedSince s = [r] := by
  have hsig : s'.signed = r :: s.signed := (Prod.mk.inj h).1
  rw [Node.signedSince, hsig, List.length_cons, Nat.add_sub_cancel_left]
  rfl

theorem VotesRecorded.step (hs : VotesRecorded pf S) (hg : VoteGuarded pf S e)
    (h : threadStep pf S e = some S') : VotesRecorded pf S' := by
  cases threadStep_ballots h with
  | kept hb hu => exact hs.kept hb hu
  | lost hb he hu =>
    refine hs.kept hb ?_
    rw [hu, hg.durable he]
  | signed r hb hu =>
    have hr : r ∈ S'.shared.signedSince S.shared := by
      rw [signedSince_of_ballots hb]
      exact List.mem_singleton_self r
    exact hs.signs (hg.allowed S' h r hr) (hg.alone S' h r hr) hb hu
  | recorded r hu hb => exact hs.records hu hb

theorem votesRecorded_of_fresh {s : Node} (hs : s.Fresh) : VotesRecorded pf (.idle s) := by
  rw [hs]
  refine ⟨fun r hr => ?_, fun r hr => ?_, .nil, fun r hr => ?_⟩
  · cases hr
  · cases hr
  · cases hr

end Invariant

/-- In every run in which each signature is measured against the record of last votes, and gets there
before the next one for its program and before a stop, a node signs at most one receipt for a program and height. -/
theorem oneVotePerHeight_of_voteGuarded {pf : Platform} {s₀ : Node} {S : NodeThreads} {events : List ThreadEvent}
    (h₀ : s₀.Fresh) (hg : Along (threadStep pf) (VoteGuarded pf) (.idle s₀) events)
    (hr : run (threadStep pf) (.idle s₀) events = some S) : OneVotePerHeight pf S.shared :=
  (invariant_run (fun _ _ _ hs hg h => hs.step hg h) (votesRecorded_of_fresh h₀) hg hr).unique

/-- The only member of a committee commits two heights and restarts. -/
theorem oneVotePerHeight_of_voteGuarded_sample :
    let events := oneByOne 0 (twoHeights ++ [.restart])
    ∃ S, run (threadStep sampleRuntime) (.idle (sampleStart 1)) events = some S ∧
      S.shared.signed.length = 2 ∧ OneVotePerHeight sampleRuntime S.shared := by
  intro events
  have hrun : ((run (threadStep sampleRuntime) (.idle (sampleStart 1)) events).any fun S =>
      S.shared.signed.length = 2) = true := by decide +kernel
  obtain ⟨S, hS, hlen⟩ := exists_of_any hrun
  have hg : Along (threadStep sampleRuntime) (VoteGuarded sampleRuntime) (.idle (sampleStart 1)) events := by
    decide +kernel
  exact ⟨S, hS, hlen, oneVotePerHeight_of_voteGuarded (sampleStart_fresh 1) hg hS⟩

/-- The leader of a height calls, times out, and calls again with other calldata: it has then signed
two receipts for that height. -/
theorem submitSign_twice_at_one_height :
    ¬ ∀ (events : List ThreadEvent) (S : NodeThreads),
      run (threadStep sampleRuntime) (.idle (sampleStart 1)) events = some S →
        OneVotePerHeight sampleRuntime S.shared := by
  intro hall
  let events := oneByOne 0 (sampleSetup (sampleCommittee sampleProgram [1, 2] 2) ++ sampleCall 0 [] ++
    [.call 0 (.settle fun _ => 0), .call 0 .timeout] ++ sampleCall 1 [1])
  have hrun : ((run (threadStep sampleRuntime) (.idle (sampleStart 1)) events).any
      fun S => ¬ OneVotePerHeight sampleRuntime S.shared) = true := by decide +kernel
  obtain ⟨S, hS, hbad⟩ := exists_of_any hrun
  exact hbad (hall events S hS)

end Onvm
