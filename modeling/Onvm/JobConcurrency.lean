import Onvm.JobRest

/-! The limit on concurrent tasks. A cycle computes the free slots once; a task counts
itself out whenever it ends. The scheduler counts a task before it spawns it, and
everybody else may act between the two. -/

namespace Onvm

open ByteString OrderedStore Interleaving Runs Std

namespace Process

def isTask (p : Process) : Bool := p.task.isSome

def reserve : Process → Nat
  | .pop slots => slots
  | .spawn slots _ => slots + 1
  | .index _ next => next.reserve
  | _ => 0

def atSpawn : Process → Bool
  | .spawn .. => true
  | _ => false

theorem inCycle_of_reserve {p : Process} (h : 0 < p.reserve) : p.inCycle := by
  induction p with
  | pop slots => rfl
  | spawn slots id => rfl
  | index job next ih => exact ih h
  | _ => cases h

variable {pf : Platform} {s : JobNode} {p q : Process} {e : Effect}

theorem inCycle_of_moves (h : p.Moves pf s e q) (hq : q.inCycle) : p.inCycle := by
  cases h with
  | passed => rfl
  | indexed => exact hq
  | _ => first | rfl | cases hq

theorem reserve_of_moves (h : p.Moves pf s e q) (hp : p.atSpawn = false) (hfill : p ≠ .fill) :
    q.reserve ≤ p.reserve := by
  cases h with
  | @passed pass now => cases pass <;> exact Nat.le_refl 0
  | filled => exact absurd rfl hfill
  | idle => exact Nat.zero_le _
  | spawned => cases hp
  | _ => exact Nat.le_refl _

theorem spawned_of_moves (h : p.Moves pf s e q) (hp : p.atSpawn = false) : e.spawned = [] := by
  cases h with
  | spawned => cases hp
  | refused he => rcases he with rfl | ⟨u, rfl⟩ <;> rfl
  | received he => rcases he with rfl | ⟨u, rfl⟩ <;> rfl
  | _ => rfl

theorem isTask_of_moves (h : p.Moves pf s e q) (hq : q.isTask) : p.isTask := by
  cases h with
  | @passed pass now => cases pass <;> cases hq
  | indexed => exact hq
  | _ => first | rfl | cases hq

theorem runningCount_of_moves (h : p.Moves pf s e q) (hp : p.atSpawn = false)
    (hpos : p.isTask = true → 0 < s.runningCount) :
    (e.apply s).runningCount + p.isTask.toNat = s.runningCount + q.isTask.toNat := by
  cases h with
  | spawned => cases hp
  | finished =>
    have hone : 0 < s.runningCount := hpos rfl
    exact Nat.sub_add_cancel hone
  | refused he => rcases he with rfl | ⟨u, rfl⟩ <;> rfl
  | received he => rcases he with rfl | ⟨u, rfl⟩ <;> rfl
  | @passed pass now => cases pass <;> rfl
  | _ => rfl

theorem room_of_act {cfg : JobSettings} {i : Inputs} {gap : Nat} (hact : p.act pf cfg s i = (e, q))
    (h : p.Moves pf s e q) (hp : p.atSpawn = false) (hbound : s.runningCount ≤ cfg.maxConcurrent)
    (hroom : s.runningCount + p.reserve ≤ cfg.maxConcurrent + gap) :
    s.runningCount + q.reserve ≤ cfg.maxConcurrent + gap := by
  by_cases hfill : p = .fill
  · subst hfill
    have hslots : (Effect.none, Process.pop (cfg.maxConcurrent - s.runningCount)) = (e, q) := hact
    cases hslots
    show s.runningCount + (cfg.maxConcurrent - s.runningCount) ≤ _
    omega
  · have hreserve := reserve_of_moves h hp hfill
    omega

end Process

/-- The job system, and the place of the scheduler while a task is counted and not spawned yet. -/
structure SpawningSystem where
  jobs : JobSystem
  spawning : Option Nat

inductive SpawnOp
  | step (op : JobOp)
  | count (n : Nat)
  | spawn

/-- The job system with the turn of `tokio::spawn` in two: first the count, then the task. -/
def spawnStep (pf : Platform) (cfg : JobSettings) (s : SpawningSystem) : SpawnOp → Option SpawningSystem
  | .step (.turn n i) =>
    if (s.jobs.processes[n]?).any Process.atSpawn then none
    else (jobStep pf cfg s.jobs (.turn n i)).map (⟨·, s.spawning⟩)
  | .step .restart => (jobStep pf cfg s.jobs .restart).map (⟨·, none⟩)
  | .step op => (jobStep pf cfg s.jobs op).map (⟨·, s.spawning⟩)
  | .count n =>
    match s.spawning, s.jobs.processes[n]? with
    | none, some (.spawn _ id) =>
      some ⟨⟨(Effect.spawn id).apply s.jobs.shared, s.jobs.processes⟩, some n⟩
    | _, _ => none
  | .spawn =>
    s.spawning.bind fun n =>
      match s.jobs.processes[n]? with
      | some (.spawn slots id) =>
        some ⟨⟨s.jobs.shared, s.jobs.processes.set n (.pop slots) ++ (Effect.spawn id).spawned⟩, none⟩
      | _ => none

section Steps

variable {pf : Platform} {cfg : JobSettings}

/-- The steps of the divided system. -/
inductive SpawnStep (pf : Platform) (cfg : JobSettings) (s : SpawningSystem) : SpawningSystem → Prop
  | turn {n i p t} (hp : s.jobs.processes[n]? = some p) (hat : p.atSpawn = false)
    (ht : s.jobs.turn (fun sh p i => p.turn pf cfg sh i) n i = some t) : SpawnStep pf cfg s ⟨t, s.spawning⟩
  | enter {p} (htask : p.isTask = false) (hreserve : p.reserve = 0)
    (hcycle : p.inCycle = true → s.jobs.processes.countP Process.inCycle = 0) :
    SpawnStep pf cfg s ⟨s.jobs.spawn p, s.spawning⟩
  | restart : SpawnStep pf cfg s ⟨⟨s.jobs.shared.restart, []⟩, none⟩
  | outside {x} (hx : x.runningCount = s.jobs.shared.runningCount) :
    SpawnStep pf cfg s ⟨⟨x, s.jobs.processes⟩, s.spawning⟩
  | count {n slots id} (hnone : s.spawning = none) (hp : s.jobs.processes[n]? = some (.spawn slots id)) :
    SpawnStep pf cfg s ⟨⟨(Effect.spawn id).apply s.jobs.shared, s.jobs.processes⟩, some n⟩
  | spawn {n slots id} (hsome : s.spawning = some n)
    (hp : s.jobs.processes[n]? = some (.spawn slots id)) :
    SpawnStep pf cfg s ⟨⟨s.jobs.shared, s.jobs.processes.set n (.pop slots) ++ [.claim id]⟩, none⟩

theorem spawnStep_inv {s t : SpawningSystem} {op : SpawnOp} (h : spawnStep pf cfg s op = some t) :
    SpawnStep pf cfg s t := by
  cases op with
  | step op =>
    cases op with
    | turn n i =>
      simp only [spawnStep] at h
      split at h
      · cases h
      · rename_i hat
        obtain ⟨u, hu, rfl⟩ := Option.map_eq_some_iff.mp h
        have hturn : s.jobs.turn (fun sh p i => p.turn pf cfg sh i) n i = some u := hu
        obtain ⟨p, hp, -⟩ := System.turn_eq_some hturn
        refine .turn hp ?_ hturn
        simpa only [hp, Option.any_some, Bool.not_eq_true] using hat
    | tick =>
      simp only [spawnStep, jobStep] at h
      split at h
      · cases h
      · rename_i hidle
        cases h
        refine .enter rfl rfl fun _ => ?_
        rw [List.countP_eq_zero]
        intro p hp hcycle
        exact hidle (List.any_eq_true.mpr ⟨p, hp, hcycle⟩)
    | submit req => cases h; exact .enter rfl rfl fun hc => by cases hc
    | schedule req program input ttlMs => cases h; exact .enter rfl rfl fun hc => by cases hc
    | cancel id => cases h; exact .enter rfl rfl fun hc => by cases hc
    | broadcast d => cases h; exact .enter rfl rfl fun hc => by cases hc
    | restart => cases h; exact .restart
    | store e => cases h; exact .outside rfl
    | storeManifest p m => cases h; exact .outside rfl
  | count n =>
    simp only [spawnStep] at h
    split at h
    · rename_i slots id hnone hp
      cases h
      exact .count hnone hp
    · cases h
  | spawn =>
    obtain ⟨n, hsome, h⟩ := Option.bind_eq_some_iff.mp h
    split at h
    · rename_i slots id hp
      cases h
      exact .spawn hsome hp
    · cases h

theorem run_spawnStep_of_jobStep {s t : JobSystem} {op : JobOp} (h : jobStep pf cfg s op = some t) :
    ∃ ops, run (spawnStep pf cfg) ⟨s, none⟩ ops = some ⟨t, none⟩ := by
  by_cases hat : ∃ n i p, op = .turn n i ∧ s.processes[n]? = some p ∧ p.atSpawn
  · obtain ⟨n, i, p, rfl, hp, hat⟩ := hat
    refine ⟨[.count n, .spawn], ?_⟩
    cases p with
    | spawn slots id =>
      have hturn : s.turn (fun sh p i => p.turn pf cfg sh i) n i = some t := h
      simp only [System.turn, hp, Option.map_some, Option.some.injEq] at hturn
      simp [run, spawnStep, hp, ← hturn, Process.turn, Process.act]
    | _ => cases hat
  · refine ⟨[.step op], ?_⟩
    cases op with
    | turn n i =>
      have hnot : (s.processes[n]?).any Process.atSpawn = false := by
        cases hp : s.processes[n]? with
        | none => rfl
        | some p =>
          have hp' : ¬ p.atSpawn = true := fun hp' => hat ⟨n, i, p, rfl, hp, hp'⟩
          simpa using hp'
      simp [run, spawnStep, hnot, h]
    | _ => simp [run, spawnStep, h]

theorem run_spawnStep_of_run {s t : JobSystem} {ops : List JobOp} (h : run (jobStep pf cfg) s ops = some t) :
    ∃ sops, run (spawnStep pf cfg) ⟨s, none⟩ sops = some ⟨t, none⟩ := by
  induction ops generalizing s with
  | nil =>
    cases h
    exact ⟨[], rfl⟩
  | cons op ops ih =>
    obtain ⟨u, hu, h⟩ := run_cons_eq_some h
    obtain ⟨first, hfirst⟩ := run_spawnStep_of_jobStep hu
    obtain ⟨rest, hrest⟩ := ih h
    exact ⟨first ++ rest, run_append hfirst hrest⟩

end Steps

theorem eq_of_countP_le_one {l : List Process} {f : Process → Bool} {p q : Process} (h : l.countP f ≤ 1)
    (hp : p ∈ l) (hq : q ∈ l) (hfp : f p) (hfq : f q) : p = q := by
  rw [List.countP_eq_length_filter] at h
  have hp' : p ∈ l.filter f := List.mem_filter.mpr ⟨hp, hfp⟩
  have hq' : q ∈ l.filter f := List.mem_filter.mpr ⟨hq, hfq⟩
  obtain ⟨x, hx⟩ := List.length_eq_one_iff.mp (Nat.le_antisymm h (List.length_pos_of_mem hp'))
  rw [hx, List.mem_singleton] at hp' hq'
  rw [hp', hq']

namespace SpawningSystem

variable (s : SpawningSystem)

def liveTasks : Nat := s.jobs.processes.countP Process.isTask

def runningCount : Nat := s.jobs.shared.runningCount

def gap : Nat := s.spawning.isSome.toNat

/-- What a cycle may still count fits beside what is counted. -/
structure Limited (cfg : JobSettings) : Prop where
  single : s.jobs.processes.countP Process.inCycle ≤ 1
  count : s.runningCount = s.liveTasks + s.gap
  bound : s.runningCount ≤ cfg.maxConcurrent
  room : ∀ p ∈ s.jobs.processes, s.runningCount + p.reserve ≤ cfg.maxConcurrent + s.gap
  place : ∀ n, s.spawning = some n → ∃ slots id, s.jobs.processes[n]? = some (.spawn slots id)

variable {s} {pf : Platform} {cfg : JobSettings}

theorem Limited.turn (h : s.Limited cfg) {n : Nat} {i : Inputs} {p : Process} {t : JobSystem}
    (hp : s.jobs.processes[n]? = some p) (hat : p.atSpawn = false)
    (ht : s.jobs.turn (fun sh p i => p.turn pf cfg sh i) n i = some t) :
    (⟨t, s.spawning⟩ : SpawningSystem).Limited cfg := by
  obtain ⟨p', hp', hshared, hprocs⟩ := System.turn_eq_some ht
  cases hp.symm.trans hp'
  obtain ⟨e, q, hact⟩ : ∃ e q, p.act pf cfg s.jobs.shared i = (e, q) := ⟨_, _, rfl⟩
  have hmoves : p.Moves pf s.jobs.shared e q := by
    have hmoves := p.moves_act pf cfg s.jobs.shared i
    rwa [hact] at hmoves
  have hcycle := System.countP_turn Process.inCycle ht hp
  have htasks := System.countP_turn Process.isTask ht hp
  have hstarted : e.spawned = [] := Process.spawned_of_moves hmoves hat
  simp only [Process.turn, hact, hstarted, List.countP_nil, List.append_nil, Nat.add_zero]
    at hshared hprocs hcycle htasks
  have hmem : p ∈ s.jobs.processes := List.mem_of_getElem? hp
  have hcount : s.jobs.shared.runningCount = s.jobs.processes.countP Process.isTask + s.gap := h.count
  have hpos : p.isTask = true → 0 < s.jobs.shared.runningCount := by
    intro htask
    have hone : 0 < s.jobs.processes.countP Process.isTask := List.countP_pos_iff.mpr ⟨p, hmem, htask⟩
    omega
  have hrun := Process.runningCount_of_moves hmoves hat hpos
  have hle : (e.apply s.jobs.shared).runningCount ≤ s.jobs.shared.runningCount := by
    have hback := Bool.toNat_le_toNat (Process.isTask_of_moves hmoves)
    omega
  refine ⟨?_, ?_, ?_, ?_, ?_⟩
  · have hback := Bool.toNat_le_toNat (Process.inCycle_of_moves hmoves)
    have hsingle := h.single
    show t.processes.countP Process.inCycle ≤ 1
    omega
  · show t.shared.runningCount = t.processes.countP Process.isTask + s.gap
    rw [hshared]
    omega
  · show t.shared.runningCount ≤ cfg.maxConcurrent
    have hbound : s.jobs.shared.runningCount ≤ cfg.maxConcurrent := h.bound
    rw [hshared]
    omega
  · intro r hr
    show t.shared.runningCount + r.reserve ≤ cfg.maxConcurrent + s.gap
    rw [hshared]
    rcases List.mem_or_eq_of_mem_set (hprocs ▸ hr) with hr | rfl
    · have hroom : s.jobs.shared.runningCount + r.reserve ≤ cfg.maxConcurrent + s.gap := h.room r hr
      omega
    · have hroom := Process.room_of_act hact hmoves hat h.bound (h.room p hmem)
      omega
  · intro m hm
    obtain ⟨slots, id, hspawn⟩ := h.place m hm
    have hne : n ≠ m := by
      rintro rfl
      cases hp.symm.trans hspawn
      cases hat
    refine ⟨slots, id, ?_⟩
    show t.processes[m]? = some (.spawn slots id)
    rw [hprocs, List.getElem?_set_ne hne]
    exact hspawn

theorem Limited.enter (h : s.Limited cfg) {p : Process} (htask : p.isTask = false)
    (hreserve : p.reserve = 0)
    (hcycle : p.inCycle = true → s.jobs.processes.countP Process.inCycle = 0) :
    (⟨s.jobs.spawn p, s.spawning⟩ : SpawningSystem).Limited cfg := by
  have hcount : s.jobs.shared.runningCount = s.jobs.processes.countP Process.isTask + s.gap := h.count
  refine ⟨?_, ?_, h.bound, ?_, ?_⟩
  · show (s.jobs.processes ++ [p]).countP Process.inCycle ≤ 1
    rw [List.countP_append, List.countP_singleton]
    cases hc : p.inCycle with
    | false => simpa using h.single
    | true => simp [hcycle hc]
  · show s.jobs.shared.runningCount = (s.jobs.processes ++ [p]).countP Process.isTask + s.gap
    rw [List.countP_append, List.countP_singleton, htask]
    simpa using hcount
  · intro q hq
    rcases List.mem_append.mp hq with hq | hq
    · exact h.room q hq
    · rw [List.mem_singleton.mp hq, hreserve]
      exact Nat.le_trans h.bound (Nat.le_add_right _ _)
  · intro m hm
    obtain ⟨slots, id, hspawn⟩ := h.place m hm
    have hlt : m < s.jobs.processes.length := (List.getElem?_eq_some_iff.mp hspawn).1
    refine ⟨slots, id, ?_⟩
    show (s.jobs.processes ++ [p])[m]? = some (.spawn slots id)
    rw [List.getElem?_append_left hlt]
    exact hspawn

theorem Limited.count_step (h : s.Limited cfg) {n slots : Nat} {id : JobId} (hnone : s.spawning = none)
    (hp : s.jobs.processes[n]? = some (.spawn slots id)) :
    (⟨⟨(Effect.spawn id).apply s.jobs.shared, s.jobs.processes⟩, some n⟩ : SpawningSystem).Limited cfg := by
  have hgap : s.gap = 0 := by simp [gap, hnone]
  have hcount : s.jobs.shared.runningCount = s.jobs.processes.countP Process.isTask + s.gap := h.count
  have hroom : ∀ p ∈ s.jobs.processes, s.jobs.shared.runningCount + p.reserve ≤ cfg.maxConcurrent + s.gap :=
    h.room
  have hself : s.jobs.shared.runningCount + (slots + 1) ≤ cfg.maxConcurrent + s.gap :=
    hroom _ (List.mem_of_getElem? hp)
  refine ⟨h.single, ?_, ?_, ?_, ?_⟩
  · show s.jobs.shared.runningCount + 1 = s.jobs.processes.countP Process.isTask + 1
    omega
  · show s.jobs.shared.runningCount + 1 ≤ cfg.maxConcurrent
    omega
  · intro p hp
    have hbefore := hroom p hp
    show s.jobs.shared.runningCount + 1 + p.reserve ≤ cfg.maxConcurrent + 1
    omega
  · intro m hm
    cases hm
    exact ⟨slots, id, hp⟩

theorem Limited.spawn_step (h : s.Limited cfg) {n slots : Nat} {id : JobId} (hsome : s.spawning = some n)
    (hp : s.jobs.processes[n]? = some (.spawn slots id)) :
    (⟨⟨s.jobs.shared, s.jobs.processes.set n (.pop slots) ++ [.claim id]⟩, none⟩ :
      SpawningSystem).Limited cfg := by
  have hgap : s.gap = 1 := by simp [gap, hsome]
  have hcount : s.jobs.shared.runningCount = s.jobs.processes.countP Process.isTask + s.gap := h.count
  have hself : s.jobs.shared.runningCount + (slots + 1) ≤ cfg.maxConcurrent + s.gap :=
    h.room _ (List.mem_of_getElem? hp)
  obtain ⟨hn, hget⟩ := List.getElem?_eq_some_iff.mp hp
  have hcycle : (s.jobs.processes.set n (.pop slots) ++ [Process.claim id]).countP Process.inCycle ≤ 1 := by
    have hpos : 0 < s.jobs.processes.countP Process.inCycle :=
      List.countP_pos_iff.mpr ⟨_, List.mem_of_getElem? hp, rfl⟩
    have hsingle := h.single
    rw [List.countP_append, List.countP_set hn, hget]
    simp [Process.inCycle]
    omega
  refine ⟨hcycle, ?_, h.bound, ?_, fun m hm => by cases hm⟩
  · show s.jobs.shared.runningCount =
      (s.jobs.processes.set n (.pop slots) ++ [Process.claim id]).countP Process.isTask + 0
    rw [List.countP_append, List.countP_set hn, hget]
    simp [Process.isTask, Process.task]
    omega
  · intro q hq
    show s.jobs.shared.runningCount + q.reserve ≤ cfg.maxConcurrent + 0
    have hbound : s.jobs.shared.runningCount ≤ cfg.maxConcurrent := h.bound
    by_cases hzero : q.reserve = 0
    · omega
    · have hpop : Process.pop slots ∈ s.jobs.processes.set n (.pop slots) ++ [.claim id] :=
        List.mem_append_left _ (List.mem_set hn _)
      have hcycle' := Process.inCycle_of_reserve (Nat.pos_of_ne_zero hzero)
      have heq := eq_of_countP_le_one hcycle hq hpop hcycle' rfl
      rw [heq]
      show s.jobs.shared.runningCount + slots ≤ _
      omega

theorem Limited.step {t : SpawningSystem} (h : s.Limited cfg) (ht : SpawnStep pf cfg s t) :
    t.Limited cfg := by
  cases ht with
  | turn hp hat ht => exact h.turn hp hat ht
  | enter htask hreserve hcycle => exact h.enter htask hreserve hcycle
  | restart =>
    refine ⟨Nat.zero_le _, rfl, Nat.zero_le _, ?_, ?_⟩
    · intro p hp
      cases hp
    · intro n hn
      cases hn
  | outside hx =>
    refine ⟨h.single, hx.trans h.count, hx.trans_le h.bound, fun p hp => ?_, h.place⟩
    exact (congrArg (· + p.reserve) hx).trans_le (h.room p hp)
  | count hnone hp => exact h.count_step hnone hp
  | spawn hsome hp => exact h.spawn_step hsome hp

end SpawningSystem

/-- From any node that has just come up: the count and the live tasks stay within the limit, and are
the same unless the scheduler has counted a task that it has not spawned. -/
theorem concurrency_limit {pf : Platform} {cfg : JobSettings} {x : JobNode} {ops : List SpawnOp}
    {t : SpawningSystem} (hr : run (spawnStep pf cfg) ⟨⟨x.restart, []⟩, none⟩ ops = some t) :
    t.runningCount ≤ cfg.maxConcurrent ∧ t.liveTasks ≤ cfg.maxConcurrent ∧
      (t.spawning = none → t.runningCount = t.liveTasks) := by
  have hstart : (⟨⟨x.restart, []⟩, none⟩ : SpawningSystem).Limited cfg :=
    ⟨Nat.zero_le _, rfl, Nat.zero_le _, by simp, by simp⟩
  have hlimited := always_run (I := fun s : SpawningSystem => s.Limited cfg)
    (fun _ _ _ h ht => h.step (spawnStep_inv ht)) hstart hr
  have hcount := hlimited.count
  refine ⟨hlimited.bound, ?_, ?_⟩
  · exact Nat.le_trans (hcount ▸ Nat.le_add_right _ _) hlimited.bound
  · intro hnone
    simpa [SpawningSystem.gap, hnone] using hcount

section Sample

def narrowSettings : JobSettings := { sampleSettings with maxConcurrent := 1 }

def twoQueued : List JobOp :=
  [.submit (sampleRequest "a")] ++ jobTurns 0 5 0 ++ [.submit (sampleRequest "b")] ++ jobTurns 1 5 1 ++
    [.tick] ++ jobTurns 2 18 2

/-- The scheduler has counted the first task when another submission comes in, and spawns it then. -/
def countedThenSpawned : List SpawnOp :=
  twoQueued.map .step ++ [.count 2, .step (.submit (sampleRequest "c")), .spawn] ++
    (jobTurns 2 1 3 ++ jobTurns 4 3 4).map .step

theorem concurrency_limit_sample :
    ∃ t, run (spawnStep sampleRuntime narrowSettings) ⟨⟨sampleJobs.shared.restart, []⟩, none⟩
        countedThenSpawned = some t ∧
      t.spawning = none ∧ t.jobs.shared.pendingQueue = [sampleJobId "b" 1] ∧ t.liveTasks = 1 ∧
      t.runningCount ≤ 1 ∧ (t.spawning = none → t.runningCount = t.liveTasks) := by
  obtain ⟨t, ht, hspawned, hqueue, hlive⟩ := exists_of_any
    (o := run (spawnStep sampleRuntime narrowSettings) ⟨⟨sampleJobs.shared.restart, []⟩, none⟩
      countedThenSpawned)
    (Q := fun t => t.spawning = none ∧ t.jobs.shared.pendingQueue = [sampleJobId "b" 1] ∧ t.liveTasks = 1)
    (by decide +kernel)
  obtain ⟨hbound, -, hcount⟩ := concurrency_limit ht
  exact ⟨t, ht, hspawned, hqueue, hlive, hbound, hcount⟩

end Sample

end Onvm
