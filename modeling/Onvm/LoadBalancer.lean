import Onvm.Runs
import Onvm.Tables

/-! The load balancer of `load_balancer.rs` with the capabilities of `capability.rs`. Times are in
nanoseconds. A scan reads the clock once for each peer it checks, and the peers come in the order of a
hash map. -/

namespace Onvm

open Tables

inductive Specialization
  | aiMl
  | highMemory
  | gpuCompute
  | lowLatency
  | highBandwidth
  | edgeCompute
  | custom (name : String)
deriving DecidableEq

structure NodeCapabilities where
  cpuCores : UInt32
  memoryGb : UInt32
  memoryAvailableGb : UInt32
  hasGpu : Bool
  gpuVramGb : Option UInt32
  specializations : List Specialization
  maxConcurrentJobs : UInt32
  currentJobCount : UInt32

structure JobRequirements where
  minCpuCores : UInt32
  minMemoryGb : UInt32
  requiresGpu : Bool
  minGpuVramGb : Option UInt32
  requiredSpecializations : List Specialization

namespace NodeCapabilities

variable (caps : NodeCapabilities)

def isAvailableForJobs : Bool := caps.currentJobCount < caps.maxConcurrentJobs

def availableCapacityPercent : Float32 :=
  if caps.maxConcurrentJobs = 0 then 0
  else
    let available :=
      if caps.currentJobCount ≤ caps.maxConcurrentJobs then caps.maxConcurrentJobs - caps.currentJobCount
      else 0
    available.toFloat32 / caps.maxConcurrentJobs.toFloat32 * 100

def memoryAvailablePercent : Float32 :=
  if caps.memoryGb = 0 then 0 else caps.memoryAvailableGb.toFloat32 / caps.memoryGb.toFloat32 * 100

def meetsRequirements (requirements : JobRequirements) : Bool :=
  if caps.cpuCores < requirements.minCpuCores then false
  else if caps.memoryAvailableGb < requirements.minMemoryGb then false
  else if requirements.requiresGpu && !caps.hasGpu then false
  else if requirements.minGpuVramGb.any fun minVram => caps.gpuVramGb.getD 0 < minVram then false
  else if !caps.isAvailableForJobs then false
  else true

/-- What is asked of the machine and its free slots. -/
structure Offers (r : JobRequirements) : Prop where
  cpuCores : r.minCpuCores ≤ caps.cpuCores
  memory : r.minMemoryGb ≤ caps.memoryAvailableGb
  gpu : r.requiresGpu = true → caps.hasGpu = true
  gpuVram : ∀ minVram, r.minGpuVramGb = some minVram → minVram ≤ caps.gpuVramGb.getD 0
  slot : caps.currentJobCount < caps.maxConcurrentJobs

/-- What is asked by any field. -/
structure Satisfies (r : JobRequirements) : Prop extends caps.Offers r where
  specializations : r.requiredSpecializations ⊆ caps.specializations

variable {caps} in
theorem offers_of_meetsRequirements {r : JobRequirements} (h : caps.meetsRequirements r = true) :
    caps.Offers r := by
  unfold meetsRequirements at h
  split_ifs at h with hcpu hmem hgpu hvram hslot
  refine ⟨UInt32.not_lt.mp hcpu, UInt32.not_lt.mp hmem, fun hr => ?_, fun minVram hmin => ?_, ?_⟩
  · simpa [hr] using hgpu
  · simpa [hmin] using hvram
  · simpa [isAvailableForJobs] using hslot

end NodeCapabilities

variable {PeerId : Type}

structure PeerLoad (PeerId : Type) where
  peerId : PeerId
  capabilities : Option NodeCapabilities
  lastUpdated : Nat
  jobsAssigned : UInt32
  selectionScore : Float

inductive SelectionReason
  | bestScore
  | capabilityMatch
  | lowLoad
  | roundRobin
  | onlyAvailable
deriving DecidableEq

structure PeerSelection (PeerId : Type) where
  peerId : PeerId
  score : Float
  reason : SelectionReason

inductive BalancingStrategy
  | bestScore
  | roundRobin
  | leastLoad
  | capabilityMatch

def nanosPerSec : Nat := 1000000000

namespace PeerLoad

def new (peerId : PeerId) (now : Nat) : PeerLoad PeerId := ⟨peerId, none, now, 0, 0⟩

variable (load : PeerLoad PeerId)

def score : Float :=
  match load.capabilities with
  | some caps =>
    let capacityScore := caps.availableCapacityPercent.toFloat
    let memoryScore := caps.memoryAvailablePercent.toFloat
    let loadPenalty := load.jobsAssigned.toFloat * 5.0
    let capabilityBonus := if caps.hasGpu then 10.0 else 0.0
    let total := capacityScore * 0.5 + memoryScore * 0.3 + capabilityBonus - loadPenalty
    if 0.0 < total then total else 0.0
  | none => 0.0

def recalculateScore : PeerLoad PeerId := { load with selectionScore := load.score }

def updateCapabilities (capabilities : NodeCapabilities) (now : Nat) : PeerLoad PeerId :=
  { load with capabilities := some capabilities, lastUpdated := now }.recalculateScore

def onJobAssigned : PeerLoad PeerId :=
  { load with jobsAssigned := load.jobsAssigned + 1 }.recalculateScore

def onJobCompleted : PeerLoad PeerId :=
  { load with
    jobsAssigned := if load.jobsAssigned = 0 then 0 else load.jobsAssigned - 1 }.recalculateScore

def isStale (maxAgeSecs now : Nat) : Bool :=
  if load.lastUpdated ≤ now then maxAgeSecs < (now - load.lastUpdated) / nanosPerSec else true

def eligible (requirements : Option JobRequirements) (now : Nat) : Bool :=
  if load.isStale 300 now then false
  else
    match requirements with
    | some reqs =>
      match load.capabilities with
      | some caps => caps.meetsRequirements reqs
      | none => false
    | none => true

def select (reason : SelectionReason) : PeerSelection PeerId :=
  ⟨load.peerId, load.selectionScore, reason⟩

end PeerLoad

/-- `max_by` and `min_by`: an element is kept against a later one when `keeps` says so. -/
def pick {α : Type} (keeps : α → α → Bool) : List α → Option α
  | [] => none
  | x :: xs => some (xs.foldl (fun kept y => if keeps kept y then kept else y) x)

theorem mem_of_pick {α : Type} {keeps : α → α → Bool} {l : List α} {x : α} (h : x ∈ pick keeps l) :
    x ∈ l := by
  have hfold : ∀ (xs : List α) (a : α),
      xs.foldl (fun kept y => if keeps kept y then kept else y) a ∈ a :: xs := by
    intro xs
    induction xs with
    | nil => simp
    | cons y ys ih =>
      intro a
      rw [List.foldl_cons]
      by_cases hk : keeps a y = true
      · have := ih a
        rw [if_pos hk]
        grind
      · rw [if_neg hk]
        exact List.mem_cons_of_mem _ (ih y)
  cases l with
  | nil => cases h
  | cons a xs =>
    obtain rfl := Option.some.inj h
    exact hfold xs a

structure LoadBalancer (PeerId : Type) where
  peers : Table PeerId (PeerLoad PeerId)
  strategy : BalancingStrategy
  roundRobinIndex : Nat
  peerOrder : List PeerId

namespace LoadBalancer

def new : LoadBalancer PeerId := ⟨∅, .bestScore, 0, []⟩

variable (lb : LoadBalancer PeerId)

def withStrategy (strategy : BalancingStrategy) : LoadBalancer PeerId := { lb with strategy }

def getEligiblePeers (requirements : Option JobRequirements) (order : MapOrder) (clock : PeerId → Nat) :
    List (PeerLoad PeerId) :=
  (order.list (lb.peers.entries.map fun e => e.2)).filter fun load =>
    load.eligible requirements (clock load.peerId)

/-- `partial_cmp` with `Equal` for what cannot be compared: the last of the best. -/
def bestScore (candidates : List (PeerLoad PeerId)) : Option (PeerLoad PeerId) :=
  pick (fun kept load => load.selectionScore < kept.selectionScore) candidates

def selectBestScore (candidates : List (PeerLoad PeerId)) : Option (PeerSelection PeerId) :=
  (bestScore candidates).map fun load => load.select .bestScore

def selectRoundRobinFromData (candidateData : List (PeerId × Float)) :
    LoadBalancer PeerId × Option (PeerSelection PeerId) :=
  if candidateData.isEmpty then (lb, none)
  else
    let index := if candidateData.length ≤ lb.roundRobinIndex then 0 else lb.roundRobinIndex
    ({ lb with roundRobinIndex := (index + 1) % candidateData.length },
      candidateData[index]?.map fun data => ⟨data.1, data.2, .roundRobin⟩)

def selectLeastLoad (candidates : List (PeerLoad PeerId)) : Option (PeerSelection PeerId) :=
  (pick (fun kept load => kept.jobsAssigned ≤ load.jobsAssigned) candidates).map fun load =>
    load.select .lowLoad

def selectCapabilityMatch (candidates : List (PeerLoad PeerId)) (requirements : JobRequirements) :
    Option (PeerSelection PeerId) :=
  (bestScore (candidates.filter fun load =>
    match load.capabilities with
    | some caps => caps.meetsRequirements requirements
    | none => false)).map fun load => load.select .capabilityMatch

def selectByStrategy (requirements : Option JobRequirements) (candidates : List (PeerLoad PeerId)) :
    LoadBalancer PeerId × Option (PeerSelection PeerId) :=
  let candidateData := candidates.map fun load => (load.peerId, load.selectionScore)
  match lb.strategy with
  | .bestScore => (lb, selectBestScore candidates)
  | .roundRobin => lb.selectRoundRobinFromData candidateData
  | .leastLoad => (lb, selectLeastLoad candidates)
  | .capabilityMatch =>
    match requirements with
    | some reqs => (lb, selectCapabilityMatch candidates reqs)
    | none => (lb, selectBestScore candidates)

variable [DecidableEq PeerId]

def updatePeerCapabilities (peer : PeerId) (capabilities : NodeCapabilities) (created now : Nat) :
    LoadBalancer PeerId :=
  let load := (lb.peers.lookup peer).getD (.new peer created)
  { lb with
    peers := lb.peers.insert peer (load.updateCapabilities capabilities now)
    peerOrder := if peer ∈ lb.peerOrder then lb.peerOrder else lb.peerOrder ++ [peer] }

def onPeerDisconnected (peer : PeerId) : LoadBalancer PeerId :=
  { lb with peers := lb.peers.erase peer, peerOrder := lb.peerOrder.filter fun id => id ≠ peer }

/-- `get_mut` and a change of what is there. -/
def modify (f : PeerLoad PeerId → PeerLoad PeerId) (peer : PeerId) : LoadBalancer PeerId :=
  match lb.peers.lookup peer with
  | some load => { lb with peers := lb.peers.insert peer (f load) }
  | none => lb

def onJobAssigned (peer : PeerId) : LoadBalancer PeerId := lb.modify PeerLoad.onJobAssigned peer

def onJobCompleted (peer : PeerId) : LoadBalancer PeerId := lb.modify PeerLoad.onJobCompleted peer

def selectPeer (requirements : Option JobRequirements) (order : MapOrder) (clock : PeerId → Nat) :
    LoadBalancer PeerId × Except String (PeerSelection PeerId) :=
  let candidates := lb.getEligiblePeers requirements order clock
  if candidates.isEmpty then (lb, .error "no eligible peers available")
  else
    let r := lb.selectByStrategy requirements candidates
    match r.2 with
    | some selection => (r.1.onJobAssigned selection.peerId, .ok selection)
    | none => (r.1, .error "failed to select peer")

omit [DecidableEq PeerId] in
def cleanupStalePeers (clock : PeerId → Nat) : LoadBalancer PeerId :=
  { lb with peers := retain (fun _ load => !load.isStale 300 (clock load.peerId)) lb.peers }

end LoadBalancer

inductive BalancerOp (PeerId : Type)
  | update (peer : PeerId) (capabilities : NodeCapabilities) (created now : Nat)
  | disconnected (peer : PeerId)
  | assigned (peer : PeerId)
  | completed (peer : PeerId)
  | select (requirements : Option JobRequirements) (order : MapOrder) (clock : PeerId → Nat)
  | cleanup (clock : PeerId → Nat)

variable [DecidableEq PeerId]

def LoadBalancer.step (lb : LoadBalancer PeerId) : BalancerOp PeerId → LoadBalancer PeerId
  | .update peer capabilities created now => lb.updatePeerCapabilities peer capabilities created now
  | .disconnected peer => lb.onPeerDisconnected peer
  | .assigned peer => lb.onJobAssigned peer
  | .completed peer => lb.onJobCompleted peer
  | .select requirements order clock => (lb.selectPeer requirements order clock).1
  | .cleanup clock => lb.cleanupStalePeers clock

def LoadBalancer.run (lb : LoadBalancer PeerId) (ops : List (BalancerOp PeerId)) : LoadBalancer PeerId :=
  ops.foldl LoadBalancer.step lb

def BalancerOp.news (peer : PeerId) : BalancerOp PeerId → Option (NodeCapabilities × Nat)
  | .update peer' capabilities _ now => if peer' = peer then some (capabilities, now) else none
  | _ => none

def latest (ops : List (BalancerOp PeerId)) (peer : PeerId) : Option (NodeCapabilities × Nat) :=
  Runs.lastNews (BalancerOp.news peer) ops

def PeerLoad.Current (ops : List (BalancerOp PeerId)) (peer : PeerId) (load : PeerLoad PeerId) : Prop :=
  load.peerId = peer ∧ ∃ caps, load.capabilities = some caps ∧ latest ops peer = some (caps, load.lastUpdated)

def LoadBalancer.Current (ops : List (BalancerOp PeerId)) (lb : LoadBalancer PeerId) : Prop :=
  ∀ peer, ∀ load ∈ lb.peers.lookup peer, load.Current ops peer

namespace LoadBalancer

variable {lb : LoadBalancer PeerId} {ops : List (BalancerOp PeerId)}

theorem Current.modify {f : PeerLoad PeerId → PeerLoad PeerId} (h : lb.Current ops)
    (hf : ∀ peer load, load.Current ops peer → (f load).Current ops peer) (peer : PeerId) :
    (lb.modify f peer).Current ops := by
  unfold LoadBalancer.modify
  cases hl : lb.peers.lookup peer with
  | none => exact h
  | some load =>
    intro peer' load' hmem
    by_cases hp : peer' = peer
    · subst hp
      rw [AList.lookup_insert] at hmem
      obtain rfl := Option.some.inj hmem
      exact hf peer' load (h peer' load hl)
    · rw [AList.lookup_insert_ne hp] at hmem
      exact h peer' load' hmem

theorem Current.assigned (h : lb.Current ops) (peer : PeerId) : (lb.onJobAssigned peer).Current ops :=
  h.modify (f := PeerLoad.onJobAssigned) (fun _ _ hload => hload) peer

theorem Current.completed (h : lb.Current ops) (peer : PeerId) : (lb.onJobCompleted peer).Current ops :=
  h.modify (f := PeerLoad.onJobCompleted) (fun _ _ hload => hload) peer

omit [DecidableEq PeerId] in
theorem selectByStrategy_fields (requirements : Option JobRequirements)
    (candidates : List (PeerLoad PeerId)) :
    (lb.selectByStrategy requirements candidates).1.peers = lb.peers ∧
      (lb.selectByStrategy requirements candidates).1.strategy = lb.strategy := by
  unfold selectByStrategy selectRoundRobinFromData
  dsimp only
  split
  · exact ⟨rfl, rfl⟩
  · split_ifs <;> exact ⟨rfl, rfl⟩
  · exact ⟨rfl, rfl⟩
  · split <;> exact ⟨rfl, rfl⟩

theorem Current.selectPeer (h : lb.Current ops) (requirements : Option JobRequirements) (order : MapOrder)
    (clock : PeerId → Nat) : (lb.selectPeer requirements order clock).1.Current ops := by
  have hselect : ∀ candidates, (lb.selectByStrategy requirements candidates).1.Current ops := by
    intro candidates peer load hload
    rw [(selectByStrategy_fields _ _).1] at hload
    exact h peer load hload
  unfold LoadBalancer.selectPeer
  dsimp only
  split_ifs with hempty
  · exact h
  · split
    · exact (hselect _).assigned _
    · exact hselect _

theorem Current.step (h : lb.Current ops) (op : BalancerOp PeerId) : (lb.step op).Current (ops ++ [op]) := by
  have hquiet : ∀ {lb' : LoadBalancer PeerId}, (∀ peer, op.news peer = none) → lb'.Current ops →
      lb'.Current (ops ++ [op]) := by
    intro lb' hnews h' peer load hload
    obtain ⟨hpeer, caps, hcaps, hlatest⟩ := h' peer load hload
    refine ⟨hpeer, caps, hcaps, ?_⟩
    rw [latest, Runs.lastNews_concat, hnews peer]
    exact hlatest
  cases op with
  | update peer caps created now =>
    intro peer' load hload
    by_cases hp : peer' = peer
    · subst hp
      have hnew : ((lb.peers.lookup peer').getD (.new peer' created)).peerId = peer' := by
        cases hl : lb.peers.lookup peer' with
        | none => rfl
        | some old => exact (h peer' old hl).1
      obtain rfl := Option.some.inj ((AList.lookup_insert lb.peers).symm.trans hload)
      refine ⟨hnew, caps, rfl, ?_⟩
      rw [latest, Runs.lastNews_concat, BalancerOp.news, if_pos rfl]
      rfl
    · obtain ⟨hpeer, known, hknown, hlatest⟩ :=
        h peer' load ((AList.lookup_insert_ne hp).symm.trans hload)
      refine ⟨hpeer, known, hknown, ?_⟩
      rw [latest, Runs.lastNews_concat, BalancerOp.news, if_neg (Ne.symm hp)]
      exact hlatest
  | disconnected peer => exact hquiet (fun _ => rfl) fun p load hload => h p load (mem_lookup_erase hload)
  | assigned peer => exact hquiet (fun _ => rfl) (h.assigned peer)
  | completed peer => exact hquiet (fun _ => rfl) (h.completed peer)
  | select requirements order clock => exact hquiet (fun _ => rfl) (h.selectPeer requirements order clock)
  | cleanup clock =>
    exact hquiet (fun _ => rfl) fun p load hload => h p load (mem_lookup_retain.mp hload).1

theorem current_run (strategy : BalancingStrategy) (ops : List (BalancerOp PeerId)) :
    ((new.withStrategy strategy).run ops).Current ops := by
  refine Runs.history_foldl (I := LoadBalancer.Current) (fun peer load hload => ?_)
    (fun _ _ op h => h.step op) ops
  cases hload

omit [DecidableEq PeerId] in
theorem selectByStrategy_mem {requirements : Option JobRequirements} {candidates : List (PeerLoad PeerId)}
    {selection : PeerSelection PeerId}
    (h : selection ∈ (lb.selectByStrategy requirements candidates).2) :
    ∃ load ∈ candidates, selection.peerId = load.peerId := by
  have hbest : ∀ {l : List (PeerLoad PeerId)} {reason}, l ⊆ candidates →
      selection ∈ (bestScore l).map (fun load => load.select reason) →
      ∃ load ∈ candidates, selection.peerId = load.peerId := by
    intro l reason hl hsel
    obtain ⟨load, hload, rfl⟩ := Option.mem_map.mp hsel
    exact ⟨load, hl (mem_of_pick hload), rfl⟩
  unfold selectByStrategy at h
  cases hs : lb.strategy with
  | bestScore =>
    rw [hs] at h
    exact hbest (List.Subset.refl _) h
  | roundRobin =>
    rw [hs] at h
    dsimp only [selectRoundRobinFromData] at h
    by_cases hempty : (candidates.map fun load => (load.peerId, load.selectionScore)).isEmpty = true
    · rw [if_pos hempty] at h
      cases h
    · rw [if_neg hempty] at h
      obtain ⟨data, hdata, rfl⟩ := Option.mem_map.mp h
      obtain ⟨load, hload, rfl⟩ := List.mem_map.mp (List.mem_of_getElem? hdata)
      exact ⟨load, hload, rfl⟩
  | leastLoad =>
    rw [hs] at h
    obtain ⟨load, hload, rfl⟩ := Option.mem_map.mp h
    exact ⟨load, mem_of_pick hload, rfl⟩
  | capabilityMatch =>
    rw [hs] at h
    cases requirements with
    | none => exact hbest (List.Subset.refl _) h
    | some reqs => exact hbest List.filter_sublist.subset h

theorem selectPeer_mem {requirements : Option JobRequirements} {order : MapOrder} {clock : PeerId → Nat}
    {selection : PeerSelection PeerId}
    (h : (lb.selectPeer requirements order clock).2 = .ok selection) :
    ∃ load ∈ lb.getEligiblePeers requirements order clock, selection.peerId = load.peerId := by
  unfold selectPeer at h
  dsimp only at h
  split_ifs at h with hempty
  split at h
  · next chosen hchosen =>
    obtain rfl := Except.ok.inj h
    exact selectByStrategy_mem hchosen
  · cases h

end LoadBalancer

omit [DecidableEq PeerId] in
theorem PeerLoad.offers_of_eligible {load : PeerLoad PeerId} {r : JobRequirements} {now : Nat}
    (h : load.eligible (some r) now = true) :
    load.isStale 300 now = false ∧ ∃ caps, load.capabilities = some caps ∧ caps.Offers r := by
  unfold eligible at h
  split_ifs at h with hstale
  refine ⟨Bool.not_eq_true _ ▸ hstale, ?_⟩
  dsimp only at h
  split at h
  · next caps hcaps => exact ⟨caps, hcaps, NodeCapabilities.offers_of_meetsRequirements h⟩
  · cases h

omit [DecidableEq PeerId] in
theorem PeerLoad.fresh_of_not_stale {load : PeerLoad PeerId} {secs now : Nat}
    (h : load.isStale secs now = false) :
    load.lastUpdated ≤ now ∧ (now - load.lastUpdated) / nanosPerSec ≤ secs := by
  unfold isStale at h
  split_ifs at h with hle
  exact ⟨hle, Nat.not_lt.mp (of_decide_eq_false h)⟩

/-- The peer passes the checks that `select_peer` makes. -/
def LoadBalancer.Passes (lb : LoadBalancer PeerId) (r : JobRequirements) (clock : PeerId → Nat)
    (peer : PeerId) : Prop :=
  ∃ load ∈ lb.peers.lookup peer, load.eligible (some r) (clock peer) = true

/-- What no check asks: the latest capabilities are no older than 300 seconds to the nanosecond, and they
name the specializations. -/
def MeetsUnchecked (ops : List (BalancerOp PeerId)) (r : JobRequirements) (clock : PeerId → Nat)
    (peer : PeerId) : Prop :=
  ∀ caps updated, latest ops peer = some (caps, updated) →
    clock peer - updated ≤ 300 * nanosPerSec ∧ r.requiredSpecializations ⊆ caps.specializations

def Suits (ops : List (BalancerOp PeerId)) (r : JobRequirements) (clock : PeerId → Nat) (peer : PeerId) :
    Prop :=
  ∃ caps updated, latest ops peer = some (caps, updated) ∧ updated ≤ clock peer ∧
    clock peer - updated ≤ 300 * nanosPerSec ∧ caps.Satisfies r

section Selections

variable {strategy : BalancingStrategy} {ops : List (BalancerOp PeerId)} {r : JobRequirements}
  {clock : PeerId → Nat}

theorem suits_iff_of_passes {peer : PeerId}
    (h : ((LoadBalancer.new.withStrategy strategy).run ops).Passes r clock peer) :
    Suits ops r clock peer ↔ MeetsUnchecked ops r clock peer := by
  obtain ⟨load, hload, heligible⟩ := h
  obtain ⟨rfl, caps, hcaps, hlatest⟩ := LoadBalancer.current_run strategy ops peer load hload
  obtain ⟨hstale, caps', hcaps', hoffers⟩ := PeerLoad.offers_of_eligible heligible
  obtain rfl : caps' = caps := Option.some.inj (hcaps'.symm.trans hcaps)
  constructor
  · rintro ⟨_, _, hlatest', -, hage, hsat⟩ _ _ hlatest''
    cases hlatest'.symm.trans hlatest''
    exact ⟨hage, hsat.specializations⟩
  · intro hmeets
    obtain ⟨hage, hspecs⟩ := hmeets _ _ hlatest
    exact ⟨caps', _, hlatest, (PeerLoad.fresh_of_not_stale hstale).1, hage, hoffers, hspecs⟩

theorem passes_of_selected {order : MapOrder} {selection : PeerSelection PeerId}
    (h : (((LoadBalancer.new.withStrategy strategy).run ops).selectPeer (some r) order clock).2 =
      .ok selection) :
    ((LoadBalancer.new.withStrategy strategy).run ops).Passes r clock selection.peerId := by
  obtain ⟨load, hload, hid⟩ := LoadBalancer.selectPeer_mem h
  obtain ⟨hmem, heligible⟩ := List.mem_filter.mp hload
  obtain ⟨⟨peer, load'⟩, hentry, rfl⟩ := List.mem_map.mp (order.mem_list.mp hmem)
  have hlookup := AList.mem_lookup_iff.mpr hentry
  have hpeer := (LoadBalancer.current_run strategy ops peer load' hlookup).1
  rw [hid, hpeer]
  rw [hpeer] at heligible
  exact ⟨load', hlookup, heligible⟩

theorem strategy_run (strategy : BalancingStrategy) (ops : List (BalancerOp PeerId)) :
    ((LoadBalancer.new.withStrategy strategy).run ops).strategy = strategy := by
  have hmodify : ∀ (lb : LoadBalancer PeerId) f peer, (lb.modify f peer).strategy = lb.strategy := by
    intro lb f peer
    unfold LoadBalancer.modify
    split <;> rfl
  refine Runs.history_foldl (I := fun _ (lb : LoadBalancer PeerId) => lb.strategy = strategy) rfl
    (fun _ lb op h => ?_) ops
  cases op with
  | assigned peer => exact (hmodify lb _ peer).trans h
  | completed peer => exact (hmodify lb _ peer).trans h
  | select requirements order clock =>
    refine Eq.trans ?_ h
    unfold LoadBalancer.step LoadBalancer.selectPeer
    dsimp only
    split_ifs
    · rfl
    · split
      · exact (hmodify _ _ _).trans ((LoadBalancer.selectByStrategy_fields _ _).2)
      · exact (LoadBalancer.selectByStrategy_fields _ _).2
  | _ => exact h

theorem selected_of_passes {peer : PeerId}
    (h : ((LoadBalancer.new.withStrategy .roundRobin).run ops).Passes r clock peer) :
    ∃ order selection, (((LoadBalancer.new.withStrategy .roundRobin).run ops).selectPeer (some r) order
      clock).2 = .ok selection ∧ selection.peerId = peer := by
  have hstrategy := strategy_run .roundRobin ops
  have hcurrent := LoadBalancer.current_run .roundRobin ops
  generalize (LoadBalancer.new.withStrategy .roundRobin).run ops = lb at h hstrategy hcurrent
  obtain ⟨load, hload, heligible⟩ := h
  obtain rfl := (hcurrent peer load hload).1
  have hmem : load ∈ lb.getEligiblePeers (some r) .listed clock :=
    List.mem_filter.mpr ⟨List.mem_map.mpr ⟨_, AList.mem_lookup_iff.mp hload, rfl⟩, heligible⟩
  obtain ⟨index, hindex, hlt⟩ : ∃ index, index = (if (lb.getEligiblePeers (some r) .listed clock).length ≤
      lb.roundRobinIndex then 0 else lb.roundRobinIndex) ∧
      index < (lb.getEligiblePeers (some r) .listed clock).length := by
    refine ⟨_, rfl, ?_⟩
    split_ifs with hle
    · exact List.length_pos_of_mem hmem
    · exact Nat.lt_of_not_le hle
  obtain ⟨order, hperm, hget⟩ := exists_order_getElem? hmem hlt
  change (lb.getEligiblePeers (some r) order clock)[index]? = some load at hget
  change (lb.getEligiblePeers (some r) order clock).Perm (lb.getEligiblePeers (some r) .listed clock) at hperm
  refine ⟨order, ⟨load.peerId, load.selectionScore, .roundRobin⟩, ?_, rfl⟩
  have hsome : lb.getEligiblePeers (some r) order clock ≠ [] :=
    List.ne_nil_of_mem (List.mem_of_getElem? hget)
  unfold LoadBalancer.selectPeer LoadBalancer.selectByStrategy LoadBalancer.selectRoundRobinFromData
  simp [hstrategy, hsome, hperm.length_eq, ← hindex, hget]

/-- A job goes to a peer that suits it if every peer that passes the checks meets what no check asks.
Under the round robin nothing less will do: another peer that passes is selected in some order of the
map. -/
theorem selected_peer_suits (strategy : BalancingStrategy) (ops : List (BalancerOp PeerId))
    (r : JobRequirements) (clock : PeerId → Nat) :
    let lb := (LoadBalancer.new.withStrategy strategy).run ops
    ((∀ peer, lb.Passes r clock peer → MeetsUnchecked ops r clock peer) →
        ∀ order selection, (lb.selectPeer (some r) order clock).2 = .ok selection →
          Suits ops r clock selection.peerId) ∧
      (strategy = .roundRobin →
        (∀ order selection, (lb.selectPeer (some r) order clock).2 = .ok selection →
          Suits ops r clock selection.peerId) →
        ∀ peer, lb.Passes r clock peer → MeetsUnchecked ops r clock peer) := by
  refine ⟨?_, ?_⟩
  · intro h order selection hselect
    have hpasses := passes_of_selected hselect
    exact (suits_iff_of_passes hpasses).mpr (h _ hpasses)
  · rintro rfl h peer hpasses
    obtain ⟨order, selection, hselect, rfl⟩ := selected_of_passes hpasses
    exact (suits_iff_of_passes hpasses).mp (h order selection hselect)

end Selections

def sampleCapabilities : NodeCapabilities := ⟨8, 16, 8, false, none, [.highMemory], 4, 0⟩

def sampleJob (specializations : List Specialization) : JobRequirements :=
  ⟨1, 1, false, none, specializations⟩

def sampleUpdates : List (BalancerOp Nat) := [.update 7 sampleCapabilities 0 0]

theorem selected_peer_suits_sample :
    ∃ selection, (((LoadBalancer.new.withStrategy .roundRobin).run sampleUpdates).selectPeer
        (some (sampleJob [.highMemory])) .listed fun _ => 300 * nanosPerSec).2 = .ok selection ∧
      Suits sampleUpdates (sampleJob [.highMemory]) (fun _ => 300 * nanosPerSec) selection.peerId := by
  refine ⟨_, rfl, (selected_peer_suits .roundRobin sampleUpdates (sampleJob [.highMemory])
    fun _ => 300 * nanosPerSec).1 ?_ .listed _ rfl⟩
  intro peer _ caps updated hlatest
  by_cases hpeer : 7 = peer
  · subst hpeer
    cases hlatest
    exact ⟨le_rfl, List.Subset.refl _⟩
  · simp [latest, sampleUpdates, Runs.lastNews, BalancerOp.news, hpeer] at hlatest

/-- A job for machine learning goes to a peer that does not name it, on capabilities that are half a
second too old. -/
theorem specialization_ignored :
    ∃ selection, ((LoadBalancer.new.run sampleUpdates).selectPeer (some (sampleJob [.aiMl])) .listed
        fun _ => 300 * nanosPerSec + 500000000).2 = .ok selection ∧
      latest sampleUpdates selection.peerId = some (sampleCapabilities, 0) ∧
      ¬ sampleCapabilities.Satisfies (sampleJob [.aiMl]) ∧
      300 * nanosPerSec < 300 * nanosPerSec + 500000000 - 0 := by
  refine ⟨_, rfl, rfl, fun h => ?_, by decide⟩
  exact absurd (h.specializations (List.mem_singleton_self _)) (by decide)

end Onvm
