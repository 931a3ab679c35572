import Onvm.NetworkService
import Onvm.Runs

/-! Two nodes that run the service of `network/service.rs`, the connections each of them sees open,
and the handshakes on their way between them. A node that sees a connection close may see it before or
after the other one does, and a request may fail at its sender at any time: because its connection is
gone, or because no response has come in time. -/

namespace Onvm

open Tables Runs

namespace PeerStatus

/-- The peer is not blocked, and if a handshake with it counts as in flight, then the request of it
that is pending has been sent and nobody has answered it. -/
structure Awaits (peer : PeerId) (sent : OutboundRequestId → Prop) (st : PeerStatus) : Prop where
  unblocked : peer ∉ st.transferBlocked
  addressed : ∀ id, ∀ q ∈ st.handshakePending.lookup id, q = peer
  inflight : peer ∈ st.handshakeInflight → ∃ id, sent id ∧ peer ∈ st.handshakePending.lookup id

variable {peer : PeerId} {sent sent' : OutboundRequestId → Prop} {st : PeerStatus}

theorem awaits_new : Awaits peer sent new where
  unblocked := Finset.notMem_empty _
  addressed id q hq := by
    rw [new, AList.lookup_empty] at hq
    cases hq
  inflight h := absurd h (Finset.notMem_empty _)

theorem Awaits.mono (h : Awaits peer sent st)
    (hsent : ∀ id, sent id → peer ∈ st.handshakePending.lookup id → sent' id) :
    Awaits peer sent' st where
  unblocked := h.unblocked
  addressed := h.addressed
  inflight hin := by
    obtain ⟨id, hid, hpending⟩ := h.inflight hin
    exact ⟨id, hsent id hid hpending, hpending⟩

theorem Awaits.greet (h : Awaits peer sent st) (hsent : sent st.nextHandshakeId) :
    Awaits peer sent (st.greet peer) where
  unblocked := h.unblocked
  addressed id q hq := by
    by_cases hid : id = st.nextHandshakeId
    · subst hid
      rw [PeerStatus.greet, AList.lookup_insert] at hq
      exact (Option.mem_some_iff.mp hq).symm
    · rw [PeerStatus.greet, AList.lookup_insert_ne hid] at hq
      exact h.addressed id q hq
  inflight _ := ⟨st.nextHandshakeId, hsent, AList.lookup_insert _⟩

theorem Awaits.ready (h : Awaits peer sent st) : Awaits peer sent (st.ready peer) where
  unblocked := Finset.notMem_erase _ _
  addressed := h.addressed
  inflight := h.inflight

theorem Awaits.forget (h : Awaits peer sent st) : Awaits peer sent (st.forget peer) where
  unblocked := h.unblocked
  addressed id q hq := h.addressed id q (mem_lookup_retain.mp hq).1
  inflight hin := absurd hin (Finset.notMem_erase _ _)

theorem Awaits.leave (h : Awaits peer sent st) : Awaits peer sent (st.leave peer) where
  unblocked := h.unblocked
  addressed := h.forget.addressed
  inflight := h.forget.inflight

theorem Awaits.settle (h : Awaits peer sent st) (id : OutboundRequestId) :
    Awaits peer sent' (st.settle id peer) where
  unblocked := h.unblocked
  addressed id' q hq := h.addressed id' q (mem_lookup_erase hq)
  inflight hin := absurd hin (Finset.notMem_erase _ _)

end PeerStatus

/-- A handshake request that one of the nodes has sent, with the response once the other one has
given it. A request that has failed at its sender is no longer awaited, but may still arrive. -/
structure Flight where
  sender : Bool
  id : OutboundRequestId
  connection : ConnectionId
  request : HandshakeRequest
  response : Option HandshakeResponse
  awaited : Bool

structure ServicePair (ρ β : Type) where
  nodes : Bool → Service ρ β
  links : Bool → Finset ConnectionId
  flights : List Flight

/-- `via` is the open connection on which the swarm sends the request, if the service makes one.
`order` is the order of the peers in the transfer queues. -/
inductive PairEvent
  | memTick (x : Bool) (availableMb : Nat)
  | established (x : Bool) (connection : ConnectionId) (inbound : Bool) (via : ConnectionId)
  | closed (x : Bool) (connection : ConnectionId)
  | request (i : Nat) (order : List PeerId → List PeerId)
  | response (i : Nat) (order : List PeerId → List PeerId)
  | failure (i : Nat)

variable {ρ β : Type}

def Action.flight? (x : Bool) (via : ConnectionId) : Action ρ β → Option Flight
  | .sendHandshake id _ request => some ⟨x, id, via, request, none, true⟩
  | _ => none

def Action.answer? : Action ρ β → Option HandshakeResponse
  | .answerHandshake _ response => some response
  | _ => none

namespace ServicePair

def start : ServicePair ρ β := ⟨fun _ => .new, fun _ => ∅, []⟩

variable (ids : Bool → PeerId) (cfg : Bool → ServiceConfig)

/-- Node `x` handles one event. -/
def serve (p : ServicePair ρ β) (x : Bool) (order : List PeerId → List PeerId)
    (e : ServiceEvent ρ β) : ServicePair ρ β × List (Action ρ β) :=
  let handled := (p.nodes x).handle (cfg x) order e
  ({ p with nodes := Function.update p.nodes x handled.1 }, handled.2)

def step (p : ServicePair ρ β) : PairEvent → Option (ServicePair ρ β)
  | .memTick x availableMb => some (p.serve cfg x id (.memTick availableMb)).1
  | .established x connection inbound via =>
    let links := insert connection (p.links x)
    if connection ∉ p.links x ∧ via ∈ links then
      let served := p.serve cfg x id (.connectionEstablished (ids !x) connection inbound links.card)
      some { served.1 with
        links := Function.update p.links x links
        flights := p.flights ++ served.2.filterMap (Action.flight? x via) }
    else none
  | .closed x connection =>
    let links := (p.links x).erase connection
    if connection ∈ p.links x then
      let served := p.serve cfg x id (.connectionClosed (ids !x) connection links.card)
      some { served.1 with links := Function.update p.links x links }
    else none
  | .request i order =>
    p.flights[i]?.bind fun f =>
      if f.response = none ∧ f.connection ∈ p.links (!f.sender) then
        let served := p.serve cfg (!f.sender) order (.handshakeRequest (ids f.sender) f.request)
        some { served.1 with
          flights :=
            if f.awaited then
              p.flights.set i { f with response := served.2.findSome? Action.answer? }
            else p.flights.eraseIdx i }
      else none
  | .response i order =>
    p.flights[i]?.bind fun f => f.response.bind fun response =>
      if f.awaited ∧ f.connection ∈ p.links f.sender then
        let served := p.serve cfg f.sender order (.handshakeResponse f.id response)
        some { served.1 with flights := p.flights.eraseIdx i }
      else none
  | .failure i =>
    p.flights[i]?.bind fun f =>
      if f.awaited then
        let served := p.serve cfg f.sender id (.handshakeFailure (ids !f.sender) f.id)
        some { served.1 with
          flights :=
            if f.response = none then p.flights.set i { f with awaited := false }
            else p.flights.eraseIdx i }
      else none

def Connected (p : ServicePair ρ β) : Prop :=
  ∃ connection ∈ p.links false, connection ∈ p.links true

def InFlight (p : ServicePair ρ β) : Prop :=
  ∃ f ∈ p.flights, f.awaited = true ∨ f.connection ∈ p.links !f.sender

def Wedged (p : ServicePair ρ β) : Prop :=
  p.Connected ∧ ¬ p.InFlight ∧ ∀ x, (ids !x) ∉ (p.nodes x).status.transferReady

def Undisturbed (p : ServicePair ρ β) : PairEvent → Prop
  | .closed _ connection => ∀ f ∈ p.flights, f.connection ≠ connection
  | .failure _ => False
  | _ => True

instance (p : ServicePair ρ β) : Decidable p.Connected :=
  inferInstanceAs (Decidable (∃ connection ∈ p.links false, connection ∈ p.links true))

instance (p : ServicePair ρ β) : Decidable p.InFlight :=
  inferInstanceAs (Decidable (∃ f ∈ p.flights, f.awaited = true ∨ f.connection ∈ p.links !f.sender))

instance (p : ServicePair ρ β) : Decidable (p.Wedged ids) :=
  inferInstanceAs (Decidable (_ ∧ _ ∧ _))

instance (p : ServicePair ρ β) : DecidablePred p.Undisturbed
  | .memTick _ _ => isTrue trivial
  | .established _ _ _ _ => isTrue trivial
  | .closed _ connection =>
    inferInstanceAs (Decidable (∀ f ∈ p.flights, f.connection ≠ connection))
  | .request _ _ => isTrue trivial
  | .response _ _ => isTrue trivial
  | .failure _ => isFalse id

def Sent (p : ServicePair ρ β) (x : Bool) (id : OutboundRequestId) : Prop :=
  ∃ f ∈ p.flights, f.sender = x ∧ f.id = id

/-- `f` is a request of its sender's build, and if it is answered, then the other node has accepted
it and still holds the connection, so that it has not forgotten. -/
structure Genuine (p : ServicePair ρ β) (f : Flight) : Prop where
  awaited : f.awaited = true
  request : f.request = (cfg f.sender).handshakeRequest
  answered : ∀ response ∈ f.response, response = (cfg !f.sender).handshakeResponse true ∧
    ids f.sender ∈ (p.nodes !f.sender).status.transferReady ∧ f.connection ∈ p.links !f.sender

structure Live (p : ServicePair ρ β) : Prop where
  tallied : ∀ x, (p.nodes x).connections.Tallied (p.links x)
  awaits : ∀ x, (p.nodes x).status.Awaits (ids !x) (p.Sent x)
  genuine : ∀ f ∈ p.flights, Genuine ids cfg p f
  greeted : (∀ x, (p.links x).Nonempty) →
    p.flights ≠ [] ∨ ∃ x, (ids !x) ∈ (p.nodes x).status.transferReady

variable {ids cfg} {p q : ServicePair ρ β} {x : Bool} {s : Service ρ β} {links : Finset ConnectionId}
  {flights : List Flight} {f : Flight}

theorem live_start : Live ids cfg (start : ServicePair ρ β) where
  tallied _ := Connections.tallied_new
  awaits _ := PeerStatus.awaits_new
  genuine _ hf := absurd hf List.not_mem_nil
  greeted h := absurd (h true) Finset.not_nonempty_empty

/-- The pair after node `x` has taken a step: its state, its view of the connections, the flights. -/
def put (p : ServicePair ρ β) (x : Bool) (s : Service ρ β) (links : Finset ConnectionId)
    (flights : List Flight) : ServicePair ρ β :=
  ⟨Function.update p.nodes x s, Function.update p.links x links, flights⟩

@[simp] theorem put_nodes_self : (p.put x s links flights).nodes x = s :=
  Function.update_self _ _ _

@[simp] theorem put_nodes_not : (p.put x s links flights).nodes (!x) = p.nodes !x :=
  Function.update_of_ne (Bool.not_ne_self x) _ _

@[simp] theorem put_links_self : (p.put x s links flights).links x = links :=
  Function.update_self _ _ _

@[simp] theorem put_links_not : (p.put x s links flights).links (!x) = p.links !x :=
  Function.update_of_ne (Bool.not_ne_self x) _ _

theorem put_same_links :
    p.put x s (p.links x) flights = ⟨Function.update p.nodes x s, p.links, flights⟩ :=
  congrArg (ServicePair.mk _ · flights) (Function.update_eq_self x p.links)

theorem forall_side {P : Bool → Prop} (x : Bool) (hself : P x) (hother : P !x) : ∀ y, P y := by
  intro y
  rcases Bool.eq_or_eq_not y x with rfl | rfl
  · exact hself
  · exact hother

theorem Genuine.put (h : Genuine ids cfg p f)
    (hkeep : f.connection ∈ p.links x → (ids !x) ∈ (p.nodes x).status.transferReady →
      f.connection ∈ links ∧ (ids !x) ∈ s.status.transferReady) :
    Genuine ids cfg (p.put x s links flights) f where
  awaited := h.awaited
  request := h.request
  answered response hr := by
    obtain ⟨heq, hready, hopen⟩ := h.answered response hr
    refine ⟨heq, ?_⟩
    rcases Bool.eq_or_eq_not x (!f.sender) with rfl | hx
    · rw [Bool.not_not] at hkeep
      obtain ⟨hopen', hready'⟩ := hkeep hopen hready
      rw [put_nodes_self, put_links_self]
      exact ⟨hready', hopen'⟩
    · rw [Bool.not_not] at hx
      subst hx
      rw [put_nodes_not, put_links_not]
      exact ⟨hready, hopen⟩

theorem Live.put (h : Live ids cfg p) (htally : s.connections.Tallied links)
    (hself : s.status.Awaits (ids !x) (Sent (p.put x s links flights) x))
    (hother : ∀ f ∈ p.flights, f.sender = (!x) → ∃ g ∈ flights, g.sender = f.sender ∧ g.id = f.id)
    (hgenuine : ∀ f ∈ flights, Genuine ids cfg (p.put x s links flights) f)
    (hgreeted : links.Nonempty → (p.links !x).Nonempty →
      flights ≠ [] ∨ (ids !x) ∈ s.status.transferReady ∨
        ids x ∈ (p.nodes !x).status.transferReady) :
    Live ids cfg (p.put x s links flights) where
  tallied := by
    refine forall_side x ?_ ?_
    · rwa [put_nodes_self, put_links_self]
    · rw [put_nodes_not, put_links_not]
      exact h.tallied _
  awaits := by
    refine forall_side x ?_ ?_
    · rwa [put_nodes_self]
    · rw [put_nodes_not]
      refine (h.awaits _).mono fun id hsent _ => ?_
      obtain ⟨f, hf, hsender, hid⟩ := hsent
      obtain ⟨g, hg, hgs, hgid⟩ := hother f hf hsender
      exact ⟨g, hg, hgs.trans hsender, hgid.trans hid⟩
  genuine := hgenuine
  greeted hopen := by
    have hx := hopen x
    have hy := hopen !x
    rw [put_links_self] at hx
    rw [put_links_not] at hy
    rcases hgreeted hx hy with hf | hready | hready
    · exact .inl hf
    · exact .inr ⟨x, by rwa [put_nodes_self]⟩
    · exact .inr ⟨!x, by rwa [put_nodes_not, Bool.not_not]⟩

theorem Live.greeted_side (h : Live ids cfg p) (x : Bool) (hx : (p.links x).Nonempty)
    (hy : (p.links !x).Nonempty) :
    p.flights ≠ [] ∨ (ids !x) ∈ (p.nodes x).status.transferReady ∨
      ids x ∈ (p.nodes !x).status.transferReady := by
  refine (h.greeted (forall_side x hx hy)).imp_right fun hex => ?_
  obtain ⟨y, hready⟩ := hex
  rcases Bool.eq_or_eq_not y x with rfl | rfl
  · exact .inl hready
  · rw [Bool.not_not] at hready
    exact .inr hready

theorem Live.nonempty_of_full (h : Live ids cfg p) {connection : ConnectionId} {inbound : Bool}
    (hfull : ¬ (p.nodes x).connections.admits (cfg x) inbound (insert connection (p.links x)).card = true) :
    (p.links x).Nonempty := by
  rw [Finset.nonempty_iff_ne_empty]
  intro hempty
  have hfirst := (hempty ▸ h.tallied x).admits_first (cfg x) inbound
  rw [hempty] at hfull
  exact hfull hfirst

theorem Live.ready_of_not_greets (h : Live ids cfg p)
    (hgreets : ¬ (p.nodes x).status.greets (ids !x) = true) :
    p.flights ≠ [] ∨ (ids !x) ∈ (p.nodes x).status.transferReady := by
  simp only [PeerStatus.greets, decide_eq_true_eq, not_and_or, not_not] at hgreets
  rcases hgreets with hready | hin | hblocked
  · exact .inr hready
  · obtain ⟨id, ⟨f, hf, _⟩, _⟩ := (h.awaits x).inflight hin
    exact .inl (List.ne_nil_of_mem hf)
  · exact absurd hblocked (h.awaits x).unblocked

theorem Live.memTick (h : Live ids cfg p) (availableMb : Nat)
    (hq : p.step ids cfg (.memTick x availableMb) = some q) : Live ids cfg q := by
  have hq : p.put x { p.nodes x with connections := (p.nodes x).connections.memTick (cfg x) availableMb }
      (p.links x) p.flights = q := by
    rw [put_same_links]
    exact Option.some.inj hq
  subst hq
  refine h.put ((h.tallied x).memTick _ _) (h.awaits x) (fun f hf _ => ⟨f, hf, rfl, rfl⟩) ?_
    (h.greeted_side x)
  intro f hf
  exact (h.genuine f hf).put fun hopen hready => ⟨hopen, hready⟩

theorem Live.established (h : Live ids cfg p) {connection via : ConnectionId} {inbound : Bool}
    (hq : p.step ids cfg (.established x connection inbound via) = some q) : Live ids cfg q := by
  obtain ⟨⟨hnew, hvia⟩, hq⟩ := Option.ite_none_right_eq_some.mp hq
  have hgenuine : ∀ {s : Service ρ β} {flights : List Flight},
      s.status.transferReady = (p.nodes x).status.transferReady → ∀ f ∈ p.flights,
      Genuine ids cfg (p.put x s (insert connection (p.links x)) flights) f := by
    intro s flights hs f hf
    refine (h.genuine f hf).put fun hopen hready => ⟨Finset.mem_insert_of_mem hopen, ?_⟩
    rwa [hs]
  simp only [serve, Service.handle, Service.connectionEstablished] at hq
  split at hq
  · have htally := (h.tallied x).count hnew inbound
    split at hq
    case isTrue hgreets =>
      set greeting : Flight := ⟨x, (p.nodes x).status.nextHandshakeId, via,
        (cfg x).handshakeRequest, none, true⟩
      have hq : p.put x _ _ (p.flights ++ [greeting]) = q := Option.some.inj hq
      subst hq
      have hself : greeting ∈ p.flights ++ [greeting] := by simp
      have hkept : ∀ f ∈ p.flights, f ∈ p.flights ++ [greeting] := fun f hf => by simp [hf]
      refine h.put htally ?_ (fun f hf _ => ⟨f, hkept f hf, rfl, rfl⟩) ?_ ?_
      · refine PeerStatus.Awaits.greet ?_ ⟨greeting, hself, rfl, rfl⟩
        refine (h.awaits x).mono fun id hsent _ => ?_
        obtain ⟨f, hf, hs⟩ := hsent
        exact ⟨f, hkept f hf, hs⟩
      · intro f hf
        rcases List.mem_append.mp hf with hf | hf
        · refine hgenuine ?_ f hf
          rfl
        · rw [List.mem_singleton.mp hf]
          exact ⟨rfl, rfl, fun response hr => by cases hr⟩
      · intro _ _
        exact .inl (List.ne_nil_of_mem hself)
    case isFalse hgreets =>
      have hq : p.put x _ _ (p.flights ++ []) = q := Option.some.inj hq
      rw [List.append_nil] at hq
      subst hq
      refine h.put htally (h.awaits x) (fun f hf _ => ⟨f, hf, rfl, rfl⟩) (hgenuine rfl) ?_
      intro _ _
      exact (h.ready_of_not_greets hgreets).imp_right .inl
  case isFalse hfull =>
    have hq : p.put x _ _ (p.flights ++ []) = q := Option.some.inj hq
    rw [List.append_nil] at hq
    subst hq
    refine h.put (h.tallied x).open (h.awaits x) (fun f hf _ => ⟨f, hf, rfl, rfl⟩) (hgenuine rfl) ?_
    intro _ hy
    exact h.greeted_side x (h.nonempty_of_full hfull) hy

theorem Live.closed (h : Live ids cfg p) {connection : ConnectionId}
    (hquiet : ∀ f ∈ p.flights, f.connection ≠ connection)
    (hq : p.step ids cfg (.closed x connection) = some q) : Live ids cfg q := by
  obtain ⟨hmem, hq⟩ := Option.ite_none_right_eq_some.mp hq
  have htally : Connections.Tallied ((p.links x).erase connection)
      ((p.nodes x).connections.uncount connection) := (h.tallied x).uncount
  have hopen : ∀ f ∈ p.flights, f.connection ∈ p.links x →
      f.connection ∈ (p.links x).erase connection := fun f hf hin =>
    Finset.mem_erase.mpr ⟨hquiet f hf, hin⟩
  have hkept : ∀ f ∈ p.flights, f.sender = (!x) → ∃ g ∈ p.flights, g.sender = f.sender ∧ g.id = f.id :=
    fun f hf _ => ⟨f, hf, rfl, rfl⟩
  simp only [serve, Service.handle, Service.connectionClosed] at hq
  split at hq
  case isTrue hlast =>
    have hq : p.put x _ _ p.flights = q := Option.some.inj hq
    subst hq
    have hempty := Finset.card_eq_zero.mp hlast
    refine h.put htally (h.awaits x).leave hkept ?_ ?_
    · intro f hf
      refine (h.genuine f hf).put fun hin _ => ?_
      have hin' := hopen f hf hin
      rw [hempty] at hin'
      exact absurd hin' (Finset.notMem_empty _)
    · intro hx
      exact absurd hx (Finset.not_nonempty_iff_eq_empty.mpr hempty)
  case isFalse hmore =>
    have hgenuine : ∀ {s : Service ρ β}, s.status.transferReady = (p.nodes x).status.transferReady →
        ∀ f ∈ p.flights,
          Genuine ids cfg (p.put x s ((p.links x).erase connection) p.flights) f := by
      intro s hs f hf
      refine (h.genuine f hf).put fun hin hready => ⟨hopen f hf hin, ?_⟩
      rwa [hs]
    have hgreeted := h.greeted_side x ⟨connection, hmem⟩
    split at hq
    · have hq : p.put x _ _ p.flights = q := Option.some.inj hq
      subst hq
      exact h.put htally (h.awaits x).forget hkept (hgenuine rfl) fun _ hy => hgreeted hy
    · have hq : p.put x _ _ p.flights = q := Option.some.inj hq
      subst hq
      exact h.put htally (h.awaits x) hkept (hgenuine rfl) fun _ hy => hgreeted hy

theorem exists_mem_set {i : Nat} {f' : Flight} (hf : flights[i]? = some f)
    (hsender : f'.sender = f.sender) (hid : f'.id = f.id) {g : Flight} (hg : g ∈ flights) :
    ∃ g' ∈ flights.set i f', g'.sender = g.sender ∧ g'.id = g.id := by
  obtain ⟨j, hj⟩ := List.mem_iff_getElem?.mp hg
  by_cases hij : i = j
  · subst hij
    rw [hf] at hj
    cases hj
    have hlt := (List.getElem?_eq_some_iff.mp hf).1
    exact ⟨f', List.mem_of_getElem? (List.getElem?_set_self hlt), hsender, hid⟩
  · have hj' := (List.getElem?_set_ne hij (a := f')).trans hj
    exact ⟨g, List.mem_of_getElem? hj', rfl, rfl⟩

theorem mem_eraseIdx_of_ne {i : Nat} (hf : flights[i]? = some f) {g : Flight} (hg : g ∈ flights)
    (hne : g ≠ f) : g ∈ flights.eraseIdx i := by
  obtain ⟨j, hj⟩ := List.mem_iff_getElem?.mp hg
  refine List.mem_eraseIdx_iff_getElem?.mpr ⟨j, ?_, hj⟩
  rintro rfl
  rw [hf] at hj
  exact hne (Option.some.inj hj).symm

def Compatible (cfg : Bool → ServiceConfig) : Prop :=
  ∀ x y, (cfg x).transferProtocol = (cfg y).transferProtocol ∧
    (cfg x).transferCodecFingerprint = (cfg y).transferCodecFingerprint

theorem Live.request (h : Live ids cfg p) (hcompat : Compatible cfg) {i : Nat}
    {order : List PeerId → List PeerId} (hq : p.step ids cfg (.request i order) = some q) :
    Live ids cfg q := by
  obtain ⟨f, hf, hq⟩ := Option.bind_eq_some_iff.mp hq
  obtain ⟨⟨hnone, hopen⟩, hq⟩ := Option.ite_none_right_eq_some.mp hq
  have hmem := List.mem_of_getElem? hf
  have hfg := h.genuine f hmem
  obtain ⟨y, hy⟩ : ∃ y, f.sender = !y := ⟨!f.sender, (Bool.not_not _).symm⟩
  have hrequest : f.request = (cfg !y).handshakeRequest := hy ▸ hfg.request
  have haccepts : (cfg y).accepts f.request = true := by
    rw [hrequest]
    exact decide_eq_true (hcompat _ _)
  rw [hy, Bool.not_not] at hopen
  simp only [serve, Service.handle, Service.handshakeRequest, hfg.awaited, hy, Bool.not_not,
    haccepts, if_true] at hq
  set answered : Flight := ⟨!y, f.id, f.connection, f.request,
    some ((cfg y).handshakeResponse true), true⟩
  have hq : p.put y ((p.nodes y).welcome (cfg y) order (ids !y)).1 (p.links y)
      (p.flights.set i answered) = q := by
    rw [put_same_links]
    exact Option.some.inj hq
  subst hq
  have hready : (ids !y) ∈ ((p.nodes y).welcome (cfg y) order (ids !y)).1.status.transferReady :=
    Finset.mem_insert_self _ _
  have hkept : ∀ g ∈ p.flights, ∃ g' ∈ p.flights.set i answered, g'.sender = g.sender ∧ g'.id = g.id := by
    intro g hg
    refine exists_mem_set hf ?_ ?_ hg
    · exact hy.symm
    · rfl
  refine h.put (h.tallied y) ?_ (fun g hg _ => hkept g hg) ?_ ?_
  · refine PeerStatus.Awaits.ready ((h.awaits y).mono fun id hsent _ => ?_)
    obtain ⟨g, hg, hsender, hid⟩ := hsent
    obtain ⟨g', hg', hsender', hid'⟩ := hkept g hg
    exact ⟨g', hg', hsender'.trans hsender, hid'.trans hid⟩
  · intro g hg
    rcases List.mem_or_eq_of_mem_set hg with hg | rfl
    · exact (h.genuine g hg).put fun hin _ => ⟨hin, hready⟩
    · refine ⟨rfl, hrequest, fun response hr => ?_⟩
      have hr : (cfg y).handshakeResponse true = response := Option.mem_some_iff.mp hr
      simp only [answered, Bool.not_not, put_nodes_self, put_links_self]
      exact ⟨hr.symm, hready, hopen⟩
  · intro _ _
    exact .inr (.inl hready)

theorem Live.response (h : Live ids cfg p) (hcompat : Compatible cfg) {i : Nat}
    {order : List PeerId → List PeerId} (hq : p.step ids cfg (.response i order) = some q) :
    Live ids cfg q := by
  obtain ⟨f, hf, hq⟩ := Option.bind_eq_some_iff.mp hq
  obtain ⟨response, hresponse, hq⟩ := Option.bind_eq_some_iff.mp hq
  obtain ⟨-, hq⟩ := Option.ite_none_right_eq_some.mp hq
  obtain ⟨hr, hother, -⟩ := (h.genuine f (List.mem_of_getElem? hf)).answered response hresponse
  obtain ⟨x, hx⟩ : ∃ x, f.sender = x := ⟨_, rfl⟩
  rw [hx] at hother hr hq
  have hkept : ∀ g ∈ p.flights, g.sender = (!x) →
      ∃ g' ∈ p.flights.eraseIdx i, g'.sender = g.sender ∧ g'.id = g.id := by
    intro g hg hsender
    refine ⟨g, mem_eraseIdx_of_ne hf hg ?_, rfl, rfl⟩
    rintro rfl
    exact Bool.not_ne_self x (hsender.symm.trans hx)
  simp only [serve, Service.handle, Service.handshakeResponse] at hq
  split at hq
  case h_1 hnone =>
    have hq : p.put x (p.nodes x) (p.links x) (p.flights.eraseIdx i) = q := by
      rw [put_same_links]
      exact Option.some.inj hq
    subst hq
    refine h.put (h.tallied x) ?_ hkept ?_ fun _ _ => .inr (.inr hother)
    · refine (h.awaits x).mono fun id hsent hpending => ?_
      obtain ⟨g, hg, hsender, rfl⟩ := hsent
      refine ⟨g, mem_eraseIdx_of_ne hf hg ?_, hsender, rfl⟩
      rintro rfl
      rw [hnone] at hpending
      cases hpending
    · intro g hg
      exact (h.genuine g (List.mem_of_mem_eraseIdx hg)).put fun hin hready => ⟨hin, hready⟩
  case h_2 peer hpending =>
    have hpeer := (h.awaits x).addressed f.id peer hpending
    subst hpeer
    have hsame := hcompat (!x) x
    rw [hr] at hq
    simp only [ServiceConfig.handshakeResponse, hsame.1, hsame.2, ne_eq, not_true_eq_false, or_self,
      if_false] at hq
    set settled : Service ρ β :=
      { p.nodes x with status := (p.nodes x).status.settle f.id (ids !x) }
    have hq : p.put x (settled.welcome (cfg x) order (ids !x)).1 (p.links x)
        (p.flights.eraseIdx i) = q := by
      rw [put_same_links]
      exact Option.some.inj hq
    subst hq
    have hready : (ids !x) ∈ (settled.welcome (cfg x) order (ids !x)).1.status.transferReady :=
      Finset.mem_insert_self _ _
    refine h.put (h.tallied x) ?_ hkept ?_ fun _ _ => .inr (.inl hready)
    · exact PeerStatus.Awaits.ready ((h.awaits x).settle f.id)
    · intro g hg
      exact (h.genuine g (List.mem_of_mem_eraseIdx hg)).put fun hin _ => ⟨hin, hready⟩

theorem Live.step (hcompat : Compatible cfg) (p : ServicePair ρ β) (e : PairEvent)
    (q : ServicePair ρ β) (h : Live ids cfg p) (he : p.Undisturbed e)
    (hq : p.step ids cfg e = some q) : Live ids cfg q := by
  cases e with
  | memTick x availableMb => exact h.memTick availableMb hq
  | established x connection inbound via => exact h.established hq
  | closed x connection => exact h.closed he hq
  | request i order => exact h.request hcompat hq
  | response i order => exact h.response hcompat hq
  | failure i => exact absurd he id

theorem Live.not_wedged (h : Live ids cfg p) : ¬ p.Wedged ids := by
  intro hw
  obtain ⟨⟨connection, hfalse, htrue⟩, hnone, hready⟩ := hw
  have hopen : ∀ x, (p.links x).Nonempty :=
    forall_side true ⟨connection, htrue⟩ ⟨connection, hfalse⟩
  rcases h.greeted hopen with hflights | ⟨x, hx⟩
  · obtain ⟨f, hf⟩ := List.exists_mem_of_ne_nil _ hflights
    exact hnone ⟨f, hf, .inl (h.genuine f hf).awaited⟩
  · exact hready x hx

end ServicePair

/-- Two nodes of one transfer protocol and codec that are connected have a handshake on the way, or
one of them has the other ready, in every state of a run in which no handshake fails and no connection
closes while a handshake is on it. -/
theorem handshake_not_wedged (ids : Bool → PeerId) (cfg : Bool → ServiceConfig)
    (hprotocol : (cfg false).transferProtocol = (cfg true).transferProtocol)
    (hfingerprint :
      (cfg false).transferCodecFingerprint = (cfg true).transferCodecFingerprint)
    (es : List PairEvent) (p : ServicePair ρ β)
    (hrun : run (ServicePair.step ids cfg) .start es = some p)
    (hes : Along (ServicePair.step ids cfg) ServicePair.Undisturbed (.start : ServicePair ρ β) es) : ¬ p.Wedged ids := by
  have hcompat : ServicePair.Compatible cfg := by
    intro x y
    cases x <;> cases y
    · exact ⟨rfl, rfl⟩
    · exact ⟨hprotocol, hfingerprint⟩
    · exact ⟨hprotocol.symm, hfingerprint.symm⟩
    · exact ⟨rfl, rfl⟩
  have hlive : p.Live ids cfg :=
    invariant_run (ServicePair.Live.step hcompat) ServicePair.live_start hes hrun
  exact hlive.not_wedged

def answeredHandshake : List PairEvent :=
  [.established false 0 false 0, .established true 0 true 0, .request 0 id, .response 0 id]

theorem handshake_not_wedged_sample :
    ∃ p : ServicePair Unit Unit,
      run (ServicePair.step sampleIds fun _ => sampleServiceConfig) .start answeredHandshake = some p ∧
        p.Connected ∧ ¬ p.Wedged sampleIds := by
  obtain ⟨p, hrun, hconnected⟩ : ∃ p : ServicePair Unit Unit,
      run (ServicePair.step sampleIds fun _ => sampleServiceConfig) .start answeredHandshake = some p ∧
        p.Connected := exists_of_any (by decide +kernel)
  refine ⟨p, hrun, hconnected, ?_⟩
  refine handshake_not_wedged sampleIds (fun _ => sampleServiceConfig) rfl rfl _ p hrun ?_
  decide +kernel

/-- The first connection is lost while both greetings are on it. Each failure blocks the peer, and on
the second connection neither node greets. -/
def lostHandshakes : List PairEvent :=
  [.established false 0 false 0, .established true 0 true 0, .closed false 0, .closed true 0,
    .failure 0, .failure 1, .established false 1 false 1, .established true 1 true 1]

theorem handshake_wedged :
    ∃ p : ServicePair Unit Unit,
      run (ServicePair.step sampleIds fun _ => sampleServiceConfig) .start lostHandshakes = some p ∧
        p.Wedged sampleIds :=
  exists_of_any (by decide +kernel)

end Onvm
