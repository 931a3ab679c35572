import Onvm.Types

/-! `network/pex/mod.rs`: the addresses a node tells others and takes from them, and the policy that
filters them. An address is the list of its protocols; reading and printing identifiers and addresses
is left to the multiaddr library. -/

namespace Onvm

open ByteString

structure Ipv4Addr where
  a : UInt8
  b : UInt8
  c : UInt8
  d : UInt8
deriving DecidableEq

namespace Ipv4Addr

def isUnspecified (ip : Ipv4Addr) : Bool := ip = ⟨0, 0, 0, 0⟩

def isMulticast (ip : Ipv4Addr) : Bool := 224 ≤ ip.a ∧ ip.a ≤ 239

def isLoopback (ip : Ipv4Addr) : Bool := ip.a = 127

def isPrivate (ip : Ipv4Addr) : Bool :=
  ip.a = 10 ∨ (ip.a = 172 ∧ 16 ≤ ip.b ∧ ip.b ≤ 31) ∨ (ip.a = 192 ∧ ip.b = 168)

def isLinkLocal (ip : Ipv4Addr) : Bool := ip.a = 169 ∧ ip.b = 254

def isPrivateOrLinkLocal (ip : Ipv4Addr) : Bool := ip.isPrivate || ip.isLinkLocal

end Ipv4Addr

/-- The eight segments. -/
structure Ipv6Addr where
  s0 : UInt16
  s1 : UInt16
  s2 : UInt16
  s3 : UInt16
  s4 : UInt16
  s5 : UInt16
  s6 : UInt16
  s7 : UInt16
deriving DecidableEq

namespace Ipv6Addr

def isUnspecified (ip : Ipv6Addr) : Bool := ip = ⟨0, 0, 0, 0, 0, 0, 0, 0⟩

def isMulticast (ip : Ipv6Addr) : Bool := ip.s0 &&& 0xff00 = 0xff00

def isLoopback (ip : Ipv6Addr) : Bool := ip = ⟨0, 0, 0, 0, 0, 0, 0, 1⟩

/-- Unique local, `fc00::/7`, or link-local, `fe80::/10`. -/
def isPrivateOrLinkLocal (ip : Ipv6Addr) : Bool :=
  ip.s0 &&& 0xfe00 = 0xfc00 ∨ ip.s0 &&& 0xffc0 = 0xfe80

/-- The IPv4 address that `::ffff:a.b.c.d` denotes. -/
def toIpv4Mapped (ip : Ipv6Addr) : Option Ipv4Addr :=
  if ip.s0 = 0 ∧ ip.s1 = 0 ∧ ip.s2 = 0 ∧ ip.s3 = 0 ∧ ip.s4 = 0 ∧ ip.s5 = 0xffff then
    some ⟨(ip.s6 >>> 8).toUInt8, ip.s6.toUInt8, (ip.s7 >>> 8).toUInt8, ip.s7.toUInt8⟩
  else none

end Ipv6Addr

inductive IpAddr
  | v4 (ip : Ipv4Addr)
  | v6 (ip : Ipv6Addr)
deriving DecidableEq

namespace IpAddr

def isUnspecified : IpAddr → Bool
  | .v4 ip => ip.isUnspecified
  | .v6 ip => ip.isUnspecified

def isMulticast : IpAddr → Bool
  | .v4 ip => ip.isMulticast
  | .v6 ip => ip.isMulticast

def isLoopback : IpAddr → Bool
  | .v4 ip => ip.isLoopback
  | .v6 ip => ip.isLoopback

def isPrivateOrLinkLocal : IpAddr → Bool
  | .v4 ip => ip.isPrivateOrLinkLocal
  | .v6 ip => ip.isPrivateOrLinkLocal

def denotes : IpAddr → IpAddr
  | .v4 ip => .v4 ip
  | .v6 ip => (ip.toIpv4Mapped.map .v4).getD (.v6 ip)

end IpAddr

/-- A component of an address; all that carry no IP address and no peer are `other`. -/
inductive Protocol
  | ip4 (ip : Ipv4Addr)
  | ip6 (ip : Ipv6Addr)
  | p2p (peer : PeerId)
  | other (code : Nat) (data : Bytes)
deriving DecidableEq

def Protocol.ip? : Protocol → Option IpAddr
  | .ip4 ip => some (.v4 ip)
  | .ip6 ip => some (.v6 ip)
  | _ => none

abbrev Multiaddr := List Protocol

def Multiaddr.ips (addr : Multiaddr) : List IpAddr := addr.filterMap Protocol.ip?

def Multiaddr.mappedIps (addr : Multiaddr) : List Ipv4Addr :=
  addr.filterMap fun
    | .ip6 ip => ip.toIpv4Mapped
    | _ => none

/-- How peer ids and addresses are read and printed. -/
structure AddressFormat where
  readPeer : String → Option PeerId
  showPeer : PeerId → String
  readAddr : String → Option Multiaddr
  showAddr : Multiaddr → String

structure PexPeer where
  peerId : String
  addrs : List String
deriving DecidableEq

structure PexResponse where
  peers : List PexPeer
deriving DecidableEq

structure PexPolicy where
  maxPeersPerResponse : Nat
  maxAddrsPerPeer : Nat
  allowPrivateAddrs : Bool
  allowLoopbackAddrs : Bool

def PexPolicy.default : PexPolicy := ⟨128, 8, true, false⟩

def ipAllowed (ip : IpAddr) (allowPrivate allowLoopback : Bool) : Bool :=
  if ip.isUnspecified || ip.isMulticast then false
  else if !allowLoopback && ip.isLoopback then false
  else if !allowPrivate && ip.isPrivateOrLinkLocal then false
  else true

def addrAllowed (addr : Multiaddr) (allowPrivate allowLoopback : Bool) : Bool :=
  addr.all fun
    | .ip4 ip => ipAllowed (.v4 ip) allowPrivate allowLoopback
    | .ip6 ip => ipAllowed (.v6 ip) allowPrivate allowLoopback
    | _ => true

def PexPolicy.allows (policy : PexPolicy) (addr : Multiaddr) : Bool :=
  addrAllowed addr policy.allowPrivateAddrs policy.allowLoopbackAddrs

/-- The address with the peer as its last component, in place of a peer that it already ends with. -/
def normalizeP2pComponent (addr : Multiaddr) (peer : PeerId) : Multiaddr :=
  (match addr.getLast? with
    | some (.p2p _) => addr.dropLast
    | _ => addr) ++ [.p2p peer]

section Exchange

variable (fmt : AddressFormat) (policy : PexPolicy)

def parseAddr (peer : PeerId) (raw : String) : Option Multiaddr :=
  match fmt.readAddr raw with
  | none => none
  | some addr =>
    let addr := normalizeP2pComponent addr peer
    if policy.allows addr then some addr else none

def parsePeer (selfPeer : PeerId) (peer : PexPeer) : Option (PeerId × List Multiaddr) :=
  match fmt.readPeer peer.peerId with
  | none => none
  | some peerId =>
    if peerId = selfPeer then none
    else
      let addrs := (peer.addrs.take policy.maxAddrsPerPeer).filterMap (parseAddr fmt policy peerId)
      if addrs.isEmpty then none else some (peerId, addrs)

def parseResponse (resp : PexResponse) (selfPeer : PeerId) : List (PeerId × List Multiaddr) :=
  (resp.peers.take policy.maxPeersPerResponse).filterMap (parsePeer fmt policy selfPeer)

def readAddrs (resp : PexResponse) (selfPeer : PeerId) : List Multiaddr :=
  (resp.peers.take policy.maxPeersPerResponse).flatMap fun peer =>
    match fmt.readPeer peer.peerId with
    | none => []
    | some peerId =>
      if peerId = selfPeer then []
      else (peer.addrs.take policy.maxAddrsPerPeer).filterMap fmt.readAddr

end Exchange

/-- The policy permits that the address be used. -/
structure PexPolicy.Permits (policy : PexPolicy) (ip : IpAddr) : Prop where
  specified : ip.isUnspecified = false
  unicast : ip.isMulticast = false
  loopback : policy.allowLoopbackAddrs = true ∨ ip.isLoopback = false
  offSite : policy.allowPrivateAddrs = true ∨ ip.isPrivateOrLinkLocal = false

namespace PexPolicy

variable {policy : PexPolicy}

theorem permits_iff {ip : IpAddr} :
    policy.Permits ip ↔ ipAllowed ip policy.allowPrivateAddrs policy.allowLoopbackAddrs = true := by
  unfold ipAllowed
  constructor
  · intro h
    rcases h.loopback with hl | hl <;> rcases h.offSite with hp | hp <;>
      simp [h.specified, h.unicast, hl, hp]
  · intro h
    split at h
    · cases h
    split at h
    · cases h
    split at h
    · cases h
    · rename_i hfirst hloop hpriv
      simp only [Bool.or_eq_true, not_or, Bool.not_eq_true] at hfirst
      simp only [Bool.and_eq_true, Bool.not_eq_true', not_and_or, Bool.not_eq_false,
        Bool.not_eq_true] at hloop hpriv
      exact ⟨hfirst.1, hfirst.2, hloop, hpriv⟩

theorem allows_iff {addr : Multiaddr} : policy.allows addr = true ↔ ∀ ip ∈ addr.ips, policy.Permits ip := by
  rw [allows, addrAllowed, List.all_eq_true]
  constructor
  · intro h ip hip
    obtain ⟨proto, hproto, hp⟩ := List.mem_filterMap.mp hip
    have hallowed := h proto hproto
    cases proto with
    | ip4 v => cases hp; exact permits_iff.mpr hallowed
    | ip6 v => cases hp; exact permits_iff.mpr hallowed
    | p2p peer => cases hp
    | other code data => cases hp
  · intro h proto hproto
    cases proto with
    | ip4 v => exact permits_iff.mp (h _ (List.mem_filterMap.mpr ⟨_, hproto, rfl⟩))
    | ip6 v => exact permits_iff.mp (h _ (List.mem_filterMap.mpr ⟨_, hproto, rfl⟩))
    | p2p peer => rfl
    | other code data => rfl

end PexPolicy

theorem getLast?_normalizeP2pComponent (addr : Multiaddr) (peer : PeerId) :
    (normalizeP2pComponent addr peer).getLast? = some (.p2p peer) :=
  List.getLast?_concat

theorem ips_normalizeP2pComponent (addr : Multiaddr) (peer : PeerId) :
    (normalizeP2pComponent addr peer).ips = addr.ips := by
  unfold normalizeP2pComponent Multiaddr.ips
  rw [List.filterMap_append]
  split
  · rename_i p hlast
    obtain ⟨front, hfront⟩ := List.getLast?_eq_some_iff.mp hlast
    rw [hfront, List.dropLast_concat, List.filterMap_append]
    rfl
  · exact List.append_nil _

section Parsing

variable {fmt : AddressFormat} {policy : PexPolicy}

theorem allows_normalizeP2pComponent (addr : Multiaddr) (peer : PeerId) :
    policy.allows (normalizeP2pComponent addr peer) = policy.allows addr := by
  rw [Bool.eq_iff_iff, PexPolicy.allows_iff, PexPolicy.allows_iff, ips_normalizeP2pComponent]

theorem permits_denotes_iff {addr : Multiaddr} (h : policy.allows addr = true) :
    (∀ ip ∈ addr.ips, policy.Permits ip.denotes) ↔ ∀ ip ∈ addr.mappedIps, policy.Permits (.v4 ip) := by
  constructor
  · intro hdenotes v4 hv4
    obtain ⟨proto, hproto, hmapped⟩ := List.mem_filterMap.mp hv4
    cases proto with
    | ip6 v6 =>
      have hpermits := hdenotes (.v6 v6) (List.mem_filterMap.mpr ⟨_, hproto, rfl⟩)
      dsimp only at hmapped
      rwa [IpAddr.denotes, hmapped] at hpermits
    | ip4 ip => cases hmapped
    | p2p peer => cases hmapped
    | other code data => cases hmapped
  · intro hmapped ip hip
    have hpermits := PexPolicy.allows_iff.mp h ip hip
    obtain ⟨proto, hproto, hip⟩ := List.mem_filterMap.mp hip
    cases ip with
    | v4 v4 => exact hpermits
    | v6 v6 =>
      cases hv4 : v6.toIpv4Mapped with
      | none => rwa [IpAddr.denotes, hv4]
      | some v4 =>
        rw [IpAddr.denotes, hv4]
        refine hmapped v4 (List.mem_filterMap.mpr ⟨proto, hproto, ?_⟩)
        cases proto <;> cases hip
        exact hv4

theorem parseAddr_eq_some {peer : PeerId} {raw : String} {addr : Multiaddr} :
    parseAddr fmt policy peer raw = some addr ↔
      ∃ read, fmt.readAddr raw = some read ∧ policy.allows read = true ∧
        addr = normalizeP2pComponent read peer := by
  unfold parseAddr
  cases fmt.readAddr raw with
  | none => simp
  | some read =>
    dsimp only
    rw [allows_normalizeP2pComponent]
    split_ifs with hallows
    · constructor
      · rintro ⟨⟩
        exact ⟨read, rfl, hallows, rfl⟩
      · rintro ⟨_, ⟨⟩, -, rfl⟩
        rfl
    · simp [hallows]

theorem parsePeer_eq_some {selfPeer : PeerId} {peer : PexPeer} {entry : PeerId × List Multiaddr} :
    parsePeer fmt policy selfPeer peer = some entry ↔
      fmt.readPeer peer.peerId = some entry.1 ∧ entry.1 ≠ selfPeer ∧ entry.2 ≠ [] ∧
        entry.2 = (peer.addrs.take policy.maxAddrsPerPeer).filterMap (parseAddr fmt policy entry.1) := by
  obtain ⟨peerId, addrs⟩ := entry
  unfold parsePeer
  cases fmt.readPeer peer.peerId with
  | none => simp
  | some read =>
    simp only [List.isEmpty_iff]
    split_ifs with hself hnil
    · simp only [Option.some.injEq, false_iff]
      rintro ⟨rfl, hne, -⟩
      exact hne hself
    · simp only [Option.some.injEq, false_iff]
      rintro ⟨rfl, -, hne, rfl⟩
      exact hne hnil
    · simp only [Option.some.injEq, Prod.mk.injEq]
      constructor
      · rintro ⟨rfl, rfl⟩
        exact ⟨rfl, hself, hnil, rfl⟩
      · rintro ⟨rfl, -, -, rfl⟩
        exact ⟨rfl, rfl⟩

theorem forall_mem_parseResponse {resp : PexResponse} {selfPeer : PeerId} {P : Multiaddr → Prop}
    (hP : ∀ addr peer, P (normalizeP2pComponent addr peer) ↔ P addr) :
    (∀ entry ∈ parseResponse fmt policy resp selfPeer, ∀ addr ∈ entry.2, P addr) ↔
      ∀ addr ∈ readAddrs fmt policy resp selfPeer, policy.allows addr = true → P addr := by
  constructor
  · intro h addr haddr hallows
    obtain ⟨peer, hpeer, hmem⟩ := List.mem_flatMap.mp haddr
    cases hread : fmt.readPeer peer.peerId with
    | none => simp [hread] at hmem
    | some peerId =>
      by_cases hself : peerId = selfPeer
      · simp [hread, hself] at hmem
      simp only [hread, hself, if_false] at hmem
      obtain ⟨raw, hraw, hreads⟩ := List.mem_filterMap.mp hmem
      have hkeep : parseAddr fmt policy peerId raw = some (normalizeP2pComponent addr peerId) :=
        parseAddr_eq_some.mpr ⟨addr, hreads, hallows, rfl⟩
      have hkept := List.mem_filterMap.mpr ⟨raw, hraw, hkeep⟩
      have hparse : parsePeer fmt policy selfPeer peer = some (peerId, _) :=
        parsePeer_eq_some.mpr ⟨hread, hself, List.ne_nil_of_mem hkept, rfl⟩
      exact (hP addr peerId).mp (h _ (List.mem_filterMap.mpr ⟨peer, hpeer, hparse⟩) _ hkept)
  · intro h entry hentry addr haddr
    obtain ⟨peer, hpeer, hparse⟩ := List.mem_filterMap.mp hentry
    obtain ⟨hread, hself, -, hkept⟩ := parsePeer_eq_some.mp hparse
    rw [hkept] at haddr
    obtain ⟨raw, hraw, hkept⟩ := List.mem_filterMap.mp haddr
    obtain ⟨read, hreads, hallows, rfl⟩ := parseAddr_eq_some.mp hkept
    refine (hP read entry.1).mpr (h read (List.mem_flatMap.mpr ⟨peer, hpeer, ?_⟩) hallows)
    simp only [hread, hself, if_false]
    exact List.mem_filterMap.mpr ⟨raw, hraw, hreads⟩

end Parsing

/-- A response gives at most as many peers and addresses as the policy says, never the node itself, and
each address ends with its peer. No IP component denotes an address that the policy forbids just if no
address that passes the check has a forbidden IPv4 address in an IPv4-mapped component. -/
theorem parseResponse_honours_policy (fmt : AddressFormat) (policy : PexPolicy) (resp : PexResponse)
    (selfPeer : PeerId) :
    let entries := parseResponse fmt policy resp selfPeer
    entries.length ≤ policy.maxPeersPerResponse ∧
      (∀ entry ∈ entries, entry.1 ≠ selfPeer ∧ 1 ≤ entry.2.length ∧
        entry.2.length ≤ policy.maxAddrsPerPeer ∧ ∀ addr ∈ entry.2, addr.getLast? = some (.p2p entry.1)) ∧
      ((∀ entry ∈ entries, ∀ addr ∈ entry.2, ∀ ip ∈ addr.ips, policy.Permits ip.denotes) ↔
        ∀ addr ∈ readAddrs fmt policy resp selfPeer, policy.allows addr = true →
          ∀ ip ∈ addr.mappedIps, policy.Permits (.v4 ip)) := by
  refine ⟨(List.length_filterMap_le _ _).trans (List.length_take_le _ _), ?_, ?_⟩
  · intro entry hentry
    obtain ⟨peer, _, hpeer⟩ := List.mem_filterMap.mp hentry
    obtain ⟨-, hself, hne, hkept⟩ := parsePeer_eq_some.mp hpeer
    refine ⟨hself, List.length_pos_iff.mpr hne, ?_, fun addr haddr => ?_⟩
    · rw [hkept]
      exact (List.length_filterMap_le _ _).trans (List.length_take_le _ _)
    · rw [hkept] at haddr
      obtain ⟨raw, _, hraw⟩ := List.mem_filterMap.mp haddr
      obtain ⟨read, -, -, rfl⟩ := parseAddr_eq_some.mp hraw
      exact getLast?_normalizeP2pComponent _ _
  · rw [forall_mem_parseResponse fun addr peer => by rw [ips_normalizeP2pComponent]]
    exact forall₃_congr fun addr _ hallows => permits_denotes_iff hallows

/-- `::ffff:127.0.0.1` -/
def mappedLoopback : Ipv6Addr := ⟨0, 0, 0, 0, 0, 0xffff, 0x7f00, 1⟩

def sampleFormat : AddressFormat where
  readPeer text := if text = "peer" then some ⟨[1]⟩ else none
  showPeer _ := "peer"
  readAddr text := if text = "/ip6/::ffff:127.0.0.1" then some [.ip6 mappedLoopback] else none
  showAddr _ := ""

/-- The default policy forbids loopback addresses, and lets an IPv4-mapped one pass. -/
theorem mapped_loopback_accepted :
    parseResponse sampleFormat .default ⟨[⟨"peer", ["/ip6/::ffff:127.0.0.1"]⟩]⟩ ⟨[0]⟩ =
        [(⟨[1]⟩, [[.ip6 mappedLoopback, .p2p ⟨[1]⟩]])] ∧
      (IpAddr.v6 mappedLoopback).denotes = .v4 ⟨127, 0, 0, 1⟩ ∧
      ¬ PexPolicy.default.Permits (IpAddr.v6 mappedLoopback).denotes := by
  refine ⟨by decide +kernel, by decide +kernel, ?_⟩
  rw [PexPolicy.permits_iff]
  decide +kernel

section Keeping

variable {fmt : AddressFormat} {policy : PexPolicy}

variable {limit : Nat} {selfPeer requester peer : PeerId}

end Keeping

end Onvm
