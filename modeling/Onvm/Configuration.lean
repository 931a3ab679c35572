import Onvm.TomlTables
import Onvm.IdParsing

/-! The configuration of a node in `config/mod.rs`: how it is written as a TOML value, and how a file is
read over the defaults. A `usize` has 64 bits. -/

namespace Onvm.Config

open ByteString Toml

structure GenesisConfig where
  stateRoot : Option Bytes32
deriving DecidableEq

structure PexConfig where
  enable : Bool
  requestIntervalSecs : UInt64
  targetPeers : UInt64
  wantPeers : UInt64
  maxPeersShared : UInt64
  maxAddrsPerPeer : UInt64
  allowPrivateAddrs : Bool
  allowLoopbackAddrs : Bool
deriving DecidableEq

structure KeepAliveConfig where
  enable : Bool
  pingIntervalSecs : UInt64
  pingTimeoutSecs : UInt64
  maxFailures : UInt32
deriving DecidableEq

structure MemoryThrottleConfig where
  enable : Bool
  minAvailableMb : UInt64
  maxTotalConnectionsUnderPressure : UInt64
deriving DecidableEq

structure NetworkConfig where
  minPeers : UInt64
  bootnodes : List String
  enableMdns : Bool
  requireEncryption : Bool
  maxInboundConnections : UInt64
  maxInboundStreams : UInt64
  maxGossipBytes : UInt64
  maxTotalConnections : UInt64
  maxConnectionsPerPeer : UInt64
  pex : PexConfig
  keepAlive : KeepAliveConfig
  memoryThrottle : MemoryThrottleConfig
deriving DecidableEq

structure RpcAuthConfig where
  enable : Bool
  projectId : String
  secretPath : Option String
  secondarySecretPath : Option String
  skewMs : UInt64
  nonceTtlMs : UInt64
  nonceCapacity : UInt64
  allowedMethods : List String
  rateLimitPerMinute : UInt64
deriving DecidableEq

structure OnvmConfig where
  genesis : GenesisConfig
  network : NetworkConfig
  rpcAuth : RpcAuthConfig
deriving DecidableEq

def OnvmConfig.default : OnvmConfig where
  genesis := { stateRoot := none }
  network :=
    { minPeers := 1
      bootnodes := []
      enableMdns := false
      requireEncryption := true
      maxInboundConnections := 200
      maxInboundStreams := 64
      maxGossipBytes := 256 * 1024
      maxTotalConnections := 256
      maxConnectionsPerPeer := 2
      pex :=
        { enable := true
          requestIntervalSecs := 20
          targetPeers := 24
          wantPeers := 32
          maxPeersShared := 128
          maxAddrsPerPeer := 8
          allowPrivateAddrs := true
          allowLoopbackAddrs := false }
      keepAlive := { enable := true, pingIntervalSecs := 15, pingTimeoutSecs := 10, maxFailures := 3 }
      memoryThrottle := { enable := true, minAvailableMb := 512, maxTotalConnectionsUnderPressure := 64 } }
  rpcAuth :=
    { enable := false
      projectId := "default-project"
      secretPath := none
      secondarySecretPath := none
      skewMs := 5 * 60 * 1000
      nonceTtlMs := 10 * 60 * 1000
      nonceCapacity := 10000
      allowedMethods := []
      rateLimitPerMinute := 0 }

/-- `as i64`, which keeps the bits. -/
def ofU64 (x : UInt64) : Value := .integer x.toInt64

def ofU32 (x : UInt32) : Value := .integer x.toUInt64.toInt64

def ofTexts (texts : List String) : Value := .array (texts.map .string)

def ofOption (text : Option String) : Value := .string (text.getD "")

def GenesisConfig.entries (g : GenesisConfig) : List (String × Value) :=
  [("state_root", ofOption (g.stateRoot.map fun r => hexEncode r.bytes))]

def PexConfig.entries (p : PexConfig) : List (String × Value) :=
  [("enable", .boolean p.enable),
    ("request_interval_secs", ofU64 p.requestIntervalSecs),
    ("target_peers", ofU64 p.targetPeers),
    ("want_peers", ofU64 p.wantPeers),
    ("max_peers_shared", ofU64 p.maxPeersShared),
    ("max_addrs_per_peer", ofU64 p.maxAddrsPerPeer),
    ("allow_private_addrs", .boolean p.allowPrivateAddrs),
    ("allow_loopback_addrs", .boolean p.allowLoopbackAddrs)]

def KeepAliveConfig.entries (k : KeepAliveConfig) : List (String × Value) :=
  [("enable", .boolean k.enable),
    ("ping_interval_secs", ofU64 k.pingIntervalSecs),
    ("ping_timeout_secs", ofU64 k.pingTimeoutSecs),
    ("max_failures", ofU32 k.maxFailures)]

def MemoryThrottleConfig.entries (m : MemoryThrottleConfig) : List (String × Value) :=
  [("enable", .boolean m.enable),
    ("min_available_mb", ofU64 m.minAvailableMb),
    ("max_total_connections_under_pressure", ofU64 m.maxTotalConnectionsUnderPressure)]

def NetworkConfig.entries (n : NetworkConfig) : List (String × Value) :=
  [("min_peers", ofU64 n.minPeers),
    ("bootnodes", ofTexts n.bootnodes),
    ("enable_mdns", .boolean n.enableMdns),
    ("require_encryption", .boolean n.requireEncryption),
    ("max_inbound_connections", ofU64 n.maxInboundConnections),
    ("max_inbound_streams", ofU64 n.maxInboundStreams),
    ("max_gossip_bytes", ofU64 n.maxGossipBytes),
    ("max_total_connections", ofU64 n.maxTotalConnections),
    ("max_connections_per_peer", ofU64 n.maxConnectionsPerPeer),
    ("pex", tableOf n.pex.entries),
    ("keep_alive", tableOf n.keepAlive.entries),
    ("memory_throttle", tableOf n.memoryThrottle.entries)]

def RpcAuthConfig.entries (a : RpcAuthConfig) : List (String × Value) :=
  [("enable_rpc_auth", .boolean a.enable),
    ("project_id", .string a.projectId),
    ("secret_path", ofOption a.secretPath),
    ("secondary_secret_path", ofOption a.secondarySecretPath),
    ("skew_ms", ofU64 a.skewMs),
    ("nonce_ttl_ms", ofU64 a.nonceTtlMs),
    ("nonce_capacity", ofU64 a.nonceCapacity),
    ("allowed_methods", ofTexts a.allowedMethods),
    ("rate_limit_per_minute", ofU64 a.rateLimitPerMinute)]

def OnvmConfig.toToml (cfg : OnvmConfig) : Value :=
  tableOf [("genesis", tableOf cfg.genesis.entries), ("network", tableOf cfg.network.entries),
    ("rpc_auth", tableOf cfg.rpcAuth.entries)]

section Fields

variable (t : Value) (key : String)

def readU64 (current : UInt64) : UInt64 := ((t.read Value.asInteger key).map Int64.toUInt64).getD current

def readU32 (current : UInt32) : UInt32 :=
  ((t.read Value.asInteger key).map fun i => i.toUInt64.toUInt32).getD current

def readBool (current : Bool) : Bool := (t.read Value.asBool key).getD current

def readTexts (current : List String) : List String :=
  ((t.read Value.asArray key).map fun values => values.filterMap Value.asStr).getD current

def readText : Option String := (t.read Value.asStr key).filter fun s => !s.isEmpty

end Fields

def GenesisConfig.update (g : GenesisConfig) (t : Value) : GenesisConfig :=
  match (readText t "state_root").bind fun root => decodeHex root.toList with
  | some bytes => if h : bytes.length = 32 then { stateRoot := some ⟨bytes, h⟩ } else g
  | none => g

def PexConfig.update (p : PexConfig) (t : Value) : PexConfig where
  enable := readBool t "enable" p.enable
  requestIntervalSecs := readU64 t "request_interval_secs" p.requestIntervalSecs
  targetPeers := readU64 t "target_peers" p.targetPeers
  wantPeers := readU64 t "want_peers" p.wantPeers
  maxPeersShared := readU64 t "max_peers_shared" p.maxPeersShared
  maxAddrsPerPeer := readU64 t "max_addrs_per_peer" p.maxAddrsPerPeer
  allowPrivateAddrs := readBool t "allow_private_addrs" p.allowPrivateAddrs
  allowLoopbackAddrs := readBool t "allow_loopback_addrs" p.allowLoopbackAddrs

def KeepAliveConfig.update (k : KeepAliveConfig) (t : Value) : KeepAliveConfig where
  enable := readBool t "enable" k.enable
  pingIntervalSecs := readU64 t "ping_interval_secs" k.pingIntervalSecs
  pingTimeoutSecs := readU64 t "ping_timeout_secs" k.pingTimeoutSecs
  maxFailures := readU32 t "max_failures" k.maxFailures

def MemoryThrottleConfig.update (m : MemoryThrottleConfig) (t : Value) : MemoryThrottleConfig where
  enable := readBool t "enable" m.enable
  minAvailableMb := readU64 t "min_available_mb" m.minAvailableMb
  maxTotalConnectionsUnderPressure :=
    readU64 t "max_total_connections_under_pressure" m.maxTotalConnectionsUnderPressure

def NetworkConfig.update (n : NetworkConfig) (t : Value) : NetworkConfig where
  minPeers := readU64 t "min_peers" n.minPeers
  bootnodes := readTexts t "bootnodes" n.bootnodes
  enableMdns := readBool t "enable_mdns" n.enableMdns
  requireEncryption := readBool t "require_encryption" n.requireEncryption
  maxInboundConnections := readU64 t "max_inbound_connections" n.maxInboundConnections
  maxInboundStreams := readU64 t "max_inbound_streams" n.maxInboundStreams
  maxGossipBytes := readU64 t "max_gossip_bytes" n.maxGossipBytes
  maxTotalConnections := readU64 t "max_total_connections" n.maxTotalConnections
  maxConnectionsPerPeer := readU64 t "max_connections_per_peer" n.maxConnectionsPerPeer
  pex := (t.get "pex").elim n.pex n.pex.update
  keepAlive := (t.get "keep_alive").elim n.keepAlive n.keepAlive.update
  memoryThrottle := (t.get "memory_throttle").elim n.memoryThrottle n.memoryThrottle.update

def RpcAuthConfig.update (a : RpcAuthConfig) (t : Value) : RpcAuthConfig where
  enable := readBool t "enable_rpc_auth" a.enable
  projectId := (readText t "project_id").getD a.projectId
  secretPath := (readText t "secret_path").or a.secretPath
  secondarySecretPath := (readText t "secondary_secret_path").or a.secondarySecretPath
  skewMs := readU64 t "skew_ms" a.skewMs
  nonceTtlMs := readU64 t "nonce_ttl_ms" a.nonceTtlMs
  nonceCapacity := readU64 t "nonce_capacity" a.nonceCapacity
  allowedMethods := readTexts t "allowed_methods" a.allowedMethods
  rateLimitPerMinute := readU64 t "rate_limit_per_minute" a.rateLimitPerMinute

def OnvmConfig.ofToml (value : Value) : OnvmConfig where
  genesis := (value.get "genesis").elim OnvmConfig.default.genesis OnvmConfig.default.genesis.update
  network := OnvmConfig.default.network.update ((value.get "network").getD (.table []))
  rpcAuth := OnvmConfig.default.rpcAuth.update ((value.get "rpc_auth").getD (.table []))

/-- The content of the file, if it can be read, goes through `toml::from_str`. -/
def OnvmConfig.fromFile {Text ε : Type} (parse : Text → Except ε Value) (content : Except ε Text) :
    Except ε OnvmConfig :=
  (content.bind parse).map OnvmConfig.ofToml

section Fields

variable {t : Value} {key : String}

theorem readU64_of {x : UInt64} (h : t.get key = some (ofU64 x)) (current : UInt64) :
    readU64 t key current = x := by
  rw [readU64, Value.read, h]
  exact UInt64.toUInt64_toInt64 x

theorem readU32_of {x : UInt32} (h : t.get key = some (ofU32 x)) (current : UInt32) :
    readU32 t key current = x := by
  rw [readU32, Value.read, h]
  change x.toUInt64.toInt64.toUInt64.toUInt32 = x
  rw [UInt64.toUInt64_toInt64, UInt32.toUInt32_toUInt64]

theorem readBool_of {b : Bool} (h : t.get key = some (.boolean b)) (current : Bool) :
    readBool t key current = b := by
  rw [readBool, Value.read, h]
  rfl

theorem readTexts_of {texts : List String} (h : t.get key = some (ofTexts texts)) (current : List String) :
    readTexts t key current = texts := by
  rw [readTexts, Value.read, h]
  change (texts.map Value.string).filterMap Value.asStr = texts
  rw [List.filterMap_map]
  exact List.filterMap_some

theorem readText_of {s : String} (h : t.get key = some (.string s)) :
    readText t key = if s = "" then none else some s := by
  rw [readText, Value.read, h]
  by_cases hs : s = ""
  · subst hs
    rfl
  · have hne : s.isEmpty = false := Bool.eq_false_iff.mpr fun he => hs (String.isEmpty_iff.mp he)
    rw [if_neg hs]
    exact Option.filter_some_pos (by rw [hne]; rfl)

theorem readText_of_option {o : Option String} (h : t.get key = some (ofOption o)) :
    readText t key = o.filter fun s => s ≠ "" := by
  rw [readText_of h]
  cases o with
  | none => rfl
  | some s => by_cases hs : s = "" <;> simp [hs, Option.filter_some]

end Fields

theorem GenesisConfig.update_entries (g : GenesisConfig) :
    OnvmConfig.default.genesis.update (tableOf g.entries) = g := by
  have hget : ∀ key, (tableOf g.entries).get key = g.entries.lookup key := get_tableOf (by simp [entries])
  obtain ⟨root⟩ := g
  rw [update, readText_of_option (hget _)]
  cases root with
  | none => rfl
  | some root =>
    have hdecode : decodeHex (hexEncode root.bytes).toList = some root.bytes := by
      rw [decodeHex_eq_hexDecode, hexDecode_hexEncode]
    have hne : hexEncode root.bytes ≠ "" := by
      intro hempty
      rw [hempty] at hdecode
      have hnil : root.bytes = [] := (Option.some.inj hdecode).symm
      have hlen := root.length_bytes
      rw [hnil] at hlen
      cases hlen
    have hfilter : ((some root).map fun r => hexEncode r.bytes).filter (fun s => s ≠ "") =
        some (hexEncode root.bytes) := Option.filter_some_pos (decide_eq_true hne)
    rw [hfilter, Option.bind_some, hdecode]
    exact dif_pos root.length_bytes

theorem PexConfig.update_entries (p d : PexConfig) : d.update (tableOf p.entries) = p := by
  have hget : ∀ key, (tableOf p.entries).get key = p.entries.lookup key := get_tableOf (by simp [entries])
  cases p
  simp only [update, mk.injEq]
  exact ⟨readBool_of (hget _) _, readU64_of (hget _) _, readU64_of (hget _) _, readU64_of (hget _) _,
    readU64_of (hget _) _, readU64_of (hget _) _, readBool_of (hget _) _, readBool_of (hget _) _⟩

theorem KeepAliveConfig.update_entries (k d : KeepAliveConfig) : d.update (tableOf k.entries) = k := by
  have hget : ∀ key, (tableOf k.entries).get key = k.entries.lookup key := get_tableOf (by simp [entries])
  cases k
  simp only [update, mk.injEq]
  exact ⟨readBool_of (hget _) _, readU64_of (hget _) _, readU64_of (hget _) _, readU32_of (hget _) _⟩

theorem MemoryThrottleConfig.update_entries (m d : MemoryThrottleConfig) :
    d.update (tableOf m.entries) = m := by
  have hget : ∀ key, (tableOf m.entries).get key = m.entries.lookup key := get_tableOf (by simp [entries])
  cases m
  simp only [update, mk.injEq]
  exact ⟨readBool_of (hget _) _, readU64_of (hget _) _, readU64_of (hget _) _⟩

theorem NetworkConfig.update_entries (n d : NetworkConfig) : d.update (tableOf n.entries) = n := by
  have hget : ∀ key, (tableOf n.entries).get key = n.entries.lookup key := get_tableOf (by simp [entries])
  have hpex : (tableOf n.entries).get "pex" = some (tableOf n.pex.entries) := hget _
  have hkeep : (tableOf n.entries).get "keep_alive" = some (tableOf n.keepAlive.entries) := hget _
  have hmemory : (tableOf n.entries).get "memory_throttle" = some (tableOf n.memoryThrottle.entries) :=
    hget _
  cases n
  simp only [update, mk.injEq, hpex, hkeep, hmemory, Option.elim_some]
  exact ⟨readU64_of (hget _) _, readTexts_of (hget _) _, readBool_of (hget _) _, readBool_of (hget _) _,
    readU64_of (hget _) _, readU64_of (hget _) _, readU64_of (hget _) _, readU64_of (hget _) _,
    readU64_of (hget _) _, PexConfig.update_entries _ _, KeepAliveConfig.update_entries _ _,
    MemoryThrottleConfig.update_entries _ _⟩

def RpcAuthConfig.normalized (a d : RpcAuthConfig) : RpcAuthConfig :=
  { a with
    projectId := if a.projectId = "" then d.projectId else a.projectId
    secretPath := (a.secretPath.filter fun s => s ≠ "").or d.secretPath
    secondarySecretPath := (a.secondarySecretPath.filter fun s => s ≠ "").or d.secondarySecretPath }

theorem RpcAuthConfig.update_entries (a d : RpcAuthConfig) :
    d.update (tableOf a.entries) = a.normalized d := by
  have hget : ∀ key, (tableOf a.entries).get key = a.entries.lookup key := get_tableOf (by simp [entries])
  have hproject : (readText (tableOf a.entries) "project_id").getD d.projectId =
      if a.projectId = "" then d.projectId else a.projectId := by
    rw [readText_of (hget _)]
    split_ifs <;> rfl
  have hsecret := readText_of_option (hget "secret_path")
  have hsecondary := readText_of_option (hget "secondary_secret_path")
  cases a
  simp only [update, normalized, mk.injEq, hproject, hsecret, hsecondary]
  exact ⟨readBool_of (hget _) _, trivial, trivial, trivial, readU64_of (hget _) _, readU64_of (hget _) _,
    readU64_of (hget _) _, readTexts_of (hget _) _, readU64_of (hget _) _⟩

theorem OnvmConfig.ofToml_toToml (cfg : OnvmConfig) :
    OnvmConfig.ofToml cfg.toToml =
      { cfg with rpcAuth := cfg.rpcAuth.normalized OnvmConfig.default.rpcAuth } := by
  have hget : ∀ key, cfg.toToml.get key = [("genesis", tableOf cfg.genesis.entries),
      ("network", tableOf cfg.network.entries), ("rpc_auth", tableOf cfg.rpcAuth.entries)].lookup key :=
    get_tableOf (by simp)
  have hgenesis : cfg.toToml.get "genesis" = some (tableOf cfg.genesis.entries) := hget _
  have hnetwork : cfg.toToml.get "network" = some (tableOf cfg.network.entries) := hget _
  have hauth : cfg.toToml.get "rpc_auth" = some (tableOf cfg.rpcAuth.entries) := hget _
  rw [OnvmConfig.ofToml, hgenesis, hnetwork, hauth, Option.elim_some, Option.getD_some, Option.getD_some,
    GenesisConfig.update_entries, NetworkConfig.update_entries, RpcAuthConfig.update_entries]

theorem RpcAuthConfig.normalized_eq_self {a : RpcAuthConfig} (hproject : a.projectId ≠ "")
    (hsecret : a.secretPath ≠ some "") (hsecondary : a.secondarySecretPath ≠ some "") :
    a.normalized OnvmConfig.default.rpcAuth = a := by
  have hfilter : ∀ {o : Option String}, o ≠ some "" → (o.filter fun s => s ≠ "").or none = o := by
    intro o ho
    cases o with
    | none => rfl
    | some s =>
      have hs : s ≠ "" := fun h => ho (congrArg some h)
      simp [hs]
  rw [normalized, if_neg hproject]
  change { a with
    secretPath := (a.secretPath.filter fun s => s ≠ "").or none
    secondarySecretPath := (a.secondarySecretPath.filter fun s => s ≠ "").or none } = a
  rw [hfilter hsecret, hfilter hsecondary]

end Onvm.Config

namespace Onvm

open Config

/-- A configuration with a project id, and without empty secret paths, is read back as it was written. -/
theorem config_round_trip {Text ε : Type} (print : Toml.Value → Text) (parse : Text → Except ε Toml.Value)
    (cfg : OnvmConfig) (hparse : parse (print cfg.toToml) = .ok cfg.toToml)
    (hproject : cfg.rpcAuth.projectId ≠ "") (hsecret : cfg.rpcAuth.secretPath ≠ some "")
    (hsecondary : cfg.rpcAuth.secondarySecretPath ≠ some "") :
    OnvmConfig.fromFile parse (.ok (print cfg.toToml)) = .ok cfg := by
  have hvalue : OnvmConfig.ofToml cfg.toToml = cfg := by
    rw [OnvmConfig.ofToml_toToml, RpcAuthConfig.normalized_eq_self hproject hsecret hsecondary]
  calc OnvmConfig.fromFile parse (.ok (print cfg.toToml))
      = (parse (print cfg.toToml)).map OnvmConfig.ofToml := rfl
    _ = .ok (OnvmConfig.ofToml cfg.toToml) := by rw [hparse]; rfl
    _ = .ok cfg := by rw [hvalue]

def sampleConfig : OnvmConfig :=
  { OnvmConfig.default with
    genesis := { stateRoot := some (.ofByte 32 7) }
    network := { OnvmConfig.default.network with minPeers := 2 ^ 64 - 1, bootnodes := ["a", "b"] }
    rpcAuth := { OnvmConfig.default.rpcAuth with secretPath := some "key" } }

theorem config_round_trip_sample :
    (OnvmConfig.fromFile .ok (.ok sampleConfig.toToml) : Except String OnvmConfig) = .ok sampleConfig :=
  config_round_trip id .ok sampleConfig rfl (by decide) (by decide) (by decide)

end Onvm
