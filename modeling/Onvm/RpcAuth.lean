import Onvm.Interleaving
import Onvm.Runs
import Onvm.LossyUtf8
import Onvm.HostApis

/-! The signed requests of `rpc/auth.rs`: the canonical text that is signed, the nonce
cache, the rate limiter, and `verify_signed_request` as a process that is cut where it
waits for a lock or for the body of the request. -/

namespace Onvm

open ByteString OrderedStore Interleaving LossyUtf8 Std

section Text

def decimalNat (n : Nat) : Bytes :=
  if n = 0 then [48] else (Nat.digits 10 n).reverse.map fun d => UInt8.ofNat (48 + d)

/-- How an `i64` is printed. -/
def decimal (z : Int) : Bytes := if z < 0 then 45 :: decimalNat z.natAbs else decimalNat z.toNat

def digitsValue : (acc : Nat) → Bytes → Option Nat
  | acc, [] => some acc
  | acc, d :: ds => if 48 ≤ d ∧ d ≤ 57 then digitsValue (acc * 10 + (d.toNat - 48)) ds else none

/-- How an `i64` is parsed: an optional sign, then at least one digit. -/
def parseI64 : Bytes → Option Int
  | [] => none
  | c :: cs =>
    let digits := if c = 43 ∨ c = 45 then cs else c :: cs
    if digits.isEmpty then none
    else
      (digitsValue 0 digits).bind fun n =>
        if c = 45 then if n ≤ 2 ^ 63 then some (-(n : Int)) else none
        else if n < 2 ^ 63 then some (n : Int) else none

def canonical (method path : Bytes) (timestamp : Int) (nonce body : Bytes) : Bytes :=
  method ++ 32 :: (path ++ 10 :: (decimal timestamp ++ 10 :: (nonce ++ 10 :: lossy body)))

/-- A header value that `to_str` accepts. -/
def headerText (value : Option Bytes) : Option Bytes :=
  value.filter fun text => text.all fun b => (32 ≤ b && b < 127) || b == 9

def toAsciiUppercase (text : Bytes) : Bytes := text.map fun b => if 97 ≤ b ∧ b ≤ 122 then b - 32 else b

end Text

/-- Time is counted in nanoseconds, on the wall clock and on the monotone clock alike. -/
structure NonceCache where
  entries : ByteTree Nat
  order : List Bytes
  capacity : Nat
  ttl : Nat

namespace NonceCache

def new (capacity ttl : Nat) : NonceCache := ⟨∅, [], capacity, ttl⟩

/-- The loop of `evict`. -/
def evictLoop (ttl now : Nat) (entries : ByteTree Nat) : List Bytes → ByteTree Nat × List Bytes
  | [] => (entries, [])
  | front :: order =>
    let stale := match entries[front]? with
      | some at' => decide (ttl < now - at')
      | none => true
    if stale then evictLoop ttl now (entries.erase front) order else (entries, front :: order)

variable (c : NonceCache)

def evict (now : Nat) : NonceCache :=
  let (entries, order) := evictLoop c.ttl now c.entries c.order
  { c with entries := entries, order := order }

def makeRoom : NonceCache :=
  if c.capacity ≤ c.entries.size then
    match c.order with
    | [] => c
    | oldest :: order => { c with entries := c.entries.erase oldest, order := order }
  else c

def checkAndInsert (nonce : Bytes) (now : Nat) : NonceCache × Bool :=
  let c := c.evict now
  if c.entries.contains nonce then (c, false)
  else
    let c := c.makeRoom
    ({ c with entries := c.entries.insert nonce now, order := c.order ++ [nonce] }, true)

end NonceCache

structure TokenBucket where
  tokens : Float
  capacity : Float
  lastRefill : Nat
  refillPerSec : Float

namespace TokenBucket

def asSecs (nanos : Nat) : Float :=
  Float.ofNat (nanos / 1000000000) + Float.ofNat (nanos % 1000000000) / 1000000000.0

def tryConsume (b : TokenBucket) (amount : Float) (now : Nat) : TokenBucket × Bool :=
  let filled := b.tokens + asSecs (now - b.lastRefill) * b.refillPerSec
  let tokens := if b.capacity < filled then b.capacity else filled
  if amount ≤ tokens then ({ b with tokens := tokens - amount, lastRefill := now }, true)
  else ({ b with tokens := tokens, lastRefill := now }, false)

end TokenBucket

structure AuthConfig where
  skew : Nat
  nonceTtl : Nat
  nonceCapacity : Nat
  allowedMethods : List Bytes

/-- The parts of a request that are checked: its head, and its body if it can be read. -/
structure HttpRequest where
  method : Bytes
  path : Bytes
  projectId : Option Bytes
  timestamp : Option Bytes
  nonce : Option Bytes
  signature : Option Bytes
  body : Option Bytes

structure SignedRequest where
  projectId : Bytes
  method : Bytes
  path : Bytes
  timestamp : Int
  nonce : Bytes
  signature : Bytes
  body : Option Bytes
deriving DecidableEq

/-- A request in `verify_signed_request`, at the point it has come to. -/
inductive AuthProcess
  | received (req : HttpRequest)
  | identified (req : HttpRequest) (projectId : Bytes) (signingKey : Bytes32)
  | timely (req : SignedRequest) (signingKey : Bytes32) (checkedAt : Nat)
  | fresh (req : SignedRequest) (signingKey : Bytes32)
  | authentic (req : SignedRequest)
  | passed (req : SignedRequest)
  | rejected (status : Nat)

/-- The state of the middleware and the clock. The last two fields are history: the requests whose
nonce was accepted, with the time, and the requests given to the handler. -/
structure AuthNode where
  config : AuthConfig
  keys : ByteTree Bytes32
  replayCache : NonceCache
  rateLimiter : Option TokenBucket
  time : Nat
  admitted : List (SignedRequest × Nat)
  handled : List SignedRequest

def AuthNode.fresh (config : AuthConfig) (keys : ByteTree Bytes32) (limiter : Option TokenBucket)
    (time : Nat) : AuthNode :=
  ⟨config, keys, .new config.nonceCapacity config.nonceTtl, limiter, time, [], []⟩

section Turns

variable (mac : Bytes32 → Bytes → Bytes) (s : AuthNode)

def nanosPerMilli : Nat := 1000000

/-- `now_millis`; the cast to `i64` loses nothing for 292 million years. -/
def nowMillis : Int := ((s.time / nanosPerMilli : Nat) : Int)

def identify (req : HttpRequest) : AuthProcess :=
  if s.config.allowedMethods ≠ [] ∧ toAsciiUppercase req.method ∉ s.config.allowedMethods then .rejected 405
  else
    match headerText req.projectId with
    | none => .rejected 401
    | some projectId =>
      match s.keys[projectId]? with
      | none => .rejected 401
      | some key => .identified req projectId key

def skewExceeded (timestamp : Int) : Bool :=
  s.config.skew / nanosPerMilli < (nowMillis s - timestamp).natAbs

def checkTime (req : HttpRequest) (projectId : Bytes) (key : Bytes32) : AuthProcess :=
  match (headerText req.timestamp).bind parseI64, headerText req.nonce,
      (headerText req.signature).bind hexDecodeBytes with
  | some timestamp, some nonce, some signature =>
    if skewExceeded s timestamp then .rejected 401
    else .timely ⟨projectId, req.method, req.path, timestamp, nonce, signature, req.body⟩ key s.time
  | _, _, _ => .rejected 401

def checkNonce (req : SignedRequest) (key : Bytes32) : AuthNode × AuthProcess :=
  match s.replayCache.checkAndInsert req.nonce s.time with
  | (cache, false) => ({ s with replayCache := cache }, .rejected 401)
  | (cache, true) =>
    ({ s with replayCache := cache, admitted := s.admitted ++ [(req, s.time)] }, .fresh req key)

def checkSignature (req : SignedRequest) (key : Bytes32) : AuthProcess :=
  match req.body with
  | none => .rejected 400
  | some body =>
    if mac key (canonical req.method req.path req.timestamp req.nonce body) = req.signature then
      .authentic req
    else .rejected 401

def checkRate (req : SignedRequest) : AuthNode × AuthProcess :=
  match s.rateLimiter.map fun b => b.tryConsume 1.0 s.time with
  | none => ({ s with handled := s.handled ++ [req] }, .passed req)
  | some (bucket, true) =>
    ({ s with rateLimiter := some bucket, handled := s.handled ++ [req] }, .passed req)
  | some (bucket, false) => ({ s with rateLimiter := some bucket }, .rejected 429)

def AuthProcess.act : AuthProcess → AuthNode × AuthProcess
  | .received req => (s, identify s req)
  | .identified req projectId key => (s, checkTime s req projectId key)
  | .timely req key _ => checkNonce s req key
  | .fresh req key => (s, checkSignature mac req key)
  | .authentic req => checkRate s req
  | .passed req => (s, .passed req)
  | .rejected status => (s, .rejected status)

def AuthProcess.turn (p : AuthProcess) (_ : Unit) : Interleaving.Turn AuthNode AuthProcess :=
  let (t, q) := p.act mac s
  ⟨t, q, []⟩

end Turns

abbrev AuthSystem := System AuthNode AuthProcess

inductive AuthOp
  | receive (req : HttpRequest)
  | turn (n : Nat)
  | elapse (nanos : Nat)
  | upsertProject (projectId : Bytes) (signingKey : Bytes32)

def authStep (mac : Bytes32 → Bytes → Bytes) (s : AuthSystem) : AuthOp → Option AuthSystem
  | .receive req => some (s.spawn (.received req))
  | .turn n => s.turn (fun sh p i => p.turn mac sh i) n ()
  | .elapse nanos => some { s with shared := { s.shared with time := s.shared.time + nanos } }
  | .upsertProject projectId key =>
    some { s with shared := { s.shared with keys := s.shared.keys.insert projectId key } }

end Onvm
