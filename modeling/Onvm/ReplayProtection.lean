import Onvm.RpcAuth

/-! Replays. A nonce stays in the cache for its time to live as long as no nonce has to
make room for another; if that covers the window in which a timestamp is accepted, the
rounding of the clock and the wait for the lock, a signed request passes once. -/

namespace Onvm

open ByteString OrderedStore Interleaving Runs Std

namespace NonceCache

variable {c : NonceCache} {ttl now inserted : Nat} {nonce nonce' : Bytes}

theorem getElem?_evictLoop {entries : ByteTree Nat} {order : List Bytes}
    (h : entries[nonce]? = some inserted) (hlive : now ≤ inserted + ttl) :
    (evictLoop ttl now entries order).1[nonce]? = some inserted := by
  induction order generalizing entries with
  | nil => exact h
  | cons front order ih =>
    have herase : front ≠ nonce → (entries.erase front)[nonce]? = some inserted := by
      intro hf
      have hne : compare front nonce ≠ .eq := fun hc => hf (Std.LawfulEqOrd.eq_of_compare hc)
      rw [ExtTreeMap.getElem?_erase, if_neg hne]
      exact h
    cases he : entries[front]? with
    | none =>
      have hf : front ≠ nonce := by
        rintro rfl
        rw [h] at he
        cases he
      simp only [evictLoop, he, if_true]
      exact ih (herase hf)
    | some since =>
      by_cases hstale : ttl < now - since
      · have hf : front ≠ nonce := by
          rintro rfl
          obtain rfl : inserted = since := Option.some.inj (h.symm.trans he)
          omega
        simp only [evictLoop, he, hstale, decide_true, if_true]
        exact ih (herase hf)
      · simp only [evictLoop, he, hstale, decide_false, Bool.false_eq_true, if_false]
        exact h

theorem getElem?_evict (h : c.entries[nonce]? = some inserted) (hlive : now ≤ inserted + c.ttl) :
    (c.evict now).entries[nonce]? = some inserted :=
  getElem?_evictLoop h hlive

def HasRoom (c : NonceCache) (nonce : Bytes) (now : Nat) : Prop :=
  (c.evict now).entries.contains nonce = true ∨ (c.evict now).entries.size < c.capacity

theorem checkAndInsert_of_contains (h : (c.evict now).entries.contains nonce = true) :
    c.checkAndInsert nonce now = (c.evict now, false) := by
  simp only [checkAndInsert, h, if_true]

theorem checkAndInsert_of_new (hroom : c.HasRoom nonce now)
    (h : (c.evict now).entries.contains nonce = false) :
    c.checkAndInsert nonce now =
      ({ c.evict now with
          entries := (c.evict now).entries.insert nonce now
          order := (c.evict now).order ++ [nonce] }, true) := by
  have hlt : (c.evict now).entries.size < (c.evict now).capacity := hroom.resolve_left (by simp [h])
  have hsame : (c.evict now).makeRoom = c.evict now := by
    rw [makeRoom, if_neg (Nat.not_le.mpr hlt)]
  simp only [checkAndInsert, h, hsame, Bool.false_eq_true, if_false]

end NonceCache

def SignedRequest.Same (a b : SignedRequest) : Prop := a.nonce = b.nonce ∧ a.timestamp = b.timestamp

instance (a b : SignedRequest) : Decidable (a.Same b) := inferInstanceAs (Decidable (_ ∧ _))

def AuthConfig.skewMillis (cfg : AuthConfig) : Nat := cfg.skew / nanosPerMilli

/-- What holds of the requests whose nonce was accepted. -/
structure AuthNode.Guarded (cfg : AuthConfig) (s : AuthNode) : Prop where
  config : s.config = cfg
  ttl : s.replayCache.ttl = cfg.nonceTtl
  past : ∀ e ∈ s.admitted, e.2 ≤ s.time
  window : ∀ e ∈ s.admitted, (e.1.timestamp - cfg.skewMillis) * nanosPerMilli ≤ e.2
  cached : ∀ e ∈ s.admitted, s.time ≤ e.2 + cfg.nonceTtl →
    s.replayCache.entries[e.1.nonce]? = some e.2
  distinct : s.admitted.Pairwise fun a b => ¬ a.1.Same b.1

def AuthProcess.InTime (cfg : AuthConfig) (s : AuthNode) : AuthProcess → Prop
  | .timely req _ checkedAt =>
    checkedAt ≤ s.time ∧
      (((checkedAt / nanosPerMilli : Nat) : Int) - req.timestamp).natAbs ≤ cfg.skewMillis
  | _ => True

def replayGuard (cfg : AuthConfig) : Annotation AuthNode AuthProcess where
  shared s := s.Guarded cfg
  own s p := p.InTime cfg s
  pair _ _ := True
  symm _ := trivial

def AuthProcess.Prompt (wait : Nat) (s : AuthNode) : AuthProcess → Prop
  | .timely req _ checkedAt => s.time ≤ checkedAt + wait ∧ s.replayCache.HasRoom req.nonce s.time
  | _ => True

def AuthOp.Prompt (wait : Nat) (s : AuthSystem) : AuthOp → Prop
  | .turn n => ∀ p ∈ s.processes[n]?, p.Prompt wait s.shared
  | _ => True

section Steps

variable {cfg : AuthConfig} {wait : Nat} {s : AuthNode} {req : SignedRequest} {key : Bytes32}

theorem live_of_inTime (hmargin : (2 * cfg.skewMillis + 1) * nanosPerMilli + wait ≤ cfg.nonceTtl)
    {checkedAt admittedAt now : Nat} {timestamp : Int}
    (hin : (((checkedAt / nanosPerMilli : Nat) : Int) - timestamp).natAbs ≤ cfg.skewMillis)
    (hwait : now ≤ checkedAt + wait)
    (hwindow : (timestamp - cfg.skewMillis) * nanosPerMilli ≤ admittedAt) :
    now ≤ admittedAt + cfg.nonceTtl := by
  simp only [nanosPerMilli] at hmargin hin hwindow
  omega

theorem AuthNode.Guarded.checkNonce (hmargin : (2 * cfg.skewMillis + 1) * nanosPerMilli + wait ≤ cfg.nonceTtl)
    (h : s.Guarded cfg) {checkedAt : Nat} (hp : (AuthProcess.timely req key checkedAt).InTime cfg s)
    (hwait : s.time ≤ checkedAt + wait) (hroom : s.replayCache.HasRoom req.nonce s.time) :
    (checkNonce s req key).1.Guarded cfg := by
  have hkeep : ∀ e ∈ s.admitted, s.time ≤ e.2 + cfg.nonceTtl →
      (s.replayCache.evict s.time).entries[e.1.nonce]? = some e.2 := by
    intro e he hlive
    exact NonceCache.getElem?_evict (h.cached e he hlive) (h.ttl.symm ▸ hlive)
  cases hc : (s.replayCache.evict s.time).entries.contains req.nonce with
  | true =>
    rw [Onvm.checkNonce, NonceCache.checkAndInsert_of_contains hc]
    exact ⟨h.config, h.ttl, h.past, h.window, hkeep, h.distinct⟩
  | false =>
    have hlow : (req.timestamp - cfg.skewMillis) * nanosPerMilli ≤ s.time := by
      obtain ⟨hle, hin⟩ := hp
      simp only [nanosPerMilli] at hin ⊢
      omega
    have hother : ∀ e ∈ s.admitted, s.time ≤ e.2 + cfg.nonceTtl → req.nonce ≠ e.1.nonce := by
      intro e he hlive heq
      have hmem : (s.replayCache.evict s.time).entries.contains e.1.nonce = true := by
        rw [← ExtTreeMap.isSome_getElem?_eq_contains, hkeep e he hlive]
        rfl
      rw [← heq, hc] at hmem
      cases hmem
    rw [Onvm.checkNonce, NonceCache.checkAndInsert_of_new hroom hc]
    refine ⟨h.config, h.ttl, ?_, ?_, ?_, ?_⟩
    · intro e he
      rcases List.mem_append.mp he with he | he
      · exact h.past e he
      · rw [List.mem_singleton.mp he]
    · intro e he
      rcases List.mem_append.mp he with he | he
      · exact h.window e he
      · rw [List.mem_singleton.mp he]
        exact hlow
    · intro e he hlive
      rw [ExtTreeMap.getElem?_insert]
      rcases List.mem_append.mp he with he | he
      · have hne : compare req.nonce e.1.nonce ≠ .eq := fun hcmp =>
          hother e he hlive (Std.LawfulEqOrd.eq_of_compare hcmp)
        rw [if_neg hne]
        exact hkeep e he hlive
      · rw [List.mem_singleton.mp he, if_pos Std.ReflCmp.compare_self]
    · refine List.pairwise_append.mpr ⟨h.distinct, List.pairwise_singleton _ _, ?_⟩
      rintro e he e' he' ⟨hnonce, htime⟩
      rw [List.mem_singleton.mp he'] at hnonce htime
      have hlive : s.time ≤ e.2 + cfg.nonceTtl :=
        live_of_inTime hmargin hp.2 hwait (htime ▸ h.window e he)
      exact hother e he hlive hnonce.symm

end Steps

/-- What a turn can do. -/
inductive AuthProcess.Moves (s : AuthNode) : AuthProcess → AuthNode → AuthProcess → Prop
  | rejected (p : AuthProcess) (status : Nat) : Moves s p s (.rejected status)
  | identified (req : HttpRequest) (projectId : Bytes) (key : Bytes32) :
    Moves s (.received req) s (.identified req projectId key)
  | timely (head : HttpRequest) (projectId : Bytes) (key : Bytes32) (req : SignedRequest)
    (h : skewExceeded s req.timestamp = false) :
    Moves s (.identified head projectId key) s (.timely req key s.time)
  | checked (req : SignedRequest) (key : Bytes32) (checkedAt : Nat) :
    Moves s (.timely req key checkedAt) (checkNonce s req key).1 (checkNonce s req key).2
  | authentic (req : SignedRequest) (key : Bytes32) : Moves s (.fresh req key) s (.authentic req)
  | limited (req : SignedRequest) (limiter : Option TokenBucket) :
    Moves s (.authentic req) { s with rateLimiter := limiter } (.rejected 429)
  | passed (req : SignedRequest) (limiter : Option TokenBucket) :
    Moves s (.authentic req) { s with rateLimiter := limiter, handled := s.handled ++ [req] }
      (.passed req)
  | done (req : SignedRequest) : Moves s (.passed req) s (.passed req)

namespace AuthProcess

variable {mac : Bytes32 → Bytes → Bytes} {s : AuthNode}

theorem moves_identify (req : HttpRequest) : Moves s (.received req) s (identify s req) := by
  unfold identify
  split
  · exact .rejected _ _
  · cases headerText req.projectId with
    | none => exact .rejected _ _
    | some projectId =>
      cases hkey : s.keys[projectId]? with
      | none => simp only [hkey]; exact .rejected _ _
      | some key => simp only [hkey]; exact .identified _ _ _

theorem moves_checkTime (req : HttpRequest) (projectId : Bytes) (key : Bytes32) :
    Moves s (.identified req projectId key) s (checkTime s req projectId key) := by
  unfold checkTime
  split
  · split
    · exact .rejected _ _
    · rename_i hskew
      exact .timely _ _ _ _ (Bool.eq_false_iff.mpr hskew)
  · exact .rejected _ _

theorem moves_checkSignature (req : SignedRequest) (key : Bytes32) :
    Moves s (.fresh req key) s (checkSignature mac req key) := by
  unfold checkSignature
  cases req.body with
  | none => exact .rejected _ _
  | some body =>
    dsimp only
    split
    · exact .authentic _ _
    · exact .rejected _ _

theorem moves_checkRate (req : SignedRequest) :
    Moves s (.authentic req) (checkRate s req).1 (checkRate s req).2 := by
  unfold checkRate
  cases s.rateLimiter.map fun b => b.tryConsume 1.0 s.time with
  | none => exact .passed req s.rateLimiter
  | some r =>
    obtain ⟨bucket, ok⟩ := r
    cases ok with
    | true => exact .passed req (some bucket)
    | false => exact .limited req (some bucket)

theorem moves_act (p : AuthProcess) : Moves s p (p.act mac s).1 (p.act mac s).2 := by
  cases p with
  | received req => exact moves_identify req
  | identified req projectId key => exact moves_checkTime req projectId key
  | timely req key checkedAt => exact .checked req key checkedAt
  | fresh req key => exact moves_checkSignature req key
  | authentic req => exact moves_checkRate req
  | passed req => exact .done req
  | rejected status => exact .rejected _ _

end AuthProcess

theorem checkNonce_cases (s : AuthNode) (req : SignedRequest) (key : Bytes32) :
    ∃ cache, checkNonce s req key = ({ s with replayCache := cache }, .rejected 401) ∨
      checkNonce s req key =
        ({ s with replayCache := cache, admitted := s.admitted ++ [(req, s.time)] }, .fresh req key) := by
  unfold checkNonce
  cases s.replayCache.checkAndInsert req.nonce s.time with
  | mk cache accepted =>
    cases accepted with
    | false => exact ⟨cache, .inl rfl⟩
    | true => exact ⟨cache, .inr rfl⟩

section Guard

variable {mac : Bytes32 → Bytes → Bytes} {cfg : AuthConfig} {wait : Nat} {s t : AuthNode}
  {p q : AuthProcess}

theorem AuthProcess.Moves.time_eq (h : p.Moves s t q) : t.time = s.time := by
  cases h with
  | checked req key checkedAt =>
    obtain ⟨cache, he | he⟩ := checkNonce_cases s req key
    · rw [he]
    · rw [he]
  | _ => rfl

theorem AuthProcess.InTime.later (h : p.InTime cfg s) (ht : s.time ≤ t.time) : p.InTime cfg t := by
  cases p with
  | timely req key checkedAt => exact ⟨h.1.trans ht, h.2⟩
  | _ => trivial

theorem replayGuard_kept (hmargin : (2 * cfg.skewMillis + 1) * nanosPerMilli + wait ≤ cfg.nonceTtl)
    (hs : s.Guarded cfg) (hp : p.InTime cfg s) (hprompt : p.Prompt wait s) (hmove : p.Moves s t q) :
    (replayGuard cfg).Kept s p ⟨t, q, []⟩ := by
  have hlater : s.time ≤ t.time := hmove.time_eq.ge
  refine ⟨?_, ?_, by simp, fun r hr _ => hr.later hlater, fun _ _ _ => trivial⟩
  · cases hmove with
    | checked req key checkedAt => exact hs.checkNonce hmargin hp hprompt.1 hprompt.2
    | limited req limiter => exact ⟨hs.config, hs.ttl, hs.past, hs.window, hs.cached, hs.distinct⟩
    | passed req limiter => exact ⟨hs.config, hs.ttl, hs.past, hs.window, hs.cached, hs.distinct⟩
    | _ => exact hs
  · cases hmove with
    | timely head projectId key req hskew =>
      refine ⟨le_rfl, ?_⟩
      have hle := of_decide_eq_false hskew
      rw [hs.config] at hle
      exact Nat.le_of_not_lt hle
    | checked req key checkedAt =>
      obtain ⟨cache, he | he⟩ := checkNonce_cases s req key
      · show ((checkNonce s req key).2).InTime cfg _
        rw [he]
        trivial
      · show ((checkNonce s req key).2).InTime cfg _
        rw [he]
        trivial
    | _ => trivial

theorem AuthNode.Guarded.elapse (h : s.Guarded cfg) (nanos : Nat) :
    AuthNode.Guarded cfg { s with time := s.time + nanos } := by
  refine ⟨h.config, h.ttl, fun e he => ?_, h.window, fun e he hlive => ?_, h.distinct⟩
  · exact (h.past e he).trans (Nat.le_add_right _ _)
  · exact h.cached e he ((Nat.le_add_right _ _).trans hlive)

theorem replayGuard_step (hmargin : (2 * cfg.skewMillis + 1) * nanosPerMilli + wait ≤ cfg.nonceTtl)
    {s t : AuthSystem} {op : AuthOp} (h : (replayGuard cfg).Holds s) (hop : op.Prompt wait s)
    (ht : authStep mac s op = some t) : (replayGuard cfg).Holds t := by
  cases op with
  | receive req =>
    cases ht
    exact h.spawn trivial fun _ => trivial
  | turn n =>
    have hturn : s.turn (fun sh p i => p.turn mac sh i) n () = some t := ht
    obtain ⟨p, hp, -, -⟩ := System.turn_eq_some hturn
    exact h.turn hturn hp fun hown =>
      replayGuard_kept hmargin h.shared hown (hop p hp) (AuthProcess.moves_act p)
  | elapse nanos =>
    cases ht
    exact h.outside (h.shared.elapse nanos) fun p hown => hown.later (Nat.le_add_right _ _)
  | upsertProject projectId key =>
    cases ht
    have hs := h.shared
    exact h.outside ⟨hs.config, hs.ttl, hs.past, hs.window, hs.cached, hs.distinct⟩
      fun p hown => hown.later le_rfl

theorem replayGuard_fresh (keys : ByteTree Bytes32) (limiter : Option TokenBucket) (time : Nat) :
    (replayGuard cfg).Holds ⟨.fresh cfg keys limiter time, []⟩ where
  shared := ⟨rfl, rfl, by simp [AuthNode.fresh], by simp [AuthNode.fresh], by simp [AuthNode.fresh], .nil⟩
  own := by simp
  pair := .nil

end Guard

section Tally

variable {mac : Bytes32 → Bytes → Bytes} (r : SignedRequest)

/-- A request like `r` whose nonce was accepted and that may still pass. -/
def AuthProcess.inFlight : AuthProcess → Bool
  | .fresh req _ => decide (req.Same r)
  | .authentic req => decide (req.Same r)
  | _ => false

def AuthNode.handledLike (s : AuthNode) : Nat := s.handled.countP fun req => decide (req.Same r)

def AuthNode.admittedLike (s : AuthNode) : Nat := s.admitted.countP fun e => decide (e.1.Same r)

def Accounted (s : AuthSystem) : Prop :=
  s.shared.handledLike r + s.processes.countP (AuthProcess.inFlight r) ≤ s.shared.admittedLike r

variable {r}

theorem AuthProcess.Moves.tally {s t : AuthNode} {p q : AuthProcess} (h : p.Moves s t q) :
    t.handledLike r + (q.inFlight r).toNat + s.admittedLike r ≤
      s.handledLike r + (p.inFlight r).toNat + t.admittedLike r := by
  have hone : ∀ req : SignedRequest, [req].countP (fun req => decide (req.Same r)) =
      (decide (req.Same r)).toNat := by
    intro req
    cases hr : decide (req.Same r) with
    | false => simp [hr]
    | true => simp [hr]
  cases h with
  | rejected p status =>
    simp only [inFlight, Bool.toNat_false]
    omega
  | checked req key checkedAt =>
    obtain ⟨cache, he | he⟩ := checkNonce_cases s req key
    · simp only [he, inFlight, AuthNode.handledLike, AuthNode.admittedLike]
      omega
    · have hadmitted : [(req, s.time)].countP (fun e => decide (e.1.Same r)) =
          (decide (req.Same r)).toNat := hone req
      simp only [he, inFlight, AuthNode.handledLike, AuthNode.admittedLike, List.countP_append,
        hadmitted, Bool.toNat_false]
      omega
  | passed req limiter =>
    simp only [inFlight, AuthNode.handledLike, AuthNode.admittedLike, List.countP_append, hone,
      Bool.toNat_false]
    omega
  | limited req limiter =>
    simp only [inFlight, AuthNode.handledLike, AuthNode.admittedLike, Bool.toNat_false]
    omega
  | _ =>
    simp only [inFlight]
    omega

theorem accounted_step (s : AuthSystem) (op : AuthOp) (t : AuthSystem) (h : Accounted r s)
    (ht : authStep mac s op = some t) : Accounted r t := by
  cases op with
  | receive req =>
    cases ht
    have hnew : (s.processes ++ [AuthProcess.received req]).countP (AuthProcess.inFlight r) =
        s.processes.countP (AuthProcess.inFlight r) := by
      rw [List.countP_append]
      rfl
    unfold Accounted System.spawn
    rw [hnew]
    exact h
  | turn n =>
    have hturn : s.turn (fun sh p i => p.turn mac sh i) n () = some t := ht
    obtain ⟨p, hp, hshared, -⟩ := System.turn_eq_some hturn
    have hcount := System.countP_turn (AuthProcess.inFlight r) hturn hp
    have hmove : p.Moves s.shared (p.act mac s.shared).1 (p.act mac s.shared).2 := AuthProcess.moves_act p
    have htally := hmove.tally (r := r)
    simp only [AuthProcess.turn, List.countP_nil] at hshared hcount
    rw [← hshared] at htally
    unfold Accounted at h ⊢
    omega
  | elapse nanos => cases ht; exact h
  | upsertProject projectId key => cases ht; exact h

theorem countP_le_one {α : Type*} {f : α → Bool} {l : List α}
    (h : l.Pairwise fun a b => ¬ (f a = true ∧ f b = true)) : l.countP f ≤ 1 := by
  induction l with
  | nil => exact Nat.zero_le _
  | cons a l ih =>
    obtain ⟨hhead, htail⟩ := List.pairwise_cons.mp h
    cases ha : f a with
    | false =>
      rw [List.countP_cons_of_neg (by simp [ha])]
      exact ih htail
    | true =>
      have hnone : l.countP f = 0 := List.countP_eq_zero.mpr fun b hb hfb => hhead b hb ⟨ha, hfb⟩
      rw [List.countP_cons_of_pos ha, hnone]

theorem AuthNode.Guarded.admittedLike_le {cfg : AuthConfig} {s : AuthNode} (h : s.Guarded cfg) :
    s.admittedLike r ≤ 1 := by
  refine countP_le_one (h.distinct.imp ?_)
  rintro a b hne ⟨ha, hb⟩
  obtain ⟨hnonce, htime⟩ := of_decide_eq_true ha
  obtain ⟨hnonce', htime'⟩ := of_decide_eq_true hb
  exact hne ⟨hnonce.trans hnonce'.symm, htime.trans htime'.symm⟩

end Tally

/-- If nonces are kept for twice the skew, one millisecond and the longest wait for the lock, and the
cache is never full, then of all requests with one nonce and one timestamp only one passes. -/
theorem signed_request_passes_once (mac : Bytes32 → Bytes → Bytes) {cfg : AuthConfig} {wait : Nat}
    (hmargin : (2 * cfg.skewMillis + 1) * nanosPerMilli + wait ≤ cfg.nonceTtl)
    (keys : ByteTree Bytes32) (limiter : Option TokenBucket) (time : Nat) {ops : List AuthOp}
    {t : AuthSystem}
    (hprompt : Along (authStep mac) (fun s op => op.Prompt wait s) ⟨.fresh cfg keys limiter time, []⟩ ops)
    (hrun : run (authStep mac) ⟨.fresh cfg keys limiter time, []⟩ ops = some t) (r : SignedRequest) :
    t.shared.handledLike r ≤ 1 := by
  have hguard : (replayGuard cfg).Holds t :=
    invariant_run (fun s op t h hop ht => replayGuard_step hmargin h hop ht)
      (replayGuard_fresh keys limiter time) hprompt hrun
  have hfresh : Accounted r ⟨.fresh cfg keys limiter time, []⟩ := Nat.le_refl 0
  have haccount : Accounted r t := always_run accounted_step hfresh hrun
  calc t.shared.handledLike r
      ≤ t.shared.admittedLike r := (Nat.le_add_right _ _).trans haccount
    _ ≤ 1 := hguard.shared.admittedLike_le

section Sample

instance (c : NonceCache) (nonce : Bytes) (now : Nat) : Decidable (c.HasRoom nonce now) :=
  inferInstanceAs (Decidable (_ ∨ _))

instance (wait : Nat) (s : AuthNode) : DecidablePred (AuthProcess.Prompt wait s)
  | .timely req _ checkedAt =>
    inferInstanceAs (Decidable (s.time ≤ checkedAt + wait ∧ s.replayCache.HasRoom req.nonce s.time))
  | .received _ | .identified _ _ _ | .fresh _ _ | .authentic _ | .passed _ | .rejected _ => isTrue trivial

instance (wait : Nat) (s : AuthSystem) : DecidablePred (AuthOp.Prompt wait s)
  | .turn n => inferInstanceAs (Decidable (∀ p ∈ s.processes[n]?, p.Prompt wait s.shared))
  | .receive _ | .elapse _ | .upsertProject _ _ => isTrue trivial

def sampleMac (key : Bytes32) (text : Bytes) : Bytes := [(key.bytes ++ text).foldl (· + ·) 0]

def sampleKey : Bytes32 := ⟨List.replicate 32 7, rfl⟩

def asciiText (t : String) : Bytes := t.toList.map fun c => UInt8.ofNat c.toNat

def sampleAuth (capacity nonceTtl time : Nat) : AuthSystem :=
  ⟨.fresh ⟨1000000, nonceTtl, capacity, []⟩ ((∅ : ByteTree Bytes32).insert (asciiText "p") sampleKey) none time, []⟩

/-- `POST /` to the project, at 100 ms. -/
def samplePost (nonce signature : String) : HttpRequest :=
  ⟨asciiText "POST", asciiText "/", some (asciiText "p"), some (asciiText "100"),
    some (asciiText nonce), some (asciiText signature), some []⟩

def sampleSigned : SignedRequest :=
  ⟨asciiText "p", asciiText "POST", asciiText "/", 100, asciiText "a", [0x85], some []⟩

def attempt (n : Nat) (nonce signature : String) : List AuthOp :=
  .receive (samplePost nonce signature) :: List.replicate 5 (.turn n)

def displacingRun : List AuthOp := attempt 0 "a" "85" ++ attempt 1 "b" "00" ++ attempt 2 "a" "85"

def lateRun : List AuthOp := attempt 0 "a" "85" ++ [.elapse 2500000] ++ attempt 1 "a" "85"

theorem signed_request_passes_once_sample :
    ∃ t, run (authStep sampleMac) (sampleAuth 2 3500000 99000000) displacingRun = some t ∧
      t.shared.handled = [sampleSigned] ∧ ∀ r, t.shared.handledLike r ≤ 1 := by
  obtain ⟨t, hrun, hhandled⟩ :=
    exists_of_any (o := run (authStep sampleMac) (sampleAuth 2 3500000 99000000) displacingRun)
      (Q := fun t => t.shared.handled = [sampleSigned]) (by decide +kernel)
  have hmargin : (2 * AuthConfig.skewMillis ⟨1000000, 3500000, 2, []⟩ + 1) * nanosPerMilli + 500000 ≤
      3500000 := by decide
  refine ⟨t, hrun, hhandled, fun r => ?_⟩
  exact signed_request_passes_once sampleMac hmargin _ _ _ (by decide +kernel) hrun r

/-- With nonces kept for twice the skew a signed request passes twice: in a cache of one nonce, the
other request takes its place; and in a larger one the nonce has gone half a millisecond before the
timestamp is too old. -/
theorem replay_passes_twice :
    (∃ t, run (authStep sampleMac) (sampleAuth 1 2000000 99000000) displacingRun = some t ∧
      t.shared.handled = [sampleSigned, sampleSigned]) ∧
    ∃ t, run (authStep sampleMac) (sampleAuth 100 2000000 99000000) lateRun = some t ∧
      t.shared.handled = [sampleSigned, sampleSigned] := by
  constructor
  · exact exists_of_any (o := run (authStep sampleMac) (sampleAuth 1 2000000 99000000) displacingRun)
      (Q := fun t => t.shared.handled = [sampleSigned, sampleSigned]) (by decide +kernel)
  · exact exists_of_any (o := run (authStep sampleMac) (sampleAuth 100 2000000 99000000) lateRun)
      (Q := fun t => t.shared.handled = [sampleSigned, sampleSigned]) (by decide +kernel)

end Sample

end Onvm
