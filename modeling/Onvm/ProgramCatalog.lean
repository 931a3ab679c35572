import Onvm.Platform

/-! The catalog of `program_catalog.rs`: program manifests as stored bytes,
state commitments by program and height, aggregated receipts. -/

namespace Onvm

open ByteString OrderedStore Std

def heightKey (p : ProgramId) (height : UInt64) : Bytes := p.bytes.bytes ++ bigEndian 8 height.toNat

theorem heightKey_inj {p q : ProgramId} {a b : UInt64} (h : heightKey p a = heightKey q b) :
    p = q ∧ a = b := by
  obtain ⟨hp, hab⟩ := FixedBytes.append_inj h
  refine ⟨ProgramId.eq_of_bytes (congrArg _ hp), ?_⟩
  exact UInt64.toNat_inj.mp (bigEndian_injective 8 (by simpa using a.toNat_lt) (by simpa using b.toNat_lt) hab)

theorem compare_heightKey (p : ProgramId) (a b : UInt64) :
    compare (heightKey p a) (heightKey p b) = compare a.toNat b.toNat := by
  rw [heightKey, heightKey, compare_append_left,
    compare_bigEndian 8 (by simpa using a.toNat_lt) (by simpa using b.toNat_lt)]

structure ProgramCatalog where
  manifests : ByteTree Bytes
  commitments : Keyed fun c : StateCommitment => heightKey c.programId c.height
  receipts : ByteTree AggregatedReceipt

namespace ProgramCatalog

def empty : ProgramCatalog := ⟨∅, .empty, ∅⟩

variable (pf : Platform) (cat : ProgramCatalog) (p : ProgramId)

def storeManifest (m : ProgramManifest) : ProgramCatalog :=
  { cat with manifests := cat.manifests.insert m.programId.bytes.bytes m.encode }

def getManifest : Except String (Option ProgramManifest) :=
  match cat.manifests[p.bytes.bytes]? with
  | none => .ok none
  | some raw =>
    match ProgramManifest.decode raw with
    | none => .error (pf.decodeError raw)
    | some m => .ok (some m)

def committee : Except String (Option CommitteeCertificate) :=
  (cat.getManifest pf p).map fun m => m.bind (·.committee)

def storeStateCommitment (c : StateCommitment) : ProgramCatalog :=
  { cat with commitments := cat.commitments.put c }

def latestStateCommitment : Option StateCommitment :=
  lastWithPrefix cat.commitments.tree p.bytes.bytes

def getStateCommitment (height : UInt64) : Option StateCommitment :=
  cat.commitments.get (heightKey p height)

def storeAggregatedReceipt (r : AggregatedReceipt) : ProgramCatalog :=
  { cat with
    receipts := cat.receipts.insert (r.receipt.programId.bytes.bytes ++ (r.receipt.id pf).bytes) r }

def verifyInitialSync (m : ProgramManifest) : Except String Unit :=
  match cat.getManifest pf m.programId with
  | .error e => .error e
  | .ok none => .ok ()
  | .ok (some existing) =>
    if existing.initialStateRoot ≠ m.initialStateRoot then
      .error ("manifest conflict for program " ++ m.programId.toText)
    else if existing.committee.isSome ∧ m.committee.isSome ∧ existing.committee ≠ m.committee then
      .error ("committee conflict for program " ++ m.programId.toText)
    else if existing.committee.isSome ∧ m.committee.isNone then
      .error ("committee conflict for program " ++ m.programId.toText)
    else .ok ()

variable {pf cat p}

theorem getStateCommitment_eq_some {height : UInt64} {c : StateCommitment}
    (h : cat.getStateCommitment p height = some c) : c.programId = p ∧ c.height = height :=
  heightKey_inj (cat.commitments.key_of_get h)

theorem latestStateCommitment_eq_none (h : cat.latestStateCommitment p = none) (height : UInt64) :
    cat.getStateCommitment p height = none :=
  lastWithPrefix_eq_none h ⟨_, rfl⟩

theorem latestStateCommitment_eq_some {c : StateCommitment}
    (h : cat.latestStateCommitment p = some c) :
    c.programId = p ∧ cat.getStateCommitment p c.height = some c ∧
      ∀ height, (cat.getStateCommitment p height).isSome → height ≤ c.height := by
  obtain ⟨k, ⟨rest, hrest⟩, hk, hmax⟩ := lastWithPrefix_eq_some h
  have hkey : heightKey c.programId c.height = k := cat.commitments.keyed hk
  have hp : c.programId = p := by
    have hh : p.bytes.bytes ++ rest = c.programId.bytes.bytes ++ bigEndian 8 c.height.toNat :=
      hrest.trans hkey.symm
    exact (ProgramId.eq_of_bytes (congrArg _ (FixedBytes.append_inj hh).1)).symm
  rw [hp] at hkey
  refine ⟨hp, by rw [getStateCommitment, hkey]; exact hk, ?_⟩
  intro height hs
  rw [UInt64.le_iff_toNat_le]
  rcases hmax (heightKey p height) ⟨_, rfl⟩ hs with he | hlt
  · rw [← hkey] at he
    rw [(heightKey_inj he).2]
  · rw [← hkey, compare_heightKey] at hlt
    exact (Nat.compare_eq_lt.mp hlt).le

theorem getStateCommitment_storeStateCommitment (c : StateCommitment) (height : UInt64) :
    (cat.storeStateCommitment c).getStateCommitment p height =
      if c.programId = p ∧ c.height = height then some c else cat.getStateCommitment p height := by
  rw [getStateCommitment, storeStateCommitment, Keyed.get_put]
  by_cases h : c.programId = p ∧ c.height = height
  · rw [if_pos h, if_pos (by rw [h.1, h.2])]
  · rw [if_neg h, if_neg (fun hk => h (heightKey_inj hk)), getStateCommitment]

theorem latestStateCommitment_of_getStateCommitment {c : StateCommitment}
    (hc : cat.getStateCommitment p c.height = some c)
    (hmax : ∀ height, (cat.getStateCommitment p height).isSome → height ≤ c.height) :
    cat.latestStateCommitment p = some c := by
  cases hl : cat.latestStateCommitment p with
  | none => rw [latestStateCommitment_eq_none hl] at hc; cases hc
  | some d =>
    obtain ⟨-, hd, hdmax⟩ := latestStateCommitment_eq_some hl
    have h1 := hmax d.height (by rw [hd]; rfl)
    have h2 := hdmax c.height (by rw [hc]; rfl)
    have he : c.height = d.height := UInt64.le_antisymm h2 h1
    rw [← he, hc] at hd
    rw [Option.some.inj hd]

theorem latestStateCommitment_congr {cat' : ProgramCatalog}
    (h : ∀ height, cat'.getStateCommitment p height = cat.getStateCommitment p height) :
    cat'.latestStateCommitment p = cat.latestStateCommitment p := by
  cases hl : cat.latestStateCommitment p with
  | none =>
    cases hl' : cat'.latestStateCommitment p with
    | none => rfl
    | some c =>
      have hc := (latestStateCommitment_eq_some hl').2.1
      rw [h, latestStateCommitment_eq_none hl] at hc
      cases hc
  | some c =>
    obtain ⟨-, hc, hmax⟩ := latestStateCommitment_eq_some hl
    exact latestStateCommitment_of_getStateCommitment ((h _).trans hc) fun k hk => hmax k (h k ▸ hk)

@[simp] theorem latestStateCommitment_empty : empty.latestStateCommitment p = none := by
  cases h : empty.latestStateCommitment p with
  | none => rfl
  | some c => exact absurd (latestStateCommitment_eq_some h).2.1 (by simp [getStateCommitment, empty])

theorem committee_eq_ok_some {c : CommitteeCertificate} (h : cat.committee pf p = .ok (some c)) :
    ∃ m, cat.getManifest pf p = .ok (some m) ∧ m.committee = some c := by
  rw [committee] at h
  cases hm : cat.getManifest pf p with
  | error e => rw [hm] at h; cases h
  | ok o =>
    cases o with
    | none => rw [hm] at h; cases h
    | some m => rw [hm] at h; exact ⟨m, rfl, Except.ok.inj h⟩

theorem getManifest_congr {cat' : ProgramCatalog} (h : cat'.manifests = cat.manifests) :
    cat'.getManifest pf p = cat.getManifest pf p := by
  rw [getManifest, getManifest, h]

theorem getManifest_storeManifest_of_ne {m : ProgramManifest} (h : m.programId ≠ p) :
    (cat.storeManifest m).getManifest pf p = cat.getManifest pf p := by
  have hb : m.programId.bytes.bytes ≠ p.bytes.bytes := fun hh => h (ProgramId.eq_of_bytes hh)
  rw [getManifest, getManifest, storeManifest, ExtTreeMap.getElem?_insert,
    if_neg (fun hc => hb (LawfulEqOrd.eq_of_compare hc))]

theorem getManifest_storeManifest (m : ProgramManifest) :
    (cat.storeManifest m).getManifest pf m.programId =
      match ProgramManifest.decode m.encode with
      | none => .error (pf.decodeError m.encode)
      | some m' => .ok (some m') := by
  simp [getManifest, storeManifest]

end ProgramCatalog

end Onvm
