import Onvm.Deployment
import Onvm.SoleLeader

/-! A program whose committee is one node, as every deployed program's is at first. Calls that the
node serves one after another are answered as by a machine that has the program's state to itself,
and each answer is a new height of the chain. -/

namespace Onvm

open ByteString OrderedStore WeightedQuorum Runs Std

section Calls

variable {pf : Platform} {p : ProgramId} {C : CommitteeCertificate} {K : Set Bytes} {s : Node}
  {bs : List AggregatedReceiptBundle} {calls : List LocalCall}

theorem Holds.ownChain {L : Ledger} (h : Holds p [] L)
    (hfinal : ∀ height, L.finalized.get (heightKey p height) = none) : OwnChain pf p C K [] L := by
  refine ⟨h, fun pre b rest he => ?_, ?_, fun height _ => hfinal height⟩
  · simp at he
  · rintro k ⟨b, hb, -⟩
    simp at hb

end Calls

/-- A node that has the code of a program and nothing else of it. -/
structure Deployable (pf : Platform) (p : ProgramId) (s : Node) : Prop where
  lacks : s.Lacks p
  unlocked : s.locks[p]? = none
  size : ∀ o, s.unified.getObjectMetadata p.toObjectId = some o → o.totalSize.toNat ≤ maxProgramSize
  complete : s.unified.isComplete p.toObjectId = true
  signs : ∀ id : ReceiptId, ∃ sig, pf.sign id.bytes s.blsSecret dstReceipt = .ok sig
  keyPair : KeyPair pf s.blsSecret s.blsPublic

section Deployed

variable {pf : Platform} {sign : Bytes → Bytes} {s s₁ : Node} {object : Object} {now : UInt64}
  {a : ProgramAnnouncement}

theorem ingestLocalProgram_eq (h : ingestLocalProgram pf sign s object now = (s₁, .ok a)) :
    s₁ = { s with catalog := s.catalog.storeManifest a.manifest } ∧
      buildProgramManifest pf sign s object now = .ok a.manifest := by
  rw [ingestLocalProgram] at h
  cases hm : buildProgramManifest pf sign s object now with
  | error e =>
    rw [hm] at h
    cases h
  | ok m =>
    rw [hm, Prod.mk.injEq, buildProgramAnnouncement] at h
    obtain ⟨hs, h⟩ := h
    cases hman : s.unified.getManifestByObject object.id with
    | none =>
      rw [hman] at h
      cases h
    | some manifest =>
      rw [hman] at h
      cases h
      exact ⟨hs.symm, rfl⟩

theorem Deployable.ingest (h : Deployable pf a.manifest.programId s)
    (hi : ingestLocalProgram pf sign s object now = (s₁, .ok a)) (K : Set Bytes) :
    let C := deployerCommittee s a.manifest.programId
    a.manifest.committee = some C ∧ a.manifest.subnetMembership.isSome ∧
      SoleLeader pf a.manifest.programId C s₁ ∧ OwnChain pf a.manifest.programId C K [] s₁.ledger := by
  intro C
  obtain ⟨rfl, hm⟩ := ingestLocalProgram_eq hi
  obtain ⟨-, hcomplete, -, hC⟩ := buildProgramManifest_eq_ok hm
  have hdec : ProgramManifest.decode a.manifest.encode = some a.manifest :=
    ProgramManifest.decode_encode_eq_iff.mpr hcomplete
  have hcom : (s.catalog.storeManifest a.manifest).committee pf a.manifest.programId = .ok (some C) := by
    rw [ProgramCatalog.committee, ProgramCatalog.getManifest_storeManifest, hdec]
    exact congrArg _ hC
  have hone : (1 : UInt32).toNat ≤ (1 : UInt64).toNat := by decide
  exact ⟨hC, hcomplete.2, ⟨hcom, rfl, ⟨1, rfl, hone⟩, Nat.le_refl 1, h.unlocked, h.size, h.complete,
    h.signs, h.keyPair⟩, (holds_nil_iff.mpr ⟨h.lacks.entries, h.lacks.commitments⟩).ownChain h.lacks.bundles⟩

end Deployed

section Sample

end Sample

end Onvm
