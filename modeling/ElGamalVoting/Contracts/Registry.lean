import Mathlib.Logic.Relation
import ElGamalVoting.Contracts.Election

/- The registry of elections on chain (`contracts/src/ElectionRegistry.sol`, the constructors and
   `getElection` of `election/ElectionBase.sol` and `KeyperSet.sol`).

   An election is published under the next number and its configuration is fixed from then on:
   most of it is immutable, and nothing writes the rest. What its own transactions write is in the
   storage of the votes and in the stall flag. The address of an election is represented by the
   election, and the zero address by its absence. -/
namespace ElGamalVoting
open Lib

namespace Contract

/-- A keyper set with the URLs of its members, index by index. -/
structure CommitteeSet extends KeyperSet where
  urls : List String
  length_urls : urls.length = members.length

theorem KeyperSet.deploy_eq_ok {initialMembers : List Bytes} {initialURLs : List String} {threshold : Nat}
    {ks : KeyperSet} (h : KeyperSet.deploy initialMembers initialURLs threshold = .ok ks) :
    initialURLs.length = initialMembers.length ∧ ks.members = initialMembers ∧ ks.threshold = threshold := by
  unfold KeyperSet.deploy at h
  split at h
  · cases h
  · rename_i hurls
    split at h
    · cases h
    · rename_i members hmembers
      split at h
      · split at h
        · cases h
        · split at h
          · cases h
            exact ⟨not_not.mp hurls, (addMembers_eq_ok hmembers List.nodup_nil).1, rfl⟩
          · cases h
      · cases h

/-- The constructor of the keyper set, with the URLs it stores. -/
def CommitteeSet.deploy (initialMembers : List Bytes) (initialURLs : List String) (initialThreshold : Nat) :
    Except Revert CommitteeSet :=
  match h : KeyperSet.deploy initialMembers initialURLs initialThreshold with
  | .error e => .error e
  | .ok ks => .ok { ks with
      urls := initialURLs
      length_urls := by
        obtain ⟨hurls, hmembers, -⟩ := KeyperSet.deploy_eq_ok h
        rw [hurls, hmembers] }

theorem CommitteeSet.deploy_eq_ok {initialMembers : List Bytes} {initialURLs : List String} {threshold : Nat}
    {ks : CommitteeSet} (h : CommitteeSet.deploy initialMembers initialURLs threshold = .ok ks) :
    ks.members = initialMembers ∧ ks.urls = initialURLs ∧ ks.threshold = threshold := by
  unfold CommitteeSet.deploy at h
  split at h
  · cases h
  · rename_i set hset
    cases h
    obtain ⟨-, hmembers, hthreshold⟩ := KeyperSet.deploy_eq_ok hset
    exact ⟨hmembers, rfl, hthreshold⟩

/-! The election as it is published. -/

structure ElectionParams where
  votingStart : Nat
  votingEnd : Nat
  selfSubmitFee : Nat
  numCandidates : Nat
  budget : Nat
  mode : Nat
  variant : Nat
  weighted : Bool
  scale : Nat
  duplicatePolicy : Nat
  protocolVersion : String
  pkWR : Bytes
  resultPublisher : Bytes
  voteProxy : Bytes

/-- What the constructor writes, and no transaction writes again. -/
structure Fixed where
  electionId : Nat
  keyperSet : CommitteeSet
  adminAddr : Bytes
  params : ElectionParams

structure Instance where
  fixed : Fixed
  storage : Storage := {}
  tallyStalled : Bool := false

structure ElectionConfigView where
  electionId : Nat
  votingStart : Nat
  votingEnd : Nat
  selfSubmitFee : Nat
  numCandidates : Nat
  budget : Nat
  mode : Nat
  variant : Nat
  weighted : Bool
  scale : Nat
  duplicatePolicy : Nat
  protocolVersion : String
  thresholdN : Nat
  thresholdT : Nat
  keyperAddresses : List Bytes
  pkWR : Bytes
  cancelled : Bool
  adminAddr : Bytes
  resultPublisher : Bytes
  voteProxy : Bytes
  keyperURLs : List String

def newElection (admin : Bytes) (electionId : Nat) (keyperSet : CommitteeSet) (params : ElectionParams) :
    Except Revert Instance := do
  require (admin ≠ zeroAddress ∧ params.resultPublisher ≠ zeroAddress ∧ params.voteProxy ≠ zeroAddress ∧
    params.votingStart < params.votingEnd ∧ params.numCandidates ≠ 0 ∧ params.budget ≠ 0 ∧
    params.scale ≠ 0) .invalidConfig
  pure { fixed := ⟨electionId, keyperSet, admin, params⟩ }

/-- The configuration and the key of `getElection`. -/
def Instance.getElection (i : Instance) : ElectionConfigView × (Bytes × List Bytes) :=
  ({ electionId := i.fixed.electionId
     votingStart := i.fixed.params.votingStart
     votingEnd := i.fixed.params.votingEnd
     selfSubmitFee := i.fixed.params.selfSubmitFee
     numCandidates := i.fixed.params.numCandidates
     budget := i.fixed.params.budget
     mode := i.fixed.params.mode
     variant := i.fixed.params.variant
     weighted := i.fixed.params.weighted
     scale := i.fixed.params.scale
     duplicatePolicy := i.fixed.params.duplicatePolicy
     protocolVersion := i.fixed.params.protocolVersion
     thresholdN := i.fixed.keyperSet.members.length
     thresholdT := i.fixed.keyperSet.threshold
     keyperAddresses := i.fixed.keyperSet.members
     pkWR := i.fixed.params.pkWR
     cancelled := i.storage.cancelled
     adminAddr := i.fixed.adminAddr
     resultPublisher := i.fixed.params.resultPublisher
     voteProxy := i.fixed.params.voteProxy
     keyperURLs := i.fixed.keyperSet.urls },
   i.storage.electionPublicKey, i.storage.committeePublicKeys)

/-! The registry. -/

structure Registry where
  electionCount : Nat := 0
  elections : Nat → Option Instance := fun _ => none
  hasAdminRole : Bytes → Bool

/-- Publishes under the next number, which it returns. The committee of a set the contract has
    deployed is never empty, and its threshold neither zero nor too large, so the check of the set
    always passes. -/
def publishElection (r : Registry) (sender : Bytes) (keyperSet : CommitteeSet) (params : ElectionParams) :
    Except Revert (Nat × Registry) := do
  require (r.hasAdminRole sender = true) (.unauthorizedAccount sender)
  require (keyperSet.members.length ≠ 0 ∧ keyperSet.threshold ≠ 0 ∧
    keyperSet.threshold ≤ keyperSet.members.length) .invalidKeyperSet
  require (r.electionCount + 1 < 2 ^ 256) (.panic 0x11)
  let election ← newElection sender (r.electionCount + 1) keyperSet params
  pure (r.electionCount + 1, { r with
    electionCount := r.electionCount + 1
    elections := Function.update r.elections (r.electionCount + 1) (some election) })

theorem publishElection_eq_ok {r r' : Registry} {sender : Bytes} {keyperSet : CommitteeSet}
    {params : ElectionParams} {id : Nat} (h : publishElection r sender keyperSet params = .ok (id, r')) :
    id = r.electionCount + 1 ∧ id < 2 ^ 256 ∧ r'.electionCount = id ∧
      r'.elections = Function.update r.elections id (some { fixed := ⟨id, keyperSet, sender, params⟩ }) := by
  rw [publishElection] at h
  obtain ⟨-, h⟩ := require_bind_eq_ok.mp h
  obtain ⟨-, h⟩ := require_bind_eq_ok.mp h
  obtain ⟨hcount, h⟩ := require_bind_eq_ok.mp h
  obtain ⟨election, helection, h⟩ := bind_eq_ok.mp h
  rw [newElection] at helection
  obtain ⟨-, helection⟩ := require_bind_eq_ok.mp helection
  cases helection
  cases h
  exact ⟨rfl, hcount, rfl, rfl⟩

/-- What can happen to the registry: an election is published, one of its elections writes its own
    storage, or a role is granted or taken. -/
inductive RegistryStep : Registry → Registry → Prop
  | publish {r r' : Registry} {sender : Bytes} {keyperSet : CommitteeSet} {params : ElectionParams} {id : Nat}
      (h : publishElection r sender keyperSet params = .ok (id, r')) : RegistryStep r r'
  | election {r : Registry} {id : Nat} {i : Instance} (hid : r.elections id = some i) (storage : Storage)
      (tallyStalled : Bool) : RegistryStep r { r with
        elections := Function.update r.elections id (some ⟨i.fixed, storage, tallyStalled⟩) }
  | roles {r : Registry} (hasAdminRole : Bytes → Bool) : RegistryStep r { r with hasAdminRole }

/-- The registry holds an election under a number it has given out. -/
def Registry.Holds (r : Registry) (id : Nat) (fixed : Fixed) : Prop :=
  id ≤ r.electionCount ∧ ∃ i, r.elections id = some i ∧ i.fixed = fixed

theorem Registry.Holds.step {r r' : Registry} {id : Nat} {fixed : Fixed} (h : r.Holds id fixed)
    (hstep : RegistryStep r r') : r'.Holds id fixed := by
  obtain ⟨hle, i, hi, hfixed⟩ := h
  cases hstep with
  | publish hpublish =>
    obtain ⟨hnew, -, hcount, helections⟩ := publishElection_eq_ok hpublish
    refine ⟨by omega, i, ?_, hfixed⟩
    rw [helections, Function.update_of_ne (by omega), hi]
  | @election other i' hid storage tallyStalled =>
    refine ⟨hle, ?_⟩
    by_cases hsame : id = other
    · subst hsame
      rw [hi] at hid
      cases hid
      exact ⟨_, Function.update_self _ _ _, hfixed⟩
    · exact ⟨i, (Function.update_of_ne hsame _ _).trans hi, hfixed⟩
  | roles hasAdminRole => exact ⟨hle, i, hi, hfixed⟩

theorem Registry.Holds.run {r r' : Registry} {id : Nat} {fixed : Fixed} (h : r.Holds id fixed)
    (hrun : Relation.ReflTransGen RegistryStep r r') : r'.Holds id fixed := by
  induction hrun with
  | refl => exact h
  | tail _ hstep ih => exact ih.step hstep

end Contract
end ElGamalVoting
