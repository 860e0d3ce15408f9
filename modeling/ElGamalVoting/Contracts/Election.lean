import Mathlib.Logic.Function.Basic
import ElGamalVoting.Core.WriteAuth

/- The committee's votes on chain (`contracts/src/KeyperSet.sol`,
   `contracts/src/election/ElectionBase.sol`, `ElectionDKG.sol`, `ElectionTally.sol`,
   and the cancellation of `ElectionAdmin.sol`).

   A transaction is a function of the storage that returns the new storage or
   reverts; a revert leaves the storage as it was (`Tx.apply`). A Solidity mapping is
   a total function with the type's zero as default. `uint64` arithmetic is checked:
   a result outside the type reverts with `Panic(0x11)`. The ABI blob an aggregate
   is stored as is represented by the tally it encodes, and events are left out.

   `EvmLib` adds to the off-chain library the one encoding only the contract
   uses. -/
namespace ElGamalVoting
open Lib

structure EvmLib extends EthLib where
  /-- `bytes, bytes[]` -/
  abiKey : Bytes → List Bytes → Bytes

namespace Contract

inductive Revert where
  | alreadyFinalized
  | alreadyVoted (keyper : Bytes)
  | alreadyCancelled
  | invalidCommitteeLength (actualLength expectedLength : Nat)
  | invalidG2PointLength (actualLength : Nat)
  | invalidAggregatePayload
  | aggregateNotPublished
  | dkgNotFinalized
  | votingStillOpen (timestamp : Nat)
  | votingAlreadyStarted (timestamp : Nat)
  | votingNotStarted (timestamp : Nat)
  | votingClosed (timestamp : Nat)
  | invalidPseudonym
  | invalidVotePayload
  | invalidVoteFee (expectedFee actualFee : Nat)
  | unauthorizedKeyper (account : Bytes)
  | unauthorizedAccount (account : Bytes)
  | invalidSignature
  | duplicateMember (member : Bytes)
  | invalidMember (member : Bytes)
  | invalidThreshold (threshold membersLen : Nat)
  | urlsLengthMismatch (urlsLen membersLen : Nat)
  | invalidConfig
  | invalidKeyperSet
  | invalidDecryptionSharePayload
  | invalidResultPayload
  | panic (code : Nat)
  deriving DecidableEq

/-- `if (!c) revert e`. -/
def require (c : Prop) [Decidable c] (e : Revert) : Except Revert Unit :=
  if c then .ok () else .error e

def checkedAdd (a b : Nat) : Except Revert Nat :=
  if a + b < 2 ^ 64 then .ok (a + b) else .error (.panic 0x11)

def checkedSub (a b : Nat) : Except Revert Nat :=
  if b ≤ a then .ok (a - b) else .error (.panic 0x11)

/-! The keyper set. -/

def zeroAddress : Bytes := List.replicate 20 0

/-- Members are distinct, and the threshold is more than half of them. A length is
    below `2^64`. -/
structure KeyperSet where
  members : List Bytes
  threshold : Nat
  nodup : members.Nodup
  one_le_threshold : 1 ≤ threshold
  threshold_le : threshold ≤ members.length
  majority : members.length < threshold * 2
  length_lt : members.length < 2 ^ 64

/-- The constructor's loop over the initial members. -/
def addMembers : List Bytes → List Bytes → Except Revert (List Bytes)
  | members, [] => .ok members
  | members, member :: rest => do
    require (member ≠ zeroAddress) (.invalidMember member)
    require (member ∉ members) (.duplicateMember member)
    addMembers (members ++ [member]) rest

theorem require_bind_eq_ok {α : Type} {c : Prop} [Decidable c] {e : Revert}
    {f : Unit → Except Revert α} {r : α} : (require c e >>= f) = .ok r ↔ c ∧ f () = .ok r := by
  rw [require]
  by_cases hc : c
  · rw [if_pos hc, ok_bind]
    exact ⟨fun h => ⟨hc, h⟩, fun h => h.2⟩
  · rw [if_neg hc, error_bind]
    constructor
    · intro h
      cases h
    · intro h
      exact absurd h.1 hc

theorem addMembers_eq_ok {members rest all : List Bytes} (h : addMembers members rest = .ok all)
    (hnodup : members.Nodup) : all = members ++ rest ∧ all.Nodup := by
  induction rest generalizing members with
  | nil =>
    cases h
    exact ⟨(List.append_nil _).symm, hnodup⟩
  | cons member rest ih =>
    rw [addMembers] at h
    obtain ⟨-, h⟩ := require_bind_eq_ok.mp h
    obtain ⟨hnew, h⟩ := require_bind_eq_ok.mp h
    have hnodup' : (members ++ [member]).Nodup :=
      List.nodup_append.mpr ⟨hnodup, List.nodup_singleton _, fun a ha b hb => by
        rw [List.mem_singleton] at hb
        rintro rfl
        exact hnew (hb ▸ ha)⟩
    obtain ⟨rfl, hall⟩ := ih h hnodup'
    exact ⟨List.append_assoc _ _ _, hall⟩

def KeyperSet.deploy (initialMembers : List Bytes) (initialURLs : List String)
    (initialThreshold : Nat) : Except Revert KeyperSet :=
  if initialURLs.length ≠ initialMembers.length then
    .error (.urlsLengthMismatch initialURLs.length initialMembers.length)
  else match h : addMembers [] initialMembers with
    | .error e => .error e
    | .ok members =>
      if hthreshold : 1 ≤ initialThreshold ∧ initialThreshold ≤ members.length then
        if hoverflow : 2 ^ 64 ≤ initialThreshold * 2 then .error (.panic 0x11)
        else if hmajority : members.length < initialThreshold * 2 then
          .ok ⟨members, initialThreshold, (addMembers_eq_ok h List.nodup_nil).2, hthreshold.1,
            hthreshold.2, hmajority, by omega⟩
        else .error (.invalidThreshold initialThreshold members.length)
      else .error (.invalidThreshold initialThreshold members.length)

/-! The election's storage. -/

structure EncryptedTally where
  aggregates : List (Bytes × Bytes)
  admitted : List Nat
  exclusions : List (Nat × Nat)
  totalAdmittedWeight : Nat
  totalScaledWeight : Nat
  deriving DecidableEq

/-- The immutable fields the votes read, as the constructor accepts them. -/
structure Election where
  electionId : Nat
  keyperSet : KeyperSet
  votingStart : Nat
  votingEnd : Nat
  numCandidates : Nat
  start_lt_end : votingStart < votingEnd
  one_le_numCandidates : 1 ≤ numCandidates

def zeroDigest : Bytes := List.replicate 32 0

structure Storage where
  cancelled : Bool := false
  dkgFinalized : Bool := false
  electionPublicKey : Bytes := []
  committeePublicKeys : List Bytes := []
  encryptedTally : EncryptedTally := ⟨[], [], [], 0, 0⟩
  aggregatePublished : Bool := false
  hasVotedForDKG : Bytes → Bool := fun _ => false
  dkgVoteCountByResult : Bytes → Nat := fun _ => 0
  aggregateVoteDigestOf : Bytes → Bytes := fun _ => zeroDigest
  aggregateVoteCountByResult : Bytes → Nat := fun _ => 0

section
variable (E : EvmLib) (el : Election)

/-- The election id as `bytes32`, which is what the off-chain code calls it. -/
def Election.id : Bytes := beBytes 32 el.electionId

def dkgResultHash (pkElection : Bytes) (committeePKs : List Bytes) : Bytes :=
  E.keccak (E.abiKey pkElection committeePKs)

def aggregateDigest (aggregate : EncryptedTally) : Bytes :=
  E.keccak (aggregateDst ++ el.id ++ E.abiTally aggregate.aggregates aggregate.admitted
    aggregate.exclusions aggregate.totalAdmittedWeight aggregate.totalScaledWeight)

def requireG2Point (point : Bytes) : Except Revert Unit :=
  require (point.length = g2Bytes) (.invalidG2PointLength point.length)

def recover (digest sig : Bytes) : Except Revert Bytes :=
  match E.recoverMessage digest sig with
  | none => .error .invalidSignature
  | some signer => .ok signer

/-! The entry points. -/

def registerDKGVote (s : Storage) (voter pkElection : Bytes) (committeePKs : List Bytes) :
    Except Revert Storage := do
  require (voter ∈ el.keyperSet.members) (.unauthorizedKeyper voter)
  require (s.hasVotedForDKG voter = false) (.alreadyVoted voter)
  requireG2Point pkElection
  require (committeePKs.length = el.keyperSet.members.length)
    (.invalidCommitteeLength committeePKs.length el.keyperSet.members.length)
  committeePKs.forM requireG2Point
  let count ← checkedAdd (s.dkgVoteCountByResult (dkgResultHash E pkElection committeePKs)) 1
  let s' := { s with
    hasVotedForDKG := Function.update s.hasVotedForDKG voter true
    dkgVoteCountByResult :=
      Function.update s.dkgVoteCountByResult (dkgResultHash E pkElection committeePKs) count }
  pure (if el.keyperSet.threshold ≤ count then { s' with
      electionPublicKey := pkElection
      committeePublicKeys := committeePKs
      dkgFinalized := true }
    else s')

def voteDKGResult (s : Storage) (sender pkElection : Bytes) (committeePKs : List Bytes) :
    Except Revert Storage := do
  require (s.cancelled = false) .alreadyCancelled
  require (s.dkgFinalized = false) .alreadyFinalized
  registerDKGVote E el s sender pkElection committeePKs

def voteDKGResultSigned (s : Storage) (pkElection : Bytes) (committeePKs : List Bytes)
    (keyperSig : Bytes) : Except Revert Storage := do
  require (s.cancelled = false) .alreadyCancelled
  require (s.dkgFinalized = false) .alreadyFinalized
  let signer ← recover E (dkgResultDigest E.toEthLib el.id pkElection committeePKs) keyperSig
  registerDKGVote E el s signer pkElection committeePKs

/-- Takes a changed vote off the digest it was for. -/
def dropVote (counts : Bytes → Nat) (prev : Bytes) : Except Revert (Bytes → Nat) :=
  if prev = zeroDigest then .ok counts
  else do
    let count ← checkedSub (counts prev) 1
    pure (Function.update counts prev count)

def registerAggregate (s : Storage) (timestamp : Nat) (voter resultDigest : Bytes)
    (aggregate : EncryptedTally) : Except Revert Storage := do
  require (s.cancelled = false) .alreadyCancelled
  require (s.dkgFinalized = true) .dkgNotFinalized
  require (el.votingEnd ≤ timestamp) (.votingStillOpen timestamp)
  require (s.aggregatePublished = false) .alreadyFinalized
  require (voter ∈ el.keyperSet.members) (.unauthorizedKeyper voter)
  require (aggregate.aggregates.length = el.numCandidates) .invalidAggregatePayload
  if s.aggregateVoteDigestOf voter = resultDigest then pure s
  else do
    let counts ← dropVote s.aggregateVoteCountByResult (s.aggregateVoteDigestOf voter)
    let count ← checkedAdd (counts resultDigest) 1
    let s' := { s with
      aggregateVoteDigestOf := Function.update s.aggregateVoteDigestOf voter resultDigest
      aggregateVoteCountByResult := Function.update counts resultDigest count }
    pure (if el.keyperSet.threshold ≤ count then { s' with
        encryptedTally := aggregate
        aggregatePublished := true }
      else s')

def submitAggregate (s : Storage) (timestamp : Nat) (sender : Bytes) (aggregate : EncryptedTally) :
    Except Revert Storage :=
  registerAggregate el s timestamp sender (aggregateDigest E el aggregate) aggregate

def submitAggregateSigned (s : Storage) (timestamp : Nat) (aggregate : EncryptedTally)
    (keyperSig : Bytes) : Except Revert Storage := do
  let signer ← recover E (aggregateDigest E el aggregate) keyperSig
  registerAggregate el s timestamp signer (aggregateDigest E el aggregate) aggregate

def cancelElection (s : Storage) (timestamp : Nat) (sender : Bytes) (hasAdminRole : Bool) :
    Except Revert Storage := do
  require (hasAdminRole = true) (.unauthorizedAccount sender)
  require (s.cancelled = false) .alreadyCancelled
  require (timestamp < el.votingStart) (.votingAlreadyStarted timestamp)
  pure { s with cancelled := true }

end

/-! Reads. -/

def getAggregate (s : Storage) : Except Revert EncryptedTally := do
  require (s.aggregatePublished = true) .aggregateNotPublished
  pure s.encryptedTally

/-- The key and committee of `getElection`, once there are any. -/
def Storage.publishedKey (s : Storage) : Option (Bytes × List Bytes) :=
  if s.dkgFinalized then some (s.electionPublicKey, s.committeePublicKeys) else none

def Storage.publishedAggregate (s : Storage) : Option EncryptedTally := (getAggregate s).toOption

/-! Runs. -/

inductive EntryPoint where
  | voteDKGResult (pkElection : Bytes) (committeePKs : List Bytes)
  | voteDKGResultSigned (pkElection : Bytes) (committeePKs : List Bytes) (keyperSig : Bytes)
  | submitAggregate (aggregate : EncryptedTally)
  | submitAggregateSigned (aggregate : EncryptedTally) (keyperSig : Bytes)
  | cancelElection (hasAdminRole : Bool)

structure Tx where
  timestamp : Nat
  sender : Bytes
  entry : EntryPoint

def Tx.perform (E : EvmLib) (el : Election) (tx : Tx) (s : Storage) : Except Revert Storage :=
  match tx.entry with
  | .voteDKGResult pkElection committeePKs =>
    Contract.voteDKGResult E el s tx.sender pkElection committeePKs
  | .voteDKGResultSigned pkElection committeePKs keyperSig =>
    Contract.voteDKGResultSigned E el s pkElection committeePKs keyperSig
  | .submitAggregate aggregate => Contract.submitAggregate E el s tx.timestamp tx.sender aggregate
  | .submitAggregateSigned aggregate keyperSig =>
    Contract.submitAggregateSigned E el s tx.timestamp aggregate keyperSig
  | .cancelElection hasAdminRole => Contract.cancelElection el s tx.timestamp tx.sender hasAdminRole

/-- The storage after a transaction, accepted or reverted. -/
def Tx.apply (E : EvmLib) (el : Election) (s : Storage) (tx : Tx) : Storage :=
  match tx.perform E el s with
  | .ok s' => s'
  | .error _ => s

def runTxs (E : EvmLib) (el : Election) (s : Storage) (txs : List Tx) : Storage :=
  txs.foldl (Tx.apply E el) s

end Contract
end ElGamalVoting
