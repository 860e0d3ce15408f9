import ElGamalVoting.Adapters.ChainBallots
import ElGamalVoting.Adapters.ChainConfig
import ElGamalVoting.Contracts.Decryption

/- The reads of the chain adapter (`adapters/chain/client.py`, with the decoders of
   `adapters/chain/codec.py`).

   `ChainElection` is what one election answers to the calls of the adapter: its configuration
   and storage, its `DKGVoteRegistered` logs, its ballots, shares and result. `ChainElection.after`
   is that of a run of transactions; what the shares and the result are does not depend on the
   committee's votes and is given with the run.

   A log of a vote carries the voter and the key alone. The submission it is read as has the
   committee of the final key, if there is one, and no signature. -/
namespace ElGamalVoting
open Lib Contract

namespace Contract

structure ElectionResult where
  tally : List Nat
  keyperIndices : List Nat

/-- `DKGVoteRegistered` -/
structure DKGVoteLog where
  keyper : Bytes
  pkElection : Bytes

end Contract

structure ChainElection extends Instance where
  dkgVotes : List DKGVoteLog
  ballotRecords : List BallotRecord
  decryptionShares : List Contract.DecryptionShare
  /-- Absent until the result is final. -/
  result : Option ElectionResult

/-! What a run of transactions leaves. -/

/-- The event of an accepted vote for a key. -/
def Contract.Vote.dkgLog : Vote → Option DKGVoteLog
  | .dkg voter pkElection _ => some ⟨voter, pkElection⟩
  | .aggregate _ _ _ => none

/-- The transactions that are no ballot. -/
def Contract.BoardTx.committeeTx : BoardTx → Option Tx
  | .vote _ => none
  | .other tx => some tx

def ChainElection.after (E : EvmLib) (el : Election) (fixed : Fixed) (txs : List BoardTx)
    (decryptionShares : List Contract.DecryptionShare) (result : Option ElectionResult) : ChainElection where
  fixed
  storage := (runBoard E el fixed.params.selfSubmitFee {} txs).votes
  dkgVotes := (acceptedVotes E el {} (txs.filterMap BoardTx.committeeTx)).filterMap Vote.dkgLog
  ballotRecords := (runBoard E el fixed.params.selfSubmitFee {} txs).ballotRecords
  decryptionShares
  result

/-! The decoders. -/

def aggregateFromContract (raw : EncryptedTally) (electionId : Bytes) : Py AggregateArtifact := do
  let exclusions ← raw.exclusions.mapM fun x => do
    let reason ← fromU8 exclusionReasons exclusionCode x.2
    pure (⟨x.1, reason⟩ : Exclusion)
  pure {
    electionId
    aggregates := raw.aggregates.map fun c => ⟨c.1, c.2⟩
    admitted := raw.admitted.map Int.ofNat
    exclusions
    totalAdmittedWeight := raw.totalAdmittedWeight
    totalScaledWeight := raw.totalScaledWeight }

/-- The contract counts the keypers from zero. -/
def shareFromContract (raw : Contract.DecryptionShare) (electionId : Bytes) : Py DecryptionShareEnvelope := do
  let entries ← (raw.shares.zip raw.proofs).mapM fun x => do
    let e ← toBytes x.2.1 32
    let z ← toBytes x.2.2 32
    pure (⟨x.1, e ++ z⟩ : DecryptionShareEntry)
  pure ⟨electionId, raw.keyperIndex + 1, entries⟩

/-! The reads. -/

section
variable (depth : Nat)

def ChainElection.getDkgSubmissions (c : ChainElection) (electionId : Bytes) : List DKGResultSubmission :=
  let committee := if c.storage.dkgFinalized then c.storage.committeePublicKeys else []
  c.dkgVotes.map fun ev => {
    electionId
    pkElection := ev.pkElection
    committeePks := committee
    keyperSignature := [] }

def ChainElection.getFinalizedKey (c : ChainElection) : Option FinalizedKey :=
  if c.storage.dkgFinalized then some ⟨c.storage.electionPublicKey, c.storage.committeePublicKeys⟩ else none

/-- `_read_aggregate`: a revert is no aggregate. -/
def ChainElection.readAggregate (c : ChainElection) (electionId : Bytes) : Py (Option AggregateArtifact) :=
  match Contract.getAggregate c.storage with
  | .error _ => .ok none
  | .ok raw => do
    let aggregate ← aggregateFromContract raw electionId
    pure (some aggregate)

/-- The bound is not on chain: it is derived from the aggregate. -/
def ChainElection.getResult (c : ChainElection) (electionId : Bytes) : Py (Option ResultArtifact) :=
  match c.result with
  | none => .ok none
  | some raw => do
    let agg ← c.readAggregate electionId
    let scaled := match agg with
      | some agg => agg.totalScaledWeight
      | none => 0
    pure (some {
      electionId
      totals := raw.tally.map Int.ofNat
      keyperIndices := raw.keyperIndices.map Int.ofNat
      bsgsBound := c.fixed.params.budget * scaled })

def blockchainDataLayer (elections : Nat → Option ChainElection) : DataLayer where
  getElection electionId := do
    let c ← electionOf elections electionId
    electionRecordOf c.toInstance
  getDkgSubmissions electionId := do
    let c ← electionOf elections electionId
    pure (c.getDkgSubmissions electionId)
  getFinalizedKey electionId := do
    let c ← electionOf elections electionId
    pure c.getFinalizedKey
  listBallots electionId start count := do
    let c ← electionOf elections electionId
    Contract.listBallots depth ⟨c.storage, c.ballotRecords⟩ electionId start count
  countBallots electionId := do
    let c ← electionOf elections electionId
    pure c.ballotRecords.length
  getAggregate electionId := do
    let c ← electionOf elections electionId
    c.readAggregate electionId
  listDecryptionShares electionId := do
    let c ← electionOf elections electionId
    c.decryptionShares.mapM fun s => shareFromContract s electionId
  getResult electionId := do
    let c ← electionOf elections electionId
    c.getResult electionId

end
end ElGamalVoting
