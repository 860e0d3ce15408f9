import ElGamalVoting.Core.DecryptionShares
import ElGamalVoting.Services.Reads

/- The keyper service (`services/keyper/keyper.py`).

   A keyper never trusts its trigger: before it aggregates or decrypts it reads
   the election from the data layer and checks the derived state itself. The reads
   are those of `DataLayer`; the writes are left to the caller, so each method
   returns the signed artifact. -/
namespace ElGamalVoting
open Lib

section
variable {G₁ G₂ : Type} [AddCommGroup G₁] [AddCommGroup G₂] (S : Suite G₁ G₂) (E : EthLib)

/-- The keyper's 1-based index, its signing identity and its DKG state. -/
structure KeyperService (G₂ : Type) where
  index : Int
  signer : Signer
  dkg : KeyperDKGState G₂

namespace KeyperService

/-- The joint key and committee a keyper derives from the commitments, and its
    signature over them. -/
def dkgResult (keyper : KeyperService G₂) (electionId : Bytes) (allCommitments : Dict Int (List G₂)) :
    Py DKGResultSubmission := do
  let quorum := keyper.dkg.quorum
  let pk ← deriveJointMpk allCommitments quorum
  let committee ← (sortedKeys allCommitments).mapM fun i : Int => deriveMpkShare i allCommitments quorum
  let pkB := S.g2.toCompressed pk
  let committeeB := committee.map S.g2.toCompressed
  let sig ← signDigest E keyper.signer.privateKey (dkgResultDigest E electionId pkB committeeB)
  pure ⟨electionId, pkB, committeeB, sig⟩

omit [AddCommGroup G₂] in
/-- The guards `check_can_aggregate` and `produce_decryption_share` share: the
    derived state, and a finalized key. -/
def checkCanAggregate (dl : DataLayer) (electionId : Bytes) (now : Int) :
    Py (ElectionRecord × FinalizedKey) := do
  let rec' ← dl.getElection electionId
  let result ← dl.getResult electionId
  let facts : StateFacts := {
    cancelled := rec'.cancelled
    keyFinalized := rec'.finalizedKey.isSome
    resultPublished := result.isSome }
  let state := deriveState rec'.config facts now
  if state ≠ .tallying ∧ state ≠ .complete then
    .error (.keyperRefusal s!"refuse: state is {state.value}, not tallying")
  else match rec'.finalizedKey with
    | none => .error (.keyperRefusal "refuse: no finalized key")
    | some key => pure (rec', key)

/-- Re-derive the aggregate from the stored ballots and sign it. -/
def produceAggregate [DecidableEq G₁] [DecidableEq G₂] (keyper : KeyperService G₂) (dl : DataLayer)
    (electionId : Bytes) (now : Int) : Py (AggregateArtifact × Bytes) := do
  let (rec', key) ← checkCanAggregate dl electionId now
  let stored ← readAllBallots dl electionId
  let admission ← admitBallots S stored rec'.config key.pkElection
  let artifact ← buildAggregateArtifact S rec'.config admission
  let digest ← aggregateDigestOf E electionId artifact
  let sig ← signDigest E keyper.signer.privateKey digest
  pure (artifact, sig)

/-- The loop over the aggregate's ciphertexts, with the nonce of each proof. -/
def decryptEntries (keyper : KeyperService G₂) (electionId : Bytes) (aggregates : List Ciphertext)
    (nonce : Nat → Int) : Py (List DecryptionShareEntry) :=
  aggregates.zipIdx.mapM fun ct =>
    decryptEntry S keyper.dkg keyper.index electionId ct.2 ct.1 (nonce ct.2)

/-- This keyper's share of the canonical aggregate and its signature, or `none` when the
    data layer already holds one of this keyper's. -/
def produceDecryptionShare (keyper : KeyperService G₂) (dl : DataLayer) (electionId : Bytes)
    (now : Int) (nonce : Nat → Int) : Py (Option (DecryptionShareEnvelope × Bytes)) := do
  let _ ← checkCanAggregate dl electionId now
  match (← dl.getAggregate electionId) with
  | none => .error (.keyperRefusal "refuse: no aggregate published")
  | some agg => do
    let submitted ← dl.listDecryptionShares electionId
    if submitted.any fun s => s.keyperIndex == keyper.index then pure none
    else
      let entries ← keyper.decryptEntries S electionId agg.aggregates nonce
      let digest ← shareEnvelopeDigest E electionId entries
      let sig ← signDigest E keyper.signer.privateKey digest
      pure (some (⟨electionId, keyper.index, entries⟩, sig))

end KeyperService
end
end ElGamalVoting
