import ElGamalVoting.Crypto.Params

/- The artifact envelopes (`envelopes/types.py`): pure data, with byte fields as
   raw bytes. Integers are Python's, so a weight or a sequence number is any
   integer here; what bounds them is checked where they are used. -/
namespace ElGamalVoting
open Lib

inductive ExclusionReason where
  | invalidProof
  | invalidSignature
  | invalidAttestation
  | duplicatePseudonym
  | malformed
  | outOfWindow
  deriving DecidableEq, Repr

/-- The reason code on the wire. -/
def ExclusionReason.value : ExclusionReason → String
  | invalidProof => "INVALID_PROOF"
  | invalidSignature => "INVALID_SIGNATURE"
  | invalidAttestation => "INVALID_ATTESTATION"
  | duplicatePseudonym => "DUPLICATE_PSEUDONYM"
  | malformed => "MALFORMED"
  | outOfWindow => "OUT_OF_WINDOW"

inductive AttestationScheme where
  | v1
  deriving DecidableEq, Repr

def AttestationScheme.value : AttestationScheme → String
  | v1 => "ATTESTATION_V1"

structure Ciphertext where
  c1 : Bytes
  c2 : Bytes
  deriving DecidableEq

structure Attestation where
  electionId : Bytes
  pseudonym : Bytes
  vk : Bytes
  weight : Int
  signature : Bytes
  scheme : AttestationScheme := .v1
  nonce : Int := 1
  deriving DecidableEq

structure BallotEnvelope where
  electionId : Bytes
  pseudonym : Bytes
  vk : Bytes
  ciphertexts : List Ciphertext
  zkProof : Bytes
  voterSignature : Bytes
  attestation : Attestation
  deriving DecidableEq

/-- An envelope with its storage metadata; `submittedAt` is the adapter's receive
    time, absent for a ballot that was never stored. -/
structure StoredBallot where
  sequenceNumber : Int
  envelope : BallotEnvelope
  submittedAt : Option Int := none
  deriving DecidableEq

structure DKGResultSubmission where
  electionId : Bytes
  pkElection : Bytes
  committeePks : List Bytes
  keyperSignature : Bytes
  deriving DecidableEq

structure DecryptionShareEntry where
  sigma : Bytes
  proof : Bytes
  deriving DecidableEq

structure DecryptionShareEnvelope where
  electionId : Bytes
  keyperIndex : Int
  entries : List DecryptionShareEntry
  deriving DecidableEq

structure Exclusion where
  sequenceNumber : Int
  reason : ExclusionReason
  deriving DecidableEq

structure AggregateArtifact where
  electionId : Bytes
  aggregates : List Ciphertext
  admitted : List Int
  exclusions : List Exclusion
  totalAdmittedWeight : Int
  totalScaledWeight : Int := 0
  deriving DecidableEq

structure ResultArtifact where
  electionId : Bytes
  totals : List Int
  keyperIndices : List Int
  bsgsBound : Int
  deriving DecidableEq

end ElGamalVoting
