import ElGamalVoting.Core.WriteAuth

/- The storage port (`ports/data_layer.py`): the records a store answers with,
   and the public reads the services make. `DataLayer` is the answers of one
   store to the reads of one call of a service; no relation between them is
   assumed, since the store is untrusted. -/
namespace ElGamalVoting
open Lib

structure FinalizedKey where
  pkElection : Bytes
  committeePks : List Bytes
  deriving DecidableEq

structure ElectionRecord where
  config : ElectionConfig
  cancelled : Bool
  finalizedKey : Option FinalizedKey
  tallyStalled : Bool := false

structure DataLayer where
  getElection : Bytes → Py ElectionRecord
  getDkgSubmissions : Bytes → Py (List DKGResultSubmission)
  getFinalizedKey : Bytes → Py (Option FinalizedKey)
  listBallots : Bytes → Int → Int → Py (List StoredBallot)
  countBallots : Bytes → Py Int
  getAggregate : Bytes → Py (Option AggregateArtifact)
  listDecryptionShares : Bytes → Py (List DecryptionShareEnvelope)
  getResult : Bytes → Py (Option ResultArtifact)

end ElGamalVoting
