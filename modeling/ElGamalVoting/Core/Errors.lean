/- The exceptions the Python code raises, each with its message, and the monad
   of a computation that returns a value or raises one. -/
namespace ElGamalVoting

inductive PyError where
  | valueError (msg : String)
  /-- A `ValueError` that carries a `bad_dealers` attribute. -/
  | badDealers (msg : String) (dealers : List Int)
  | overflowError (msg : String)
  | indexError (msg : String)
  | keyError (msg : String)
  | attributeError (msg : String)
  | typeError (msg : String)
  | unicodeDecodeError (msg : String)
  /-- `JSONDecodeError`: a text that is no JSON value. -/
  | jsonDecodeError (msg : String)
  /-- `DataError` of the database driver: a value its column does not hold. -/
  | dataError (msg : String)
  | runtimeError (msg : String)
  /-- `WriteAuthorizationError`: a write not signed by an authorized identity. -/
  | writeAuthorization (msg : String)
  /-- `ImmutabilityError`: a write that would change something fixed. -/
  | immutability (msg : String)
  /-- `VotingWindowError`: a write at the wrong point of the lifecycle. -/
  | votingWindow (msg : String)
  /-- `QuorumConflictError`: two different artifacts each reached the quorum. -/
  | quorumConflict (msg : String)
  /-- `IncompleteBallotRead`: paging did not recover the contiguous ballot list. -/
  | incompleteBallotRead (msg : String)
  /-- `TallyInfeasible`: the bound exceeds the deployment's solver ceiling. -/
  | tallyInfeasible (msg : String)
  /-- `TallyError`: the tally was asked for in the wrong state. -/
  | tallyError (msg : String)
  /-- `GatewayRejection`: the admission filter turned a ballot away. -/
  | gatewayRejection (msg : String)
  /-- `KeyperRefusal`: a keyper's own precondition failed. -/
  | keyperRefusal (msg : String)
  /-- `CodecError`: an envelope that cannot be decoded. -/
  | codecError (msg : String)
  /-- `EncodingError` of the ABI encoder: a value outside its type. -/
  | encodingError (msg : String)
  /-- `RequestException` of the HTTP client: a request that is not sent. -/
  | requestError (msg : String)
  deriving DecidableEq, Repr

abbrev Py := Except PyError

/-- A list of integers as an f-string prints it. -/
def listText (l : List Int) : String := "[" ++ ", ".intercalate (l.map toString) ++ "]"

end ElGamalVoting
