import ElGamalVoting.Services.PortServer

/- The remote data layer (`adapters/db/client.py`).

   `HttpDataLayerClient` implements the port by requests to the service of `Services.PortServer`:
   it encodes the arguments of a call, maps an error status back to an exception of the port, and
   decodes the answer. Bodies and answers cross as JSON texts, with a space after each comma and colon
   in a body and none in an answer. A client in front of a service in front of an adapter is an adapter
   again (`HttpLib.client`). The texts of Flask's own pages are those of the HTTP libraries. -/
namespace ElGamalVoting
open Lib
namespace Http

/-- What the HTTP libraries decide. -/
structure HttpLib where
  /-- How deep a JSON value may be nested. -/
  depth : Nat
  deep : 8 ≤ depth
  /-- The text of Flask's page for a status. -/
  page : Nat → String

/-- `json.loads` of a body or an answer. -/
def HttpLib.loads (lib : HttpLib) (text : Bytes) : Py Json :=
  match decodeUtf8 text with
  | some s => jsonLoads lib.depth s
  | none => .error (.unicodeDecodeError "'utf-8' codec can't decode byte")

/-! Requests. -/

/-- `self._eid(election_id)`. -/
def clientEid (electionId : Bytes) : PyStr := pyStr (hex electionId)

/-- The body of a ballot, with a gateway signature only where there is one. -/
def ballotBody (ballot : BallotEnvelope) (gatewaySig : Bytes) : Json :=
  if gatewaySig = [] then .obj [(pyStr "ballot", encBallot ballot)]
  else .obj [(pyStr "ballot", encBallot ballot), (pyStr "gatewaySig", encBytes gatewaySig)]

def routeOf : Write → Route
  | .register _ _ => .register
  | .cancel _ _ => .cancel
  | .dkgResult _ _ _ _ => .submitDkg
  | .ballot _ _ _ => .submitBallot
  | .aggregate _ _ _ => .submitAggregate
  | .decryptionShare _ _ _ => .submitShare
  | .result _ _ _ => .publishResult
  | .tallyStalled _ _ _ _ => .setTallyStalled

def segmentOf : Write → PyStr
  | .register _ _ => []
  | .cancel electionId _ | .dkgResult electionId _ _ _ | .ballot electionId _ _ | .aggregate electionId _ _
  | .decryptionShare electionId _ _ | .result electionId _ _ | .tallyStalled electionId _ _ _ =>
    clientEid electionId

/-- The body of a write; the encoder of a configuration raises on a fee of too many digits. -/
def bodyOf : Write → Py Json
  | .register config adminSig => do
    pure (.obj [(pyStr "config", ← encConfigLimited config), (pyStr "adminSig", encBytes adminSig)])
  | .cancel _ adminSig => pure (.obj [(pyStr "adminSig", encBytes adminSig)])
  | .dkgResult _ pkElection committeePks keyperSig =>
    pure (.obj [(pyStr "pkElection", encBytes pkElection), (pyStr "committeePKs", .arr (committeePks.map encBytes)),
      (pyStr "keyperSig", encBytes keyperSig)])
  | .ballot _ ballot gatewaySig => pure (ballotBody ballot gatewaySig)
  | .aggregate _ aggregate keyperSig =>
    pure (.obj [(pyStr "aggregate", encAggregate aggregate), (pyStr "keyperSig", encBytes keyperSig)])
  | .decryptionShare _ share keyperSig =>
    pure (.obj [(pyStr "share", encDecryptionShare share), (pyStr "keyperSig", encBytes keyperSig)])
  | .result _ result resultPublisherSig =>
    pure (.obj [(pyStr "result", encResult result), (pyStr "resultPublisherSig", encBytes resultPublisherSig)])
  | .tallyStalled _ stalled sig issuedAt =>
    pure (.obj [(pyStr "stalled", .bool stalled), (pyStr "resultPublisherSig", encBytes sig),
      (pyStr "issuedAt", .int issuedAt)])

/-- The text of a body. -/
def bodyText (body : Json) : Bytes := asciiBytes (body.render [0x20])

/-- A request of the client. The HTTP library raises an error of its own, which is no `ValueError`, where
    the body is not printed. -/
def HttpLib.request (lib : HttpLib) (write : Write) : Py PostRequest := do
  let body ← bodyOf write
  if body.printable then
    pure { route := routeOf write, eid := segmentOf write, body := (lib.loads (bodyText body)).toOption,
           contentLength := (bodyText body).length }
  else .error (.requestError "Exceeds the limit (4300 digits) for integer string conversion")

/-! Answers. -/

/-- `_raise_for_status`, for a status that is an error. -/
def statusError (status : Nat) (message : String) : PyError :=
  if status = 404 then .keyError message
  else if status = 403 then .writeAuthorization message
  else if status = 409 then .immutability message
  else if status = 422 then .votingWindow message
  else .valueError s!"HTTP {status}: {message}"

/-- The JSON of a response that is no error; `None` where it has no content. -/
def HttpLib.received (lib : HttpLib) : Response → Py Json
  | .ok body => lib.loads (asciiBytes (body.render []))
  | .noContent => .ok .null
  | .error status _ message => .error (statusError status message)
  | .page status => .error (statusError status (lib.page status))

/-- What the client returns from the answer to a write. -/
def replyOf (conv : PyConversions) (write : Write) (out : Json) : Py Reply :=
  match write with
  | .register _ _ => do pure (.electionId (← bodyBytes out "electionId"))
  | .ballot _ _ _ => do pure (.sequenceNumber (← intOf conv (← subscript out "sequenceNumber")))
  | _ => pure .done

/-! Reads. -/

/-- `_finalized_key`. -/
def decFinalizedKey (d : Json) : Py (Option FinalizedKey) :=
  match d with
  | .null => .ok none
  | d => do
    let pkElection ← bodyBytes d "pkElection"
    let items ← iterate (← subscript d "committeePKs")
    let committeePks ← items.mapM fun p => decBytes p "committeePKs[]" none
    pure (some ⟨pkElection, committeePks⟩)

/-- The record of an election: an answer from before the flag has no `tallyStalled`. -/
def decRecord (conv : PyConversions) (d : Json) : Py ElectionRecord := do
  let config ← decConfigLimited conv (← subscript d "config")
  let cancelled ← subscript d "cancelled"
  let tallyStalled := getOr d "tallyStalled" (.bool false)
  let finalizedKey ← decFinalizedKey (← subscript d "finalizedKey")
  pure { config, cancelled := truthy cancelled, tallyStalled := truthy tallyStalled, finalizedKey }

def decSubmittedAt (conv : PyConversions) (row : Json) : Py (Option Int) := do
  match (← getField row "submittedAt") with
  | .null => pure none
  | _ => pure (some (← intOf conv (← subscript row "submittedAt")))

def decStoredBallot (conv : PyConversions) (row : Json) : Py StoredBallot := do
  let sequenceNumber ← intOf conv (← subscript row "sequenceNumber")
  let envelope ← decBallot (← subscript row "ballot")
  let submittedAt ← decSubmittedAt conv row
  pure { sequenceNumber, envelope, submittedAt }

/-- An artifact that may not be there yet. -/
def decOptional {α : Type} (dec : Json → Py α) (d : Json) : Py (Option α) := do
  if truthy d then pure (some (← dec d)) else pure none

/-- A list of artifacts. -/
def decItems {α : Type} (dec : Json → Py α) (d : Json) : Py (List α) := do
  (← iterate d).mapM dec

/-- `str` of a number of a query. -/
def queryText (n : Int) : Py PyStr :=
  if (Json.int n).printable then .ok (pyStr (toString n)) else .error tooManyDigits

section
variable (lib : HttpLib) (conv : PyConversions)

/-- The reads of the client, from a service that reads an adapter. -/
def HttpLib.reads (dl : DataLayer) : DataLayer where
  getElection id := do decRecord conv (← lib.received (getElectionRoute dl (clientEid id)))
  getDkgSubmissions id := do
    let d ← lib.received (getDkgRoute dl (clientEid id))
    decItems decDkgResult (← subscript d "submissions")
  getFinalizedKey id := do
    let d ← lib.received (getFinalizedRoute dl (clientEid id))
    decFinalizedKey (← subscript d "finalizedKey")
  listBallots id start count := do
    let start ← queryText start
    let count ← queryText count
    let d ← lib.received (listBallotsRoute dl (clientEid id) (some start) (some count))
    decItems (decStoredBallot conv) (← subscript d "ballots")
  countBallots id := do
    let d ← lib.received (countBallotsRoute dl (clientEid id))
    intOf conv (← subscript d "count")
  getAggregate id := do
    let d ← lib.received (getAggregateRoute dl (clientEid id))
    decOptional decAggregate (← subscript d "aggregate")
  listDecryptionShares id := do
    let d ← lib.received (listSharesRoute dl (clientEid id))
    decItems decDecryptionShare (← subscript d "shares")
  getResult id := do
    let d ← lib.received (getResultRoute dl (clientEid id))
    decOptional decResult (← subscript d "result")

theorem replyOf_fits {write : Write} {out : Json} {r : Reply} (h : replyOf conv write out = .ok r) :
    r.Fits write := by
  cases write with
  | register config adminSig =>
    obtain ⟨id, -, h⟩ := bind_eq_ok.mp h
    cases h
    trivial
  | ballot electionId ballot gatewaySig =>
    obtain ⟨v, -, h⟩ := bind_eq_ok.mp h
    obtain ⟨n, -, h⟩ := bind_eq_ok.mp h
    cases h
    trivial
  | _ =>
    cases h
    trivial

/-- A client of the service in front of an adapter. -/
def HttpLib.client {σ : Type} (B : Backend σ) : Backend σ where
  perform call s :=
    match lib.request call.write with
    | .error e => (s, .error e)
    | .ok r =>
      let out := servePost B conv call.now call.later r s
      (out.1, do replyOf conv call.write (← lib.received out.2))
  reads s := lib.reads conv (B.reads s)
  fits := by
    intro call s r h
    cases hrequest : lib.request call.write with
    | error e =>
      rw [hrequest] at h
      cases h
    | ok request =>
      rw [hrequest] at h
      obtain ⟨out, -, h⟩ := bind_eq_ok.mp h
      exact replyOf_fits conv h

end

end Http
end ElGamalVoting
