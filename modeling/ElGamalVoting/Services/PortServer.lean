import ElGamalVoting.Adapters.Memory
import ElGamalVoting.Envelopes.JsonTransport

/- The storage port over HTTP (`services/data_layer/data_layer.py`).

   The service wraps any adapter (`Backend`). A request is what its routes read of it: the path
   segment of the election, the JSON body as Flask parsed it and the length of its text, the query
   of a ballot page; a response is what the client can tell apart. A route decodes everything before
   it calls the port, so a request that cannot be decoded never reaches the adapter. An answer with
   an integer of too many digits cannot be printed and becomes the error response of the handler.
   Flask has a page of its own for the statuses no handler of the service makes. -/
namespace ElGamalVoting
open Lib
namespace Http

/-! The adapter behind the service. -/

/-- What a write of the port returns. -/
inductive Reply where
  | done
  | electionId (id : Bytes)
  | sequenceNumber (n : Int)
  deriving DecidableEq

/-- The kind of reply each write has. -/
def Reply.Fits : Reply → Write → Prop
  | .electionId _, .register _ _ => True
  | .sequenceNumber _, .ballot _ _ _ => True
  | .done, .cancel _ _ | .done, .dkgResult _ _ _ _ | .done, .aggregate _ _ _ | .done, .decryptionShare _ _ _
  | .done, .result _ _ _ | .done, .tallyStalled _ _ _ _ => True
  | _, _ => False

/-- An adapter of the port: its writes, and its public reads in a state. -/
structure Backend (σ : Type) where
  perform : Call → σ → σ × Py Reply
  reads : σ → DataLayer
  fits : ∀ {call : Call} {s : σ} {r : Reply}, (perform call s).2 = .ok r → r.Fits call.write

def Backend.run {σ : Type} (B : Backend σ) (s : σ) (calls : List Call) : σ :=
  calls.foldl (fun s call => (B.perform call s).1) s

theorem Backend.run_nil {σ : Type} (B : Backend σ) (s : σ) : B.run s [] = s := rfl

/-- What the in-memory layer returns from a write it accepts. -/
def memoryReply (call : Call) (s : InMemoryDataLayer) : Reply :=
  match call.write with
  | .register _ _ => .electionId (beBytes 32 (s.nextId + 1))
  | .ballot electionId _ _ =>
    .sequenceNumber (((s.elections.get? electionId).map fun st => st.ballots.length).getD 0 : Nat)
  | _ => .done

theorem memoryReply_fits (call : Call) (s : InMemoryDataLayer) : (memoryReply call s).Fits call.write := by
  unfold memoryReply
  cases call.write <;> trivial

def memoryBackend (E : EthLib) : Backend InMemoryDataLayer where
  perform call s := (call.apply E s, (call.perform E s).map fun _ => memoryReply call s)
  reads s := s.reads E
  fits := by
    intro call s r h
    cases hperform : call.perform E s with
    | error e =>
      rw [hperform] at h
      cases h
    | ok s' =>
      rw [hperform] at h
      cases h
      exact memoryReply_fits call s

/-! Responses. -/

inductive Response where
  /-- Status 200 with the text of a JSON body. -/
  | ok (body : Json)
  /-- Status 204. -/
  | noContent
  /-- The JSON body `{error, message}` of an error handler. -/
  | error (status : Nat) (error message : String)
  /-- Flask's own page for a status. -/
  | page (status : Nat)

/-- One character of a `repr` in the given quotation marks. -/
def reprChar (quote c : Char) : String :=
  if c = quote ∨ c.toNat = 0x5C then String.ofList [Char.ofNat 0x5C, c]
  else if c.toNat = 0x09 then "\\t"
  else if c.toNat = 0x0A then "\\n"
  else if c.toNat = 0x0D then "\\r"
  else if c.toNat < 0x20 ∨ c.toNat = 0x7F then "\\x" ++ hex [UInt8.ofNat c.toNat]
  else c.toString

/-- `str` of a `KeyError` is the `repr` of its text: in double marks where it has a single one and no
    double one. Characters beyond ASCII are taken to be printable. -/
def reprText (text : String) : String :=
  let single := Char.ofNat 0x27
  let double := Char.ofNat 0x22
  let quote := if single ∈ text.toList ∧ double ∉ text.toList then double else single
  String.join ([quote.toString] ++ text.toList.map (reprChar quote) ++ [quote.toString])

/-- The text of a `ValueError`, its subclasses included. -/
def valueErrorText : PyError → Option String
  | .valueError msg | .badDealers msg _ | .codecError msg | .unicodeDecodeError msg | .jsonDecodeError msg
  | .gatewayRejection msg => some msg
  | _ => none

/-- The handlers of the application, which the write routes are under. -/
def appError (e : PyError) : Response :=
  match e with
  | .keyError msg => .error 404 "KeyError" (reprText msg)
  | .writeAuthorization msg => .error 403 "WriteAuthorizationError" msg
  | .immutability msg => .error 409 "ImmutabilityError" msg
  | .votingWindow msg => .error 422 "VotingWindowError" msg
  | e =>
    match valueErrorText e with
    | some msg => .error 400 "ValueError" msg
    | none => .page 500

/-- The handlers of the read blueprint: one more, for a conflict of two quorums. -/
def readError (e : PyError) : Response :=
  match e with
  | .quorumConflict msg => .error 409 "QuorumConflictError" msg
  | e => appError e

/-! Python's operators on a parsed body. -/

/-- `body[key]`. -/
def subscript (body : Json) (key : String) : Py Json :=
  match body with
  | .obj fields =>
    match Json.lookup fields key with
    | some v => .ok v
    | none => .error (.keyError key)
  | .str _ => .error (.typeError "string indices must be integers, not 'str'")
  | .arr _ => .error (.typeError "list indices must be integers or slices, not str")
  | v => .error (.typeError s!"'{v.typeName}' object is not subscriptable")

/-- `body.get(key)`. -/
def getField (body : Json) (key : String) : Py Json :=
  match body with
  | .obj fields => .ok ((Json.lookup fields key).getD .null)
  | v => .error (.attributeError s!"'{v.typeName}' object has no attribute 'get'")

/-- The items `for p in value` goes through. -/
def iterate (value : Json) : Py (List Json) :=
  match value with
  | .arr items => .ok items
  | .str s => .ok (s.map fun c => .str [c])
  | .obj fields => .ok ((fields.map Prod.fst).eraseDups.map Json.str)
  | v => .error (.typeError s!"'{v.typeName}' object is not iterable")

/-! The write routes. -/

/-- Largest request body, in bytes. -/
def maxContentLength : Nat := 2 * 1024 * 1024

/-- Hard cap on rows per ballot page. -/
def maxBallotPage : Int := 1000

inductive Route where
  | register
  | cancel
  | submitDkg
  | submitBallot
  | submitAggregate
  | submitShare
  | publishResult
  | setTallyStalled
  deriving DecidableEq

structure PostRequest where
  route : Route
  /-- The election's path segment, which `register` has not. -/
  eid : PyStr
  /-- The parsed body; none where it is no JSON. -/
  body : Option Json
  /-- The length of the body, in bytes. -/
  contentLength : Nat

/-- `_eid()`. -/
def eidOf (eid : PyStr) : Py Bytes :=
  match fromHex eid with
  | some electionId => .ok electionId
  | none => .error (.valueError "non-hexadecimal number found in fromhex() arg")

def bodyBytes (body : Json) (key : String) : Py Bytes := do
  decBytes (← subscript body key) key none

/-- The optional gateway signature, empty where there is none. -/
def gatewaySigOf (body : Json) : Py Bytes := do
  if truthy (← getField body "gatewaySig") then bodyBytes body "gatewaySig" else pure []

/-- The write a route makes of a body, its arguments in the order the route evaluates them. -/
def Route.write (conv : PyConversions) (route : Route) (eid : PyStr) (body : Json) : Py Write :=
  match route with
  | .register => do
    let config ← decConfigLimited conv (← subscript body "config")
    let adminSig ← bodyBytes body "adminSig"
    pure (.register config adminSig)
  | .cancel => do
    let electionId ← eidOf eid
    let adminSig ← bodyBytes body "adminSig"
    pure (.cancel electionId adminSig)
  | .submitDkg => do
    let electionId ← eidOf eid
    let pkElection ← bodyBytes body "pkElection"
    let items ← iterate (← subscript body "committeePKs")
    let committeePks ← items.mapM fun p => decBytes p "committeePKs[]" none
    let keyperSig ← bodyBytes body "keyperSig"
    pure (.dkgResult electionId pkElection committeePks keyperSig)
  | .submitBallot => do
    let gatewaySig ← gatewaySigOf body
    let electionId ← eidOf eid
    let ballot ← decBallot (← subscript body "ballot")
    pure (.ballot electionId ballot gatewaySig)
  | .submitAggregate => do
    let electionId ← eidOf eid
    let aggregate ← decAggregate (← subscript body "aggregate")
    let keyperSig ← bodyBytes body "keyperSig"
    pure (.aggregate electionId aggregate keyperSig)
  | .submitShare => do
    let electionId ← eidOf eid
    let share ← decDecryptionShare (← subscript body "share")
    let keyperSig ← bodyBytes body "keyperSig"
    pure (.decryptionShare electionId share keyperSig)
  | .publishResult => do
    let electionId ← eidOf eid
    let result ← decResult (← subscript body "result")
    let sig ← bodyBytes body "resultPublisherSig"
    pure (.result electionId result sig)
  | .setTallyStalled => do
    let electionId ← eidOf eid
    let stalled ← subscript body "stalled"
    let sig ← bodyBytes body "resultPublisherSig"
    let issuedAt ← intOf conv (← subscript body "issuedAt")
    pure (.tallyStalled electionId (truthy stalled) sig issuedAt)

/-- `jsonify`, under a handler of its `ValueError`. It sorts the names, which no reader of the text sees. -/
def printed (handler : PyError → Response) (body : Json) : Response :=
  if body.printable then .ok body else handler tooManyDigits

def replyResponse : Py Reply → Response
  | .ok .done => .noContent
  | .ok (.electionId id) => printed appError (.obj [(pyStr "electionId", encBytes id)])
  | .ok (.sequenceNumber n) => printed appError (.obj [(pyStr "sequenceNumber", .int n)])
  | .error e => appError e

section
variable {σ : Type} (B : Backend σ) (conv : PyConversions)

/-- A request with the readings of the clock during it: the adapter's state after it, and the response.
    Without the election's segment the path is that of a read, which takes no `POST`. -/
def servePost (now later : Int) (r : PostRequest) (s : σ) : σ × Response :=
  if r.route ≠ .register ∧ r.eid = [] then (s, .page 405)
  else if maxContentLength < r.contentLength then (s, .page 413)
  else match r.body with
    | none => (s, .page 400)
    | some body =>
      match r.route.write conv r.eid body with
      | .error e => (s, appError e)
      | .ok write =>
        let out := B.perform ⟨now, later, write⟩ s
        (out.1, replyResponse out.2)

/-- A run of requests, each with its readings of the clock. -/
def serveAll (s : σ) (requests : List (Int × Int × PostRequest)) : σ :=
  requests.foldl (fun s r => (servePost B conv r.1 r.2.1 r.2.2 s).1) s

end

/-! The read routes. -/

def finalizedKeyJson : Option FinalizedKey → Json
  | none => .null
  | some fk => .obj [(pyStr "pkElection", encBytes fk.pkElection),
      (pyStr "committeePKs", .arr (fk.committeePks.map encBytes))]

def storedBallotJson (sb : StoredBallot) : Json :=
  .obj [(pyStr "ballot", encBallot sb.envelope), (pyStr "sequenceNumber", .int sb.sequenceNumber),
    (pyStr "submittedAt", (sb.submittedAt.map Json.int).getD .null)]

def recordFields (rec : ElectionRecord) (config : Json) : Json :=
  .obj [(pyStr "config", config), (pyStr "cancelled", .bool rec.cancelled),
    (pyStr "tallyStalled", .bool rec.tallyStalled), (pyStr "finalizedKey", finalizedKeyJson rec.finalizedKey)]

/-- What a read route answers. -/
def answered (x : Py Json) : Response :=
  match x with
  | .ok body => printed readError body
  | .error e => readError e

/-- An answer with the value of one name. -/
def jsonify (name : String) (x : Py Json) : Response := answered (do pure (.obj [(pyStr name, ← x)]))

section
variable (dl : DataLayer) (eid : PyStr)

def getElectionRoute : Response :=
  answered (do
    let rec ← dl.getElection (← eidOf eid)
    pure (recordFields rec (← encConfigLimited rec.config)))

def getDkgRoute : Response :=
  jsonify "submissions" (do pure (.arr ((← dl.getDkgSubmissions (← eidOf eid)).map encDkgResult)))

def getFinalizedRoute : Response :=
  jsonify "finalizedKey" (do pure (finalizedKeyJson (← dl.getFinalizedKey (← eidOf eid))))

/-- `int(request.args.get(name, 0))`. -/
def queryInt (arg : Option PyStr) : Py Int :=
  match arg with
  | none => .ok 0
  | some text =>
    if maxStrDigits < digitCount text then .error tooManyDigits
    else match intOfStr text with
      | some n => .ok n
      | none => .error (.valueError "invalid literal for int() with base 10")

def listBallotsRoute (start count : Option PyStr) : Response :=
  jsonify "ballots" (do
    let start ← queryInt start
    let count ← queryInt count
    let rows ← dl.listBallots (← eidOf eid) start (min count maxBallotPage)
    pure (.arr (rows.map storedBallotJson)))

def countBallotsRoute : Response := jsonify "count" (do pure (.int (← dl.countBallots (← eidOf eid))))

def getAggregateRoute : Response :=
  jsonify "aggregate" (do pure (((← dl.getAggregate (← eidOf eid)).map encAggregate).getD .null))

def listSharesRoute : Response :=
  jsonify "shares" (do pure (.arr ((← dl.listDecryptionShares (← eidOf eid)).map encDecryptionShare)))

def getResultRoute : Response :=
  jsonify "result" (do pure (((← dl.getResult (← eidOf eid)).map encResult).getD .null))

end

end Http
end ElGamalVoting
