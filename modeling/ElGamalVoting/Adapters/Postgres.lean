import ElGamalVoting.Adapters.Memory
import ElGamalVoting.Envelopes.CanonicalText
import ElGamalVoting.Lib.Table

/- The database data layer (`adapters/db/store.py` over `adapters/db/schema.py`).

   A table is a dictionary by its primary key and an artifact column holds the JSON
   envelope, decoded again on every read. Each operation is one transaction: one that
   raises leaves every table as it was (`transaction`), but a number drawn from the
   id sequence stays drawn. Where a query gives no `ORDER BY`, the order of its rows
   is the database's (`RowOrder`), chosen anew for each operation. A `BIGINT` column
   holds the 64-bit integers, and so does a `LIMIT`; a JSON text holds neither NUL nor
   a lone surrogate. The columns that only count rows (`seq`, `keyper_index`, the
   sequence) are unbounded here. -/
namespace ElGamalVoting
open Lib

namespace Postgres

structure ElectionRow where
  config : Json
  adminKey : Bytes
  votingStart : Int
  cancelled : Bool := false
  tallyStalled : Bool := false

structure BallotRow where
  ballot : Json
  submittedAt : Int

structure Database where
  lastValue : Nat := 1
  isCalled : Bool := false
  elections : Dict Bytes ElectionRow := ∅
  dkgSubmissions : Dict (Bytes × Int) Json := ∅
  ballots : Dict (Bytes × Int) BallotRow := ∅
  decryptionShares : Dict (Bytes × Int) Json := ∅
  aggregates : Dict (Bytes × Int) Json := ∅
  results : Dict Bytes Json := ∅
  requestNonces : List (Bytes × String × Int) := []

/-- The order in which the database returns the rows of an unordered query. -/
structure RowOrder where
  arrange : List (Int × Json) → List (Int × Json)
  perm : ∀ rows, (arrange rows).Perm rows

/-- A value for a `BIGINT` column. -/
def bigint (v : Int) : Py Int :=
  if -2 ^ 63 ≤ v ∧ v < 2 ^ 63 then .ok v else .error (.dataError "bigint out of range")

/-- A string behind its JSON text: a surrogate pair held as two code points is one character. -/
def joinPairs : PyStr → PyStr
  | c :: d :: s =>
    if isHigh c ∧ isLow d then (0x10000 + (c - 0xD800) * 0x400 + (d - 0xDC00)) :: joinPairs s
    else c :: joinPairs (d :: s)
  | s => s

/-- What a JSON text column takes. -/
def storableText (s : PyStr) : Bool := (joinPairs s).all fun c => c ≠ 0 ∧ ¬ (0xD800 ≤ c ∧ c ≤ 0xDFFF)

/-- A configuration behind its JSON text. -/
def joinTexts (config : ElectionConfig) : ElectionConfig :=
  { config with
    protocolVersion := joinPairs config.protocolVersion
    keypers := config.keypers.map fun k => { k with url := joinPairs k.url }
    length_keypers := by rw [List.length_map, config.length_keypers]
    nodup_keys := by
      rw [List.map_map]
      exact config.nodup_keys }

/-- A configuration for a `JSONB` column. Its other strings are hexadecimal or fixed, as are
    all strings of the other envelopes. -/
def jsonbConfig (config : ElectionConfig) : Py Json :=
  if storableText config.protocolVersion ∧ ∀ k ∈ config.keypers, storableText k.url then
    .ok (encConfig (joinTexts config))
  else .error (.dataError "unsupported Unicode escape sequence")

section
variable (conv : PyConversions) (order : RowOrder) (db : Database)

/-- Python's `_config`. -/
def configOf (electionId : Bytes) : Py ElectionConfig :=
  match db.elections.get? electionId with
  | none => .error (.keyError s!"unknown election {hex electionId}")
  | some row => decConfig conv row.config

/-! Reads. -/

def finalizedKey (config : ElectionConfig) : Py (Option FinalizedKey) := do
  let votes ← (order.arrange (Table.rowsOf db.dkgSubmissions config.electionId)).mapM fun row => do
    let sub ← decDkgResult row.2
    pure (row.1, (sub.pkElection, sub.committeePks), (sub.pkElection, sub.committeePks))
  let winner ← resolveUnique (Quorum.groupVotes votes).values config.threshold.t
    "dkg result" config.electionId
  pure (winner.map fun w => ⟨w.1, w.2⟩)

def getFinalizedKey (electionId : Bytes) : Py (Option FinalizedKey) := do
  finalizedKey order db (← configOf conv db electionId)

def getElection (electionId : Bytes) : Py ElectionRecord :=
  match db.elections.get? electionId with
  | none => .error (.keyError s!"unknown election {hex electionId}")
  | some row => do
    let config ← decConfig conv row.config
    let key ← finalizedKey order db config
    pure ⟨config, row.cancelled, key, row.tallyStalled⟩

omit conv order in
def getDkgSubmissions (electionId : Bytes) : Py (List DKGResultSubmission) :=
  (Table.orderBy (Table.rowsOf db.dkgSubmissions electionId)).mapM fun row => decDkgResult row.2

omit conv order in
/-- The rows from `start` on in their order, the first `count` of them. -/
def listBallots (electionId : Bytes) (start count : Int) : Py (List StoredBallot) :=
  if count < 0 then .error (.dataError "LIMIT must not be negative")
  else do
    let limit ← bigint count
    let rows := Table.orderBy ((Table.rowsOf db.ballots electionId).filter fun row => start ≤ row.1)
    (rows.take limit.toNat).mapM fun row => do
      let envelope ← decBallot row.2.ballot
      pure ⟨row.1, envelope, some row.2.submittedAt⟩

omit conv order in
def countBallots (electionId : Bytes) : Int := (Table.rowsOf db.ballots electionId).length

omit conv order in
def getResult (electionId : Bytes) : Py (Option ResultArtifact) :=
  match db.results.get? electionId with
  | none => .ok none
  | some row => do
    let result ← decResult row
    pure (some result)

omit conv order in
def listDecryptionShares (electionId : Bytes) : Py (List DecryptionShareEnvelope) :=
  (Table.orderBy (Table.rowsOf db.decryptionShares electionId)).mapM fun row =>
    decDecryptionShare row.2

end

section
variable (E : EthLib) (conv : PyConversions) (order : RowOrder) (db : Database)

/-- Python's `_aggregate_group_counts`: the votes its loop groups. -/
def aggregateVotes (electionId : Bytes) : Py (List (Int × Bytes × AggregateArtifact)) :=
  (order.arrange (Table.rowsOf db.aggregates electionId)).mapM fun row => do
    let agg ← decAggregate row.2
    let key ← aggregateDigestOf E electionId agg
    pure (row.1, key, agg)

def resolveAggregate (config : ElectionConfig) (electionId : Bytes) : Py (Option AggregateArtifact) := do
  let votes ← aggregateVotes E order db electionId
  resolveUnique (Quorum.groupVotes votes).values config.threshold.t "aggregate" electionId

def getAggregate (electionId : Bytes) : Py (Option AggregateArtifact) := do
  let config ← configOf conv db electionId
  resolveAggregate E order db config electionId

def aggregateFinalized (config : ElectionConfig) : Py Bool := do
  pure (← resolveAggregate E order db config config.electionId).isSome

/-! Writes. -/

/-- The number the id sequence gives next. -/
def Database.peek : Nat := if db.isCalled then db.lastValue + 1 else db.lastValue

/-- `nextval`: the number drawn and the sequence after it. -/
def Database.nextval : Nat × Database := (db.peek, { db with lastValue := db.peek, isCalled := true })

omit conv order in
/-- The registration: what it answers and the database after it. The number stays drawn
    when the row is refused. -/
def registerElection (config : ElectionConfig) (adminSig : Bytes) : Database × Py Unit :=
  if ¬ verifyRegister E config.adminKey adminSig config then
    (db, .error (.writeAuthorization "register: bad admin signature"))
  else match toBytes db.peek 32 with
    | .error e => (db, .error e)
    | .ok expected =>
      if config.electionId ≠ expected then
        (db, .error (.immutability (s!"register: expected election id {hex config.electionId} but the " ++
          s!"next id is {hex expected} — the sequence moved on; re-read it and sign again")))
      else
        let db := db.nextval.2
        match jsonbConfig config, bigint config.votingStart with
        | .error e, _ => (db, .error e)
        | _, .error e => (db, .error e)
        | .ok json, .ok votingStart =>
          ({ db with elections := db.elections.set expected ⟨json, config.adminKey, votingStart, false, false⟩ },
            .ok ())

omit E conv order in
/-- `UPDATE elections ... WHERE election_id`. -/
def updateElection (electionId : Bytes) (change : ElectionRow → ElectionRow) : Dict Bytes ElectionRow :=
  match db.elections.get? electionId with
  | none => db.elections
  | some row => db.elections.set electionId (change row)

omit conv order in
def cancelElection (now : Int) (electionId adminSig : Bytes) : Py Database :=
  match db.elections.get? electionId with
  | none => .error (.keyError s!"unknown election {hex electionId}")
  | some row =>
    if row.votingStart ≤ now then
      .error (.immutability
        "Voting has already started; an election can only be cancelled before it opens.")
    else if ¬ verifyRequest E row.adminKey adminSig "cancel" electionId [] then
      .error (.writeAuthorization "cancel: bad admin signature")
    else pure { db with elections := updateElection db electionId fun row => { row with cancelled := true } }

omit order in
def submitDkgResult (electionId pkElection : Bytes) (committeePks : List Bytes) (keyperSig : Bytes) :
    Py Database := do
  let config ← configOf conv db electionId
  let idx ← keyperIndexByRecovery E config (dkgResultDigest E electionId pkElection committeePks) keyperSig
  match db.dkgSubmissions.get? (electionId, idx) with
  | some existing => do
    let prev ← decDkgResult existing
    if (prev.pkElection, prev.committeePks) ≠ (pkElection, committeePks) then
      .error (.immutability s!"keyper {idx} already submitted a different DKG result")
    else pure db
  | none =>
    let submission := ⟨electionId, pkElection, committeePks, keyperSig⟩
    pure { db with dkgSubmissions := db.dkgSubmissions.set (electionId, idx) (encDkgResult submission) }

omit conv order db in
/-- The closed set of ballot writers, when the configuration names one. -/
def requireGateway (config : ElectionConfig) (electionId : Bytes) (ballot : BallotEnvelope)
    (gatewaySig : Bytes) : Py Unit :=
  if config.gatewayKeys = [] then .ok ()
  else match E.recoverMessage (ballotDigest E electionId ballot) gatewaySig with
    | none => .error (.writeAuthorization "submit_ballot: bad gateway signature")
    | some recovered =>
      if recovered ∈ config.gatewayKeys then .ok ()
      else .error (.writeAuthorization "submit_ballot: signature matches no registered gateway key")

omit E in
def requireVotingOpen (electionId : Bytes) (now : Int) : Py Unit :=
  match db.elections.get? electionId with
  | none => .error (.keyError s!"unknown election {hex electionId}")
  | some row => do
    let config ← decConfig conv row.config
    let key ← finalizedKey order db config
    let facts : StateFacts := {
      cancelled := row.cancelled
      keyFinalized := key.isSome
      resultPublished := (db.results.get? electionId).isSome }
    if deriveState config facts now ≠ .voting then
      .error (.votingWindow "ballot submitted outside the open voting window")
    else pure ()

omit E conv order in
/-- `COALESCE(MAX(seq) + 1, 0)` over the election's ballots. -/
def nextSeq (electionId : Bytes) : Int :=
  match ((Table.rowsOf db.ballots electionId).map Prod.fst).max? with
  | none => 0
  | some seq => seq + 1

def submitBallot (now : Int) (electionId : Bytes) (ballot : BallotEnvelope) (gatewaySig : Bytes) :
    Py Database := do
  let config ← configOf conv db electionId
  requireGateway E config electionId ballot gatewaySig
  requireVotingOpen conv order db electionId now
  let seq := nextSeq db electionId
  let submittedAt ← bigint now
  pure { db with ballots := db.ballots.set (electionId, seq) ⟨encBallot ballot, submittedAt⟩ }

def submitAggregate (now : Int) (electionId : Bytes) (aggregate : AggregateArtifact) (keyperSig : Bytes) :
    Py Database := do
  let config ← configOf conv db electionId
  if now < config.votingEnd then
    .error (.votingWindow "aggregate submitted before voting_end")
  else do
    let digest ← aggregateDigestOf E electionId aggregate
    let idx ← keyperIndexByRecovery E config digest keyperSig
    let existing ← (db.aggregates.get? (electionId, idx)).mapM decAggregate
    if existing = some aggregate then pure db
    else if (← aggregateFinalized E order db config) then
      .error (.immutability "aggregate already finalized (quorum reached)")
    else pure { db with aggregates := db.aggregates.set (electionId, idx) (encAggregate aggregate) }

def submitDecryptionShare (now : Int) (electionId : Bytes) (share : DecryptionShareEnvelope)
    (keyperSig : Bytes) : Py Database := do
  let config ← configOf conv db electionId
  if now < config.votingEnd then
    .error (.votingWindow "decryption share submitted before voting_end")
  else if ¬ (← aggregateFinalized E order db config) then
    .error (.votingWindow "decryption share submitted before a canonical aggregate exists")
  else do
    let digest ← shareEnvelopeDigest E electionId share.entries
    let idx ← keyperIndexByRecovery E config digest keyperSig
    if idx ≠ share.keyperIndex then
      .error (.writeAuthorization
        s!"share keyper_index {share.keyperIndex} does not match signer {idx}")
    else match db.decryptionShares.get? (electionId, idx) with
      | some existing => do
        let existing ← decDecryptionShare existing
        if existing ≠ share then
          .error (.immutability s!"keyper {idx} already submitted different shares")
        else pure db
      | none => pure { db with
          decryptionShares := db.decryptionShares.set (electionId, idx) (encDecryptionShare share) }

omit order in
def publishResult (electionId : Bytes) (result : ResultArtifact) (resultPublisherSig : Bytes) :
    Py Database := do
  let config ← configOf conv db electionId
  let payload ← resultDigest E electionId result
  if ¬ verifyRequest E config.resultPublisherKey resultPublisherSig "result" electionId payload then
    .error (.writeAuthorization "publish_result: bad result-publisher signature")
  else match db.results.get? electionId with
    | some existing => do
      let existing ← decResult existing
      if existing ≠ result then .error (.immutability "result already published (append-only)")
      else pure db
    | none => pure { db with results := db.results.set electionId (encResult result) }

omit conv order in
/-- Who may turn the stall flag, and when. -/
def requireStallAuthority (config : ElectionConfig) (later : Int) (electionId : Bytes) (stalled : Bool)
    (sig payload : Bytes) : Py Unit :=
  if stalled then
    if later < config.votingEnd then
      .error (.votingWindow "cannot mark stalled: voting has not ended")
    else if (db.results.get? electionId).isSome then
      .error (.immutability "result already published; tally cannot be marked stalled")
    else if ¬ verifyRequest E config.resultPublisherKey sig (stallOp stalled) electionId payload then
      .error (.writeAuthorization "mark tally stalled: bad result-publisher signature")
    else .ok ()
  else if ¬ verifyRequest E config.adminKey sig (stallOp stalled) electionId payload then
    .error (.writeAuthorization "clear tally stalled: bad admin signature")
  else .ok ()

omit order in
/-- The nonce is spent last, by the insert that its primary key refuses a second time. -/
def setTallyStalled (now later : Int) (electionId : Bytes) (stalled : Bool) (sig : Bytes)
    (issuedAt : Int) : Py Database := do
  let config ← configOf conv db electionId
  if ¬ requestIsFresh issuedAt now then
    .error (.writeAuthorization (s!"{stallOp stalled}: issued_at {issuedAt} is outside the " ++
      s!"+/-{requestFreshness}s acceptance window"))
  else do
    let payload ← requestNoncePayload issuedAt
    requireStallAuthority E db config later electionId stalled sig payload
    let nonce ← bigint issuedAt
    if (electionId, stallOp stalled, nonce) ∈ db.requestNonces then
      .error (.writeAuthorization s!"{stallOp stalled}: this request has already been used")
    else pure { db with
      elections := updateElection db electionId fun row => { row with tallyStalled := stalled }
      requestNonces := (electionId, stallOp stalled, nonce) :: db.requestNonces }

end

/-! Runs. -/

/-- The database after a transaction, and whether it raised. -/
def transaction (db : Database) (result : Py Database) : Database × Py Unit :=
  match result with
  | .ok db' => (db', .ok ())
  | .error e => (db, .error e)

/-- A call as the database store performs it: the database after it and its answer. -/
def perform (E : EthLib) (conv : PyConversions) (order : RowOrder) (call : Call) (db : Database) :
    Database × Py Unit :=
  match call.write with
  | .register config adminSig => registerElection E db config adminSig
  | .cancel electionId adminSig => transaction db (cancelElection E db call.now electionId adminSig)
  | .dkgResult electionId pkElection committeePks keyperSig =>
    transaction db (submitDkgResult E conv db electionId pkElection committeePks keyperSig)
  | .ballot electionId ballot gatewaySig =>
    transaction db (submitBallot E conv order db call.now electionId ballot gatewaySig)
  | .aggregate electionId aggregate keyperSig =>
    transaction db (submitAggregate E conv order db call.now electionId aggregate keyperSig)
  | .decryptionShare electionId share keyperSig =>
    transaction db (submitDecryptionShare E conv order db call.now electionId share keyperSig)
  | .result electionId result resultPublisherSig =>
    transaction db (publishResult E conv db electionId result resultPublisherSig)
  | .tallyStalled electionId stalled sig issuedAt =>
    transaction db (setTallyStalled E conv db call.now call.later electionId stalled sig issuedAt)

/-- A call with the order the database picks during it. -/
structure OrderedCall where
  call : Call
  order : RowOrder

def run (E : EthLib) (conv : PyConversions) (db : Database) (calls : List OrderedCall) : Database :=
  calls.foldl (fun db c => (perform E conv c.order c.call db).1) db

end Postgres
end ElGamalVoting
