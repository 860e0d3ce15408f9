import ElGamalVoting.Core.Quorum
import ElGamalVoting.Crypto.Dkg
import ElGamalVoting.Ports.DataLayer

/- The in-memory data layer (`adapters/memory.py`), the reference adapter.

   A write is a function of the store, the clock and its arguments that returns
   the new store or raises; every check of the source stands before its first
   assignment, so a write that raises leaves the store as it was (`apply`).
   `set_tally_stalled` reads the clock twice, the other timed writes once: a call
   carries both readings. Election ids are the 32-byte numbers `1, 2, ...`. -/
namespace ElGamalVoting
open Lib

structure Stored where
  config : ElectionConfig
  cancelled : Bool := false
  dkgByKeyper : Dict Int DKGResultSubmission := ∅
  ballots : List StoredBallot := []
  aggregateByKeyper : Dict Int AggregateArtifact := ∅
  sharesByKeyper : Dict Int DecryptionShareEnvelope := ∅
  result : Option ResultArtifact := none
  tallyStalled : Bool := false

structure InMemoryDataLayer where
  elections : Dict Bytes Stored := ∅
  nextId : Nat := 0
  usedRequestNonces : List (Bytes × String × Int) := []

instance lawfulBEq_nonce : LawfulBEq (Bytes × String × Int) := inferInstance

/-! Reads. -/

/-- Python's `_get`. -/
def getStored (s : InMemoryDataLayer) (electionId : Bytes) : Py Stored :=
  match s.elections.get? electionId with
  | none => .error (.keyError s!"unknown election {hex electionId}")
  | some st => .ok st

/-- The DKG votes: the content of a vote is the key and committee submitted. -/
def dkgVotes (st : Stored) : List (Int × (Bytes × List Bytes) × (Bytes × List Bytes)) :=
  st.dkgByKeyper.entries.map fun e =>
    (e.1, (e.2.pkElection, e.2.committeePks), (e.2.pkElection, e.2.committeePks))

def finalizedKeyOf (st : Stored) : Py (Option FinalizedKey) := do
  let winner ← resolveUnique (Quorum.groupVotes (dkgVotes st)).values st.config.threshold.t
    "dkg result" st.config.electionId
  pure (winner.map fun w => ⟨w.1, w.2⟩)

def getFinalizedKey (s : InMemoryDataLayer) (electionId : Bytes) : Py (Option FinalizedKey) := do
  finalizedKeyOf (← getStored s electionId)

def getElection (s : InMemoryDataLayer) (electionId : Bytes) : Py ElectionRecord := do
  let st ← getStored s electionId
  let key ← getFinalizedKey s electionId
  pure ⟨st.config, st.cancelled, key, st.tallyStalled⟩

def getDkgSubmissions (s : InMemoryDataLayer) (electionId : Bytes) : Py (List DKGResultSubmission) := do
  let st ← getStored s electionId
  pure ((sortedKeys st.dkgByKeyper).filterMap st.dkgByKeyper.get?)

/-- Where a slice bound falls: a negative one counts from the end. -/
def sliceIndex (length : Nat) (i : Int) : Nat := if i < 0 then (i + length).toNat else i.toNat

/-- Python's slice `l[start:stop]`. -/
def pySlice {α : Type} (l : List α) (start stop : Int) : List α :=
  (l.take (sliceIndex l.length stop)).drop (sliceIndex l.length start)

def listBallots (s : InMemoryDataLayer) (electionId : Bytes) (start count : Int) :
    Py (List StoredBallot) := do
  let st ← getStored s electionId
  pure (pySlice st.ballots start (start + count))

def countBallots (s : InMemoryDataLayer) (electionId : Bytes) : Py Int := do
  let st ← getStored s electionId
  pure st.ballots.length

section
variable (E : EthLib)

/-- The aggregate votes: the content of a vote is the digest of the artifact. -/
def aggregateVotes (electionId : Bytes) (st : Stored) : Py (List (Int × Bytes × AggregateArtifact)) :=
  st.aggregateByKeyper.entries.mapM fun e => do
    let key ← aggregateDigestOf E electionId e.2
    pure (e.1, key, e.2)

/-- The canonical aggregate of a record. -/
def aggregateOf (electionId : Bytes) (st : Stored) : Py (Option AggregateArtifact) := do
  let votes ← aggregateVotes E electionId st
  resolveUnique (Quorum.groupVotes votes).values st.config.threshold.t "aggregate" electionId

def getAggregate (s : InMemoryDataLayer) (electionId : Bytes) : Py (Option AggregateArtifact) := do
  aggregateOf E electionId (← getStored s electionId)

def listDecryptionShares (s : InMemoryDataLayer) (electionId : Bytes) :
    Py (List DecryptionShareEnvelope) := do
  let st ← getStored s electionId
  pure ((sortedKeys st.sharesByKeyper).filterMap st.sharesByKeyper.get?)

def getResult (s : InMemoryDataLayer) (electionId : Bytes) : Py (Option ResultArtifact) := do
  let st ← getStored s electionId
  pure st.result

/-- The reads of the port, answered by the store. -/
def InMemoryDataLayer.reads (s : InMemoryDataLayer) : DataLayer where
  getElection := ElGamalVoting.getElection s
  getDkgSubmissions := ElGamalVoting.getDkgSubmissions s
  getFinalizedKey := ElGamalVoting.getFinalizedKey s
  listBallots := ElGamalVoting.listBallots s
  countBallots := ElGamalVoting.countBallots s
  getAggregate := ElGamalVoting.getAggregate E s
  listDecryptionShares := ElGamalVoting.listDecryptionShares s
  getResult := ElGamalVoting.getResult s

/-! Writes. -/

/-- Recover the keyper from a content signature: its 1-based index. -/
def keyperIndexByRecovery (config : ElectionConfig) (digest sig : Bytes) : Py Int :=
  match E.recoverMessage digest sig with
  | none => .error (.writeAuthorization "bad keyper signature")
  | some recovered =>
    match memberIndex config recovered with
    | none => .error (.writeAuthorization "signature matches no registered keyper")
    | some idx => .ok idx

/-- The store with one election's record replaced, as an assignment to it does. -/
def putStored (s : InMemoryDataLayer) (electionId : Bytes) (st : Stored) : InMemoryDataLayer :=
  { s with elections := s.elections.set electionId st }

def registerElection (s : InMemoryDataLayer) (config : ElectionConfig) (adminSig : Bytes) :
    Py InMemoryDataLayer :=
  if ¬ verifyRegister E config.adminKey adminSig config then
    .error (.writeAuthorization "register: bad admin signature")
  else do
    let electionId ← toBytes (s.nextId + 1) 32
    if config.electionId ≠ electionId then
      .error (.immutability (s!"register: expected election id {hex config.electionId} but the " ++
        s!"next id is {hex electionId} — the sequence moved on; re-read it and sign again"))
    else pure { putStored s electionId { config } with nextId := s.nextId + 1 }

def cancelElection (s : InMemoryDataLayer) (now : Int) (electionId adminSig : Bytes) :
    Py InMemoryDataLayer := do
  let st ← getStored s electionId
  if st.config.votingStart ≤ now then
    .error (.immutability
      "Voting has already started; an election can only be cancelled before it opens.")
  else if ¬ verifyRequest E st.config.adminKey adminSig "cancel" electionId [] then
    .error (.writeAuthorization "cancel: bad admin signature")
  else pure (putStored s electionId { st with cancelled := true })

def submitDkgResult (s : InMemoryDataLayer) (electionId pkElection : Bytes)
    (committeePks : List Bytes) (keyperSig : Bytes) : Py InMemoryDataLayer := do
  let st ← getStored s electionId
  let idx ← keyperIndexByRecovery E st.config (dkgResultDigest E electionId pkElection committeePks)
    keyperSig
  match st.dkgByKeyper.get? idx with
  | some existing =>
    if (existing.pkElection, existing.committeePks) ≠ (pkElection, committeePks) then
      .error (.immutability s!"keyper {idx} already submitted a different DKG result")
    else pure s
  | none => pure (putStored s electionId
      { st with dkgByKeyper := st.dkgByKeyper.set idx ⟨electionId, pkElection, committeePks, keyperSig⟩ })

/-- The closed set of ballot writers, when the configuration names one. -/
def requireGateway (st : Stored) (ballot : BallotEnvelope) (gatewaySig : Bytes) : Py Unit :=
  if st.config.gatewayKeys = [] then .ok ()
  else match E.recoverMessage (ballotDigest E st.config.electionId ballot) gatewaySig with
    | none => .error (.writeAuthorization "submit_ballot: bad gateway signature")
    | some recovered =>
      if recovered ∈ st.config.gatewayKeys then .ok ()
      else .error (.writeAuthorization "submit_ballot: signature matches no registered gateway key")

omit E in
/-- Only the derived state `Voting` takes a ballot. -/
def requireVotingOpen (st : Stored) (now : Int) : Py Unit := do
  let key ← finalizedKeyOf st
  let facts : StateFacts := {
    cancelled := st.cancelled
    keyFinalized := key.isSome
    resultPublished := st.result.isSome }
  if deriveState st.config facts now ≠ .voting then
    .error (.votingWindow "ballot submitted outside the open voting window")
  else pure ()

def submitBallot (s : InMemoryDataLayer) (now : Int) (electionId : Bytes) (ballot : BallotEnvelope)
    (gatewaySig : Bytes) : Py InMemoryDataLayer := do
  let st ← getStored s electionId
  requireGateway E st ballot gatewaySig
  requireVotingOpen st now
  pure (putStored s electionId
    { st with ballots := st.ballots ++ [⟨st.ballots.length, ballot, some now⟩] })

/-- Whether a canonical aggregate exists, read under the record's own election id. -/
def aggregateFinalized (s : InMemoryDataLayer) (st : Stored) : Py Bool := do
  pure (← getAggregate E s st.config.electionId).isSome

def submitAggregate (s : InMemoryDataLayer) (now : Int) (electionId : Bytes)
    (aggregate : AggregateArtifact) (keyperSig : Bytes) : Py InMemoryDataLayer := do
  let st ← getStored s electionId
  if now < st.config.votingEnd then
    .error (.votingWindow "aggregate submitted before voting_end")
  else do
    let digest ← aggregateDigestOf E electionId aggregate
    let idx ← keyperIndexByRecovery E st.config digest keyperSig
    if st.aggregateByKeyper.get? idx = some aggregate then pure s
    else if (← aggregateFinalized E s st) then
      .error (.immutability "aggregate already finalized (quorum reached)")
    else pure (putStored s electionId
      { st with aggregateByKeyper := st.aggregateByKeyper.set idx aggregate })

def submitDecryptionShare (s : InMemoryDataLayer) (now : Int) (electionId : Bytes)
    (share : DecryptionShareEnvelope) (keyperSig : Bytes) : Py InMemoryDataLayer := do
  let st ← getStored s electionId
  if now < st.config.votingEnd then
    .error (.votingWindow "decryption share submitted before voting_end")
  else if ¬ (← aggregateFinalized E s st) then
    .error (.votingWindow "decryption share submitted before a canonical aggregate exists")
  else do
    let digest ← shareEnvelopeDigest E electionId share.entries
    let idx ← keyperIndexByRecovery E st.config digest keyperSig
    if idx ≠ share.keyperIndex then
      .error (.writeAuthorization
        s!"share keyper_index {share.keyperIndex} does not match signer {idx}")
    else match st.sharesByKeyper.get? idx with
      | some existing =>
        if existing ≠ share then
          .error (.immutability s!"keyper {idx} already submitted different shares")
        else pure s
      | none => pure (putStored s electionId
          { st with sharesByKeyper := st.sharesByKeyper.set idx share })

def publishResult (s : InMemoryDataLayer) (electionId : Bytes) (result : ResultArtifact)
    (resultPublisherSig : Bytes) : Py InMemoryDataLayer := do
  let st ← getStored s electionId
  -- the digest is an argument of the check, so its own error is not caught there
  let payload ← resultDigest E electionId result
  if ¬ verifyRequest E st.config.resultPublisherKey resultPublisherSig "result" electionId payload then
    .error (.writeAuthorization "publish_result: bad result-publisher signature")
  else match st.result with
    | some existing =>
      if existing ≠ result then .error (.immutability "result already published (append-only)")
      else pure s
    | none => pure (putStored s electionId { st with result := some result })

/-- The request a direction of the stall flag is signed as. -/
def stallOp (stalled : Bool) : String := if stalled then "tally_stall" else "tally_resume"

/-- Who may turn the flag, and when: the publisher marks after the close of voting and
    before a result, the admin clears. -/
def requireStallAuthority (st : Stored) (later : Int) (electionId : Bytes) (stalled : Bool)
    (sig payload : Bytes) : Py Unit :=
  if stalled then
    if later < st.config.votingEnd then
      .error (.votingWindow "cannot mark stalled: voting has not ended")
    else if st.result.isSome then
      .error (.immutability "result already published; tally cannot be marked stalled")
    else if ¬ verifyRequest E st.config.resultPublisherKey sig (stallOp stalled) electionId payload then
      .error (.writeAuthorization "mark tally stalled: bad result-publisher signature")
    else .ok ()
  else if ¬ verifyRequest E st.config.adminKey sig (stallOp stalled) electionId payload then
    .error (.writeAuthorization "clear tally stalled: bad admin signature")
  else .ok ()

def setTallyStalled (s : InMemoryDataLayer) (now later : Int) (electionId : Bytes) (stalled : Bool)
    (sig : Bytes) (issuedAt : Int) : Py InMemoryDataLayer := do
  let st ← getStored s electionId
  if ¬ requestIsFresh issuedAt now then
    .error (.writeAuthorization (s!"{stallOp stalled}: issued_at {issuedAt} is outside the " ++
      s!"+/-{requestFreshness}s acceptance window"))
  else if (electionId, stallOp stalled, issuedAt) ∈ s.usedRequestNonces then
    .error (.writeAuthorization s!"{stallOp stalled}: this request has already been used")
  else do
    let payload ← requestNoncePayload issuedAt
    requireStallAuthority E st later electionId stalled sig payload
    pure { putStored s electionId { st with tallyStalled := stalled } with
      usedRequestNonces := (electionId, stallOp stalled, issuedAt) :: s.usedRequestNonces }

end

/-! Runs. -/

inductive Write where
  | register (config : ElectionConfig) (adminSig : Bytes)
  | cancel (electionId adminSig : Bytes)
  | dkgResult (electionId pkElection : Bytes) (committeePks : List Bytes) (keyperSig : Bytes)
  | ballot (electionId : Bytes) (ballot : BallotEnvelope) (gatewaySig : Bytes)
  | aggregate (electionId : Bytes) (aggregate : AggregateArtifact) (keyperSig : Bytes)
  | decryptionShare (electionId : Bytes) (share : DecryptionShareEnvelope) (keyperSig : Bytes)
  | result (electionId : Bytes) (result : ResultArtifact) (resultPublisherSig : Bytes)
  | tallyStalled (electionId : Bytes) (stalled : Bool) (sig : Bytes) (issuedAt : Int)

/-- A write with the readings of the clock during it. -/
structure Call where
  now : Int
  later : Int
  write : Write

/-- The write a call makes: the new store, or what it raises. -/
def Call.perform (E : EthLib) (call : Call) (s : InMemoryDataLayer) : Py InMemoryDataLayer :=
  match call.write with
  | .register config adminSig => registerElection E s config adminSig
  | .cancel electionId adminSig => cancelElection E s call.now electionId adminSig
  | .dkgResult electionId pkElection committeePks keyperSig =>
    submitDkgResult E s electionId pkElection committeePks keyperSig
  | .ballot electionId ballot gatewaySig => submitBallot E s call.now electionId ballot gatewaySig
  | .aggregate electionId aggregate keyperSig =>
    submitAggregate E s call.now electionId aggregate keyperSig
  | .decryptionShare electionId share keyperSig =>
    submitDecryptionShare E s call.now electionId share keyperSig
  | .result electionId result resultPublisherSig =>
    publishResult E s electionId result resultPublisherSig
  | .tallyStalled electionId stalled sig issuedAt =>
    setTallyStalled E s call.now call.later electionId stalled sig issuedAt

/-- The store after a call, accepted or rejected. -/
def Call.apply (E : EthLib) (call : Call) (s : InMemoryDataLayer) : InMemoryDataLayer :=
  match call.perform E s with
  | .ok s' => s'
  | .error _ => s

def runCalls (E : EthLib) (s : InMemoryDataLayer) (calls : List Call) : InMemoryDataLayer :=
  calls.foldl (fun s call => call.apply E s) s

theorem runCalls_append (E : EthLib) (s : InMemoryDataLayer) (calls more : List Call) :
    runCalls E s (calls ++ more) = runCalls E (runCalls E s calls) more := List.foldl_append

end ElGamalVoting
