import ElGamalVoting.Services.Keyper

/- The keyper's HTTP service (`services/keyper/keyper_server.py`), its DKG and tally
   handlers.

   `KeyperNode` is what one process is built with: its signer, the configurations the
   data layer answers with, the opening of a sealed envelope (X25519 and AES-GCM are
   outside the repository) and the retention time. A handler maps the server's state
   to the new state and a reply or an error; a handler that raises may have changed
   the state before, so both are returned. The state is four maps keyed by the
   election id as text: the coordinator's handlers use the canonical text of the
   bytes, the peers' handlers the text as it was sent.

   Request bodies are their decoded fields; a body that does not decode is refused
   before the state is touched. A signature is `none` where its text is missing or is no
   hexadecimal. What another party does during a handler is an argument of it: the
   draws of `random_scalar`, the data layer's answer to a submission, the delivery
   of a revealed share. Log lines and the saved copies of the state are left out. -/
namespace ElGamalVoting
open Lib

/-! The state. -/

structure Inbox (G₂ : Type) where
  commitments : Dict Int (List G₂) := ∅
  shares : Dict Int Int := ∅
  complained : List Int := []

/-- A completed round 2, as persisted. -/
structure DkgEntry where
  combinedShare : Int
  expiresAt : Option Int
  deriving DecidableEq

inductive AggregateStatus where
  | running
  | submitted
  deriving DecidableEq

structure KeyperServer (G₂ : Type) where
  completed : Dict PyStr DkgEntry := ∅
  dkgStates : Dict PyStr (KeyperDKGState G₂) := ∅
  inbox : Dict PyStr (Inbox G₂) := ∅
  aggregateState : PyStr → Option AggregateStatus := fun _ => none

structure KeyperNode where
  signer : Signer
  getConfig : Bytes → Py ElectionConfig
  /-- The opening of a sealed envelope with this keyper's key, `none` where it raises. -/
  x25519Unseal : Bytes → Option Bytes
  /-- `KEYPER_SECRET_TTL_S`, `none` for `never`. -/
  retention : Option Int

inductive HandlerError where
  | abort (status : Nat) (message : String)
  /-- An exception that leaves the handler, which Flask answers with 500. -/
  | raised (error : PyError)

structure Accusation where
  electionId : PyStr
  accusedDealerIndex : Int
  recipientIndex : Int
  signature : Option Bytes

inductive Reply where
  | ok
  | index (index : Int)
  | verified
  | complaints (bad : List Int) (accusations : List Accusation)
  | revealed (dealerIndex recipientIndex : Int)
  | refused (error : PyError)
  | aggregate (status : String)
  | alreadyRecorded

abbrev Handle := Except HandlerError

def liftPy {α : Type} (x : Py α) : Handle α := x.mapError .raised

/-- The canonical text of an election id, `eid.hex()`. -/
def electionKey (eid : Bytes) : PyStr := pyStr (hex eid)

/-- Python's `bytes.fromhex` of an election id. -/
def electionBytes (electionId : PyStr) : Handle Bytes :=
  match fromHex electionId with
  | none => .error (.raised (.valueError "non-hexadecimal number found in fromhex() arg"))
  | some eid => .ok eid

/-- `_inbox`: the entry is created when it is missing. -/
def KeyperServer.withInbox {G₂ : Type} (s : KeyperServer G₂) (key : PyStr) : KeyperServer G₂ :=
  match s.inbox.get? key with
  | none => { s with inbox := s.inbox.set key {} }
  | some _ => s

def KeyperServer.box {G₂ : Type} (s : KeyperServer G₂) (key : PyStr) : Inbox G₂ :=
  (s.inbox.get? key).getD {}

def KeyperServer.setBox {G₂ : Type} (s : KeyperServer G₂) (key : PyStr) (box : Inbox G₂) :
    KeyperServer G₂ :=
  { s with inbox := s.inbox.set key box }

section
variable {G₁ G₂ : Type} [AddCommGroup G₁] [AddCommGroup G₂] (S : Suite G₁ G₂) (E : EthLib)
  (node : KeyperNode)

/-! Helpers. -/

def myIndex (config : ElectionConfig) : Handle Int :=
  match memberIndex config (node.signer.identity E) with
  | none => .error (.abort 403 "this keyper is not in the election's keyper set")
  | some idx => .ok idx

omit E node in
/-- The signing address of a 1-based keyper index. -/
def membersAddr (config : ElectionConfig) (index : Int) : Option Bytes :=
  if 1 ≤ index ∧ index ≤ config.keypers.length then
    (config.keypers[(index - 1).toNat]?).map KeyperIdentity.signingKey
  else none

/-- Whether the dealer's member address signed the digest. -/
def dealerSigned (config : ElectionConfig) (dealer : Int) (digest : Py Bytes)
    (signature : Option Bytes) : Bool :=
  match membersAddr config dealer, signature, digest with
  | some address, some sig, .ok digest => E.recoverMessage digest sig == some address
  | _, _, _ => false

/-! Round 1. -/

/-- The share a dealer keeps for itself. -/
def ownShare (st : KeyperDKGState G₂) (idx : Int) : Handle Int :=
  match st.sharesForOthers.get? idx with
  | none => .error (.raised (.keyError (toString idx)))
  | some share => .ok share

/-- The fresh dealing of round 1, with this keyper's index and own share. -/
def freshDealing (electionId : PyStr) (randomScalar : Nat → Int) :
    Handle (Bytes × KeyperDKGState G₂ × Int × Int) := do
  let eid ← electionBytes electionId
  let config ← liftPy (node.getConfig eid)
  let idx ← myIndex E node config
  let st := KeyperDKGState.round1 S.g2 idx config.threshold.n config.threshold.t randomScalar
  let share ← ownShare st idx
  pure (eid, st, idx, share)

def dkgRound1 (s : KeyperServer G₂) (electionId : PyStr) (randomScalar : Nat → Int) :
    KeyperServer G₂ × Handle Reply :=
  match freshDealing S E node electionId randomScalar with
  | .error e => (s, .error e)
  | .ok (eid, st, idx, share) =>
    ({ s with
      dkgStates := s.dkgStates.set (electionKey eid) st
      inbox := s.inbox.set (electionKey eid) {
        commitments := (∅ : Dict Int (List G₂)).set idx st.commitments
        shares := (∅ : Dict Int Int).set idx share } },
     .ok (.index idx))

/-! Receiving from peers. -/

structure CommitmentsBody where
  electionId : PyStr
  dealerIndex : Int
  commitments : List Bytes
  signature : Option Bytes

/-- The checks before the inbox is touched: the dealer's signature, and the length. -/
def checkCommitments (body : CommitmentsBody) : Handle Unit := do
  let eid ← electionBytes body.electionId
  let config ← liftPy (node.getConfig eid)
  if ¬ dealerSigned E config body.dealerIndex
      (dkgCommitmentsDigest E eid body.dealerIndex body.commitments) body.signature then
    .error (.abort 401 "bad dealer commitments signature")
  else if body.commitments.length ≠ config.threshold.t then
    .error (.abort 400 (s!"dealer published {body.commitments.length} commitments, " ++
      s!"expected {config.threshold.t}"))
  else pure ()

/-- The first vector of a dealer is kept. -/
def receiveCommitments (s : KeyperServer G₂) (body : CommitmentsBody) :
    KeyperServer G₂ × Handle Reply :=
  match checkCommitments E node body with
  | .error e => (s, .error e)
  | .ok () =>
    let s := s.withInbox body.electionId
    let box := s.box body.electionId
    match box.commitments.get? body.dealerIndex with
    | some stored =>
      if stored.map S.g2.toCompressed ≠ body.commitments then
        (s, .error (.abort 409 "different commitments already received from this dealer"))
      else (s, .ok .ok)
    | none =>
      match body.commitments.mapM (g2FromCompressed S.g2) with
      | .error e => (s, .error (.raised e))
      | .ok comms =>
        (s.setBox body.electionId
          { box with commitments := box.commitments.set body.dealerIndex comms }, .ok .ok)

structure ShareBody where
  electionId : PyStr
  dealerIndex : Int
  recipientIndex : Int
  sealedShare : Option Bytes
  signature : Option Bytes

def shareSealDst : Bytes := utf8 "SHUTTER-GOVERNANCE-PROTOCOL-DKG-SHARE-SEAL-v1"

/-- The scalar inside a sealed share, `none` where opening it raises. -/
def unsealShare (sealedShare : Bytes) : Option Int :=
  match node.x25519Unseal sealedShare with
  | none => none
  | some plaintext =>
    if plaintext.take shareSealDst.length ≠ shareSealDst then none
    else
      let body := plaintext.drop shareSealDst.length
      if body.length ≠ 32 then none else some (beNat body)

/-- The share a body carries, once its envelope, recipient and dealer are checked. -/
def checkShare (body : ShareBody) : Handle Int := do
  let eid ← electionBytes body.electionId
  let config ← liftPy (node.getConfig eid)
  match body.sealedShare with
  | none => .error (.abort 400 "sealedShare required")
  | some sealedShare =>
    match unsealShare node sealedShare with
    | none => .error (.abort 400 "bad share")
    | some share => do
      let idx ← myIndex E node config
      if body.recipientIndex ≠ idx then .error (.abort 400 "share recipient mismatch")
      else if ¬ dealerSigned E config body.dealerIndex
          (dkgShareDigest E eid body.dealerIndex body.recipientIndex share) body.signature then
        .error (.abort 401 "bad dealer share signature")
      else pure share

/-- Whether a share different from the stored one may replace it: only after this keyper
    complained of the dealer, and only one that verifies. -/
def mayReplace [DecidableEq G₂] (box : Inbox G₂) (dealer recipient share : Int) : Bool :=
  match box.commitments.get? dealer with
  | none => false
  | some comms =>
    dealer ∈ box.complained && comms ≠ [] && verifyShare S.g2 comms recipient share

def receiveShare [DecidableEq G₂] (s : KeyperServer G₂) (body : ShareBody) :
    KeyperServer G₂ × Handle Reply :=
  match checkShare E node body with
  | .error e => (s, .error e)
  | .ok share =>
    let s := s.withInbox body.electionId
    let box := s.box body.electionId
    if (box.shares.get? body.dealerIndex).any (fun old => old ≠ share) &&
        !mayReplace S box body.dealerIndex body.recipientIndex share then
      (s, .error (.abort 409 "different share already received from this dealer"))
    else
      (s.setBox body.electionId { box with shares := box.shares.set body.dealerIndex share }, .ok .ok)

/-! Round 2. -/

/-- The recipient-signed accusation of each bad dealer. -/
def accusationsOf (eid : Bytes) (myIdx : Int) (bad : List Int) : Py (List Accusation) :=
  bad.mapM fun dealer => do
    let digest ← dkgAccusationDigest E eid dealer myIdx
    let sig ← signDigest E node.signer.privateKey digest
    pure ⟨electionKey eid, dealer, myIdx, some sig⟩

def dkgRound2 [DecidableEq G₂] (s : KeyperServer G₂) (electionId : PyStr) :
    KeyperServer G₂ × Handle Reply :=
  match (do
      let eid ← electionBytes electionId
      let config ← liftPy (node.getConfig eid)
      pure (eid, config) : Handle (Bytes × ElectionConfig)) with
  | .error e => (s, .error e)
  | .ok (eid, config) =>
    match s.dkgStates.get? (electionKey eid) with
    | none => (s, .error (.raised (.keyError (hex eid))))
    | some st =>
      let s := s.withInbox (electionKey eid)
      let box := s.box (electionKey eid)
      match myIndex E node config with
      | .error e => (s, .error e)
      | .ok myIdx =>
        match st.round2 S.g2 box.commitments box.shares with
        | .error (.badDealers _ bad) =>
          -- who was complained of is what later lets a dealer replace its share
          (s.setBox (electionKey eid) { box with complained := box.complained ++ bad },
            liftPy ((accusationsOf E node eid myIdx bad).map (.complaints bad)))
        | .error e => (s, .error (.raised e))
        | .ok (st', combined, _) =>
          ({ s with
            dkgStates := s.dkgStates.set (electionKey eid) st'
            completed := s.completed.set (electionKey eid)
              ⟨combined, node.retention.map fun ttl => config.votingEnd + ttl⟩ }, .ok .verified)

/-! The accusation-gated reveal. -/

/-- What a valid accusation against this keyper unlocks: its index and the recipient's. -/
def gateAccusation (s : KeyperServer G₂) (accusation : Accusation) : Option (Int × Int) := do
  let st ← s.dkgStates.get? accusation.electionId
  let eid ← fromHex accusation.electionId
  let config ← (node.getConfig eid).toOption
  let myIdx ← memberIndex config (node.signer.identity E)
  if accusation.accusedDealerIndex ≠ myIdx ∨
      (st.sharesForOthers.get? accusation.recipientIndex).isNone then none
  else
    let expected ← membersAddr config accusation.recipientIndex
    let digest ← (dkgAccusationDigest E eid accusation.accusedDealerIndex
      accusation.recipientIndex).toOption
    let sig ← accusation.signature
    if E.recoverMessage digest sig ≠ some expected then none
    else pure (myIdx, accusation.recipientIndex)

/-- The share goes sealed to its recipient, never to the caller. -/
def revealShare (s : KeyperServer G₂) (accusation : Option Accusation) (delivery : Handle Unit) :
    KeyperServer G₂ × Handle Reply :=
  match accusation with
  | none => (s, .error (.abort 400 "missing_accusation"))
  | some accusation =>
    match gateAccusation E node s accusation with
    | none => (s, .error (.abort 401 "unauthorized"))
    | some (myIdx, recipient) =>
      match delivery with
      | .error e => (s, .error e)
      | .ok () => (s, .ok (.revealed myIdx recipient))

/-! Publishing. -/

/-- The result a keyper would submit: derived from the commitments in the inbox, once
    some round 2 completed. -/
def publishedResult (s : KeyperServer G₂) (electionId : PyStr) :
    KeyperServer G₂ × Handle DKGResultSubmission :=
  match electionBytes electionId with
  | .error e => (s, .error e)
  | .ok eid =>
    if s.completed.get? (electionKey eid) = none then
      (s, .error (.abort 409
        "round 2 has not completed for this election; refusing to publish a key"))
    else
      let s := s.withInbox (electionKey eid)
      let commitments := (s.box (electionKey eid)).commitments
      (s, liftPy do
        let config ← node.getConfig eid
        let quorum := config.threshold.t
        let pk ← deriveJointMpk commitments quorum
        let committee ← (sortedKeys commitments).mapM fun i : Int => deriveMpkShare i commitments quorum
        let pkB := S.g2.toCompressed pk
        let committeeB := committee.map S.g2.toCompressed
        let sig ← signDigest E node.signer.privateKey (dkgResultDigest E eid pkB committeeB)
        pure ⟨eid, pkB, committeeB, sig⟩)

/-- After an accepted submission the dealing material is dropped. -/
def dkgPublish (s : KeyperServer G₂) (electionId : PyStr) (submit : DKGResultSubmission → Py Unit) :
    KeyperServer G₂ × Handle Reply :=
  match publishedResult S E node s electionId with
  | (s, .error e) => (s, .error e)
  | (s, .ok submission) =>
    match submit submission with
    | .error e => (s, .error (.raised e))
    | .ok () =>
      let key := electionKey submission.electionId
      match s.dkgStates.get? key with
      | none => (s, .ok .ok)
      | some st => ({ s with dkgStates := s.dkgStates.set key st.zeroizeDealing }, .ok .ok)

/-! The tally handlers. -/

/-- Triggers the aggregation, at most one worker at a time. -/
def triggerAggregate (s : KeyperServer G₂) (electionId : PyStr) (dl : DataLayer) (now : Int)
    (recompute : Bool) : KeyperServer G₂ × Handle Reply :=
  match (do
      let eid ← electionBytes electionId
      let config ← liftPy (node.getConfig eid)
      let _ ← myIndex E node config
      pure eid : Handle Bytes) with
  | .error e => (s, .error e)
  | .ok eid =>
    match KeyperService.checkCanAggregate dl eid now with
    | .error e => (s, .ok (.refused e))
    | .ok _ =>
      let key := electionKey eid
      if s.aggregateState key = some .submitted ∧ recompute = false then
        (s, .ok (.aggregate "submitted"))
      else if s.aggregateState key = some .running then (s, .ok (.aggregate "in_progress"))
      else ({ s with aggregateState := Function.update s.aggregateState key (some .running) },
        .ok (.aggregate "started"))

omit [AddCommGroup G₂] E node in
/-- The end of a worker: the aggregate was submitted, or the next trigger retries. -/
def aggregateFinished (s : KeyperServer G₂) (eid : Bytes) (done : Bool) : KeyperServer G₂ :=
  let status : Option AggregateStatus := if done then some .submitted else none
  { s with aggregateState := Function.update s.aggregateState (electionKey eid) status }

/-- Whether a write lost a benign race: its content is recorded already. -/
def isBenignWriteConflict : PyError → Bool
  | .immutability _ => true
  | _ => false

def publishDecrShare (s : KeyperServer G₂) (electionId : PyStr) (dl : DataLayer) (now : Int)
    (nonce : Nat → Int) (submit : DecryptionShareEnvelope → Bytes → Py Unit) :
    KeyperServer G₂ × Handle Reply :=
  (s, do
    let eid ← electionBytes electionId
    match s.completed.get? (electionKey eid) with
    | none => .error (.abort 409 "no persisted DKG share for this election")
    | some entry =>
      let config ← liftPy (node.getConfig eid)
      let idx ← myIndex E node config
      let dkg : KeyperDKGState G₂ := {
        keyperId := 0, n := 0, quorum := 0, coefficients := none, commitments := []
        sharesForOthers := ∅
        combinedShare := some entry.combinedShare
        publicKeyShare := some (mul S.g2.gen entry.combinedShare) }
      match KeyperService.produceDecryptionShare S E ⟨idx, node.signer, dkg⟩ dl eid now nonce with
      | .error e => pure (.refused e)
      | .ok none => pure .ok
      | .ok (some (share, sig)) =>
        match submit share sig with
        | .ok () => pure .ok
        | .error e => if isBenignWriteConflict e then pure .alreadyRecorded else .error (.raised e))

/-! Runs. -/

inductive KeyperCall where
  | dkgRound1 (electionId : PyStr) (randomScalar : Nat → Int)
  | receiveCommitments (body : CommitmentsBody)
  | receiveShare (body : ShareBody)
  | dkgRound2 (electionId : PyStr)
  | revealShare (accusation : Option Accusation) (delivery : Handle Unit)
  | dkgPublish (electionId : PyStr) (submit : DKGResultSubmission → Py Unit)
  | aggregate (electionId : PyStr) (dl : DataLayer) (now : Int) (recompute : Bool)
  | aggregateFinished (eid : Bytes) (done : Bool)
  | publishDecrShare (electionId : PyStr) (dl : DataLayer) (now : Int) (nonce : Nat → Int)
      (submit : DecryptionShareEnvelope → Bytes → Py Unit)

def KeyperCall.handle [DecidableEq G₂] (s : KeyperServer G₂) :
    KeyperCall → KeyperServer G₂ × Handle Reply
  | .dkgRound1 electionId randomScalar => ElGamalVoting.dkgRound1 S E node s electionId randomScalar
  | .receiveCommitments body => ElGamalVoting.receiveCommitments S E node s body
  | .receiveShare body => ElGamalVoting.receiveShare S E node s body
  | .dkgRound2 electionId => ElGamalVoting.dkgRound2 S E node s electionId
  | .revealShare accusation delivery => ElGamalVoting.revealShare E node s accusation delivery
  | .dkgPublish electionId submit => ElGamalVoting.dkgPublish S E node s electionId submit
  | .aggregate electionId dl now recompute => triggerAggregate E node s electionId dl now recompute
  | .aggregateFinished eid done => (ElGamalVoting.aggregateFinished s eid done, .ok .ok)
  | .publishDecrShare electionId dl now nonce submit =>
    ElGamalVoting.publishDecrShare S E node s electionId dl now nonce submit

end
end ElGamalVoting
