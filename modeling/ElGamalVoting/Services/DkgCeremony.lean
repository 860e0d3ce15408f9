import ElGamalVoting.Adapters.Memory
import ElGamalVoting.Lib.Act
import ElGamalVoting.Services.KeyperServer

/- The DKG ceremony over HTTP (`run_dkg_http` of
   `services/coordinator/dkg_coordinator.py`), as the system it drives: the keypers'
   servers and the in-memory data layer they submit to.

   Every HTTP request of the ceremony has a fate: whether it reaches its target,
   whether the answer comes back, and what a failing keyper's memory has become
   when it arrives. The requests are numbered in the order they are sent, so a
   function of the number is any pattern of failures. An attempt is such a
   function with the keypers' draws. The tokens of the requests and their renewal are
   left out: a request refused for its token is one that does not arrive. Log lines
   are left out. -/
namespace ElGamalVoting
open Lib

/-- What a keyper's process keeps through every attempt. -/
structure Member where
  signer : Signer
  /-- Sealing to this keyper's published key; every envelope draws a key of its own, so it
      takes the number of the request. -/
  x25519Seal : Nat → Bytes → Bytes
  x25519Unseal : Bytes → Option Bytes
  retention : Option Int

/-- What becomes of one request. -/
structure Fate (G₂ : Type) where
  /-- The memory of a keyper that failed, when the request reaches it. -/
  memory : Option (KeyperServer G₂) := none
  delivered : Bool := true
  answered : Bool := true

structure Attempt (G₂ : Type) where
  /-- The draws of `random_scalar` by each keyper. -/
  draws : Int → Nat → Int
  fates : Nat → Fate G₂

structure Ceremony (G₂ : Type) where
  servers : Int → KeyperServer G₂
  dl : InMemoryDataLayer
  /-- The requests sent so far. -/
  sent : Nat := 0

inductive CallError where
  /-- The request or its answer was lost. -/
  | unanswered
  | handler (error : HandlerError)
  | raised (error : PyError)
  /-- `DKGComplaint`, with the signed accusations. -/
  | complaint (accusations : List Accusation)

abbrev Run (G₂ : Type) := Act CallError (Ceremony G₂)

def maxRepairRounds : Nat := 2

/-- A keyper's process, with the configurations the data layer answers with. -/
def Member.node (m : Member) (dl : InMemoryDataLayer) : KeyperNode where
  signer := m.signer
  getConfig := fun eid => do
    let record ← getElection dl eid
    pure record.config
  x25519Unseal := m.x25519Unseal
  retention := m.retention

section
variable {G₁ G₂ : Type} [AddCommGroup G₁] [AddCommGroup G₂] [DecidableEq G₂] (S : Suite G₁ G₂)
  (E : EthLib) (member : Int → Member) (eid : Bytes) (attempt : Attempt G₂)

/-! Requests. -/

omit [AddCommGroup G₂] [DecidableEq G₂] in
/-- A request to keyper `i`: what its handler changed stays, also when no answer comes. -/
def request {α : Type} (i : Int) (handler : Run G₂ α) : Run G₂ α := do
  let c ← Act.state
  let fate := attempt.fates c.sent
  Act.setState { c with
    sent := c.sent + 1
    servers := match fate.memory with
      | none => c.servers
      | some memory => Function.update c.servers i memory }
  if fate.delivered then do
    let reply ← handler
    if fate.answered then pure reply else Act.raise .unanswered
  else Act.raise .unanswered

/-- A handler of keyper `i` that changes its own memory only. -/
def handleAt (i : Int) (handler : KeyperNode → KeyperServer G₂ → KeyperServer G₂ × Handle Reply) :
    Run G₂ Reply := do
  let c ← Act.state
  let outcome := handler ((member i).node c.dl) (c.servers i)
  Act.setState { c with servers := Function.update c.servers i outcome.1 }
  Act.ofExcept .handler outcome.2

/-! The handlers that send to peers. -/

/-- A keyper's configuration, index and dealing, as both distributing handlers read them. -/
def dealingOf (node : KeyperNode) (s : KeyperServer G₂) (electionId : PyStr) :
    Handle (Bytes × ElectionConfig × Int × KeyperDKGState G₂) := do
  let eid ← electionBytes electionId
  let config ← liftPy (node.getConfig eid)
  let idx ← myIndex E node config
  match s.dkgStates.get? (electionKey eid) with
  | none => .error (.raised (.keyError (hex eid)))
  | some st => pure (eid, config, idx, st)

/-- The signed commitments of a dealing. -/
def commitmentsBody (node : KeyperNode) (eid : Bytes) (idx : Int) (st : KeyperDKGState G₂) :
    Handle CommitmentsBody := do
  let commitments := st.commitments.map S.g2.toCompressed
  let digest ← liftPy (dkgCommitmentsDigest E eid idx commitments)
  let sig ← liftPy (signDigest E node.signer.privateKey digest)
  pure ⟨electionKey eid, idx, commitments, some sig⟩

def distributeCommitments (i : Int) : Run G₂ Reply := do
  let c ← Act.state
  let node := (member i).node c.dl
  let (eid, config, idx, st) ← Act.ofExcept .handler (dealingOf E node (c.servers i) (electionKey eid))
  let body ← Act.ofExcept .handler (commitmentsBody S E node eid idx st)
  (keyperIndices config.threshold.n).forM fun peer =>
    if peer = idx then pure ()
    else do
      let _ ← request attempt peer (handleAt member peer fun node s => receiveCommitments S E node s body)
      pure ()
  pure .ok

/-- The sealed and signed share of a dealing for one recipient. -/
def shareBody (node : KeyperNode) (electionId : PyStr) (eid : Bytes) (idx recipient : Int)
    (st : KeyperDKGState G₂) (x25519Seal : Bytes → Bytes) : Handle ShareBody := do
  match st.sharesForOthers.get? recipient with
  | none => .error (.raised (.keyError (toString recipient)))
  | some share => do
    let digest ← liftPy (dkgShareDigest E eid idx recipient share)
    let sig ← liftPy (signDigest E node.signer.privateKey digest)
    pure ⟨electionId, idx, recipient, some (x25519Seal (shareSealDst ++ scalarToBytes share)), some sig⟩

/-- `_seal_and_send_share`: keyper `i` posts its share for a recipient. -/
def sealAndSendShare (i : Int) (electionId : PyStr) (eid : Bytes) (idx recipient : Int)
    (st : KeyperDKGState G₂) : Run G₂ Unit := do
  let c ← Act.state
  let body ← Act.ofExcept .handler (shareBody E ((member i).node c.dl) electionId eid idx recipient st
    ((member recipient).x25519Seal c.sent))
  let _ ← request attempt recipient (handleAt member recipient fun node s => receiveShare S E node s body)
  pure ()

def distributeShares (i : Int) : Run G₂ Reply := do
  let c ← Act.state
  let (eid, config, idx, st) ←
    Act.ofExcept .handler (dealingOf E ((member i).node c.dl) (c.servers i) (electionKey eid))
  (keyperIndices config.threshold.n).forM fun recipient =>
    if recipient = idx then pure ()
    else sealAndSendShare S E member attempt i (electionKey eid) eid idx recipient st
  pure .ok

/-- `dkg_reveal_share`, with the delivery of the share it unlocks. -/
def revealAt (dealer : Int) (accusation : Accusation) : Run G₂ Reply := do
  let c ← Act.state
  let node := (member dealer).node c.dl
  match gateAccusation E node (c.servers dealer) accusation,
      (c.servers dealer).dkgStates.get? accusation.electionId, fromHex accusation.electionId with
  | some (myIdx, recipient), some st, some eid => do
    sealAndSendShare S E member attempt dealer accusation.electionId eid myIdx recipient st
    pure (.revealed myIdx recipient)
  | _, _, _ => Act.raise (.handler (.abort 401 "unauthorized"))

/-- `dkg_publish`: the submission is a request of its own, to the data layer. -/
def publishAt (i : Int) : Run G₂ Reply := do
  let c ← Act.state
  let fate := attempt.fates c.sent
  let node := (member i).node c.dl
  let submit := fun r : DKGResultSubmission =>
    submitDkgResult E c.dl r.electionId r.pkElection r.committeePks r.keyperSignature
  let stored := match (publishedResult S E node (c.servers i) (electionKey eid)).2 with
    | .error _ => c.dl
    | .ok r => if fate.delivered then (submit r).toOption.getD c.dl else c.dl
  let outcome := dkgPublish S E node (c.servers i) (electionKey eid) fun r =>
    if fate.delivered ∧ fate.answered then (submit r).map fun _ => ()
    else .error (.runtimeError "the data layer did not answer")
  Act.setState ⟨Function.update c.servers i outcome.1, stored, c.sent + 1⟩
  Act.ofExcept .handler outcome.2

/-! The coordinator. -/

/-- Round 2 on `targets`; the accusations of each that cannot verify. -/
def roundTwoComplaints (targets : List Int) : Run G₂ (List (Int × List Accusation)) := do
  let replies ← targets.mapM fun i => do
    let reply ← request attempt i (handleAt member i fun node s => dkgRound2 S E node s (electionKey eid))
    match reply with
    | .complaints _ accusations => pure (some (i, accusations))
    | _ => pure none
  pure replies.reduceOption

/-- Every accused dealer is asked to deal again, best effort. -/
def askReveals (idxs : List Int) (complaints : List (Int × List Accusation)) : Run G₂ Unit :=
  complaints.forM fun complaint => complaint.2.forM fun accusation =>
    if accusation.accusedDealerIndex ∈ idxs then
      (request attempt accusation.accusedDealerIndex
        (revealAt S E member attempt accusation.accusedDealerIndex accusation)).ignore
    else pure ()

def repairRounds (idxs : List Int) : Nat → List (Int × List Accusation) →
    Run G₂ (List (Int × List Accusation))
  | 0, complaints => pure complaints
  | rounds + 1, complaints =>
    if complaints.isEmpty then pure complaints
    else do
      askReveals S E member attempt idxs complaints
      -- only the accusers are asked again
      let complaints ← roundTwoComplaints S E member eid attempt (complaints.map Prod.fst)
      repairRounds idxs rounds complaints

/-- Every keyper without a complaint publishes; one that fails does not end the ceremony. -/
def publishAll (idxs : List Int) (complaints : List (Int × List Accusation)) : Run G₂ Unit :=
  idxs.forM fun i =>
    if i ∈ complaints.map Prod.fst then pure ()
    else (request attempt i (publishAt S E member eid attempt i)).ignore

/-- One phase in which every keyper is called and none may fail. -/
def phaseAll (idxs : List Int) (handler : Int → Run G₂ Reply) : Run G₂ Unit :=
  idxs.forM fun i => do
    let _ ← request attempt i (handler i)
    pure ()

/-- The ceremony; whether the key is final at its end. `idxs` are the keys of
    `keyper_urls`, sorted. -/
def runDkgHttp (idxs : List Int) : Run G₂ Bool := do
  phaseAll attempt idxs fun i =>
    handleAt member i fun node s => dkgRound1 S E node s (electionKey eid) (attempt.draws i)
  phaseAll attempt idxs (distributeCommitments S E member eid attempt)
  phaseAll attempt idxs (distributeShares S E member eid attempt)
  let complaints ← roundTwoComplaints S E member eid attempt idxs
  let complaints ← repairRounds S E member eid attempt idxs maxRepairRounds complaints
  publishAll S E member eid attempt idxs complaints
  let c ← Act.state
  let key ← Act.ofExcept .raised (getFinalizedKey c.dl eid)
  if key.isNone ∧ complaints ≠ [] then Act.raise (.complaint (complaints.flatMap Prod.snd))
  else pure key.isSome

/-- The system after one attempt, however it ended. -/
def Ceremony.attempted (c : Ceremony G₂) (attempt : Attempt G₂) (idxs : List Int) : Ceremony G₂ :=
  (runDkgHttp S E member eid attempt idxs { c with sent := 0 }).2

/-- The system after a history of attempts. -/
def Ceremony.history (c : Ceremony G₂) (idxs : List Int) (attempts : List (Attempt G₂)) : Ceremony G₂ :=
  attempts.foldl (fun c attempt => c.attempted S E member eid attempt idxs) c

end

/-- An attempt in which every request arrives and is answered. -/
def Attempt.complete {G₂ : Type} (draws : Int → Nat → Int) : Attempt G₂ := ⟨draws, fun _ => {}⟩

end ElGamalVoting
