import ElGamalVoting.Adapters.MemoryLifecycle

/- The coordinator (`services/coordinator/coordinator.py`), over the in-memory data
   layer.

   What the coordinator does with the answers it gets is embedded; the answers
   themselves (what a keyper replies, what a read finds while others write, what
   the clock shows) are arguments, so a statement for all of them holds whatever
   the committee does. Its memory is four tables over election ids: the elections
   it has finished with, those it gave up, and the attempts of the two loops. The
   back-off and the deadline are whole seconds here. -/
namespace ElGamalVoting
open Lib

/-- What a keyper says to `/aggregate`: its own word, or the coordinator's for a failed call. -/
inductive KeyperStatus where
  | submitted
  | started
  | inProgress
  | refused
  | failed
  | other (text : String)
  deriving DecidableEq

def KeyperStatus.computing : KeyperStatus → Bool
  | .started => true
  | .inProgress => true
  | _ => false

structure DkgAttempts where
  attempts : Nat := 0
  nextAt : Int := 0

structure TallyAttempts where
  agg : Nat := 0
  dec : Nat := 0
  deriving DecidableEq

inductive TallyPhase where
  | aggregate
  | decrypt
  deriving DecidableEq

inductive StallReason where
  | deadline
  | divergent
  | unreachable
  deriving DecidableEq

/-- What a scan reports for an election. A pass that waits for aggregates says whether it
    asked the keypers to derive theirs again. -/
inductive ScanOutcome where
  | complete
  | alreadyFailed
  | error
  | dkgFailed
  | tallyStalled
  | notReady
  | backingOff
  | noUrls
  | finalized
  | dkgComplaint
  | registeredRetry
  | collectingAggregate (recompute : Bool)
  | collectingShares
  | tallyAbandoned (phase : TallyPhase) (attempts : Nat) (reason : StallReason)
  | tallied
  deriving DecidableEq

/-- The settings of a coordinator, with the defaults of its constructor. -/
structure CoordinatorSettings where
  backoffBase : Int := 10
  backoffCap : Int := 300
  maxTallyAttempts : Nat := 5
  maxTallyPhase : Int := 6 * 3600
  urlOverrides : Dict Bytes PyStr := ∅

/-- The memory of `AutoDKG`. -/
structure AutoDKG where
  done : List Bytes := []
  failed : List Bytes := []
  attempts : Dict Bytes DkgAttempts := ∅
  tallyAttempts : Dict Bytes TallyAttempts := ∅

/-- How a ceremony ends: bootstrapping or a call raises, a keyper complains, or it returns
    whether the key is final. -/
inductive DkgAnswer where
  | raised
  | complaint
  | returned (finalized : Bool)

/-- How `finalize` ends: it raises, has too few shares, publishes a result it recovered, or
    finds one published. -/
inductive FinalizeAnswer where
  | raised (e : PyError)
  | tooFew
  | publish (result : ResultArtifact) (sig : Bytes)
  | existing

/-- The write that marks a stall: whether it reaches the data layer, and what it carries. -/
structure MarkRequest where
  delivered : Bool
  now : Int
  later : Int
  sig : Bytes
  issuedAt : Int

/-- What a pass over a tallying election meets, in the order of the source. A read of the
    aggregate answers whether there is one, or raises. -/
structure TallyAnswers where
  tokens : Bool
  aggregate : Py Bool
  statuses : List KeyperStatus
  aggregateAfter : Py Bool
  finalized : FinalizeAnswer
  clock : Int
  mark : MarkRequest

/-- A pass leaves the coordinator's memory, the store and what the scan reports. -/
structure Pass where
  coordinator : AutoDKG
  dl : InMemoryDataLayer
  outcome : ScanOutcome

/-! ## The helpers -/

/-- `keyper_urls_from`: a keyper's url, or the override for its address. -/
def keyperUrls (P : CoordinatorSettings) (config : ElectionConfig) : List PyStr :=
  config.keypers.map fun k => if k.url = [] then (P.urlOverrides.get? k.signingKey).getD [] else k.url

def missingUrls (P : CoordinatorSettings) (config : ElectionConfig) : Bool :=
  (keyperUrls P config).any fun u => u = []

def pastTallyDeadline (P : CoordinatorSettings) (config : ElectionConfig) (clock : Int) : Bool :=
  P.maxTallyPhase < clock - config.votingEnd

/-- Best effort: a mark that fails is swallowed. -/
def markTallyStalled (E : EthLib) (dl : InMemoryDataLayer) (electionId : Bytes)
    (mark : MarkRequest) : InMemoryDataLayer :=
  if mark.delivered then
    Call.apply E ⟨mark.now, mark.later, .tallyStalled electionId true mark.sig mark.issuedAt⟩ dl
  else dl

def AutoDKG.attemptsOf (c : AutoDKG) (electionId : Bytes) : TallyAttempts :=
  (c.tallyAttempts.get? electionId).getD {}

def TallyAttempts.exhausted (P : CoordinatorSettings) (att : TallyAttempts) : Bool :=
  P.maxTallyAttempts ≤ att.agg ∨ P.maxTallyAttempts ≤ att.dec

/-- The counters a pass starts from: exhausted ones are taken for an admin's retry. -/
def TallyAttempts.resumed (P : CoordinatorSettings) (att : TallyAttempts) : TallyAttempts :=
  if att.exhausted P then {} else att

/-- `finalize` on the store: a result it publishes is written, a refusal of it raises. -/
def FinalizeAnswer.run (E : EthLib) (dl : InMemoryDataLayer) (electionId : Bytes) :
    FinalizeAnswer → InMemoryDataLayer × Py Bool
  | .raised e => (dl, .error e)
  | .tooFew => (dl, .ok false)
  | .publish result sig =>
    match publishResult E dl electionId result sig with
    | .ok dl' => (dl', .ok true)
    | .error e => (dl, .error e)
  | .existing =>
    match getResult dl electionId with
    | .ok result => (dl, .ok result.isSome)
    | .error e => (dl, .error e)

/-- Without a result `finalize` has written nothing. -/
theorem store_of_too_few {E : EthLib} {dl dl' : InMemoryDataLayer} {electionId : Bytes}
    {answer : FinalizeAnswer} (h : answer.run E dl electionId = (dl', .ok false)) : dl' = dl := by
  cases answer with
  | raised e => cases h
  | tooFew => exact (congrArg Prod.fst h).symm
  | publish result sig =>
    simp only [FinalizeAnswer.run] at h
    split at h <;> cases h
  | existing =>
    simp only [FinalizeAnswer.run] at h
    split at h
    · exact (congrArg Prod.fst h).symm
    · cases h

/-! ## The tally loop -/

section
variable (E : EthLib) (P : CoordinatorSettings)

/-- A pass that keeps the counters `att`. -/
def AutoDKG.pass (c : AutoDKG) (electionId : Bytes) (att : TallyAttempts) (dl : InMemoryDataLayer)
    (outcome : ScanOutcome) : Pass :=
  ⟨{ c with tallyAttempts := c.tallyAttempts.set electionId att }, dl, outcome⟩

def abandon (c : AutoDKG) (electionId : Bytes) (att : TallyAttempts) (dl : InMemoryDataLayer)
    (mark : MarkRequest) (phase : TallyPhase) (attempts : Nat) (reason : StallReason) : Pass :=
  c.pass electionId att (markTallyStalled E dl electionId mark) (.tallyAbandoned phase attempts reason)

/-- The second phase: a canonical aggregate is there. -/
def decryptPhase (c : AutoDKG) (dl : InMemoryDataLayer) (electionId : Bytes) (config : ElectionConfig)
    (att : TallyAttempts) (w : TallyAnswers) : Pass :=
  match w.finalized.run E dl electionId with
  | (dl, .error _) => c.pass electionId att dl .error
  | (dl, .ok true) =>
    { c with done := electionId :: c.done }.pass electionId att dl .tallied
  | (dl, .ok false) =>
    if pastTallyDeadline P config w.clock then
      abandon E c electionId att dl w.mark .decrypt att.dec .deadline
    else
      let att := { att with dec := att.dec + 1 }
      if P.maxTallyAttempts ≤ att.dec then
        abandon E c electionId att dl w.mark .decrypt att.dec .unreachable
      else c.pass electionId att dl .collectingShares

/-- The first phase, when the keypers were asked and there is still no canonical aggregate. -/
def withoutAggregate (c : AutoDKG) (dl : InMemoryDataLayer) (electionId : Bytes)
    (config : ElectionConfig) (att : TallyAttempts) (w : TallyAnswers) : Pass :=
  if pastTallyDeadline P config w.clock then
    abandon E c electionId att dl w.mark .aggregate att.agg .deadline
  else if w.statuses.any KeyperStatus.computing then
    c.pass electionId att dl (.collectingAggregate false)
  else if w.statuses ≠ [] ∧ (w.statuses.all fun st => st = .submitted) = true then
    let att := { att with agg := att.agg + 1 }
    if P.maxTallyAttempts ≤ att.agg then
      abandon E c electionId att dl w.mark .aggregate att.agg .divergent
    else c.pass electionId att dl (.collectingAggregate true)
  else
    let att := { att with agg := att.agg + 1 }
    if P.maxTallyAttempts ≤ att.agg then
      abandon E c electionId att dl w.mark .aggregate att.agg .unreachable
    else c.pass electionId att dl (.collectingAggregate false)

def driveTally (c : AutoDKG) (dl : InMemoryDataLayer) (electionId : Bytes) (config : ElectionConfig)
    (w : TallyAnswers) : Pass :=
  if missingUrls P config then ⟨c, dl, .noUrls⟩
  else if ¬ w.tokens then ⟨c, dl, .error⟩
  else
    let att := (c.attemptsOf electionId).resumed P
    match w.aggregate with
    | .error _ => c.pass electionId att dl .error
    | .ok true => decryptPhase E P c dl electionId config att w
    | .ok false =>
      match w.aggregateAfter with
      | .error _ => c.pass electionId att dl .error
      | .ok true => decryptPhase E P c dl electionId config att w
      | .ok false => withoutAggregate E P c dl electionId config att w

/-! ## The scan -/

def driveDkg (c : AutoDKG) (dl : InMemoryDataLayer) (electionId : Bytes) (config : ElectionConfig)
    (now : Int) (answer : DkgAnswer) : Pass :=
  let att := (c.attempts.get? electionId).getD {}
  let c := { c with attempts := c.attempts.set electionId att }
  if now < att.nextAt then ⟨c, dl, .backingOff⟩
  else if missingUrls P config then ⟨c, dl, .noUrls⟩
  else
    let att : DkgAttempts :=
      ⟨att.attempts + 1, now + min P.backoffCap (P.backoffBase * 2 ^ att.attempts)⟩
    let retried := { c with attempts := c.attempts.set electionId att }
    match answer with
    | .returned true => ⟨c, dl, .finalized⟩
    -- terminal: a divergent transcript can never finalize
    | .complaint => ⟨{ c with failed := electionId :: c.failed }, dl, .dkgComplaint⟩
    | .returned false => ⟨retried, dl, .registeredRetry⟩
    | .raised => ⟨retried, dl, .registeredRetry⟩

/-- What the coordinator takes an election's state to be, from the record it read before. -/
def scannedState (record : ElectionRecord) (resultPublished : Bool) (now : Int) : ElectionState :=
  deriveState record.config ⟨record.cancelled, record.finalizedKey.isSome, resultPublished,
    record.tallyStalled⟩ now

/-- `_process`, with the record and the reading of the clock the scan took, the answer of
    `get_result`, and the store at the end of what it drives. -/
def process (c : AutoDKG) (dl : InMemoryDataLayer) (electionId : Bytes) (record : ElectionRecord)
    (resultPublished : Bool) (now : Int) (dkg : DkgAnswer) (tally : TallyAnswers) : Pass :=
  match scannedState record resultPublished now with
  | .complete => ⟨{ c with done := electionId :: c.done }, dl, .complete⟩
  | .dkgFailed => ⟨{ c with failed := electionId :: c.failed }, dl, .dkgFailed⟩
  | .registered => driveDkg P c dl electionId record.config now dkg
  | .tallying => driveTally E P c dl electionId record.config tally
  | .tallyStalled => ⟨c, dl, .tallyStalled⟩
  | _ => ⟨c, dl, .notReady⟩

end

namespace CoordinatorSample

/-- The small election, with a url for each keyper. -/
def config : ElectionConfig := { smallConfig with
  keypers := [⟨[1], pyStr "k1"⟩, ⟨[2], pyStr "k2"⟩, ⟨[3], pyStr "k3"⟩]
  length_keypers := rfl
  nodup_keys := by decide }

end CoordinatorSample
end ElGamalVoting
