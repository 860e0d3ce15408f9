import ElGamalVoting.Core.ShareList
import ElGamalVoting.Core.Quorum
import ElGamalVoting.Services.Reads

/- The auditor procedure (`services/auditor/auditor.py`).

   Everything is recomputed from the public reads of a data layer that may answer
   anything: the key from the signed submissions, the aggregate from the ballots,
   the result from the shares. The report starts with every flag down, and `audit`
   returns early wherever a value it needs is absent. -/
namespace ElGamalVoting
open Lib

structure AuditReport where
  dkgOk : Bool := false
  aggregateOk : Bool := false
  sharesOk : Bool := false
  resultOk : Bool := false
  discrepancies : List String := []

def AuditReport.ok (report : AuditReport) : Bool :=
  report.dkgOk && report.aggregateOk && report.sharesOk && report.resultOk && report.discrepancies == []

/-- The report with a discrepancy added. -/
def AuditReport.note (report : AuditReport) (reason : String) : AuditReport :=
  { report with discrepancies := report.discrepancies ++ [reason] }

/-- The committee member that signed a submission, if one did. -/
def submitterIndex (E : EthLib) (cfg : ElectionConfig) (electionId : Bytes)
    (submission : DKGResultSubmission) : Option Int :=
  (E.recoverMessage (dkgResultDigest E electionId submission.pkElection submission.committeePks)
    submission.keyperSignature).bind (memberIndex cfg)

/-- The submissions with a recognised signer, by signer and content. -/
def signedVotes (E : EthLib) (cfg : ElectionConfig) (electionId : Bytes)
    (submissions : List DKGResultSubmission) :
    List (Int × (Bytes × List Bytes) × (Bytes × List Bytes)) :=
  submissions.filterMap fun sub => (submitterIndex E cfg electionId sub).map fun idx =>
    (idx, (sub.pkElection, sub.committeePks), (sub.pkElection, sub.committeePks))

/-- The first content that reached the quorum among the submissions. -/
def recomputedKey (E : EthLib) (cfg : ElectionConfig) (electionId : Bytes)
    (submissions : List DKGResultSubmission) : Option (Bytes × List Bytes) :=
  ((Quorum.groupVotes (signedVotes E cfg electionId submissions)).entries.find? fun g =>
    cfg.threshold.t ≤ g.2.2.length).map Prod.fst

/-- Step 1: the key and committee, recomputed from the submissions. -/
def auditDkg (E : EthLib) (cfg : ElectionConfig) (electionId : Bytes)
    (submissions : List DKGResultSubmission) (publishedKey : Option FinalizedKey) : AuditReport :=
  let report : AuditReport := { discrepancies :=
    (submissions.filter fun sub => submitterIndex E cfg electionId sub = none).map fun _ =>
      "dkg: a submission is signed by no registered keyper" }
  match recomputedKey E cfg electionId submissions with
  | none => report.note "dkg: no quorum among submissions"
  | some finalized =>
    if publishedKey.map (fun key => (key.pkElection, key.committeePks)) ≠ some finalized then
      report.note "dkg: published finalized key disagrees with recomputation"
    else { report with dkgOk := true }

/-- The comparisons that name what differs between two aggregates. -/
def aggregateDifferences (recomputed published : AggregateArtifact) : List String :=
  (if recomputed.admitted ≠ published.admitted then
    ["aggregate: admitted set differs from recomputation"] else []) ++
  (if recomputed.aggregates ≠ published.aggregates then
    ["aggregate: ciphertexts differ from recomputation"] else []) ++
  (if recomputed.exclusions ≠ published.exclusions then
    ["aggregate: exclusions differ from recomputation"] else []) ++
  (if recomputed.totalAdmittedWeight ≠ published.totalAdmittedWeight then
    ["aggregate: total admitted weight differs"] else [])

/-- Step 2: the published aggregate against the recomputed one. -/
def auditAggregate (report : AuditReport) (recomputed published : AggregateArtifact) : AuditReport :=
  if recomputed = published then { report with aggregateOk := true }
  else { report with
    discrepancies := report.discrepancies ++ aggregateDifferences recomputed published }

def startsWithShares (reason : String) : Bool := "shares:".toList.isPrefixOf reason.toList

section
variable {G₁ G₂ : Type} [AddCommGroup G₁] [AddCommGroup G₂] [DecidableEq G₁] [DecidableEq G₂]
  (S : Suite G₁ G₂) (E : EthLib)

omit [DecidableEq G₁] in
/-- Steps 3 and 4: the shares, and the published totals against them. -/
def auditResult (report : AuditReport) (cfg : ElectionConfig) (agg : AggregateArtifact)
    (shares : List DecryptionShareEnvelope) (committeePks : List Bytes) (published : ResultArtifact) :
    Py AuditReport := do
  match (← checkResult S cfg agg shares committeePks cfg.threshold.t published.totals) with
  | some reason =>
    pure (AuditReport.note { report with sharesOk := !startsWithShares reason } reason)
  | none =>
    let expectedBound := bsgsBound cfg agg.totalAdmittedWeight
    if published.bsgsBound ≠ expectedBound then
      pure (AuditReport.note { report with sharesOk := true }
        s!"result: published BSGS bound {published.bsgsBound} != derived {expectedBound}")
    else pure { report with sharesOk := true, resultOk := true }

def audit (dl : DataLayer) (electionId : Bytes) : Py AuditReport := do
  let rec' ← dl.getElection electionId
  let cfg := rec'.config
  let submissions ← dl.getDkgSubmissions electionId
  let publishedKey ← dl.getFinalizedKey electionId
  let report := auditDkg E cfg electionId submissions publishedKey
  match publishedKey with
  | none => pure report
  | some key => do
    let stored ← readAllBallots dl electionId
    let admission ← admitBallots S stored cfg key.pkElection
    let recomputed ← buildAggregateArtifact S cfg admission
    match (← dl.getAggregate electionId) with
    | none => pure (report.note "aggregate: none published")
    | some published => do
      let report := auditAggregate report recomputed published
      let shares ← dl.listDecryptionShares electionId
      match (← dl.getResult electionId) with
      | none => pure (report.note "result: none published")
      | some result => auditResult S report cfg published shares key.committeePks result

end
end ElGamalVoting
