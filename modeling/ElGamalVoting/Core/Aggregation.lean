import ElGamalVoting.Core.Admission
import ElGamalVoting.Crypto.ThresholdKey

/- Weighted homomorphic aggregation and threshold recovery (`core/aggregation.py`).

   The aggregate of a candidate is the sum of the admitted ballots' ciphertexts,
   each times its scaled weight. `deriveTaus` filters the share envelopes by
   their DLEQ proofs, interpolates the first `quorum` accepted ones for every
   candidate, and leaves the plaintext in the exponent; `recoverResult` solves for
   it and `checkResult` compares it with a published total.

   An envelope that does not count at a candidate (no such entry, an index
   outside the committee, undecodable bytes, a proof that fails) is skipped:
   `checkEntry` returns `none` for it. -/
namespace ElGamalVoting
open Lib

/-- One attested weight in the units the election counts in, rounded half up. -/
def scaledWeight (weight : Int) (scale : Nat) : Int := (weight + (scale / 2 : Nat)) / scale

def bsgsBound (config : ElectionConfig) (totalScaledWeight : Int) : Int :=
  config.budget * totalScaledWeight

section
variable {G₁ G₂ : Type} [AddCommGroup G₁] [AddCommGroup G₂] [DecidableEq G₂] (S : Suite G₁ G₂)

omit [DecidableEq G₂] in
/-- Adds one ballot's weighted ciphertexts to the accumulators: the loop over the
    candidates. -/
def addBallot (w : Int) : List (G₂ × G₂) → List Ciphertext → Py (List (G₂ × G₂))
  | [], _ => pure []
  | _ :: _, [] => .error (.indexError "tuple index out of range")
  | acc :: accs, ct :: cts => do
    let pts ← decodeCiphertext S (ct.c1, ct.c2)
    let rest ← addBallot w accs cts
    pure (addCt acc (scalarMulCt w pts) :: rest)

omit [DecidableEq G₂] in
/-- Per-candidate weighted sums; a ballot whose weight scales to zero is skipped. -/
def aggregatePoints (admitted : List AdmittedBallot) (numCandidates scale : Nat) :
    Py (List (G₂ × G₂)) :=
  admitted.foldlM (fun acc ab =>
    let w := scaledWeight ab.weight scale
    if w = 0 then pure acc else addBallot S w acc ab.envelope.ciphertexts)
    (List.replicate numCandidates (0, 0))

omit [DecidableEq G₂] in
def buildAggregateArtifact (config : ElectionConfig) (admission : AdmissionResult) :
    Py AggregateArtifact := do
  let aggPts ← aggregatePoints S admission.admitted config.numCandidates config.scale
  pure {
    electionId := config.electionId
    aggregates := aggPts.map fun ct => ⟨S.g2.toCompressed ct.1, S.g2.toCompressed ct.2⟩
    admitted := admission.admitted.map AdmittedBallot.sequenceNumber
    exclusions := admission.exclusions
    totalAdmittedWeight := admission.totalAdmittedWeight
    totalScaledWeight := (admission.admitted.map fun a => scaledWeight a.weight config.scale).sum }

/-! Share verification and interpolation. -/

omit [DecidableEq G₂] in
/-- The decoding of one entry; each of the three raises `ValueError` only. -/
def decodeEntry (entry : DecryptionShareEntry) (committeePk : Bytes) : Py (G₂ × (Int × Int) × G₂) := do
  let sigma ← g2FromCompressed S.g2 entry.sigma
  let ez ← decodeDleq entry.proof
  let mpkK ← g2FromCompressed S.g2 committeePk
  pure (sigma, ez, mpkK)

omit [DecidableEq G₂] in
/-- Whether an envelope counts at candidate `j`, and with which index and point. -/
def checkEntry (electionId : Bytes) (committeePks : List Bytes) (j : Nat) (c1 c2 : G₂)
    (share : DecryptionShareEnvelope) : Py (Option (Int × G₂)) :=
  match share.entries[j]? with
  | none => .ok none
  | some entry =>
    if ¬ (1 ≤ share.keyperIndex ∧ share.keyperIndex ≤ committeePks.length) then .ok none
    else match decodeEntry S entry (committeePks.getD (share.keyperIndex - 1).toNat []) with
      | .error _ => .ok none
      | .ok (sigma, (e, z), mpkK) => do
        let t ← makeDecryptTranscript electionId j
        let (ok, _) ← verifyDecryptionShare S t c1 c2 mpkK sigma e z share.keyperIndex
        pure (if ok then some (share.keyperIndex, sigma) else none)

omit [DecidableEq G₂] in
/-- The accepted shares of candidate `j`, in the order of the envelopes. -/
def validShares (electionId : Bytes) (committeePks : List Bytes) (j : Nat) (c1 c2 : G₂)
    (shares : List DecryptionShareEnvelope) : Py (List (Int × G₂)) := do
  let checked ← shares.mapM (checkEntry S electionId committeePks j c1 c2)
  pure (checked.filterMap id)

omit [DecidableEq G₂] in
/-- The loop over the candidates from `j` on: `τ` and the indices used for each, or
    `none` when some candidate has too few accepted shares. -/
def deriveTausFrom (electionId : Bytes) (committeePks : List Bytes) (quorum : Nat)
    (shares : List DecryptionShareEnvelope) :
    Nat → List Ciphertext → Py (Option (List (G₂ × List Int)))
  | _, [] => pure (some [])
  | j, ct :: cts => do
    let c1 ← g2FromCompressed S.g2 ct.c1
    let c2 ← g2FromCompressed S.g2 ct.c2
    let valid ← validShares S electionId committeePks j c1 c2 shares
    if valid.length < quorum then pure none
    else
      let chosen := valid.take quorum
      let sigma ← combineShares chosen
      let rest ← deriveTausFrom electionId committeePks quorum shares (j + 1) cts
      pure (rest.map fun taus => (c2 + -sigma, chosen.map Prod.fst) :: taus)

omit [DecidableEq G₂] in
/-- Per-candidate `τ = C2 - σ`, with the indices the first candidate used. -/
def deriveTaus (config : ElectionConfig) (aggregate : AggregateArtifact)
    (shares : List DecryptionShareEnvelope) (committeePks : List Bytes) (quorum : Nat) :
    Py (Option (List G₂ × List Int)) := do
  let derived ← deriveTausFrom S config.electionId committeePks quorum shares 0 aggregate.aggregates
  pure (derived.map fun taus => (taus.map Prod.fst, (taus.head?.map Prod.snd).getD []))

/-! The two ways to establish a result. -/

def infeasibleMessage (config : ElectionConfig) (bound totalAdmittedWeight ceiling : Int) : String :=
  s!"BSGS bound {bound} (budget {config.budget} x total admitted weight " ++
  s!"{totalAdmittedWeight}) exceeds this deployment's solver " ++
  s!"ceiling of {ceiling}. Raise the ceiling and give the " ++
  "coordinator memory to match (docs/COORDINATOR_SIZING.md), or the " ++
  "tally cannot complete."

/-- Solves the discrete logarithm of every candidate within the derived bound. -/
def recoverResult (config : ElectionConfig) (aggregate : AggregateArtifact)
    (shares : List DecryptionShareEnvelope) (committeePks : List Bytes) (quorum : Nat)
    (solverCeiling : Option Int) : Py (Option ResultArtifact) :=
  let bound := bsgsBound config aggregate.totalScaledWeight
  match solverCeiling.filter fun ceiling => ceiling < bound with
  | some ceiling =>
    .error (.tallyInfeasible (infeasibleMessage config bound aggregate.totalAdmittedWeight ceiling))
  | none => do
    match (← deriveTaus S config aggregate shares committeePks quorum) with
    | none => pure none
    | some (taus, indicesUsed) =>
      let table := buildBabyStepTable S.g2 bound
      match taus.mapM fun tau => babyStepGiantStepWithTable S.g2 tau table with
      | none => pure none
      | some totals =>
        pure (some { electionId := config.electionId, totals, keyperIndices := indicesUsed,
                     bsgsBound := bound })

/-- The first published total that is out of range or does not decrypt. -/
def badTotal (bound : Int) : Nat → List G₂ → List Int → Option String
  | j, tau :: taus, total :: totals =>
    if ¬ (0 ≤ total ∧ total ≤ bound) then
      some s!"result: total[{j}] = {total} outside [0, {bound}]"
    else if mul S.g2.gen total ≠ tau then
      some s!"result: total[{j}] = {total} does not decrypt the aggregate"
    else badTotal bound (j + 1) taus totals
  | _, _, _ => none

/-- Checks published totals; `none` when they hold, else the reason. -/
def checkResult (config : ElectionConfig) (aggregate : AggregateArtifact)
    (shares : List DecryptionShareEnvelope) (committeePks : List Bytes) (quorum : Nat)
    (claimedTotals : List Int) : Py (Option String) :=
  if claimedTotals.length ≠ aggregate.aggregates.length then
    .ok (some (s!"result: {claimedTotals.length} totals published for " ++
      s!"{aggregate.aggregates.length} candidates"))
  else do
    match (← deriveTaus S config aggregate shares committeePks quorum) with
    | none => pure (some s!"shares: fewer than {quorum} valid shares for some candidate")
    | some (taus, _) =>
      let bound := bsgsBound config aggregate.totalScaledWeight
      match badTotal S bound 0 taus claimedTotals with
      | some reason => pure (some reason)
      | none =>
        let summed := claimedTotals.sum
        match config.mode with
        | .exact =>
          if summed ≠ bound then
            pure (some (s!"result: totals sum to {summed}, not the {bound} that " ++
              "budget x total admitted weight requires in exact mode"))
          else pure none
        | .atMost =>
          if bound < summed then
            pure (some s!"result: totals sum to {summed}, over the bound {bound}")
          else pure none

end
end ElGamalVoting
