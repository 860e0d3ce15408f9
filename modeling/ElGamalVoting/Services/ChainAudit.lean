import ElGamalVoting.Adapters.ChainReads
import ElGamalVoting.Services.AuditSoundness

/- Auditing an election on chain (`services/auditor/auditor.py` over `adapters/chain/client.py`).

   The auditor recovers the author of every key submission from its signature. The chain adapter builds
   the submissions from event logs, which carry the author but no signature, and leaves the signature
   empty: the contract has checked it. So there is no election on chain that audits clean. -/
namespace ElGamalVoting
open Lib Contract

section
variable {E : EthLib} {cfg : ElectionConfig} {electionId : Bytes}

/-- No author is recovered from an empty signature. -/
theorem submitterIndex_unsigned (hempty : ∀ digest, E.recoverMessage digest [] = none)
    {sub : DKGResultSubmission} (hsub : sub.keyperSignature = []) : submitterIndex E cfg electionId sub = none := by
  rw [submitterIndex, hsub, hempty]
  rfl

/-- And without authors there is no quorum. -/
theorem recomputedKey_unsigned {submissions : List DKGResultSubmission}
    (h : ∀ sub ∈ submissions, submitterIndex E cfg electionId sub = none) :
    recomputedKey E cfg electionId submissions = none := by
  have hvotes : signedVotes E cfg electionId submissions = [] := by
    rw [signedVotes, List.filterMap_eq_nil_iff]
    intro sub hsub
    rw [h sub hsub]
    rfl
  rw [recomputedKey, hvotes]
  rfl

theorem getDkgSubmissions_unsigned (c : ChainElection) (electionId : Bytes) :
    ∀ sub ∈ c.getDkgSubmissions electionId, sub.keyperSignature = [] := by
  intro sub hsub
  obtain ⟨ev, -, rfl⟩ := List.mem_map.mp hsub
  rfl

end

section
variable {G₁ G₂ : Type} [AddCommGroup G₁] [AddCommGroup G₂] [DecidableEq G₁] [DecidableEq G₂]

/-- Whatever has happened on chain, there is one submission for every vote, none of them has an author the
    auditor recovers, and no audit of the election is clean. -/
theorem chain_audit_never_ok (S : Suite G₁ G₂) (E : EvmLib) (hempty : ∀ digest, E.recoverMessage digest [] = none)
    (depth : Nat) (elections : Nat → Option ChainElection) (electionId : Bytes) (el : Election) (fixed : Fixed)
    (txs : List BoardTx) (shares : List Contract.DecryptionShare) (result : Option ElectionResult)
    (helection : electionOf elections electionId = .ok (ChainElection.after E el fixed txs shares result)) :
    (∃ submissions, (blockchainDataLayer depth elections).getDkgSubmissions electionId = .ok submissions ∧
      submissions.map DKGResultSubmission.pkElection =
        ((acceptedVotes E el {} (txs.filterMap BoardTx.committeeTx)).filterMap Vote.dkgLog).map
          DKGVoteLog.pkElection ∧
      ∀ cfg, ∀ sub ∈ submissions, submitterIndex E.toEthLib cfg electionId sub = none) ∧
    ∀ report, audit S E.toEthLib (blockchainDataLayer depth elections) electionId = .ok report →
      report.ok = false := by
  have hread : (blockchainDataLayer depth elections).getDkgSubmissions electionId =
      .ok ((ChainElection.after E el fixed txs shares result).getDkgSubmissions electionId) := by
    show (electionOf elections electionId >>= fun c => pure (c.getDkgSubmissions electionId)) = _
    rw [helection]
    rfl
  have hnone : ∀ cfg, ∀ sub ∈ (ChainElection.after E el fixed txs shares result).getDkgSubmissions electionId,
      submitterIndex E.toEthLib cfg electionId sub = none := fun cfg sub hsub =>
    submitterIndex_unsigned hempty (getDkgSubmissions_unsigned _ _ sub hsub)
  refine ⟨⟨_, hread, ?_, hnone⟩, ?_⟩
  · rw [ChainElection.getDkgSubmissions, List.map_map]
    rfl
  · intro report haudit
    rw [Bool.eq_false_iff]
    intro hok
    obtain ⟨v, hv, hkey, -⟩ := audit_links haudit hok
    have hsubs : v.submissions = (ChainElection.after E el fixed txs shares result).getDkgSubmissions electionId :=
      Except.ok.inj (hv.submissions.symm.trans hread)
    rw [recomputedKey_unsigned (by rw [hsubs]; exact hnone _)] at hkey
    cases hkey

end
/-! The small audit's election, run on chain. -/

namespace ChainAuditSample
open SampleAudit SampleVotes

def fixed : Fixed where
  electionId := 1
  keyperSet := { SampleVotes.election.keyperSet with urls := ["", "", ""], length_urls := by decide }
  adminAddr := [5]
  params := {
    votingStart := 100
    votingEnd := 200
    selfSubmitFee := 0
    numCandidates := 1
    budget := 1
    mode := 0
    variant := 0
    weighted := true
    scale := 1
    duplicatePolicy := 1
    protocolVersion := ""
    pkWR := smallConfig.eligibilityKey
    resultPublisher := [4]
    voteProxy := [6] }

def ballot : Contract.Ballot where
  pseudonym := (sampleBallot 1).pseudonym
  vk := (sampleBallot 1).vk
  ciphertexts := (sampleBallot 1).ciphertexts.map fun ct => (ct.c1, ct.c2)
  zkProof := (sampleBallot 1).zkProof
  voterSignature := (sampleBallot 1).voterSignature
  wrAttestation := (encAttestation (sampleBallot 1).attestation).dumps
  length_pseudonym := by decide +kernel

def tally : EncryptedTally := ⟨aggregate.aggregates.map fun ct => (ct.c1, ct.c2), [0], [], 1, 1⟩

/-- Two keypers vote for the key, a ballot comes in, and two keypers publish the aggregate. -/
def txs : List BoardTx :=
  [.other ⟨10, [1], .voteDKGResult SampleAudit.key.pkElection committeePks⟩,
    .other ⟨11, [3], .voteDKGResult SampleAudit.key.pkElection committeePks⟩,
    .vote ⟨150, [6], 0, true, ballot⟩,
    .other ⟨200, [1], .submitAggregate tally⟩, .other ⟨201, [2], .submitAggregate tally⟩]

def rawShare (i : Int) : Contract.DecryptionShare where
  keyperIndex := (i - 1).toNat
  submittedAt := 210
  shares := (SampleAudit.share i).entries.map DecryptionShareEntry.sigma
  proofs := (SampleAudit.share i).entries.map fun entry =>
    ((proofPair entry.proof).1.toNat, (proofPair entry.proof).2.toNat)

def chain : ChainElection :=
  ChainElection.after lib SampleVotes.election fixed txs [rawShare 3, rawShare 1] (some ⟨[1], [3, 1]⟩)

def elections (n : Nat) : Option ChainElection := if n = 1 then some chain else none

theorem electionOf_elections : electionOf elections smallConfig.electionId = .ok chain := by
  have hid : abiUint 256 (beNat smallConfig.electionId) = .ok 1 := by decide +kernel
  rw [electionOf, hid]
  rfl

end ChainAuditSample

open ChainAuditSample SampleAudit in
/-- Its audit finds fault with the two submissions, and with nothing else: with the signatures the keypers
    have made, the same answers audit clean. -/
theorem honest_chain_audit_fails :
    (audit Residue.suite plainEth (blockchainDataLayer 100 elections) smallConfig.electionId).map
      (fun report => (report.ok, report.discrepancies)) =
        .ok (false, ["dkg: a submission is signed by no registered keyper",
          "dkg: a submission is signed by no registered keyper", "dkg: no quorum among submissions"]) ∧
    (audit Residue.suite plainEth { blockchainDataLayer 100 elections with
      getDkgSubmissions := fun _ => .ok [submission 1, submission 3] } smallConfig.electionId).map AuditReport.ok =
        .ok true := by
  decide +kernel

open ChainAuditSample in
/-- There is one submission for each of the two votes, and nobody is recovered from it. -/
theorem chain_audit_of_two_votes :
    (∃ submissions, (blockchainDataLayer 100 elections).getDkgSubmissions smallConfig.electionId = .ok submissions ∧
      submissions.length = 2 ∧
      ∀ sub ∈ submissions, submitterIndex plainEth smallConfig smallConfig.electionId sub = none) ∧
    ∀ report, audit Residue.suite plainEth (blockchainDataLayer 100 elections) smallConfig.electionId = .ok report →
      report.ok = false := by
  obtain ⟨⟨submissions, hread, hkeys, hnone⟩, hnever⟩ := chain_audit_never_ok Residue.suite SampleVotes.lib
    (fun _ => rfl) 100 elections smallConfig.electionId SampleVotes.election fixed txs [rawShare 3, rawShare 1]
    (some ⟨[1], [3, 1]⟩) electionOf_elections
  refine ⟨⟨submissions, hread, ?_, hnone smallConfig⟩, hnever⟩
  have hlength := congrArg List.length hkeys
  rw [List.length_map] at hlength
  rw [hlength]
  decide +kernel

end ElGamalVoting
