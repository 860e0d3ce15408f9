import ElGamalVoting.Core.ResultAgreement
import ElGamalVoting.Services.Coordinator

/- Recovering and publishing the result (`services/tally_aggregator/tally_aggregator.py`).

   `finalize` looks at the derived state first: a complete election has its result, and only a
   tallying one is recovered. The stall flag is no fact of this state, so a stalled tally is
   taken up again. The publication itself is a write to the data layer; the answer of
   `finalize` carries it (`FinalizeAnswer`). -/
namespace ElGamalVoting
open Lib

/-- The signature of a request, as `Signer.sign` makes it. -/
def Signer.sign (E : EthLib) (signer : Signer) (op : String) (electionId payload : Bytes) : Py Bytes := do
  let digest ← requestDigest E op electionId payload
  signDigest E signer.privateKey digest

section
variable {G₁ G₂ : Type} [AddCommGroup G₁] [AddCommGroup G₂] [DecidableEq G₂] (S : Suite G₁ G₂) (E : EthLib)

/-- The result of a tallying election, signed, or `tooFew`. -/
def recoverAndSign (dl : DataLayer) (electionId : Bytes) (resultPublisher : Signer)
    (rec' : ElectionRecord) : Py FinalizeAnswer := do
  let agg ← dl.getAggregate electionId
  match agg, rec'.finalizedKey with
  | some agg, some key =>
    let shares ← dl.listDecryptionShares electionId
    match (← recoverResult S rec'.config agg shares key.committeePks rec'.config.threshold.t none) with
    | none => pure .tooFew
    | some result =>
      -- the payload binds the signature to these totals
      let payload ← resultDigest E electionId result
      let sig ← resultPublisher.sign E "result" electionId payload
      pure (.publish result sig)
  | _, _ => .error (.tallyError "cannot finalize: aggregate or key missing")

def finalizeAnswer (dl : DataLayer) (electionId : Bytes) (resultPublisher : Signer) (now : Int) :
    Py FinalizeAnswer := do
  let rec' ← dl.getElection electionId
  let result ← dl.getResult electionId
  let facts : StateFacts := {
    cancelled := rec'.cancelled
    keyFinalized := rec'.finalizedKey.isSome
    resultPublished := result.isSome }
  match deriveState rec'.config facts now with
  | .complete => pure .existing
  | .tallying => recoverAndSign S E dl electionId resultPublisher rec'
  | state => .error (.tallyError s!"cannot finalize: state is {state.value}")

/-- Collect a quorum of shares, recover the totals and publish them. -/
def finalize (dl : DataLayer) (electionId : Bytes) (resultPublisher : Signer) (now : Int) :
    FinalizeAnswer :=
  match finalizeAnswer S E dl electionId resultPublisher now with
  | .ok answer => answer
  | .error e => .raised e

variable {S E} {dl : DataLayer} {electionId : Bytes} {resultPublisher : Signer} {now : Int}
  {result : ResultArtifact} {sig : Bytes}

/-- What is published was recovered from the shares of the canonical aggregate, after the close
    of voting. -/
theorem finalize_eq_publish (h : finalize S E dl electionId resultPublisher now = .publish result sig) :
    ∃ rec' agg key shares, dl.getElection electionId = .ok rec' ∧ rec'.finalizedKey = some key ∧
      rec'.config.votingEnd ≤ now ∧ dl.getAggregate electionId = .ok (some agg) ∧
      dl.listDecryptionShares electionId = .ok shares ∧
      recoverResult S rec'.config agg shares key.committeePks rec'.config.threshold.t none =
        .ok (some result) := by
  have hanswer : finalizeAnswer S E dl electionId resultPublisher now = .ok (.publish result sig) := by
    unfold finalize at h
    split at h
    · rename_i answer hanswer
      rw [hanswer, h]
    · cases h
  rw [finalizeAnswer] at hanswer
  obtain ⟨rec', hrec, hanswer⟩ := bind_eq_ok.mp hanswer
  obtain ⟨published, -, hanswer⟩ := bind_eq_ok.mp hanswer
  dsimp only at hanswer
  split at hanswer
  · cases hanswer
  · rename_i hstate
    have hclosed : rec'.config.votingEnd ≤ now := by
      rw [deriveState] at hstate
      split_ifs at hstate
      omega
    rw [recoverAndSign] at hanswer
    obtain ⟨agg, hagg, hanswer⟩ := bind_eq_ok.mp hanswer
    split at hanswer
    · rename_i agg key hkey
      obtain ⟨shares, hshares, hanswer⟩ := bind_eq_ok.mp hanswer
      obtain ⟨recovered, hrecovered, hanswer⟩ := bind_eq_ok.mp hanswer
      cases recovered with
      | none => cases hanswer
      | some recovered =>
        obtain ⟨payload, -, hanswer⟩ := bind_eq_ok.mp hanswer
        obtain ⟨sig', -, hanswer⟩ := bind_eq_ok.mp hanswer
        cases hanswer
        exact ⟨rec', agg, key, shares, hrec, hkey, hclosed, hagg, hshares, hrecovered⟩
    · cases hanswer
  · cases hanswer

end
end ElGamalVoting
