import ElGamalVoting.Contracts.Election

/- Ballots on chain (`contracts/src/election/ElectionVoting.sol`).

   `submitVote` checks the window, the fee and the lengths it knows; what is inside the
   attestation, the proof and the signature is not its business. An accepted ballot is
   appended with the block time and its sender. The index by pseudonym, which only
   `getBallot` reads, and the event are left out. -/
namespace ElGamalVoting
open Lib

namespace Contract

structure Ballot where
  pseudonym : Bytes
  vk : Bytes
  ciphertexts : List (Bytes × Bytes)
  zkProof : Bytes
  voterSignature : Bytes
  wrAttestation : Bytes
  length_pseudonym : pseudonym.length = 32
  deriving DecidableEq

structure BallotRecord where
  ballot : Ballot
  submittedAt : Nat
  submittedBy : Bytes
  deriving DecidableEq

/-- The storage with the ballots. -/
structure Board where
  votes : Storage := {}
  ballotRecords : List BallotRecord := []

/-- A call of `submitVote`: `voteProxy` says whether the sender holds the vote-proxy role. -/
structure VoteTx where
  timestamp : Nat
  sender : Bytes
  value : Nat
  voteProxy : Bool
  ballot : Ballot

section
variable (el : Election) (selfSubmitFee : Nat)

def submitVote (s : Board) (tx : VoteTx) : Except Revert Board := do
  require (s.votes.cancelled = false) .alreadyCancelled
  require (s.votes.dkgFinalized = true) .dkgNotFinalized
  require (el.votingStart ≤ tx.timestamp) (.votingNotStarted tx.timestamp)
  require (tx.timestamp < el.votingEnd) (.votingClosed tx.timestamp)
  require (tx.ballot.pseudonym ≠ List.replicate 32 0) .invalidPseudonym
  require (tx.ballot.vk.length = 48 ∧ tx.ballot.zkProof ≠ [] ∧ tx.ballot.voterSignature ≠ [] ∧
    tx.ballot.wrAttestation ≠ [] ∧ tx.ballot.ciphertexts.length = el.numCandidates) .invalidVotePayload
  let expectedFee := if tx.voteProxy then 0 else selfSubmitFee
  require (tx.value = expectedFee) (.invalidVoteFee expectedFee tx.value)
  tx.ballot.ciphertexts.forM fun ct => do
    requireG2Point ct.1
    requireG2Point ct.2
  pure { s with ballotRecords := s.ballotRecords ++ [⟨tx.ballot, tx.timestamp % 2 ^ 64, tx.sender⟩] }

end

/-- A memory array of the records from an index on; outside the storage array it panics. -/
def getBallots (s : Board) (startIndex count : Nat) : Except Revert (List BallotRecord) :=
  (List.range count).mapM fun index =>
    match s.ballotRecords[startIndex + index]? with
    | some record => .ok record
    | none => .error (.panic 0x32)

/-! Runs. -/

inductive BoardTx where
  | vote (tx : VoteTx)
  | other (tx : Tx)

section
variable (E : EvmLib) (el : Election) (selfSubmitFee : Nat)

/-- The board after a transaction, accepted or reverted. -/
def BoardTx.apply (s : Board) : BoardTx → Board
  | .vote tx =>
    match submitVote el selfSubmitFee s tx with
    | .ok s' => s'
    | .error _ => s
  | .other tx => { s with votes := tx.apply E el s.votes }

def runBoard (s : Board) (txs : List BoardTx) : Board := txs.foldl (BoardTx.apply E el selfSubmitFee) s

/-- The records of the accepted ballots, in order. -/
def acceptedBallots (s : Board) : List BoardTx → List BallotRecord
  | [] => []
  | .vote tx :: txs =>
    match submitVote el selfSubmitFee s tx with
    | .ok s' => ⟨tx.ballot, tx.timestamp % 2 ^ 64, tx.sender⟩ :: acceptedBallots s' txs
    | .error _ => acceptedBallots s txs
  | .other tx :: txs => acceptedBallots { s with votes := tx.apply E el s.votes } txs

end

section
variable {E : EvmLib} {el : Election} {selfSubmitFee : Nat}

theorem submitVote_eq_ok {s s' : Board} {tx : VoteTx} (h : submitVote el selfSubmitFee s tx = .ok s') :
    s' = { s with ballotRecords := s.ballotRecords ++ [⟨tx.ballot, tx.timestamp % 2 ^ 64, tx.sender⟩] } := by
  rw [submitVote] at h
  obtain ⟨-, h⟩ := require_bind_eq_ok.mp h
  obtain ⟨-, h⟩ := require_bind_eq_ok.mp h
  obtain ⟨-, h⟩ := require_bind_eq_ok.mp h
  obtain ⟨-, h⟩ := require_bind_eq_ok.mp h
  obtain ⟨-, h⟩ := require_bind_eq_ok.mp h
  obtain ⟨-, h⟩ := require_bind_eq_ok.mp h
  obtain ⟨-, h⟩ := require_bind_eq_ok.mp h
  obtain ⟨_, -, h⟩ := bind_eq_ok.mp h
  cases h
  rfl

/-- The board holds the accepted ballots and no other. -/
theorem ballotRecords_run (s : Board) (txs : List BoardTx) :
    (runBoard E el selfSubmitFee s txs).ballotRecords =
      s.ballotRecords ++ acceptedBallots E el selfSubmitFee s txs := by
  induction txs generalizing s with
  | nil => exact (List.append_nil _).symm
  | cons tx txs ih =>
    show (runBoard E el selfSubmitFee (tx.apply E el selfSubmitFee s) txs).ballotRecords = _
    cases tx with
    | vote tx =>
      cases hvote : submitVote el selfSubmitFee s tx with
      | error e =>
        simp only [BoardTx.apply, acceptedBallots, hvote]
        exact ih s
      | ok s' =>
        simp only [BoardTx.apply, acceptedBallots, hvote]
        rw [ih s', submitVote_eq_ok hvote, List.append_assoc, List.singleton_append]
    | other tx => exact ih _

/-- A window inside the array is read as it is. -/
theorem getBallots_eq {s : Board} {start count : Nat} (h : start + count ≤ s.ballotRecords.length) :
    getBallots s start count = .ok ((s.ballotRecords.drop start).take count) := by
  rw [getBallots, mapM_eq_ok, List.forall₂_iff_get]
  refine ⟨?_, ?_⟩
  · rw [List.length_range, List.length_take, List.length_drop]
    omega
  · intro i hi hi'
    rw [List.length_range] at hi
    have hlt : start + i < s.ballotRecords.length := by omega
    simp [List.getElem?_eq_getElem hlt]

end
end Contract
end ElGamalVoting
