import ElGamalVoting.Contracts.Election

/- Decryption shares on chain (`contracts/src/election/ElectionDecryption.sol`).

   A member's share is stored once, under its position in the keyper set. The set counts its members in
   64 bits; the stored index has eight, and the rest is cut off. What the entries contain is not
   checked beyond their number and the length of the points. -/
namespace ElGamalVoting
open Lib

namespace Contract

structure DecryptionShare where
  keyperIndex : Nat
  submittedAt : Nat
  shares : List Bytes
  proofs : List (Nat × Nat)
  deriving DecidableEq

/-- The storage with the shares. -/
structure ShareBoard where
  votes : Storage := {}
  hasSubmittedDecryptionShare : Bytes → Bool := fun _ => false
  decryptionShares : List DecryptionShare := []

def KeyperSet.getMemberIndex (ks : KeyperSet) (account : Bytes) : Except Revert Nat :=
  if account ∈ ks.members then .ok (ks.members.idxOf account) else .error (.invalidMember account)

section
variable (E : EvmLib) (el : Election)

def decryptionShareHash (shares : List Bytes) (proofs : List (Nat × Nat)) : Bytes :=
  E.keccak (decryptShareDst ++ el.id ++ E.abiBytesArray shares ++ E.abiProofs proofs)

omit E in
def registerDecryptionShare (s : ShareBoard) (timestamp : Nat) (voter : Bytes) (shares : List Bytes)
    (proofs : List (Nat × Nat)) : Except Revert ShareBoard := do
  require (s.votes.aggregatePublished = true) .aggregateNotPublished
  require (voter ∈ el.keyperSet.members) (.unauthorizedKeyper voter)
  require (s.hasSubmittedDecryptionShare voter = false) (.alreadyVoted voter)
  require (shares.length = el.numCandidates ∧ proofs.length = shares.length) .invalidDecryptionSharePayload
  let index ← el.keyperSet.getMemberIndex voter
  shares.forM requireG2Point
  pure { s with
    hasSubmittedDecryptionShare := Function.update s.hasSubmittedDecryptionShare voter true
    decryptionShares := s.decryptionShares ++ [⟨index % 2 ^ 8, timestamp % 2 ^ 64, shares, proofs⟩] }

omit E in
def requireDecryptionPhase (s : ShareBoard) (timestamp : Nat) : Except Revert Unit := do
  require (s.votes.cancelled = false) .alreadyCancelled
  require (s.votes.dkgFinalized = true) .dkgNotFinalized
  require (el.votingEnd ≤ timestamp) (.votingStillOpen timestamp)

omit E in
def submitDecryptionShare (s : ShareBoard) (timestamp : Nat) (sender : Bytes) (shares : List Bytes)
    (proofs : List (Nat × Nat)) : Except Revert ShareBoard := do
  requireDecryptionPhase el s timestamp
  registerDecryptionShare el s timestamp sender shares proofs

def submitDecryptionShareSigned (s : ShareBoard) (timestamp : Nat) (shares : List Bytes)
    (proofs : List (Nat × Nat)) (keyperSig : Bytes) : Except Revert ShareBoard := do
  requireDecryptionPhase el s timestamp
  let signer ← recover E (decryptionShareHash E el shares proofs) keyperSig
  registerDecryptionShare el s timestamp signer shares proofs

end

section
variable {E : EvmLib} {el : Election} {s s' : ShareBoard} {timestamp : Nat} {voter : Bytes}
  {shares : List Bytes} {proofs : List (Nat × Nat)}

/-- What an accepted share has changed, and under which conditions it was accepted. -/
structure ShareStored (el : Election) (s : ShareBoard) (timestamp : Nat) (voter : Bytes) (shares : List Bytes)
    (proofs : List (Nat × Nat)) (s' : ShareBoard) : Prop where
  member : voter ∈ el.keyperSet.members
  first : s.hasSubmittedDecryptionShare voter = false
  proofs_length : proofs.length = shares.length
  after : s' = { s with
    hasSubmittedDecryptionShare := Function.update s.hasSubmittedDecryptionShare voter true
    decryptionShares := s.decryptionShares ++
      [⟨el.keyperSet.members.idxOf voter % 2 ^ 8, timestamp % 2 ^ 64, shares, proofs⟩] }

theorem registerDecryptionShare_eq_ok (h : registerDecryptionShare el s timestamp voter shares proofs = .ok s') :
    ShareStored el s timestamp voter shares proofs s' := by
  rw [registerDecryptionShare] at h
  obtain ⟨-, h⟩ := require_bind_eq_ok.mp h
  obtain ⟨hmember, h⟩ := require_bind_eq_ok.mp h
  obtain ⟨hfirst, h⟩ := require_bind_eq_ok.mp h
  obtain ⟨hlength, h⟩ := require_bind_eq_ok.mp h
  rw [KeyperSet.getMemberIndex, if_pos hmember, ok_bind] at h
  obtain ⟨_, -, h⟩ := bind_eq_ok.mp h
  cases h
  exact ⟨hmember, hfirst, hlength.2, rfl⟩

theorem submitDecryptionShare_eq_ok (h : submitDecryptionShare el s timestamp voter shares proofs = .ok s') :
    ShareStored el s timestamp voter shares proofs s' := by
  obtain ⟨_, -, h⟩ := bind_eq_ok.mp h
  exact registerDecryptionShare_eq_ok h

theorem submitDecryptionShareSigned_eq_ok {keyperSig : Bytes}
    (h : submitDecryptionShareSigned E el s timestamp shares proofs keyperSig = .ok s') :
    ∃ signer, E.recoverMessage (decryptionShareHash E el shares proofs) keyperSig = some signer ∧
      ShareStored el s timestamp signer shares proofs s' := by
  obtain ⟨_, -, h⟩ := bind_eq_ok.mp h
  obtain ⟨signer, hsigner, h⟩ := bind_eq_ok.mp h
  refine ⟨signer, ?_, registerDecryptionShare_eq_ok h⟩
  rw [recover] at hsigner
  split at hsigner
  · cases hsigner
  · rename_i address haddress
    cases hsigner
    exact haddress

end
end Contract
end ElGamalVoting
