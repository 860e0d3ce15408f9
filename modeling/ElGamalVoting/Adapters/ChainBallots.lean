import ElGamalVoting.Contracts.Ballots
import ElGamalVoting.Contracts.MemoryRefinement
import ElGamalVoting.Envelopes.JsonLoads

/- The ballots of the chain adapter (`list_ballots` of `adapters/chain/client.py` and the
   ballot half of `adapters/chain/codec.py`).

   The adapter reads a page of records from the contract and decodes each. The credential is
   the JSON text in `wrAttestation`, of which the contract checks only that it is not empty:
   one record whose text does not decode raises for the whole page. -/
namespace ElGamalVoting
open Lib

section
variable (depth : Nat)

/-- The credential from `wrAttestation`. -/
def unpackAttestation (raw : Bytes) : Py Attestation :=
  match decodeUtf8 raw with
  | none => .error (.unicodeDecodeError "'utf-8' codec can't decode bytes")
  | some text => do
    let d ← jsonLoads depth text
    decAttestation d "attestation"

def ballotFromContract (raw : Contract.Ballot) (electionId : Bytes) : Py BallotEnvelope := do
  let attestation ← unpackAttestation depth raw.wrAttestation
  pure {
    electionId := electionId
    pseudonym := raw.pseudonym
    vk := raw.vk
    ciphertexts := raw.ciphertexts.map fun c => ⟨c.1, c.2⟩
    zkProof := raw.zkProof
    voterSignature := raw.voterSignature
    attestation := attestation }

def ballotRecordFromContract (raw : Contract.BallotRecord) (electionId : Bytes) (sequenceNumber : Int) :
    Py StoredBallot := do
  let envelope ← ballotFromContract depth raw.ballot electionId
  pure ⟨sequenceNumber, envelope, some raw.submittedAt⟩

/-- A page of the ballots. A revert of the call raises. -/
def Contract.listBallots (s : Contract.Board) (electionId : Bytes) (start count : Int) :
    Py (List StoredBallot) :=
  let total : Int := s.ballotRecords.length
  let count := min count (max 0 (total - start))
  if count ≤ 0 then .ok []
  else do
    let startIndex ← abiUint 256 start
    match Contract.getBallots s startIndex count.toNat with
    | .error _ => .error (.valueError "execution reverted")
    | .ok raw =>
      raw.zipIdx.mapM fun r => ballotRecordFromContract depth r.1 electionId (start + (r.2 : Nat))

end

section
variable {depth : Nat} {electionId : Bytes}

/-- What the list says about a record. -/
structure Lists (depth : Nat) (electionId : Bytes) (record : Contract.BallotRecord) (index : Nat)
    (stored : StoredBallot) : Prop where
  sequenceNumber : stored.sequenceNumber = index
  submittedAt : stored.submittedAt = some (record.submittedAt : Int)
  electionId : stored.envelope.electionId = electionId
  pseudonym : stored.envelope.pseudonym = record.ballot.pseudonym
  vk : stored.envelope.vk = record.ballot.vk
  ciphertexts : stored.envelope.ciphertexts.map (fun ct => (ct.c1, ct.c2)) = record.ballot.ciphertexts
  zkProof : stored.envelope.zkProof = record.ballot.zkProof
  voterSignature : stored.envelope.voterSignature = record.ballot.voterSignature
  attestation : unpackAttestation depth record.ballot.wrAttestation = .ok stored.envelope.attestation

theorem ballotRecordFromContract_eq_ok {record : Contract.BallotRecord} {index : Nat} {stored : StoredBallot}
    (h : ballotRecordFromContract depth record electionId (index : Int) = .ok stored) :
    Lists depth electionId record index stored := by
  obtain ⟨envelope, henvelope, h⟩ := bind_eq_ok.mp h
  obtain ⟨attestation, hatt, henvelope⟩ := bind_eq_ok.mp henvelope
  cases h
  cases henvelope
  refine ⟨rfl, rfl, rfl, rfl, rfl, ?_, rfl, rfl, hatt⟩
  rw [List.map_map]
  exact List.map_id _

theorem ballotRecordFromContract_returns {record : Contract.BallotRecord} {seq : Int} :
    Returns (ballotRecordFromContract depth record electionId seq) ↔
      Returns (unpackAttestation depth record.ballot.wrAttestation) := by
  constructor
  · rintro ⟨stored, h⟩
    obtain ⟨envelope, henvelope, -⟩ := bind_eq_ok.mp h
    obtain ⟨attestation, hatt, -⟩ := bind_eq_ok.mp henvelope
    exact ⟨attestation, hatt⟩
  · rintro ⟨attestation, hatt⟩
    refine Returns.bind (Returns.bind ⟨attestation, hatt⟩ fun _ _ => Returns.ok _) fun _ _ => Returns.ok _

/-- The whole list is what decoding every record gives. -/
theorem listBallots_whole (s : Contract.Board) :
    Contract.listBallots depth s electionId 0 s.ballotRecords.length =
      s.ballotRecords.zipIdx.mapM fun r => ballotRecordFromContract depth r.1 electionId (r.2 : Nat) := by
  have htotal : min (s.ballotRecords.length : Int) (max 0 ((s.ballotRecords.length : Int) - 0)) =
      s.ballotRecords.length := by omega
  have hzero : abiUint 256 0 = .ok 0 := rfl
  rw [Contract.listBallots]
  simp only [htotal]
  split
  case isTrue hempty =>
    have hnil : s.ballotRecords = [] := List.length_eq_zero_iff.mp (by omega)
    rw [hnil]
    rfl
  case isFalse =>
    rw [hzero, ok_bind, Int.toNat_natCast, Contract.getBallots_eq (by omega), List.drop_zero,
      List.take_length]
    simp only [Int.zero_add]

/-- After every run of transactions, the ballot list is read in whole, one entry for each accepted
    ballot, exactly where every accepted ballot carries a credential that decodes. -/
theorem list_ballots_returns_iff (E : EvmLib) (el : Contract.Election) (selfSubmitFee : Nat)
    (txs : List Contract.BoardTx) :
    (∃ ballots, Contract.listBallots depth (Contract.runBoard E el selfSubmitFee {} txs) electionId 0
        (Contract.runBoard E el selfSubmitFee {} txs).ballotRecords.length = .ok ballots ∧
      List.Forall₂ (fun record stored => Lists depth electionId record.1 record.2 stored)
        (Contract.acceptedBallots E el selfSubmitFee {} txs).zipIdx ballots) ↔
      ∀ record ∈ Contract.acceptedBallots E el selfSubmitFee {} txs,
        Returns (unpackAttestation depth record.ballot.wrAttestation) := by
  have hrecords : (Contract.runBoard E el selfSubmitFee {} txs).ballotRecords =
      Contract.acceptedBallots E el selfSubmitFee {} txs := Contract.ballotRecords_run {} txs
  rw [listBallots_whole, hrecords]
  constructor
  · rintro ⟨ballots, hlist, hall⟩ record hrecord
    obtain ⟨index, hindex⟩ := List.getElem?_of_mem hrecord
    have hmem : (record, index) ∈ (Contract.acceptedBallots E el selfSubmitFee {} txs).zipIdx :=
      List.mem_zipIdx_iff_getElem?.mpr hindex
    obtain ⟨stored, -, hlists⟩ := forall₂_exists_right hall hmem
    exact ⟨_, hlists.attestation⟩
  · intro h
    have hreturns : Returns ((Contract.acceptedBallots E el selfSubmitFee {} txs).zipIdx.mapM
        fun r => ballotRecordFromContract depth r.1 electionId (r.2 : Nat)) := by
      refine mapM_returns ?_
      intro r hr
      exact ballotRecordFromContract_returns.mpr (h r.1 (List.fst_mem_of_mem_zipIdx hr))
    obtain ⟨ballots, hlist⟩ := hreturns
    refine ⟨ballots, hlist, ?_⟩
    rw [mapM_eq_ok] at hlist
    exact hlist.imp fun _ _ hr => ballotRecordFromContract_eq_ok hr

end

/-! A stranger pays the fee and submits a ballot with one byte for a credential. -/

namespace PoisonSample
open Contract SampleVotes

def ballot : Contract.Ballot where
  pseudonym := beBytes 32 9
  vk := beBytes 48 1
  ciphertexts := [(beBytes 96 1, beBytes 96 2)]
  zkProof := [1]
  voterSignature := [1]
  wrAttestation := [0xFF]
  length_pseudonym := by decide

def txs : List BoardTx :=
  [.other ⟨10, [1], .voteDKGResult (key 5).1 (key 5).2⟩, .other ⟨11, [2], .voteDKGResult (key 5).1 (key 5).2⟩,
    .vote ⟨150, [7], 3, false, ballot⟩]

/-- The contract accepts it, and no list is returned. -/
theorem list_ballots_raises :
    acceptedBallots lib election 3 {} txs = [⟨ballot, 150, [7]⟩] ∧
    ∀ depth, Contract.listBallots depth (runBoard lib election 3 {} txs) election.id 0
        (runBoard lib election 3 {} txs).ballotRecords.length =
      .error (.unicodeDecodeError "'utf-8' codec can't decode bytes") := by
  have haccepted : acceptedBallots lib election 3 {} txs = [⟨ballot, 150, [7]⟩] := by decide +kernel
  have hrecords : (runBoard lib election 3 {} txs).ballotRecords = [⟨ballot, 150, [7]⟩] := by
    rw [ballotRecords_run, haccepted]
    rfl
  have hraises : ∀ depth, unpackAttestation depth [0xFF] =
      .error (.unicodeDecodeError "'utf-8' codec can't decode bytes") := fun _ => rfl
  refine ⟨haccepted, ?_⟩
  intro depth
  rw [listBallots_whole, hrecords]
  simp only [List.zipIdx_cons, List.zipIdx_nil, List.mapM_cons, ballotRecordFromContract, ballotFromContract, ballot]
  rw [hraises]
  rfl

end PoisonSample
end ElGamalVoting
