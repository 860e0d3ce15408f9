import ElGamalVoting.Envelopes.Canonical

/- Write identities and content-binding signatures (`core/authz.py` and
   `core/write_auth.py`).

   The Ethereum libraries are outside the repository: `EthLib` is what the code
   calls of them. `recoverMessage` is `Account.recover_message` on an EIP-191
   message, `none` where it raises. The four `abi` fields are the ABI encodings of
   the four type lists the digests use, on values of those types; that an integer
   outside its type raises `EncodingError` is `abiUint`. Nothing is assumed of
   any of these functions here. -/
namespace ElGamalVoting
open Lib

structure EthLib where
  keccak : Bytes → Bytes
  /-- `bytes[]` -/
  abiBytesArray : List Bytes → Bytes
  /-- `(uint256,uint256)[]` -/
  abiProofs : List (Nat × Nat) → Bytes
  /-- `((bytes,bytes)[],uint256[],(uint256,uint8)[],uint256,uint256)` -/
  abiTally : List (Bytes × Bytes) → List Nat → List (Nat × Nat) → Nat → Nat → Bytes
  /-- `uint256[], uint256[], uint256` -/
  abiResult : List Nat → List Nat → Nat → Bytes
  /-- The address of a private key. -/
  address : Bytes → Bytes
  signMessage : Bytes → Bytes → Bytes
  recoverMessage : Bytes → Bytes → Option Bytes

/-- A value of an unsigned ABI type, or `EncodingError`. -/
def abiUint (bits : Nat) (v : Int) : Py Nat :=
  if 0 ≤ v ∧ v < 2 ^ bits then .ok v.toNat
  else .error (.encodingError s!"Value {v} cannot be encoded in {bits} bits")

/-! Request signatures (`core/authz.py`). -/

def requestDst : Bytes := utf8 "SHUTTER-GOVERNANCE-PROTOCOL-REQUEST-v1"

/-- The digest of a byte string, where the string is made. -/
def hashed (E : EthLib) (preimage : Py Bytes) : Py Bytes := do
  pure (E.keccak (← preimage))

theorem hashed_eq_ok {E : EthLib} {preimage : Py Bytes} {digest : Bytes} :
    hashed E preimage = .ok digest ↔ ∃ x, preimage = .ok x ∧ E.keccak x = digest := by
  simp only [hashed, bind_eq_ok, pure_eq_ok, Except.ok.injEq]

/-- What is hashed of a write request: the three fields, each behind its length. -/
def requestPreimage (op : String) (electionId payload : Bytes) : Py Bytes := do
  let opB := utf8 op
  let opLen ← u32be opB.length
  let idLen ← u32be electionId.length
  let payloadLen ← u32be payload.length
  pure (requestDst ++ opLen ++ opB ++ idLen ++ electionId ++ payloadLen ++ payload)

def requestDigest (E : EthLib) (op : String) (electionId payload : Bytes) : Py Bytes :=
  hashed E (requestPreimage op electionId payload)

/-- The freshness term a stall or resume request carries as its payload. -/
def requestNoncePayload (issuedAt : Int) : Py Bytes :=
  if issuedAt < 0 then
    .error (.valueError s!"issued_at must be a non-negative int, got {issuedAt}")
  else toBytes issuedAt 8

def requestFreshness : Int := 300

def requestIsFresh (issuedAt now : Int) : Bool := |now - issuedAt| ≤ requestFreshness

/-- The digest of a registration, where the text is made. -/
def registerDigest (E : EthLib) (config : ElectionConfig) : Bytes :=
  E.keccak (encConfig config).dumps

/-- The signer of a digest is the given identity. -/
def signedBy (E : EthLib) (identity signature : Bytes) (digest : Py Bytes) : Bool :=
  match digest with
  | .error _ => false
  | .ok digest => E.recoverMessage digest signature == some identity

/-- The canonical text of a configuration is made: its fee and its other numbers have one. -/
def ElectionConfig.prints (config : ElectionConfig) : Bool :=
  (Json.int config.selfSubmitFeeWei).printable && (encConfig config).printable

/-- Recover the signer of a registration and compare; never raises. -/
def verifyRegister (E : EthLib) (adminKey signature : Bytes) (config : ElectionConfig) : Bool :=
  config.prints && signedBy E adminKey signature (.ok (registerDigest E config))

/-- Recover the signer of a request and compare; never raises. -/
def verifyRequest (E : EthLib) (identity signature : Bytes) (op : String)
    (electionId payload : Bytes) : Bool :=
  signedBy E identity signature (requestDigest E op electionId payload)

/-! Content digests of keyper writes (`core/write_auth.py`). -/

def dkgResultDst : Bytes := utf8 "SHUTTER-GOVERNANCE-PROTOCOL-DKG-RESULT-v1"
def decryptShareDst : Bytes := utf8 "SHUTTER-GOVERNANCE-PROTOCOL-DECRYPT-SHARE-v1"
def aggregateDst : Bytes := utf8 "SHUTTER-GOVERNANCE-PROTOCOL-AGGREGATE-v1"
def ballotWriteDst : Bytes := utf8 "SHUTTER-GOVERNANCE-PROTOCOL-BALLOT-WRITE-v1"
def resultDst : Bytes := utf8 "SHUTTER-GOVERNANCE-PROTOCOL-RESULT-v1"

/-- The code of a reason: its position in the enumeration. -/
def exclusionCode : ExclusionReason → Nat
  | .invalidProof => 0
  | .invalidSignature => 1
  | .invalidAttestation => 2
  | .duplicatePseudonym => 3
  | .malformed => 4
  | .outOfWindow => 5

section
variable (E : EthLib)

def dkgResultPreimage (electionId pkElection : Bytes) (committeePks : List Bytes) : Bytes :=
  dkgResultDst ++ electionId ++ pkElection ++ E.abiBytesArray committeePks

def dkgResultDigest (electionId pkElection : Bytes) (committeePks : List Bytes) : Bytes :=
  E.keccak (dkgResultPreimage E electionId pkElection committeePks)

def decryptionSharePreimage (electionId : Bytes) (shares : List Bytes) (proofs : List (Int × Int)) :
    Py Bytes := do
  let proofs ← proofs.mapM fun p => do
    let e ← abiUint 256 p.1
    let z ← abiUint 256 p.2
    pure (e, z)
  pure (decryptShareDst ++ electionId ++ E.abiBytesArray shares ++ E.abiProofs proofs)

def decryptionShareDigest (electionId : Bytes) (shares : List Bytes) (proofs : List (Int × Int)) :
    Py Bytes :=
  hashed E (decryptionSharePreimage E electionId shares proofs)

/-- The two halves of an encoded proof, as integers. -/
def proofPair (proof : Bytes) : Int × Int := (beNat (proof.take 32), beNat (proof.drop 32))

/-- The digest over an envelope's entries, as signer and verifiers take it. -/
def shareEnvelopeDigest (electionId : Bytes) (entries : List DecryptionShareEntry) : Py Bytes :=
  decryptionShareDigest E electionId (entries.map DecryptionShareEntry.sigma)
    (entries.map fun e => proofPair e.proof)

/-- Every field of an aggregate but its own election id. -/
def aggregatePreimage (electionId : Bytes) (aggregate : AggregateArtifact) : Py Bytes := do
  let admitted ← aggregate.admitted.mapM (abiUint 256)
  let exclusions ← aggregate.exclusions.mapM fun x => do
    let seq ← abiUint 256 x.sequenceNumber
    pure (seq, exclusionCode x.reason)
  let total ← abiUint 256 aggregate.totalAdmittedWeight
  let scaled ← abiUint 256 aggregate.totalScaledWeight
  pure (aggregateDst ++ electionId ++
    E.abiTally (aggregate.aggregates.map fun ct => (ct.c1, ct.c2)) admitted exclusions total scaled)

def aggregateDigestOf (electionId : Bytes) (aggregate : AggregateArtifact) : Py Bytes :=
  hashed E (aggregatePreimage E electionId aggregate)

omit E in
def ballotPreimage (electionId : Bytes) (ballot : BallotEnvelope) : Bytes :=
  ballotWriteDst ++ electionId ++ (encBallot ballot).dumps

def ballotDigest (electionId : Bytes) (ballot : BallotEnvelope) : Bytes :=
  E.keccak (ballotPreimage electionId ballot)

def resultPreimage (electionId : Bytes) (result : ResultArtifact) : Py Bytes := do
  let totals ← result.totals.mapM (abiUint 256)
  let indices ← result.keyperIndices.mapM (abiUint 256)
  let bound ← abiUint 256 result.bsgsBound
  pure (resultDst ++ electionId ++ E.abiResult totals indices bound)

def resultDigest (electionId : Bytes) (result : ResultArtifact) : Py Bytes :=
  hashed E (resultPreimage E electionId result)

/-! Digests of the messages between keypers. -/

def dkgCommitmentsDst : Bytes := utf8 "SHUTTER-GOVERNANCE-PROTOCOL-DKG-COMMITMENTS-v1"
def dkgShareDst : Bytes := utf8 "SHUTTER-GOVERNANCE-PROTOCOL-DKG-SHARE-v1"
def dkgAccuseDst : Bytes := utf8 "SHUTTER-GOVERNANCE-PROTOCOL-DKG-ACCUSE-v1"
def dkgRevealDst : Bytes := utf8 "SHUTTER-GOVERNANCE-PROTOCOL-DKG-REVEAL-v1"

omit E in
def dkgCommitmentsPreimage (electionId : Bytes) (dealerIndex : Int) (commitments : List Bytes) :
    Py Bytes := do
  let dealer ← toBytes dealerIndex 8
  let count ← toBytes commitments.length 4
  pure (dkgCommitmentsDst ++ electionId ++ dealer ++ count ++ commitments.flatten)

def dkgCommitmentsDigest (electionId : Bytes) (dealerIndex : Int) (commitments : List Bytes) : Py Bytes :=
  hashed E (dkgCommitmentsPreimage electionId dealerIndex commitments)

omit E in
/-- One dealt share, under the tag of its kind of message. -/
def dealtPreimage (dst electionId : Bytes) (dealerIndex recipientIndex share : Int) : Py Bytes := do
  let dealer ← toBytes dealerIndex 8
  let recipient ← toBytes recipientIndex 8
  pure (dst ++ electionId ++ dealer ++ recipient ++ scalarToBytes share)

def dealtShareDigest (dst electionId : Bytes) (dealerIndex recipientIndex share : Int) : Py Bytes :=
  hashed E (dealtPreimage dst electionId dealerIndex recipientIndex share)

def dkgShareDigest (electionId : Bytes) (dealerIndex recipientIndex share : Int) : Py Bytes :=
  dealtShareDigest E dkgShareDst electionId dealerIndex recipientIndex share

def dkgRevealDigest (electionId : Bytes) (dealerIndex recipientIndex share : Int) : Py Bytes :=
  dealtShareDigest E dkgRevealDst electionId dealerIndex recipientIndex share

omit E in
def dkgAccusationPreimage (electionId : Bytes) (accusedDealerIndex recipientIndex : Int) : Py Bytes := do
  let dealer ← toBytes accusedDealerIndex 8
  let recipient ← toBytes recipientIndex 8
  pure (dkgAccuseDst ++ electionId ++ dealer ++ recipient)

def dkgAccusationDigest (electionId : Bytes) (accusedDealerIndex recipientIndex : Int) : Py Bytes :=
  hashed E (dkgAccusationPreimage electionId accusedDealerIndex recipientIndex)

/-! Signing and recovering. -/

structure Signer where
  privateKey : Int

def Signer.identity (signer : Signer) : Bytes := E.address (beBytes 32 signer.privateKey.toNat)

def signDigest (privateKey : Int) (digest : Bytes) : Py Bytes := do
  let key ← toBytes privateKey 32
  pure (E.signMessage key digest)

/-- The 1-based index of the committee member with a signing key. -/
def memberIndex (config : ElectionConfig) (key : Bytes) : Option Int :=
  (config.keypers.findIdx? fun k => k.signingKey == key).map fun i : Nat => (i : Int) + 1

end

/-- A library that hides nothing: hashes are their inputs and signatures name their
    key. Statements are evaluated over it. -/
def plainEth : EthLib where
  keccak := id
  abiBytesArray l := beBytes 4 l.length ++ l.flatMap fun b => beBytes 4 b.length ++ b
  abiProofs l := l.flatMap fun p => beBytes 32 p.1 ++ beBytes 32 p.2
  abiTally cts admitted exclusions total scaled :=
    beBytes 4 cts.length ++ (cts.flatMap fun c => beBytes 4 c.1.length ++ c.1 ++ beBytes 4 c.2.length ++ c.2)
      ++ beBytes 4 admitted.length ++ admitted.flatMap (beBytes 32)
      ++ beBytes 4 exclusions.length ++ (exclusions.flatMap fun x => beBytes 32 x.1 ++ beBytes 1 x.2)
      ++ beBytes 32 total ++ beBytes 32 scaled
  abiResult totals indices bound :=
    beBytes 4 totals.length ++ totals.flatMap (beBytes 32) ++ beBytes 4 indices.length ++
      indices.flatMap (beBytes 32) ++ beBytes 32 bound
  address := id
  signMessage key digest := beBytes 1 key.length ++ key ++ digest
  recoverMessage digest signature :=
    match signature with
    | [] => none
    | len :: rest => if rest.drop len.toNat = digest then some (rest.take len.toNat) else none

/-- Its signatures are recognised. -/
theorem plainEth_recoverMessage {key : Bytes} (hkey : key.length < 256) (digest : Bytes) :
    plainEth.recoverMessage digest (plainEth.signMessage key digest) = some key := by
  have hbyte : beBytes 1 key.length = [UInt8.ofNat key.length] := by
    simp [beBytes, beBytesOnto, Nat.mod_eq_of_lt hkey]
  have hlen : (UInt8.ofNat key.length).toNat = key.length := by
    rw [UInt8.toNat_ofNat']
    omega
  show (match beBytes 1 key.length ++ key ++ digest with
    | [] => none
    | len :: rest => if rest.drop len.toNat = digest then some (rest.take len.toNat) else none) = _
  rw [hbyte, List.append_assoc, List.singleton_append]
  simp only [hlen, List.drop_left, List.take_left, if_true]

/-- A member's index is in the committee, and names its key. -/
theorem memberIndex_eq_some {config : ElectionConfig} {key : Bytes} {i : Int}
    (h : memberIndex config key = some i) :
    1 ≤ i ∧ i ≤ config.threshold.n ∧
      (config.keypers[(i - 1).toNat]?).map KeyperIdentity.signingKey = some key := by
  rw [memberIndex, Option.map_eq_some_iff] at h
  obtain ⟨k, hk, rfl⟩ := h
  obtain ⟨hlt, hkey, -⟩ := List.findIdx?_eq_some_iff_getElem.mp hk
  have hlen := config.length_keypers
  refine ⟨by omega, by omega, ?_⟩
  rw [show ((k : Int) + 1 - 1).toNat = k by omega, List.getElem?_eq_getElem hlt, Option.map_some]
  exact congrArg some (by simpa using hkey)

end ElGamalVoting
