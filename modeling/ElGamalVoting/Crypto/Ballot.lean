import ElGamalVoting.Crypto.Attestation
import ElGamalVoting.Crypto.Proofs

/- Ballot construction, validity-proof codec and crypto verification
   (`crypto/ballot.py`), Variant A with the exact budget.

   The decoder keeps the source's running offset: a slice past the end of the
   buffer is short, and it is the decoders of the slices that reject it. The
   verifier turns an exception of a decoder into a reason, but not one of the
   transcript or of the message encoder. Randomness is an argument of the
   builder. -/
namespace ElGamalVoting
open Lib

section
variable {G₁ G₂ : Type} [AddCommGroup G₁] [AddCommGroup G₂] (S : Suite G₁ G₂)

/-! Validity-proof codec. -/

def encodeBranch (br : ORBranch G₂) : Py Bytes := do
  let e ← toBytes (br.e % curveOrder) 32
  let z ← toBytes (br.z % curveOrder) 32
  pure (S.g2.toCompressed br.a1 ++ S.g2.toCompressed br.a2 ++ e ++ z)

def encodeBallotValidityProof (rangeProofs : List (List (ORBranch G₂))) (eB zB : Int) : Py Bytes :=
  match rangeProofs with
  | [] => .error (.valueError "encode_ballot_validity_proof: no range proofs")
  | first :: _ =>
    let nOuter := rangeProofs.length
    let branchCount := first.length
    if rangeProofs.any fun p => p.length ≠ branchCount then
      .error (.valueError "encode_ballot_validity_proof: branch counts diverge")
    else do
      let outer ← toBytes nOuter 2
      let counts ← rangeProofs.mapM fun _ => toBytes branchCount 2
      let proofs ← rangeProofs.mapM fun p => p.mapM (encodeBranch S)
      let e ← toBytes (eB % curveOrder) 32
      let z ← toBytes (zB % curveOrder) 32
      pure ([bvpVersion, variantAByte] ++ outer ++ counts.flatten ++ proofs.flatten.flatten ++
        [budgetExactTag] ++ e ++ z)

/-- Python's `buf[o:o + w]`. -/
def slice (buf : Bytes) (o w : Nat) : Bytes := (buf.drop o).take w

/-- One branch at offset `o`, and the offset after it. -/
def decodeBranch (buf : Bytes) (o : Nat) : Py (ORBranch G₂ × Nat) := do
  let a1 ← g2FromCompressed S.g2 (slice buf o 96)
  let a2 ← g2FromCompressed S.g2 (slice buf (o + 96) 96)
  let e ← scalarFromBytes (slice buf (o + 192) 32) "branch e"
  let z ← scalarFromBytes (slice buf (o + 224) 32) "branch z"
  pure (⟨a1, a2, e, z⟩, o + 256)

def decodeBranches (buf : Bytes) : Nat → Nat → Py (List (ORBranch G₂) × Nat)
  | 0, o => pure ([], o)
  | count + 1, o => do
    let (br, o) ← decodeBranch S buf o
    let (brs, o) ← decodeBranches buf count o
    pure (br :: brs, o)

def decodeRangeProofs (buf : Bytes) : List Nat → Nat → Py (List (List (ORBranch G₂)) × Nat)
  | [], o => pure ([], o)
  | bc :: counts, o => do
    let (branches, o) ← decodeBranches S buf bc o
    let (proofs, o) ← decodeRangeProofs buf counts o
    pure (branches :: proofs, o)

def decodeBranchCounts (buf : Bytes) (expected : Nat) : Nat → Nat → Py (List Nat × Nat)
  | 0, o => pure ([], o)
  | count + 1, o =>
    let bc := beNat (slice buf o 2)
    if bc ≠ expected then .error (.valueError s!"branch_count {bc} != expected {expected}")
    else do
      let (counts, o) ← decodeBranchCounts buf expected count (o + 2)
      pure (bc :: counts, o)

/-- The budget part: tag, `e`, `z`, and nothing after. -/
def decodeBudget (buf : Bytes) (o : Nat) : Py (Int × Int) :=
  match buf[o]? with
  | none => .error (.valueError "decode_ballot_validity_proof: truncated before budget tag")
  | some tag =>
    if tag ≠ budgetExactTag then
      .error (.valueError s!"only exact-budget supported (got 0x{hex [tag]})")
    else do
      let eB ← scalarFromBytes (slice buf (o + 1) 32) "budget e"
      let zB ← scalarFromBytes (slice buf (o + 33) 32) "budget z"
      if o + 65 ≠ buf.length then
        .error (.valueError s!"{(buf.length : Int) - (o + 65 : Nat)} trailing bytes after parse")
      else pure (eB, zB)

def decodeBallotValidityProof (buf : Bytes) (numCandidates budget : Nat) :
    Py (List (List (ORBranch G₂)) × Int × Int) :=
  match buf with
  | version :: variant :: _ :: _ :: _ =>
    if version ≠ bvpVersion then .error (.valueError s!"unsupported version 0x{hex [version]}")
    else if variant ≠ variantAByte then
      .error (.valueError s!"only variant A supported (got 0x{hex [variant]})")
    else
      let nOuter := beNat (slice buf 2 2)
      if nOuter ≠ numCandidates then
        .error (.valueError s!"n_outer wire {nOuter} != numCandidates {numCandidates}")
      else do
        let (branchCounts, o) ← decodeBranchCounts buf (budget + 1) nOuter 4
        let (rangeProofs, o) ← decodeRangeProofs S buf branchCounts o
        let (eB, zB) ← decodeBudget buf o
        pure (rangeProofs, eB, zB)
  | _ => .error (.valueError "decode_ballot_validity_proof: buffer too short")

/-! Canonical message and transcript seeding. -/

def ciphertextPairs (cts : List Ciphertext) : List (Bytes × Bytes) := cts.map fun ct => (ct.c1, ct.c2)

/-- The part of the message both versions share, after the version label. -/
def ballotMessageBody (electionId pseudonym : Bytes) (ciphertexts : List (Bytes × Bytes))
    (zkProof : Bytes) : Py Bytes := do
  let count ← toBytes ciphertexts.length 2
  let proofLen ← toBytes zkProof.length 4
  pure (electionId ++ pseudonym ++ count ++ (ciphertexts.map fun ct => ct.1 ++ ct.2).flatten ++
    proofLen ++ zkProof)

/-- The preimage the voter signs; it covers the whole credential. -/
def canonicalBallotMessage (electionId pseudonym : Bytes) (ciphertexts : List (Bytes × Bytes))
    (zkProof : Bytes) (attestation : Attestation) : Py Bytes :=
  if electionId.length ≠ 32 then
    .error (.valueError s!"electionId must be 32 bytes (got {electionId.length})")
  else if pseudonym.length ≠ 32 then
    .error (.valueError s!"pseudonym must be 32 bytes (got {pseudonym.length})")
  else if ciphertexts.any fun ct => ct.1.length ≠ 96 || ct.2.length ≠ 96 then
    .error (.valueError "each ciphertext component must be 96 bytes")
  else if attestation.pseudonym.length ≠ 32 then
    .error (.valueError "attestation.pseudonym must be 32 bytes")
  else if attestation.vk.length ≠ 48 then
    .error (.valueError "attestation.vk must be 48 bytes")
  else if attestation.weight < 0 ∨ attestation.nonce < 0 then
    .error (.valueError "attestation weight/nonce must be non-negative")
  else do
    let body ← ballotMessageBody electionId pseudonym ciphertexts zkProof
    let weight ← toBytes attestation.weight 32
    let nonce ← toBytes attestation.nonce 32
    let sig := attestation.signature
    if 0xFFFF < sig.length then
      .error (.valueError s!"attestation.signature too long ({sig.length})")
    else do
      let sigLen ← toBytes sig.length 2
      pure (utf8 ballotMessageLabel ++ body ++ attestation.pseudonym ++ attestation.vk ++ weight ++
        nonce ++ sigLen ++ sig)

/-- The superseded preimage, only ever used to name a format mismatch. -/
def preV1BallotMessage (electionId pseudonym : Bytes) (ciphertexts : List (Bytes × Bytes))
    (zkProof : Bytes) : Py Bytes := do
  let body ← ballotMessageBody electionId pseudonym ciphertexts zkProof
  pure (utf8 "SHUTTER-VOTE-BALLOT-v1" ++ body)

def seedBallotTranscript (electionId : Bytes) (mpk : G₂) (vk : G₁) (ctsPts : List (G₂ × G₂))
    (numCandidates budget : Nat) : Py Transcript := do
  let t := Transcript.new ballotProofTranscriptLabel
  let t ← t.append "electionId" electionId
  let t ← t.appendPoint S "mpk" mpk
  let t ← t.append "vk" (S.g1.toCompressed vk)
  let t ← t.append "variant" [0x41]
  let t ← t.append "mode" [0x00]
  let t ← t.append "numCandidates" (← toBytes numCandidates 2)
  let t ← t.append "budget" (← toBytes budget 2)
  let t ← t.append "|cts|" (← toBytes ctsPts.length 2)
  ctsPts.zipIdx.foldlM (fun t ci => do
    let t ← t.appendPoint S (indexedTag "ct.c1" ci.2) ci.1.1
    t.appendPoint S (indexedTag "ct.c2" ci.2) ci.1.2) t

/-- The candidates of a range proof: `0..B`. -/
def voteRange (budget : Nat) : List Int := (List.range (budget + 1)).map fun m : Nat => (m : Int)

end

/-! Verification. -/

/-- What `verify_ballot_crypto` reports; the last is a pre-v2 signature. -/
inductive CryptoReason where
  | malformed
  | invalidProof
  | invalidSignature
  | invalidSignaturePreV2
  deriving DecidableEq, Repr

structure DecodedBallot (G₁ G₂ : Type) where
  vk : G₁
  ctsPts : List (G₂ × G₂)
  rangeProofs : List (List (ORBranch G₂))
  eB : Int
  zB : Int

section
variable {G₁ G₂ : Type} [AddCommGroup G₁] [AddCommGroup G₂] [DecidableEq G₁] [DecidableEq G₂]
  (S : Suite G₁ G₂)

omit [DecidableEq G₁] [DecidableEq G₂] in
def decodeCiphertext (ct : Bytes × Bytes) : Py (G₂ × G₂) := do
  let c1 ← g2FromCompressed S.g2 ct.1
  let c2 ← g2FromCompressed S.g2 ct.2
  pure (c1, c2)

/-- The structural checks; every failure, also a raised one, is `MALFORMED`. -/
def decodeBallotCrypto (mpk : G₂) (env : BallotEnvelope) (numCandidates budget : Nat) :
    Option (DecodedBallot G₁ G₂) :=
  if ¬ (1 ≤ numCandidates ∧ numCandidates ≤ 0xFFFF) then none
  else if ¬ (1 ≤ budget ∧ budget ≤ 0xFFFE) then none
  else if env.electionId.length ≠ 32 ∨ env.pseudonym.length ≠ 32 then none
  else if mpk = 0 then none
  else match g1FromCompressed S.g1 env.vk with
    | .error _ => none
    | .ok vk =>
      if vk = 0 then none
      else if env.ciphertexts.length ≠ numCandidates then none
      else match (ciphertextPairs env.ciphertexts).mapM (decodeCiphertext S) with
        | .error _ => none
        | .ok ctsPts =>
          match decodeBallotValidityProof S env.zkProof numCandidates budget with
          | .error _ => none
          | .ok (rangeProofs, eB, zB) => some ⟨vk, ctsPts, rangeProofs, eB, zB⟩

omit [DecidableEq G₁] in
/-- The loop over the candidates from index `j` on; it stops at the first proof
    that fails. -/
def verifyRangeProofs (mpk : G₂) (budget : Nat) :
    Nat → List ((G₂ × G₂) × List (ORBranch G₂)) → Transcript → Py (Bool × Transcript)
  | _, [], t => pure (true, t)
  | j, (ct, proof) :: rest, t => do
    let t ← t.append "ballot:range" (← toBytes j 2)
    let (ok, t) ← verifyOr S ct.1 ct.2 mpk (voteRange budget) proof t
    if ok then verifyRangeProofs mpk budget (j + 1) rest t else pure (false, t)

omit [DecidableEq G₁] in
/-- Range proofs and budget proof over one transcript. -/
def verifyBallotProofs (mpk : G₂) (electionId : Bytes) (numCandidates budget : Nat)
    (d : DecodedBallot G₁ G₂) : Py Bool := do
  let t ← seedBallotTranscript S electionId mpk d.vk d.ctsPts numCandidates budget
  let (ok, t) ← verifyRangeProofs S mpk budget 0 (d.ctsPts.zip d.rangeProofs) t
  if ok then
    let sum := sumCts d.ctsPts
    let t ← t.append "ballot:budget" [0x00]
    let (ok, _) ← verifyBudgetExact S sum.1 sum.2 mpk budget d.eB d.zB t
    pure ok
  else pure false

/-- The voter's signature over the canonical message. -/
def verifyBallotSignature (vk R : G₁) (s : Int) (env : BallotEnvelope) : Py (Option CryptoReason) := do
  let cts := ciphertextPairs env.ciphertexts
  let preimage ← canonicalBallotMessage env.electionId env.pseudonym cts env.zkProof env.attestation
  if Schnorr.verify S vk (S.keccak preimage) R s then pure none
  else
    let old ← preV1BallotMessage env.electionId env.pseudonym cts env.zkProof
    if Schnorr.verify S vk (S.keccak old) R s then pure (some .invalidSignaturePreV2)
    else pure (some .invalidSignature)

/-- `none` when the proofs and the signature verify, else the reason. -/
def verifyBallotCrypto (mpk : G₂) (env : BallotEnvelope) (numCandidates budget : Nat) :
    Py (Option CryptoReason) :=
  match decodeBallotCrypto S mpk env numCandidates budget with
  | none => pure (some .malformed)
  | some d => do
    let ok ← verifyBallotProofs S mpk env.electionId numCandidates budget d
    if ok then
      match Schnorr.decode S env.voterSignature with
      | .error _ => pure (some .malformed)
      | .ok (R, s) => verifyBallotSignature S d.vk R s env
    else pure (some .invalidProof)

/-- The ballot gets as far as the canonical message: it decodes, its proofs verify
    and its signature decodes. -/
def reachesMessage (mpk : G₂) (env : BallotEnvelope) (numCandidates budget : Nat) : Bool :=
  match decodeBallotCrypto S mpk env numCandidates budget with
  | none => false
  | some d =>
    (match verifyBallotProofs S mpk env.electionId numCandidates budget d with
      | .ok ok => ok
      | .error _ => false) &&
    (match Schnorr.decode S env.voterSignature with
      | .ok _ => true
      | .error _ => false)

end

/-! Construction. -/

structure BuiltBallot where
  electionId : Bytes
  pseudonym : Bytes
  vk : Bytes
  ciphertexts : List (Bytes × Bytes)
  zkProof : Bytes
  voterSignature : Bytes
  canonicalPreimage : Bytes

/-- The randomness of one ballot: per candidate the encryption's, the OR proof's
    and the simulated branches', then the budget proof's and the signature's. -/
structure BallotRandomness where
  rs : List Int
  rangeProofW : List Int
  rangeProofSims : List (List (Int × Int))
  budgetProofW : Int
  schnorrK : Int

section
variable {G₁ G₂ : Type} [AddCommGroup G₁] [AddCommGroup G₂] [DecidableEq G₁] [DecidableEq G₂]
  (S : Suite G₁ G₂)

omit [DecidableEq G₁] in
/-- The loop over the candidates from index `j` on: ciphertext, randomness and
    vote, then the proof's own randomness. -/
def proveRangeProofs (mpk : G₂) (budget : Nat) :
    Nat → List ((G₂ × G₂) × Int × Int × Int × List (Int × Int)) → Transcript →
    Py (List (List (ORBranch G₂)) × Transcript)
  | _, [], t => pure ([], t)
  | j, (ct, r, vote, w, sims) :: rest, t => do
    let t ← t.append "ballot:range" (← toBytes j 2)
    let (proof, t) ← proveOr S ct.1 ct.2 mpk (voteRange budget) r vote.toNat w sims t
    let (proofs, t) ← proveRangeProofs mpk budget (j + 1) rest t
    pure (proof :: proofs, t)

def buildBallot (mpk : G₂) (electionId pseudonym : Bytes) (sk : Int) (vk : G₁)
    (attestation : Attestation) (votes : List Int) (numCandidates budget : Nat)
    (rand : BallotRandomness) : Py BuiltBallot :=
  if votes.length ≠ numCandidates then
    .error (.valueError s!"votes length {votes.length} != numCandidates {numCandidates}")
  else match votes.zipIdx.find? fun vj => vj.1 < 0 || (budget : Int) < vj.1 with
  | some (v, j) => .error (.valueError s!"vote[{j}] = {v} not in [0, {budget}]")
  | none =>
    if votes.sum ≠ budget then
      .error (.valueError s!"exact mode requires Σvotes == {budget}, got {votes.sum}")
    else do
      let (_, vk') ← Schnorr.keygen S sk
      if vk' ≠ vk then
        .error (.valueError "build_ballot: vk does not match sk·P1 (mismatched keypair)")
      else do
        let rs := rand.rs.map fun r : Int => r % (curveOrder : Int)
        let ctsPts := (votes.zip rs).map fun vr => encrypt S.g2 mpk vr.1 vr.2
        let t ← seedBallotTranscript S electionId mpk vk ctsPts numCandidates budget
        let (rangeProofs, t) ← proveRangeProofs S mpk budget 0
          (ctsPts.zip (rs.zip (votes.zip (rand.rangeProofW.zip rand.rangeProofSims)))) t
        let sum := sumCts ctsPts
        let rSum := rs.sum % curveOrder
        let t ← t.append "ballot:budget" [0x00]
        let ((eB, zB), _) ← proveBudgetExact S sum.1 sum.2 mpk budget rSum rand.budgetProofW t
        let zkProof ← encodeBallotValidityProof S rangeProofs eB zB
        let ctBytes := ctsPts.map fun ct => (S.g2.toCompressed ct.1, S.g2.toCompressed ct.2)
        let preimage ← canonicalBallotMessage electionId pseudonym ctBytes zkProof attestation
        let (R, s) := Schnorr.sign S sk vk (S.keccak preimage) rand.schnorrK
        pure { electionId, pseudonym, vk := S.g1.toCompressed vk, ciphertexts := ctBytes, zkProof,
               voterSignature := Schnorr.encode S R s, canonicalPreimage := preimage }

end

end ElGamalVoting
