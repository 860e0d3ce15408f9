import Mathlib.Data.List.Sort
import ElGamalVoting.Core.Config
import ElGamalVoting.Crypto.Ballot
import ElGamalVoting.Lib.Dict

/- Ballot admission (`core/admission.py`): from the data layer's ordered ballot
   list to an admitted set and typed exclusions.

   Every ballot is validated on its own, the first failure giving its reason; the
   duplicate policy then runs over the valid ones. The two dictionaries that
   track a pseudonym's winner are always updated together, so they are one
   dictionary of rank and sequence number here. A Python set of sequence numbers
   is only ever asked for membership, and is a list. -/
namespace ElGamalVoting
open Lib

structure AdmittedBallot where
  sequenceNumber : Int
  envelope : BallotEnvelope
  weight : Int
  deriving DecidableEq

structure AdmissionResult where
  admitted : List AdmittedBallot
  exclusions : List Exclusion
  totalAdmittedWeight : Int
  deriving DecidableEq

/-- The exclusion reason of a crypto reason; a pre-v2 signature is an invalid one. -/
def CryptoReason.exclusion : CryptoReason → ExclusionReason
  | malformed => .malformed
  | invalidProof => .invalidProof
  | invalidSignature => .invalidSignature
  | invalidSignaturePreV2 => .invalidSignature

/-- The reason a ballot is excluded before its proofs are looked at. -/
def precheckBallot (verifies : Bool) (sb : StoredBallot) (config : ElectionConfig) :
    Option ExclusionReason :=
  let env := sb.envelope
  let att := env.attestation
  if env.electionId ≠ config.electionId then some .malformed
  else if sb.submittedAt.any fun time => !isVotingOpen config time then some .outOfWindow
  else if att.electionId ≠ config.electionId ∨ att.pseudonym ≠ env.pseudonym ∨ att.vk ≠ env.vk then
    some .invalidAttestation
  else if ¬ verifies then some .invalidAttestation
  else none

section
variable {G₁ G₂ : Type} [AddCommGroup G₁] [AddCommGroup G₂] [DecidableEq G₁] [DecidableEq G₂]
  (S : Suite G₁ G₂)

/-- `none` when the ballot is valid on its own. -/
def validateBallot (sb : StoredBallot) (config : ElectionConfig) (mpk : G₂) :
    Py (Option ExclusionReason) :=
  let verifies := verifyAttestation S config.eligibilityKey sb.envelope.attestation config.electionId
  match precheckBallot verifies sb config with
  | some reason => .ok (some reason)
  | none => do
    let reason ← verifyBallotCrypto S mpk sb.envelope config.numCandidates config.budget
    pure (reason.map CryptoReason.exclusion)

end

/-- Nonce first, sequence number to break ties. -/
def ballotRank (sb : StoredBallot) : Int × Int :=
  (sb.envelope.attestation.nonce, sb.sequenceNumber)

/-- Python's order on pairs. -/
def rankLt (a b : Int × Int) : Bool := a.1 < b.1 || (a.1 == b.1 && a.2 < b.2)

/-- Whether a later ballot replaces a pseudonym's current winner. -/
def beats (policy : DuplicatePolicy) (r cur : Int × Int) : Bool :=
  match policy with
  | .lastWins => rankLt cur r
  | .firstWins => rankLt r cur

/-- The winner of each pseudonym: its rank and sequence number. -/
def winners (policy : DuplicatePolicy) (valid : List StoredBallot) : Dict Bytes ((Int × Int) × Int) :=
  valid.foldl (fun won sb =>
    let pseud := sb.envelope.pseudonym
    let r := ballotRank sb
    match won.get? pseud with
    | none => won.set pseud (r, sb.sequenceNumber)
    | some (cur, _) => if beats policy r cur then won.set pseud (r, sb.sequenceNumber) else won) ∅

def duplicateLosers (valid : List StoredBallot) (policy : DuplicatePolicy) : List Int :=
  let won := (winners policy valid).values.map Prod.snd
  (valid.filter fun sb => sb.sequenceNumber ∉ won).map StoredBallot.sequenceNumber

/-- The second half of admission, over the validated ballots. -/
def resolveDuplicates (policy : DuplicatePolicy)
    (reasons : List (StoredBallot × Option ExclusionReason)) : AdmissionResult :=
  let invalid := reasons.filterMap fun sr => sr.2.map fun reason => ⟨sr.1.sequenceNumber, reason⟩
  let valid := (reasons.filter fun sr => sr.2.isNone).map Prod.fst
  let losers := duplicateLosers valid policy
  let duplicates := (valid.filter fun sb => sb.sequenceNumber ∈ losers).map fun sb =>
    ⟨sb.sequenceNumber, .duplicatePseudonym⟩
  let admitted := (valid.filter fun sb => sb.sequenceNumber ∉ losers).map fun sb =>
    ⟨sb.sequenceNumber, sb.envelope, sb.envelope.attestation.weight⟩
  { admitted
    exclusions := (invalid ++ duplicates).insertionSort fun x y => x.sequenceNumber ≤ y.sequenceNumber
    totalAdmittedWeight := (admitted.map AdmittedBallot.weight).sum }

section
variable {G₁ G₂ : Type} [AddCommGroup G₁] [AddCommGroup G₂] [DecidableEq G₁] [DecidableEq G₂]
  (S : Suite G₁ G₂)

def admitBallots (ballots : List StoredBallot) (config : ElectionConfig) (mpkBytes : Bytes) :
    Py AdmissionResult := do
  let mpk ← g2FromCompressed S.g2 mpkBytes
  let reasons ← ballots.mapM fun sb => do
    let reason ← validateBallot S sb config mpk
    pure (sb, reason)
  pure (resolveDuplicates config.duplicatePolicy reasons)

end

/-! ## The credential of an accepted ballot -/

section
variable {G₁ G₂ : Type} [AddCommGroup G₁] [AddCommGroup G₂] [DecidableEq G₁] [DecidableEq G₂]
  {S : Suite G₁ G₂} {sb : StoredBallot} {config : ElectionConfig} {mpk : G₂}

theorem precheckBallot_eq_none {verifies : Bool} (h : precheckBallot verifies sb config = none) :
    verifies = true := by
  unfold precheckBallot at h
  dsimp only at h
  split_ifs at h with _ _ _ hv
  exact hv

omit [DecidableEq G₂] in
theorem verifyAttestationSig_of_verifyAttestation {key electionId : Bytes} {att : Attestation}
    (h : verifyAttestation S key att electionId = true) :
    verifyAttestationSig S key att.fields att.signature = true := by
  unfold verifyAttestation at h
  split_ifs at h
  exact h

/-- An accepted ballot carries a credential the eligibility key signed. -/
theorem verifyAttestationSig_of_validateBallot (h : validateBallot S sb config mpk = .ok none) :
    verifyAttestationSig S config.eligibilityKey sb.envelope.attestation.fields
      sb.envelope.attestation.signature = true := by
  unfold validateBallot at h
  dsimp only at h
  split at h
  · cases h
  · rename_i hpre
    exact verifyAttestationSig_of_verifyAttestation (precheckBallot_eq_none hpre)

/-- What an attestation is to bind: equal preimages are of equal fields, and a
    signature issued for `a` makes neither the credential check nor ballot
    validation accept `b` with another weight or nonce. -/
structure AttestationBinds (S : Suite G₁ G₂) (key signature : Bytes) (a b : AttestedFields)
    (ta tb : Transcript) : Prop where
  preimage : ta.preimage = tb.preimage → a = b
  verify : verifyAttestationSig S key b signature = true → b.weight = a.weight ∧ b.nonce = a.nonce
  validate : ∀ (sb : StoredBallot) (config : ElectionConfig) (mpk : G₂),
    config.eligibilityKey = key → sb.envelope.attestation.fields = b →
    sb.envelope.attestation.signature = signature → validateBallot S sb config mpk = .ok none →
    b.weight = a.weight ∧ b.nonce = a.nonce

/-- An attestation binds its weight and nonce exactly when no other integers
    congruent to them modulo the curve order are presented with the same byte
    fields: weight and nonce reach the transcript reduced. -/
theorem attestation_binds_iff (S : Suite G₁ G₂) (key signature : Bytes) {a b : AttestedFields}
    {ta tb : Transcript} (hta : attestationTranscript a = .ok ta)
    (htb : attestationTranscript b = .ok tb)
    (hcollision : S.keccak tb.preimage = S.keccak ta.preimage → tb.preimage = ta.preimage)
    (hunforgeable : acceptsSignature S key (S.keccak tb.preimage) signature = .ok true →
      S.keccak tb.preimage = S.keccak ta.preimage) :
    AttestationBinds S key signature a b ta tb ↔ (a.Congruent b → a = b) := by
  have ha := wellSized_of_transcript hta
  have hb := wellSized_of_transcript htb
  rw [attestationTranscript_ok ha, Except.ok.injEq] at hta
  rw [attestationTranscript_ok hb, Except.ok.injEq] at htb
  subst hta htb
  have hverify (hcong : a.Congruent b → a = b)
      (h : verifyAttestationSig S key b signature = true) :
      b.weight = a.weight ∧ b.nonce = a.nonce := by
    have hmsg := hunforgeable ((verifyAttestationSig_eq S hb key signature).mp h)
    have hab := hcong ((attestation_preimage_eq_iff ha hb).mp (hcollision hmsg).symm)
    rw [hab]
    exact ⟨rfl, rfl⟩
  constructor
  · intro h hcong
    exact h.preimage ((attestation_preimage_eq_iff ha hb).mpr hcong)
  · intro hcong
    refine ⟨fun h => hcong ((attestation_preimage_eq_iff ha hb).mp h), hverify hcong, ?_⟩
    rintro sb config mpk rfl rfl rfl hvalid
    exact hverify hcong (verifyAttestationSig_of_validateBallot hvalid)

end

/-- Fields of a credential for one voter, by weight. -/
def sampleFields (weight : Int) : AttestedFields where
  electionId := beBytes 32 1
  pseudonym := beBytes 32 2
  vk := beBytes 48 3
  weight
  nonce := 1

/-- The issuer with secret key 11 signs weight one. -/
def sampleSignature : Bytes :=
  match signAttestation Residue.suite 11 (Residue.ofNat 11) (sampleFields 1) 5 with
  | .ok signature => signature
  | .error _ => []

/-- For weights one and two the attestation binds. -/
theorem attestation_binds_two :
    AttestationBinds Residue.suite (beBytes 48 11) sampleSignature (sampleFields 1) (sampleFields 2)
        ⟨(sampleFields 1).parts⟩ ⟨(sampleFields 2).parts⟩ ↔
      ((sampleFields 1).Congruent (sampleFields 2) → sampleFields 1 = sampleFields 2) :=
  attestation_binds_iff Residue.suite (beBytes 48 11) sampleSignature
    (attestationTranscript_ok ⟨rfl, rfl, rfl, by decide, by decide⟩)
    (attestationTranscript_ok ⟨rfl, rfl, rfl, by decide, by decide⟩)
    (by decide +kernel) (by decide +kernel)

/-- A weight of one and one more than the curve order have one preimage, and the
    signature issued for the first verifies for the second. -/
theorem attestation_weight_collides :
    let a := sampleFields 1
    let b := sampleFields (1 + curveOrder)
    (∃ ta tb, attestationTranscript a = .ok ta ∧ attestationTranscript b = .ok tb ∧
      ta.preimage = tb.preimage) ∧ a ≠ b ∧
    verifyAttestationSig Residue.suite (beBytes 48 11) a sampleSignature = true ∧
    verifyAttestationSig Residue.suite (beBytes 48 11) b sampleSignature = true := by
  refine ⟨⟨_, _, attestationTranscript_ok ⟨rfl, rfl, rfl, by decide, by decide⟩,
    attestationTranscript_ok ⟨rfl, rfl, rfl, by decide +kernel, by decide⟩, ?_⟩, ?_, ?_, ?_⟩
  all_goals decide +kernel

end ElGamalVoting
