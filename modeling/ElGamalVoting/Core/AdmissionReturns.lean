import ElGamalVoting.Core.Admission
import ElGamalVoting.Crypto.BallotReturns
import ElGamalVoting.Envelopes.Codecs

/- When admission raises.

   Admission validates every stored ballot in turn, so one ballot on which
   validation raises stops it for the whole election. Validation of a decoded
   ballot raises only in the canonical message, and only on a weight or nonce of
   2^256 or more (`validateBallot_returns_iff`); an attacker gets such a weight
   past the credential by adding multiples of the curve order to a genuine one
   (`admit_raises_on_inflated_weight`). When it does return, every ballot is
   admitted or excluded (`resolveDuplicates_covers`). -/
namespace ElGamalVoting
open Lib

/-- Every ballot of the list is in the admitted set or among the exclusions. -/
def Covers (ballots : List StoredBallot) (r : AdmissionResult) : Prop :=
  ∀ sb ∈ ballots, (∃ a ∈ r.admitted, a.sequenceNumber = sb.sequenceNumber ∧ a.envelope = sb.envelope) ∨
    ∃ x ∈ r.exclusions, x.sequenceNumber = sb.sequenceNumber

theorem resolveDuplicates_covers (policy : DuplicatePolicy)
    (reasons : List (StoredBallot × Option ExclusionReason)) :
    Covers (reasons.map Prod.fst) (resolveDuplicates policy reasons) := by
  intro sb hsb
  obtain ⟨⟨sb', reason⟩, hmem, rfl⟩ := List.mem_map.mp hsb
  have hexcl {x : Exclusion} {xs : List Exclusion} (hx : x ∈ xs) :
      x ∈ xs.insertionSort fun x y => x.sequenceNumber ≤ y.sequenceNumber :=
    (List.perm_insertionSort _ xs).mem_iff.mpr hx
  cases reason with
  | some reason =>
    refine .inr ⟨⟨sb'.sequenceNumber, reason⟩, hexcl (List.mem_append_left _ ?_), rfl⟩
    exact List.mem_filterMap.mpr ⟨_, hmem, rfl⟩
  | none =>
    have hvalid : sb' ∈ (reasons.filter fun sr => sr.2.isNone).map Prod.fst :=
      List.mem_map.mpr ⟨_, List.mem_filter.mpr ⟨hmem, rfl⟩, rfl⟩
    by_cases hlose : sb'.sequenceNumber ∈
        duplicateLosers ((reasons.filter fun sr => sr.2.isNone).map Prod.fst) policy
    · refine .inr ⟨⟨sb'.sequenceNumber, .duplicatePseudonym⟩, hexcl (List.mem_append_right _ ?_), rfl⟩
      exact List.mem_map.mpr ⟨sb', List.mem_filter.mpr ⟨hvalid, by simpa using hlose⟩, rfl⟩
    · refine .inl ⟨⟨sb'.sequenceNumber, sb'.envelope, sb'.envelope.attestation.weight⟩, ?_, rfl, rfl⟩
      exact List.mem_map.mpr ⟨sb', List.mem_filter.mpr ⟨hvalid, by simpa using hlose⟩, rfl⟩

section
variable {G₁ G₂ : Type} [AddCommGroup G₁] [AddCommGroup G₂] [DecidableEq G₁] [DecidableEq G₂]
  (S : Suite G₁ G₂)

/-- The ballot gets as far as the canonical message: it is for this election and
    inside the window, its credential verifies, and so do its proofs. -/
def ballotReachesMessage (sb : StoredBallot) (config : ElectionConfig) (mpk : G₂) : Bool :=
  (precheckBallot (verifyAttestation S config.eligibilityKey sb.envelope.attestation config.electionId)
    sb config).isNone && reachesMessage S mpk sb.envelope config.numCandidates config.budget

/-- Weight and nonce fit the 32 bytes the canonical message gives them. -/
def WordSized (a : Attestation) : Prop := a.weight < 2 ^ 256 ∧ a.nonce < 2 ^ 256

variable {S} {config : ElectionConfig} {mpk : G₂}

theorem BallotEnvelope.WellSized.attestation {env : BallotEnvelope} (h : env.WellSized) :
    env.attestation.WellSized where
  fields := ⟨h.attElectionId, h.attPseudonym, h.attVk, h.attWeight, h.attNonce⟩
  signature := by
    rw [h.attSignature]
    decide

/-- Validation of a decoded ballot raises exactly when the ballot reaches the
    message with a weight or nonce that does not fit. -/
theorem validateBallot_returns_iff {sb : StoredBallot} (h : sb.envelope.WellSized) :
    Returns (validateBallot S sb config mpk) ↔
      (ballotReachesMessage S sb config mpk = true → WordSized sb.envelope.attestation) := by
  have hcrypto := verifyBallotCrypto_returns_iff (S := S) mpk sb.envelope config.numCandidates
    config.budget config.branches_le h.attestation
  unfold validateBallot ballotReachesMessage
  dsimp only
  cases precheckBallot (verifyAttestation S config.eligibilityKey sb.envelope.attestation
    config.electionId) sb config with
  | some reason => exact iff_of_true (.ok _) (by simp)
  | none =>
    rw [Option.isNone_none, Bool.true_and, WordSized, show (2 : Int) ^ 256 = 256 ^ 32 by norm_num,
      ← hcrypto]
    constructor
    · rintro ⟨r, hr⟩
      obtain ⟨reason, hreason, -⟩ := bind_eq_ok.mp hr
      exact ⟨reason, hreason⟩
    · exact fun hr => hr.bind fun _ _ => .ok _

/-- Admission of decoded ballots returns, with every ballot admitted or excluded,
    exactly when each ballot that reaches the canonical message carries a weight
    and a nonce below 2^256. -/
theorem admit_returns_iff (S : Suite G₁ G₂) (config : ElectionConfig) {mpkBytes : Bytes} {mpk : G₂}
    (hkey : g2FromCompressed S.g2 mpkBytes = .ok mpk) {ballots : List StoredBallot}
    (hdecoded : ∀ sb ∈ ballots, ∃ d, decBallot d = .ok sb.envelope) :
    (∃ r, admitBallots S ballots config mpkBytes = .ok r ∧ Covers ballots r) ↔
      ∀ sb ∈ ballots, ballotReachesMessage S sb config mpk = true →
        WordSized sb.envelope.attestation := by
  have hsized (sb : StoredBallot) (hsb : sb ∈ ballots) : sb.envelope.WellSized := by
    obtain ⟨d, hd⟩ := hdecoded sb hsb
    exact decBallot_wellSized hd
  rw [admitBallots, hkey, ok_bind]
  constructor
  · rintro ⟨r, hr, -⟩ sb hsb
    obtain ⟨reasons, hreasons, -⟩ := bind_eq_ok.mp hr
    obtain ⟨p, -, hp⟩ := mapM_ok_mem hreasons hsb
    obtain ⟨reason, hreason, -⟩ := bind_eq_ok.mp hp
    exact (validateBallot_returns_iff (hsized sb hsb)).mp ⟨reason, hreason⟩
  · intro h
    have hreturns (sb : StoredBallot) (hsb : sb ∈ ballots) :
        ∃ reason, validateBallot S sb config mpk = .ok reason :=
      (validateBallot_returns_iff (hsized sb hsb)).mpr (h sb hsb)
    obtain ⟨reasons, hreasons, hfst⟩ := exists_mapM_tagged hreturns
    refine ⟨_, bind_eq_ok.mpr ⟨reasons, hreasons, rfl⟩, ?_⟩
    rw [← hfst]
    exact resolveDuplicates_covers config.duplicatePolicy reasons

end

/-! A ballot whose credential was issued for weight one, evaluated over the residues. -/

/-- A credential for the voter with key 3, issued for weight one, that claims `weight`. -/
def sampleAttestation (weight : Int) : Attestation where
  electionId := (sampleFields 1).electionId
  pseudonym := (sampleFields 1).pseudonym
  vk := (sampleFields 1).vk
  weight
  signature := sampleSignature

/-- The voter's ballot for the single candidate, built for the issued weight. -/
@[irreducible]
def sampleBuilt : BuiltBallot :=
  match buildBallot Residue.suite (Residue.ofNat 17) (sampleFields 1).electionId
    (sampleFields 1).pseudonym 3 (Residue.ofNat 3) (sampleAttestation 1) [1] 1 1
    ⟨[6], [7], [[(8, 9), (10, 12)]], 13, 14⟩ with
  | .ok b => b
  | .error _ => ⟨[], [], [], [], [], [], []⟩

/-- The ballot as stored, its credential's weight replaced by `weight` after signing. -/
def sampleBallot (weight : Int) : BallotEnvelope where
  electionId := sampleBuilt.electionId
  pseudonym := sampleBuilt.pseudonym
  vk := sampleBuilt.vk
  ciphertexts := sampleBuilt.ciphertexts.map fun ct => ⟨ct.1, ct.2⟩
  zkProof := sampleBuilt.zkProof
  voterSignature := sampleBuilt.voterSignature
  attestation := sampleAttestation weight

theorem sampleBallot_decodes {weight : Int} (h : 1 ≤ weight) :
    ∃ d, decBallot d = .ok (sampleBallot weight) := by
  have hbuilt : sampleBuilt.electionId.length = 32 ∧ sampleBuilt.pseudonym.length = 32 ∧
      sampleBuilt.vk.length = g1Bytes ∧ sampleBuilt.voterSignature.length = schnorrBytes ∧
      sampleSignature.length = schnorrBytes ∧
      ∀ ct ∈ sampleBuilt.ciphertexts, ct.1.length = g2Bytes ∧ ct.2.length = g2Bytes := by
    decide +kernel
  obtain ⟨he, hp, hv, hs, ha, hc⟩ := hbuilt
  have hcts : ∀ ct ∈ (sampleBallot weight).ciphertexts,
      ct.c1.length = g2Bytes ∧ ct.c2.length = g2Bytes := by
    intro ct hct
    obtain ⟨pair, hpair, rfl⟩ := List.mem_map.mp hct
    exact hc pair hpair
  exact ⟨_, decBallot_encBallot ⟨he, hp, hv, hcts, hs, length_beBytes _ _, length_beBytes _ _,
    length_beBytes _ _, h, le_rfl, ha⟩⟩

/-- With the weight it was issued for, the ballot does not stop admission. -/
theorem admit_returns_on_genuine_weight :
    let ballots : List StoredBallot := [⟨0, sampleBallot 1, some 150⟩]
    (∃ r, admitBallots Residue.suite ballots smallConfig (beBytes 96 17) = .ok r ∧ Covers ballots r) ↔
      ∀ sb ∈ ballots, ballotReachesMessage Residue.suite sb smallConfig (Residue.ofNat 17) = true →
        WordSized sb.envelope.attestation :=
  admit_returns_iff Residue.suite smallConfig
    (Residue.suite.g2.decodePoint_toCompressed "G2" (Residue.ofNat 17)) fun sb hsb => by
      obtain rfl := List.mem_singleton.mp hsb
      exact sampleBallot_decodes le_rfl

/-- Congruent to one modulo the curve order, and more than 32 bytes hold. -/
def inflatedWeight : Int := 1 + 3 * curveOrder

/-- The same ballot with the inflated weight decodes, passes every check before
    the canonical message, and raises there. -/
theorem admit_raises_on_inflated_weight :
    (∃ d, decBallot d = .ok (sampleBallot inflatedWeight)) ∧
    (∃ mpk, g2FromCompressed Residue.suite.g2 (beBytes 96 17) = .ok mpk) ∧
    admitBallots Residue.suite [⟨0, sampleBallot inflatedWeight, some 150⟩] smallConfig (beBytes 96 17) =
      .error (.overflowError "int too big to convert") :=
  ⟨sampleBallot_decodes (by decide +kernel),
    ⟨_, Residue.suite.g2.decodePoint_toCompressed "G2" (Residue.ofNat 17)⟩, by decide +kernel⟩

end ElGamalVoting
