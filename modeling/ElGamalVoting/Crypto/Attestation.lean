import ElGamalVoting.Crypto.Schnorr
import ElGamalVoting.Envelopes.Types

/- The weighted eligibility credential `ATTESTATION_V1` (`crypto/attestation.py`)
   and its normative verification (`ports/eligibility.py`).

   The issuer signs the hash of a transcript in which every field is framed by
   its length. Weight and nonce are appended as scalars, that is reduced modulo
   the curve order, so the preimage determines the byte fields exactly and the
   two integers only up to congruence (`attestation_preimage_eq_iff`). -/
namespace ElGamalVoting
open Lib

/-- The tuple a credential covers. -/
structure AttestedFields where
  electionId : Bytes
  pseudonym : Bytes
  vk : Bytes
  weight : Int
  nonce : Int
  deriving DecidableEq

def Attestation.fields (a : Attestation) : AttestedFields :=
  ⟨a.electionId, a.pseudonym, a.vk, a.weight, a.nonce⟩

def attestationTranscript (f : AttestedFields) : Py Transcript :=
  if f.electionId.length ≠ 32 then
    .error (.valueError s!"electionId must be 32 bytes (got {f.electionId.length})")
  else if f.pseudonym.length ≠ 32 then
    .error (.valueError s!"pseudonym must be 32 bytes (got {f.pseudonym.length})")
  else if f.vk.length ≠ 48 then
    .error (.valueError s!"vk must be 48 bytes (got {f.vk.length})")
  else if f.weight < 1 then .error (.valueError s!"weight must be >= 1 (got {f.weight})")
  else if f.nonce < 1 then .error (.valueError s!"nonce must be >= 1 (got {f.nonce})")
  else do
    let t := Transcript.new attestationLabel
    let t ← t.append "attest:electionId" f.electionId
    let t ← t.append "attest:pseudonym" f.pseudonym
    let t ← t.append "attest:vk" f.vk
    let t ← t.appendScalar "attest:weight" f.weight
    t.appendScalar "attest:nonce" f.nonce

section
variable {G₁ G₂ : Type} [AddCommGroup G₁] [AddCommGroup G₂] [DecidableEq G₁] (S : Suite G₁ G₂)

omit [DecidableEq G₁] in
/-- The digest the eligibility key signs. -/
def attestationMessage (f : AttestedFields) : Py Bytes := do
  let t ← attestationTranscript f
  pure (S.keccak t.preimage)

def signAttestation (eligSk : Int) (eligVk : G₁) (f : AttestedFields) (k : Int) : Py Bytes := do
  let msg ← attestationMessage S f
  let (R, s) := Schnorr.sign S eligSk eligVk msg k
  pure (Schnorr.encode S R s)

/-- The issuer's key accepts the signature on a message. -/
def acceptsSignature (eligVkBytes msg signature : Bytes) : Py Bool := do
  let eligVk ← g1FromCompressed S.g1 eligVkBytes
  let (R, s) ← Schnorr.decode S signature
  pure (Schnorr.verify S eligVk msg R s)

/-- Any exception on the way is a `false`. -/
def verifyAttestationSig (eligVkBytes : Bytes) (f : AttestedFields) (signature : Bytes) : Bool :=
  if f.electionId.length ≠ 32 ∨ f.pseudonym.length ≠ 32 ∨ f.vk.length ≠ 48 then false
  else if f.weight < 1 ∨ f.nonce < 1 then false
  else
    let result : Py Bool := do
      let eligVk ← g1FromCompressed S.g1 eligVkBytes
      let (R, s) ← Schnorr.decode S signature
      let msg ← attestationMessage S f
      pure (Schnorr.verify S eligVk msg R s)
    match result with
    | .ok b => b
    | .error _ => false

/-- Normative verification of a credential for one election. -/
def verifyAttestation (eligibilityKey : Bytes) (attestation : Attestation) (electionId : Bytes) :
    Bool :=
  if attestation.electionId ≠ electionId then false
  else if attestation.weight < 1 then false
  else if attestation.scheme ≠ .v1 then false
  else verifyAttestationSig S eligibilityKey attestation.fields attestation.signature

end

/-! ## What the preimage determines -/

namespace AttestedFields

/-- The byte fields have their fixed sizes and the integers are at least one. -/
structure WellSized (f : AttestedFields) : Prop where
  electionId : f.electionId.length = 32
  pseudonym : f.pseudonym.length = 32
  vk : f.vk.length = 48
  weight : 1 ≤ f.weight
  nonce : 1 ≤ f.nonce

/-- The same byte fields, with weights and nonces congruent modulo the order. -/
def Congruent (a b : AttestedFields) : Prop :=
  a.electionId = b.electionId ∧ a.pseudonym = b.pseudonym ∧ a.vk = b.vk ∧
    a.weight % curveOrder = b.weight % curveOrder ∧ a.nonce % curveOrder = b.nonce % curveOrder

instance (a b : AttestedFields) : Decidable (Congruent a b) :=
  inferInstanceAs (Decidable (_ ∧ _ ∧ _ ∧ _ ∧ _))

/-- The parts of a credential's transcript. -/
def parts (f : AttestedFields) : List Bytes :=
  let framed (tag : String) (value : Bytes) : List Bytes :=
    [beBytes 4 (utf8 tag).length, utf8 tag, beBytes 4 value.length, value]
  [utf8 attestationLabel] ++ framed "attest:electionId" f.electionId ++
    framed "attest:pseudonym" f.pseudonym ++ framed "attest:vk" f.vk ++
    framed "attest:weight" (scalarToBytes f.weight) ++ framed "attest:nonce" (scalarToBytes f.nonce)

end AttestedFields

variable {a b : AttestedFields}

theorem attestationTranscript_ok (ha : a.WellSized) : attestationTranscript a = .ok ⟨a.parts⟩ := by
  have h1 := ha.weight
  have h2 := ha.nonce
  have hframe (ps : List Bytes) {tag : String} (htag : (utf8 tag).length < 2 ^ 32) {v : Bytes}
      (hv : v.length < 2 ^ 32) : Transcript.append ⟨ps⟩ tag v =
        .ok ⟨ps ++ [beBytes 4 (utf8 tag).length, utf8 tag, beBytes 4 v.length, v]⟩ :=
    append_ok ⟨ps⟩ htag hv
  have hs (s : Int) : (scalarToBytes s).length < 2 ^ 32 := by rw [length_scalarToBytes]; decide
  rw [attestationTranscript, if_neg (not_not.mpr ha.electionId), if_neg (not_not.mpr ha.pseudonym),
    if_neg (not_not.mpr ha.vk), if_neg (by omega), if_neg (by omega)]
  simp only [Transcript.new, Transcript.appendScalar]
  rw [hframe _ (by decide) (by rw [ha.electionId]; decide), ok_bind,
    hframe _ (by decide) (by rw [ha.pseudonym]; decide), ok_bind,
    hframe _ (by decide) (by rw [ha.vk]; decide), ok_bind,
    hframe _ (by decide) (hs _), ok_bind, hframe _ (by decide) (hs _)]
  rfl

/-- The transcript is made exactly for well-sized fields. -/
theorem wellSized_of_transcript {t : Transcript} (h : attestationTranscript a = .ok t) :
    a.WellSized := by
  rw [attestationTranscript] at h
  split_ifs at h with h1 h2 h3 h4 h5
  exact ⟨not_not.mp h1, not_not.mp h2, not_not.mp h3, by omega, by omega⟩

/-- Equal preimages are exactly those of congruent fields. -/
theorem attestation_preimage_eq_iff (ha : a.WellSized) (hb : b.WellSized) :
    a.parts.flatten = b.parts.flatten ↔ a.Congruent b := by
  constructor
  · intro h
    have hlens : a.parts.map List.length = b.parts.map List.length := by
      simp [AttestedFields.parts, ha.electionId, ha.pseudonym, ha.vk, hb.electionId, hb.pseudonym, hb.vk]
    have hparts : a.parts = b.parts := List.eq_iff_flatten_eq.mpr ⟨h, hlens⟩
    simp only [AttestedFields.parts, List.cons_append, List.nil_append,
      List.cons.injEq, true_and, and_true] at hparts
    obtain ⟨-, he, -, hp, -, hv, -, hw, -, hn⟩ := hparts
    exact ⟨he, hp, hv, (scalarToBytes_eq_iff _ _).mp hw, (scalarToBytes_eq_iff _ _).mp hn⟩
  · rintro ⟨he, hp, hv, hw, hn⟩
    rw [AttestedFields.parts, AttestedFields.parts, he, hp, hv, (scalarToBytes_eq_iff _ _).mpr hw,
      (scalarToBytes_eq_iff _ _).mpr hn]

section
variable {G₁ G₂ : Type} [AddCommGroup G₁] [AddCommGroup G₂] [DecidableEq G₁] (S : Suite G₁ G₂)

omit [DecidableEq G₁] in
theorem attestationMessage_ok (ha : a.WellSized) :
    attestationMessage S a = .ok (S.keccak a.parts.flatten) := by
  rw [attestationMessage, attestationTranscript_ok ha]
  rfl

/-- Verification of well-sized fields is acceptance of the signature on their message. -/
theorem verifyAttestationSig_eq (ha : a.WellSized) (key signature : Bytes) :
    verifyAttestationSig S key a signature = true ↔
      acceptsSignature S key (S.keccak a.parts.flatten) signature = .ok true := by
  have h1 := ha.weight
  have h2 := ha.nonce
  rw [verifyAttestationSig, if_neg (by simp [ha.electionId, ha.pseudonym, ha.vk]),
    if_neg (by omega), attestationMessage_ok S ha, acceptsSignature]
  cases g1FromCompressed S.g1 key with
  | error e => simp
  | ok eligVk =>
    cases Schnorr.decode S signature with
    | error e => simp
    | ok Rs => simp

end
end ElGamalVoting
