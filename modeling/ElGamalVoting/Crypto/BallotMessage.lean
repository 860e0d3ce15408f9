import ElGamalVoting.Crypto.Ballot

/- What the message a voter signs determines (`crypto/ballot.py`).

   The message is read back from the left: a field of a fixed size ends where its size says,
   the list of ciphertexts where its count says, and the proof and the credential's signature
   where their lengths say. The two other messages of the scheme open with labels of the same
   length, so one look at the first bytes tells the three apart. -/
namespace ElGamalVoting
open Lib

/-- The fields of a message that is returned, and the message as a concatenation of them. -/
structure MessageFields (electionId pseudonym : Bytes) (ciphertexts : List (Bytes × Bytes)) (zkProof : Bytes)
    (attestation : Attestation) (count proofLen weight nonce sigLen m : Bytes) : Prop where
  id_length : electionId.length = 32
  pseudonym_length : pseudonym.length = 32
  components : ∀ ct ∈ ciphertexts, ct.1.length = 96 ∧ ct.2.length = 96
  credential_length : attestation.pseudonym.length = 32
  vk_length : attestation.vk.length = 48
  count_eq : toBytes ciphertexts.length 2 = .ok count
  proofLen_eq : toBytes zkProof.length 4 = .ok proofLen
  weight_eq : toBytes attestation.weight 32 = .ok weight
  nonce_eq : toBytes attestation.nonce 32 = .ok nonce
  sigLen_eq : toBytes attestation.signature.length 2 = .ok sigLen
  message : m = utf8 ballotMessageLabel ++ (electionId ++ (pseudonym ++ (count ++
    ((ciphertexts.map fun ct => ct.1 ++ ct.2).flatten ++ (proofLen ++ (zkProof ++ (attestation.pseudonym ++
      (attestation.vk ++ (weight ++ (nonce ++ (sigLen ++ (attestation.signature ++ []))))))))))))

section
variable {electionId electionId' pseudonym pseudonym' zkProof zkProof' m : Bytes}
  {ciphertexts ciphertexts' : List (Bytes × Bytes)} {attestation attestation' : Attestation}

theorem canonicalBallotMessage_eq_ok
    (h : canonicalBallotMessage electionId pseudonym ciphertexts zkProof attestation = .ok m) :
    ∃ count proofLen weight nonce sigLen, MessageFields electionId pseudonym ciphertexts zkProof attestation
      count proofLen weight nonce sigLen m := by
  rw [canonicalBallotMessage] at h
  split_ifs at h with he hp hct hap hvk hneg
  obtain ⟨body, hbody, h⟩ := bind_eq_ok.mp h
  obtain ⟨weight, hweight, h⟩ := bind_eq_ok.mp h
  obtain ⟨nonce, hnonce, h⟩ := bind_eq_ok.mp h
  dsimp only at h
  split_ifs at h with hsig
  obtain ⟨sigLen, hsigLen, h⟩ := bind_eq_ok.mp h
  obtain ⟨count, hcount, hbody⟩ := bind_eq_ok.mp hbody
  obtain ⟨proofLen, hproofLen, hbody⟩ := bind_eq_ok.mp hbody
  cases hbody
  refine ⟨count, proofLen, weight, nonce, sigLen, ?_⟩
  exact {
    id_length := not_not.mp he
    pseudonym_length := not_not.mp hp
    components := by
      intro ct hmem
      rw [List.any_eq_true] at hct
      have hct' := not_exists.mp hct ct
      simp only [hmem, true_and, Bool.or_eq_true, decide_eq_true_eq, not_or, not_not] at hct'
      exact hct'
    credential_length := not_not.mp hap
    vk_length := not_not.mp hvk
    count_eq := hcount
    proofLen_eq := hproofLen
    weight_eq := hweight
    nonce_eq := hnonce
    sigLen_eq := hsigLen
    message := by
      rw [← Except.ok.inj h]
      simp only [List.append_assoc, List.append_nil] }

/-- As many ciphertexts with components of one size are read back from their concatenation. -/
theorem ciphertexts_split {r r' : Bytes} (hcts : ∀ ct ∈ ciphertexts, ct.1.length = 96 ∧ ct.2.length = 96)
    (hcts' : ∀ ct ∈ ciphertexts', ct.1.length = 96 ∧ ct.2.length = 96)
    (hcount : ciphertexts.length = ciphertexts'.length)
    (h : (ciphertexts.map fun ct => ct.1 ++ ct.2).flatten ++ r =
      (ciphertexts'.map fun ct => ct.1 ++ ct.2).flatten ++ r') :
    ciphertexts = ciphertexts' ∧ r = r' := by
  induction ciphertexts generalizing ciphertexts' with
  | nil =>
    rw [List.length_nil, eq_comm, List.length_eq_zero_iff] at hcount
    rw [hcount] at h ⊢
    exact ⟨rfl, h⟩
  | cons ct cts ih =>
    cases ciphertexts' with
    | nil => cases hcount
    | cons ct' cts' =>
      obtain ⟨h1, h2⟩ := hcts ct List.mem_cons_self
      obtain ⟨h1', h2'⟩ := hcts' ct' List.mem_cons_self
      rw [List.map_cons, List.flatten_cons, List.map_cons, List.flatten_cons, List.append_assoc,
        List.append_assoc, List.append_assoc, List.append_assoc] at h
      obtain ⟨hfst, h⟩ := List.append_inj h (h1.trans h1'.symm)
      obtain ⟨hsnd, h⟩ := List.append_inj h (h2.trans h2'.symm)
      obtain ⟨hrest, hr⟩ := ih (fun x hx => hcts x (List.mem_cons_of_mem ct hx))
        (fun x hx => hcts' x (List.mem_cons_of_mem ct' hx)) (Nat.succ.inj hcount) h
      exact ⟨by rw [Prod.ext hfst hsnd, hrest], hr⟩

theorem canonicalBallotMessage_inj
    (h : canonicalBallotMessage electionId pseudonym ciphertexts zkProof attestation = .ok m)
    (h' : canonicalBallotMessage electionId' pseudonym' ciphertexts' zkProof' attestation' = .ok m) :
    electionId = electionId' ∧ pseudonym = pseudonym' ∧ ciphertexts = ciphertexts' ∧ zkProof = zkProof' ∧
      attestation.pseudonym = attestation'.pseudonym ∧ attestation.vk = attestation'.vk ∧
      attestation.weight = attestation'.weight ∧ attestation.nonce = attestation'.nonce ∧
      attestation.signature = attestation'.signature := by
  obtain ⟨count, proofLen, weight, nonce, sigLen, f⟩ := canonicalBallotMessage_eq_ok h
  obtain ⟨count', proofLen', weight', nonce', sigLen', f'⟩ := canonicalBallotMessage_eq_ok h'
  have h := List.append_cancel_left (f.message.symm.trans f'.message)
  obtain ⟨hid, h⟩ := List.append_inj h (f.id_length.trans f'.id_length.symm)
  obtain ⟨hpseudonym, h⟩ := List.append_inj h (f.pseudonym_length.trans f'.pseudonym_length.symm)
  obtain ⟨hcount, h⟩ := toBytes_split f.count_eq f'.count_eq h
  obtain ⟨hcts, h⟩ := ciphertexts_split f.components f'.components (by exact_mod_cast hcount) h
  obtain ⟨hproof, h⟩ := framed_split f.proofLen_eq f'.proofLen_eq h
  obtain ⟨hcredential, h⟩ := List.append_inj h (f.credential_length.trans f'.credential_length.symm)
  obtain ⟨hvk, h⟩ := List.append_inj h (f.vk_length.trans f'.vk_length.symm)
  obtain ⟨hweight, h⟩ := toBytes_split f.weight_eq f'.weight_eq h
  obtain ⟨hnonce, h⟩ := toBytes_split f.nonce_eq f'.nonce_eq h
  obtain ⟨hsignature, -⟩ := framed_split f.sigLen_eq f'.sigLen_eq h
  exact ⟨hid, hpseudonym, hcts, hproof, hcredential, hvk, hweight, hnonce, hsignature⟩

/-- The messages of the other two kinds open with labels of their own, of the same length. -/
theorem label_of_message (h : canonicalBallotMessage electionId pseudonym ciphertexts zkProof attestation = .ok m) :
    utf8 ballotMessageLabel <+: m := by
  obtain ⟨_, _, _, _, _, f⟩ := canonicalBallotMessage_eq_ok h
  rw [f.message]
  exact List.prefix_append _ _

theorem label_of_preV1 (h : preV1BallotMessage electionId pseudonym ciphertexts zkProof = .ok m) :
    utf8 "SHUTTER-VOTE-BALLOT-v1" <+: m := by
  obtain ⟨body, -, h⟩ := bind_eq_ok.mp h
  rw [← Except.ok.inj h]
  exact List.prefix_append _ _

theorem label_of_attestation {f : AttestedFields} {t : Transcript} (h : attestationTranscript f = .ok t) :
    utf8 attestationLabel <+: t.preimage := by
  rw [attestationTranscript_ok (wellSized_of_transcript h)] at h
  cases h
  exact List.prefix_append _ _

/-- Strings that open with different labels of one length are different. -/
theorem ne_of_labels {l l' m' : Bytes} (hlen : l.length = l'.length) (hne : l ≠ l') (h : l <+: m)
    (h' : l' <+: m') : m ≠ m' := by
  intro heq
  rw [heq] at h
  rw [List.prefix_iff_eq_take] at h h'
  rw [hlen] at h
  exact hne (h.trans h'.symm)

end

/-- The message a voter signs pins the ballot and its credential, and is no message of the two
    other kinds. -/
theorem ballot_message_pins_ballot :
    (∀ (electionId electionId' pseudonym pseudonym' : Bytes) (ciphertexts ciphertexts' : List (Bytes × Bytes))
      (zkProof zkProof' : Bytes) (attestation attestation' : Attestation) (m : Bytes),
      canonicalBallotMessage electionId pseudonym ciphertexts zkProof attestation = .ok m →
      canonicalBallotMessage electionId' pseudonym' ciphertexts' zkProof' attestation' = .ok m →
      electionId = electionId' ∧ pseudonym = pseudonym' ∧ ciphertexts = ciphertexts' ∧ zkProof = zkProof' ∧
        attestation.pseudonym = attestation'.pseudonym ∧ attestation.vk = attestation'.vk ∧
        attestation.weight = attestation'.weight ∧ attestation.nonce = attestation'.nonce ∧
        attestation.signature = attestation'.signature) ∧
    ∀ (electionId pseudonym : Bytes) (ciphertexts : List (Bytes × Bytes)) (zkProof : Bytes)
      (attestation : Attestation) (m : Bytes),
      canonicalBallotMessage electionId pseudonym ciphertexts zkProof attestation = .ok m →
      (∀ (electionId' pseudonym' : Bytes) (ciphertexts' : List (Bytes × Bytes)) (zkProof' : Bytes),
        preV1BallotMessage electionId' pseudonym' ciphertexts' zkProof' ≠ .ok m) ∧
      ∀ (f : AttestedFields) (t : Transcript), attestationTranscript f = .ok t → t.preimage ≠ m := by
  refine ⟨?_, ?_⟩
  · intro electionId electionId' pseudonym pseudonym' ciphertexts ciphertexts' zkProof zkProof' attestation
      attestation' m h h'
    exact canonicalBallotMessage_inj h h'
  · intro electionId pseudonym ciphertexts zkProof attestation m h
    have hlabel := label_of_message h
    refine ⟨?_, ?_⟩
    · intro electionId' pseudonym' ciphertexts' zkProof' hpre
      have hne : utf8 ballotMessageLabel ≠ utf8 "SHUTTER-VOTE-BALLOT-v1" := by decide
      exact ne_of_labels (by decide) hne hlabel (label_of_preV1 hpre) rfl
    · intro f t hf
      have hne : utf8 attestationLabel ≠ utf8 ballotMessageLabel := by decide
      exact ne_of_labels (by decide) hne (label_of_attestation hf) hlabel

/-- Two messages that differ in the signature of the credential alone. -/
theorem ballot_message_pins_ballot_signatures :
    ∃ m m', canonicalBallotMessage (beBytes 32 1) (beBytes 32 2) [(beBytes 96 3, beBytes 96 4)] [5]
        ⟨beBytes 32 1, beBytes 32 2, beBytes 48 6, 7, [8], .v1, 9⟩ = .ok m ∧
      canonicalBallotMessage (beBytes 32 1) (beBytes 32 2) [(beBytes 96 3, beBytes 96 4)] [5]
        ⟨beBytes 32 1, beBytes 32 2, beBytes 48 6, 7, [8, 0], .v1, 9⟩ = .ok m' ∧ m ≠ m' := by
  refine ⟨_, _, rfl, rfl, ?_⟩
  intro h
  have hpins := ballot_message_pins_ballot.1 (beBytes 32 1) (beBytes 32 1) (beBytes 32 2) (beBytes 32 2)
    [(beBytes 96 3, beBytes 96 4)] [(beBytes 96 3, beBytes 96 4)] [5] [5]
    ⟨beBytes 32 1, beBytes 32 2, beBytes 48 6, 7, [8], .v1, 9⟩
    ⟨beBytes 32 1, beBytes 32 2, beBytes 48 6, 7, [8, 0], .v1, 9⟩ _ rfl (congrArg Except.ok h.symm)
  exact absurd hpins.2.2.2.2.2.2.2.2 (by decide)

end ElGamalVoting
