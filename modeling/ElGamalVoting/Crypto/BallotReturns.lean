import ElGamalVoting.Crypto.Ballot

/- When ballot verification raises.

   A ballot that passed the structural checks has fixed lengths everywhere: the
   decoder's offsets determine the length of the proof, and the transcript's
   tags and values fit their length prefixes. What is left is the canonical
   message, which writes weight and nonce in 32 bytes. Nothing before it bounds
   the two, so it raises exactly on those that do not fit
   (`verifyBallotCrypto_returns_iff`). -/
namespace ElGamalVoting
open Lib

/-! ## The decoder's offsets -/

section
variable {G₁ G₂ : Type} [AddCommGroup G₁] [AddCommGroup G₂] {S : Suite G₁ G₂} {buf : Bytes}

theorem decodeBranches_offset {count o o' : Nat} {brs : List (ORBranch G₂)}
    (h : decodeBranches S buf count o = .ok (brs, o')) : o' = o + 256 * count := by
  induction count generalizing o brs with
  | zero =>
    cases h
    rfl
  | succ count ih =>
    rw [decodeBranches] at h
    obtain ⟨⟨br, o1⟩, hbr, h⟩ := bind_eq_ok.mp h
    obtain ⟨⟨brs', o2⟩, hbrs, h⟩ := bind_eq_ok.mp h
    cases h
    have hnext : o1 = o + 256 := by
      rw [decodeBranch] at hbr
      obtain ⟨_, -, hbr⟩ := bind_eq_ok.mp hbr
      obtain ⟨_, -, hbr⟩ := bind_eq_ok.mp hbr
      obtain ⟨_, -, hbr⟩ := bind_eq_ok.mp hbr
      obtain ⟨_, -, hbr⟩ := bind_eq_ok.mp hbr
      cases hbr
      rfl
    rw [ih hbrs, hnext]
    ring

theorem decodeRangeProofs_offset {counts : List Nat} {o o' : Nat}
    {proofs : List (List (ORBranch G₂))}
    (h : decodeRangeProofs S buf counts o = .ok (proofs, o')) :
    o' = o + 256 * counts.sum ∧ proofs.length = counts.length := by
  induction counts generalizing o proofs with
  | nil =>
    cases h
    exact ⟨rfl, rfl⟩
  | cons bc counts ih =>
    rw [decodeRangeProofs] at h
    obtain ⟨⟨brs, o1⟩, hbrs, h⟩ := bind_eq_ok.mp h
    obtain ⟨⟨ps, o2⟩, hps, h⟩ := bind_eq_ok.mp h
    cases h
    obtain ⟨ho, hlen⟩ := ih hps
    rw [decodeBranches_offset hbrs] at ho
    refine ⟨?_, by simp [hlen]⟩
    rw [ho, List.sum_cons]
    ring

theorem decodeBranchCounts_offset {expected count o o' : Nat} {counts : List Nat}
    (h : decodeBranchCounts buf expected count o = .ok (counts, o')) :
    o' = o + 2 * count ∧ counts = List.replicate count expected := by
  induction count generalizing o counts with
  | zero =>
    cases h
    exact ⟨rfl, rfl⟩
  | succ count ih =>
    rw [decodeBranchCounts] at h
    dsimp only at h
    split at h
    · cases h
    · rename_i hbc
      obtain ⟨⟨cs, o1⟩, hcs, h⟩ := bind_eq_ok.mp h
      cases h
      obtain ⟨ho, hcounts⟩ := ih hcs
      refine ⟨by omega, ?_⟩
      rw [hcounts, not_not.mp hbc, List.replicate_succ]

theorem decodeBudget_length {o : Nat} {ez : Int × Int} (h : decodeBudget buf o = .ok ez) :
    buf.length = o + 65 := by
  rw [decodeBudget] at h
  split at h
  · cases h
  · split at h
    · cases h
    · obtain ⟨_, -, h⟩ := bind_eq_ok.mp h
      obtain ⟨_, -, h⟩ := bind_eq_ok.mp h
      split at h
      · cases h
      · omega

/-- A proof that decodes has exactly the length its format prescribes, and one
    list of branches for each candidate. -/
theorem decodeBallotValidityProof_shape {numCandidates budget : Nat}
    {proofs : List (List (ORBranch G₂))} {eB zB : Int}
    (h : decodeBallotValidityProof S buf numCandidates budget = .ok (proofs, eB, zB)) :
    buf.length = 69 + 2 * numCandidates + 256 * (numCandidates * (budget + 1)) ∧
      proofs.length = numCandidates := by
  unfold decodeBallotValidityProof at h
  split at h
  · dsimp only at h
    split at h
    · cases h
    · split at h
      · cases h
      · split at h
        · cases h
        · rename_i hn
          obtain ⟨⟨counts, o1⟩, hcounts, h⟩ := bind_eq_ok.mp h
          obtain ⟨⟨ps, o2⟩, hps, h⟩ := bind_eq_ok.mp h
          obtain ⟨⟨e, z⟩, hbudget, h⟩ := bind_eq_ok.mp h
          cases h
          obtain ⟨ho1, rfl⟩ := decodeBranchCounts_offset hcounts
          obtain ⟨ho2, hlen⟩ := decodeRangeProofs_offset hps
          have hbuf := decodeBudget_length hbudget
          rw [List.sum_replicate, smul_eq_mul, not_not.mp hn] at ho2
          rw [List.length_replicate, not_not.mp hn] at hlen
          rw [not_not.mp hn] at ho1
          exact ⟨by omega, hlen⟩
  · cases h

/-! ## What can raise during verification -/

variable [DecidableEq G₁] [DecidableEq G₂]

/-- What the structural checks have established. -/
structure DecodedFrom (S : Suite G₁ G₂) (env : BallotEnvelope) (numCandidates budget : Nat)
    (d : DecodedBallot G₁ G₂) : Prop where
  electionId : env.electionId.length = 32
  pseudonym : env.pseudonym.length = 32
  numCandidates_le : numCandidates ≤ 0xFFFF
  budget_le : budget ≤ 0xFFFE
  ciphertexts : env.ciphertexts.length = numCandidates
  components : ∀ ct ∈ env.ciphertexts, ct.c1.length = 96 ∧ ct.c2.length = 96
  ctsPts : d.ctsPts.length = numCandidates
  zkProof : env.zkProof.length = 69 + 2 * numCandidates + 256 * (numCandidates * (budget + 1))

omit [DecidableEq G₁] [DecidableEq G₂] in
theorem decodeCiphertexts_shape {cts : List Ciphertext} {pts : List (G₂ × G₂)}
    (h : (ciphertextPairs cts).mapM (decodeCiphertext S) = .ok pts) :
    pts.length = cts.length ∧ ∀ ct ∈ cts, ct.c1.length = 96 ∧ ct.c2.length = 96 := by
  have hall := mapM_eq_ok.mp h
  refine ⟨by simpa [ciphertextPairs] using hall.length_eq.symm, ?_⟩
  intro ct hct
  obtain ⟨P, -, hP⟩ := mapM_ok_mem h (List.mem_map.mpr ⟨ct, hct, rfl⟩)
  obtain ⟨c1, h1, hP⟩ := bind_eq_ok.mp hP
  obtain ⟨c2, h2, -⟩ := bind_eq_ok.mp hP
  exact ⟨decodePoint_length h1, decodePoint_length h2⟩

theorem decodeBallotCrypto_some {mpk : G₂} {env : BallotEnvelope} {numCandidates budget : Nat}
    {d : DecodedBallot G₁ G₂} (h : decodeBallotCrypto S mpk env numCandidates budget = some d) :
    DecodedFrom S env numCandidates budget d := by
  unfold decodeBallotCrypto at h
  split at h
  · cases h
  rename_i hn
  split at h
  · cases h
  rename_i hb
  split at h
  · cases h
  rename_i hsize
  split at h
  · cases h
  split at h
  · cases h
  split at h
  · cases h
  split at h
  · cases h
  rename_i hcts
  split at h
  · cases h
  rename_i pts hpts
  split at h
  · cases h
  rename_i proofs eB zB hproof
  cases h
  obtain ⟨hlen, hcomp⟩ := decodeCiphertexts_shape hpts
  push Not at hsize
  exact {
    electionId := hsize.1
    pseudonym := hsize.2
    numCandidates_le := (not_not.mp hn).2
    budget_le := (not_not.mp hb).2
    ciphertexts := not_not.mp hcts
    components := hcomp
    ctsPts := hlen.trans (not_not.mp hcts)
    zkProof := (decodeBallotValidityProof_shape hproof).1 }

omit [DecidableEq G₁] [DecidableEq G₂] in
theorem seedBallotTranscript_returns {electionId : Bytes} (mpk : G₂) (vk : G₁)
    {ctsPts : List (G₂ × G₂)} {numCandidates budget : Nat} (he : electionId.length = 32)
    (hn : numCandidates ≤ 0xFFFF) (hb : budget ≤ 0xFFFE) (hc : ctsPts.length ≤ 0xFFFF) :
    Returns (seedBallotTranscript S electionId mpk vk ctsPts numCandidates budget) := by
  have hword {m : Nat} (hm : m ≤ 0xFFFF) : toBytes m 2 = .ok (beBytes 2 m) :=
    toBytes_ok (by omega) (by omega)
  have hshort (t : Transcript) {tag : String} (htag : (utf8 tag).length < 2 ^ 32) (m : Nat) :
      Returns (t.append tag (beBytes 2 m)) :=
    append_returns t htag (by rw [length_beBytes]; decide)
  refine (append_returns _ (by decide) (by omega)).bind fun t1 _ => ?_
  refine (appendPoint_returns S t1 _ (by decide)).bind fun t2 _ => ?_
  refine (append_returns t2 (by decide) (by rw [S.g1.length_toCompressed]; decide)).bind fun t3 _ => ?_
  refine (append_returns t3 (by decide) (by decide)).bind fun t4 _ => ?_
  refine (append_returns t4 (by decide) (by decide)).bind fun t5 _ => ?_
  rw [hword hn, ok_bind]
  refine (hshort t5 (by decide) _).bind fun t6 _ => ?_
  rw [hword (by omega), ok_bind]
  refine (hshort t6 (by decide) _).bind fun t7 _ => ?_
  rw [hword hc, ok_bind]
  refine (hshort t7 (by decide) _).bind fun t8 _ => ?_
  refine foldlM_returns (fun t ci hci => ?_) t8
  have hi := (List.mem_zipIdx hci).2.1
  have htag (name : String) (hname : (utf8 name).length ≤ 16) :
      (utf8 (indexedTag name ci.2)).length < 2 ^ 32 := length_indexedTag hname (by omega)
  exact (appendPoint_returns S t _ (htag _ (by decide))).bind fun t' _ =>
    appendPoint_returns S t' _ (htag _ (by decide))

omit [DecidableEq G₁] in
theorem verifyRangeProofs_returns (mpk : G₂) {budget : Nat} (hb : budget ≤ 0xFFFE)
    {proofs : List ((G₂ × G₂) × List (ORBranch G₂))} {j : Nat} (hj : j + proofs.length ≤ 0xFFFF)
    (t : Transcript) : Returns (verifyRangeProofs S mpk budget j proofs t) := by
  induction proofs generalizing j t with
  | nil => exact .ok _
  | cons p proofs ih =>
    rw [List.length_cons] at hj
    have hword : toBytes j 2 = .ok (beBytes 2 j) := toBytes_ok (by omega) (by omega)
    rw [verifyRangeProofs, hword, ok_bind]
    refine (append_returns t (by decide) (by rw [length_beBytes]; decide)).bind fun t1 _ => ?_
    refine (verifyOr_returns S _ _ mpk _ t1 (by simp [voteRange]; omega)).bind fun r _ => ?_
    obtain ⟨ok, t2⟩ := r
    cases ok with
    | true => exact ih (by omega) t2
    | false => exact .ok _

omit [DecidableEq G₁] in
theorem verifyBallotProofs_returns (mpk : G₂) {env : BallotEnvelope} {numCandidates budget : Nat}
    {d : DecodedBallot G₁ G₂} (hd : DecodedFrom S env numCandidates budget d) :
    Returns (verifyBallotProofs S mpk env.electionId numCandidates budget d) := by
  have hn := hd.numCandidates_le
  have hb := hd.budget_le
  have hcts := hd.ctsPts
  have hzip : (d.ctsPts.zip d.rangeProofs).length ≤ 0xFFFF := by
    rw [List.length_zip]
    omega
  refine (seedBallotTranscript_returns mpk d.vk hd.electionId hn hb (by omega)).bind fun t _ => ?_
  refine (verifyRangeProofs_returns mpk hb (by omega) t).bind fun r _ => ?_
  obtain ⟨ok, t1⟩ := r
  cases ok with
  | true =>
    refine (append_returns t1 (by decide) (by decide)).bind fun t2 _ => ?_
    exact (verifyBudgetExact_returns S _ _ mpk _ _ _ t2).bind fun r _ => .ok _
  | false => exact .ok _

omit [DecidableEq G₁] [DecidableEq G₂] in
theorem ballotMessageBody_returns {env : BallotEnvelope} {numCandidates budget : Nat}
    {d : DecodedBallot G₁ G₂} (hd : DecodedFrom S env numCandidates budget d)
    (hbranches : numCandidates * (budget + 1) ≤ 2500) :
    Returns (ballotMessageBody env.electionId env.pseudonym (ciphertextPairs env.ciphertexts)
      env.zkProof) := by
  have hn := hd.numCandidates_le
  have hcts := hd.ciphertexts
  have hzk := hd.zkProof
  have hcount : toBytes (ciphertextPairs env.ciphertexts).length 2 =
      .ok (beBytes 2 (ciphertextPairs env.ciphertexts).length) :=
    toBytes_ok (by omega) (by simp only [ciphertextPairs, List.length_map]; omega)
  have hproof : toBytes env.zkProof.length 4 = .ok (beBytes 4 env.zkProof.length) :=
    toBytes_ok (by omega) (by omega)
  rw [ballotMessageBody, hcount, ok_bind, hproof, ok_bind]
  exact .ok _

theorem toBytes_returns_iff {n : Int} {w : Nat} (h0 : 0 ≤ n) : Returns (toBytes n w) ↔ n < 256 ^ w := by
  constructor
  · rintro ⟨b, hb⟩
    exact (toBytes_eq_ok hb).2.1
  · intro h
    exact ⟨_, toBytes_ok h0 h⟩

/-- An attestation whose fields have the sizes the codec enforces. -/
structure Attestation.WellSized (a : Attestation) : Prop where
  fields : a.fields.WellSized
  signature : a.signature.length ≤ 0xFFFF

omit [DecidableEq G₁] [DecidableEq G₂] in
/-- With everything before it checked, the message encoder raises exactly on a
    weight or a nonce that does not fit 32 bytes. -/
theorem canonicalBallotMessage_returns_iff {env : BallotEnvelope} {numCandidates budget : Nat}
    {d : DecodedBallot G₁ G₂} (hd : DecodedFrom S env numCandidates budget d)
    (hbranches : numCandidates * (budget + 1) ≤ 2500) (ha : env.attestation.WellSized) :
    Returns (canonicalBallotMessage env.electionId env.pseudonym (ciphertextPairs env.ciphertexts)
        env.zkProof env.attestation) ↔
      env.attestation.weight < 256 ^ 32 ∧ env.attestation.nonce < 256 ^ 32 := by
  have hw : 1 ≤ env.attestation.weight := ha.fields.weight
  have hn : 1 ≤ env.attestation.nonce := ha.fields.nonce
  have hp : env.attestation.pseudonym.length = 32 := ha.fields.pseudonym
  have hv : env.attestation.vk.length = 48 := ha.fields.vk
  have hcomp : ¬ (ciphertextPairs env.ciphertexts).any
      (fun ct => ct.1.length ≠ 96 || ct.2.length ≠ 96) = true := by
    simp only [ciphertextPairs, List.any_map, List.any_eq_true, not_exists, not_and]
    intro ct hct
    simp [hd.components ct hct]
  have hsig := ha.signature
  have hsigLen : toBytes env.attestation.signature.length 2 =
      .ok (beBytes 2 env.attestation.signature.length) := toBytes_ok (by omega) (by omega)
  obtain ⟨body, hbody⟩ := ballotMessageBody_returns hd hbranches
  rw [canonicalBallotMessage, if_neg (not_not.mpr hd.electionId), if_neg (not_not.mpr hd.pseudonym),
    if_neg hcomp, if_neg (not_not.mpr hp), if_neg (not_not.mpr hv),
    if_neg (by omega), hbody, ok_bind]
  rw [← toBytes_returns_iff (by omega : 0 ≤ env.attestation.weight),
    ← toBytes_returns_iff (by omega : 0 ≤ env.attestation.nonce)]
  constructor
  · rintro ⟨m, hm⟩
    obtain ⟨wb, hwb, hm⟩ := bind_eq_ok.mp hm
    obtain ⟨nb, hnb, -⟩ := bind_eq_ok.mp hm
    exact ⟨⟨wb, hwb⟩, ⟨nb, hnb⟩⟩
  · rintro ⟨⟨wb, hwb⟩, ⟨nb, hnb⟩⟩
    rw [hwb, ok_bind, hnb, ok_bind, if_neg (by omega), hsigLen]
    exact .ok _

omit [DecidableEq G₂] in
/-- The signature check returns when the canonical message does. -/
theorem verifyBallotSignature_returns_iff {env : BallotEnvelope} {body : Bytes} (vk R : G₁) (s : Int)
    (hbody : ballotMessageBody env.electionId env.pseudonym (ciphertextPairs env.ciphertexts)
      env.zkProof = .ok body) :
    Returns (verifyBallotSignature S vk R s env) ↔
      Returns (canonicalBallotMessage env.electionId env.pseudonym (ciphertextPairs env.ciphertexts)
        env.zkProof env.attestation) := by
  constructor
  · rintro ⟨r, hr⟩
    rw [verifyBallotSignature] at hr
    obtain ⟨m, hm, -⟩ := bind_eq_ok.mp hr
    exact ⟨m, hm⟩
  · rintro ⟨m, hm⟩
    rw [verifyBallotSignature]
    refine Returns.bind ⟨m, hm⟩ fun m' _ => ?_
    split
    · exact .ok _
    · have hold : Returns (preV1BallotMessage env.electionId env.pseudonym
          (ciphertextPairs env.ciphertexts) env.zkProof) := by
        rw [preV1BallotMessage, hbody, ok_bind]
        exact .ok _
      refine hold.bind fun old _ => ?_
      split <;> exact .ok _

/-- Verification of a ballot whose attestation has the right sizes raises exactly
    when the ballot reaches the message with a weight or nonce that does not fit. -/
theorem verifyBallotCrypto_returns_iff (mpk : G₂) (env : BallotEnvelope) (numCandidates budget : Nat)
    (hbranches : numCandidates * (budget + 1) ≤ 2500) (ha : env.attestation.WellSized) :
    Returns (verifyBallotCrypto S mpk env numCandidates budget) ↔
      (reachesMessage S mpk env numCandidates budget = true →
        env.attestation.weight < 256 ^ 32 ∧ env.attestation.nonce < 256 ^ 32) := by
  unfold verifyBallotCrypto reachesMessage
  cases hdec : decodeBallotCrypto S mpk env numCandidates budget with
  | none => exact iff_of_true (.ok _) (by simp)
  | some d =>
    have hd := decodeBallotCrypto_some hdec
    obtain ⟨ok, hok⟩ := verifyBallotProofs_returns mpk hd
    simp only [hok, ok_bind]
    cases ok with
    | false => exact iff_of_true (.ok _) (by simp)
    | true =>
      cases hsig : Schnorr.decode S env.voterSignature with
      | error e => exact iff_of_true (.ok _) (by simp)
      | ok Rs =>
        obtain ⟨body, hbody⟩ := ballotMessageBody_returns hd hbranches
        simp only [if_true, Bool.and_self, true_imp_iff]
        rw [← canonicalBallotMessage_returns_iff hd hbranches ha]
        exact verifyBallotSignature_returns_iff d.vk Rs.1 Rs.2 hbody

end
end ElGamalVoting
