import ElGamalVoting.Core.Aggregation

/- Decryption shares, from the keyper that makes one to the recovery that counts it.

   `decryptEntry` is the body of the loop of `produce_decryption_share`
   (`services/keyper/keyper.py`): one entry of an envelope. The entry a keyper
   makes under its own committee key is accepted at its candidate
   (`checkEntry_decryptEntry`).

   `acceptedShares` names the shares of a list that count at a candidate, and
   `deriveTausFrom_eq_some` says what the loop over the candidates returns in
   terms of them. -/
namespace ElGamalVoting
open Lib

section
variable {G₁ G₂ : Type} [AddCommGroup G₁] [AddCommGroup G₂] (S : Suite G₁ G₂)

/-- One entry of a share envelope, with the nonce `w` of its proof. -/
def decryptEntry (dkg : KeyperDKGState G₂) (index : Int) (electionId : Bytes) (j : Nat)
    (ct : Ciphertext) (w : Int) : Py DecryptionShareEntry := do
  let c1 ← g2FromCompressed S.g2 ct.c1
  let c2 ← g2FromCompressed S.g2 ct.c2
  let sigma ← dkg.partialDecrypt c1
  let t ← makeDecryptTranscript electionId j
  -- round 2 sets the two fields together, so after `partialDecrypt` both are there
  match dkg.combinedShare, dkg.publicKeyShare with
  | some share, some pk => do
    let ((e, z), _) ← proveDecryptionShare S t c1 c2 pk sigma share index w
    pure ⟨S.g2.toCompressed sigma, encodeDleq e z⟩
  | _, _ => .error (.attributeError "'NoneType' object has no attribute 'to_compressed_bytes'")

/-- The share an envelope contributes at candidate `j`, if it counts there. -/
def acceptedShare (electionId : Bytes) (committeePks : List Bytes) (j : Nat) (C : G₂ × G₂)
    (share : DecryptionShareEnvelope) : Option (Int × G₂) :=
  (checkEntry S electionId committeePks j C.1 C.2 share).toOption.join

def acceptedShares (electionId : Bytes) (committeePks : List Bytes) (j : Nat) (C : G₂ × G₂)
    (shares : List DecryptionShareEnvelope) : List (Int × G₂) :=
  shares.filterMap (acceptedShare S electionId committeePks j C)

/-! ## One envelope at one candidate -/

variable {S} {electionId : Bytes} {committeePks : List Bytes} {j : Nat} {C : G₂ × G₂}

theorem checkEntry_returns (he : electionId.length = 32) (hj : j < 2 ^ 16)
    (hn : committeePks.length < 2 ^ 16) (share : DecryptionShareEnvelope) :
    Returns (checkEntry S electionId committeePks j C.1 C.2 share) := by
  unfold checkEntry
  split
  · exact .ok none
  · split
    · exact .ok none
    · rename_i hidx
      split
      · exact .ok none
      · refine (makeDecryptTranscript_returns he (by omega) (by omega)).bind fun t _ => ?_
        exact (verifyDecryptionShare_returns S t _ _ _ _ _ _ (by omega) (by omega)).bind
          fun _ _ => .ok _

theorem bindDecryptionShare_eq_ok {t t' : Transcript} {C1 C2 mpkK : G₂} {keyperIndex : Int}
    (h : bindDecryptionShare S t C1 C2 mpkK keyperIndex = .ok t') : keyperIndex < 2 ^ 16 := by
  rw [bindDecryptionShare] at h
  obtain ⟨_, _, h⟩ := bind_eq_ok.mp h
  obtain ⟨_, _, h⟩ := bind_eq_ok.mp h
  obtain ⟨_, _, h⟩ := bind_eq_ok.mp h
  obtain ⟨_, hindex, -⟩ := bind_eq_ok.mp h
  obtain ⟨-, hlt, -⟩ := toBytes_eq_ok hindex
  exact hlt

/-- What an accepted share has passed: an index of the committee, below the width the
    transcript writes it in. -/
theorem checkEntry_eq_some {share : DecryptionShareEnvelope} {s : Int × G₂}
    (h : checkEntry S electionId committeePks j C.1 C.2 share = .ok (some s)) :
    s.1 = share.keyperIndex ∧ 1 ≤ s.1 ∧ s.1 ≤ committeePks.length ∧ s.1 < 2 ^ 16 ∧
      electionId.length = 32 ∧ j < 2 ^ 16 := by
  unfold checkEntry at h
  split at h
  · cases h
  · split at h
    · cases h
    · rename_i hidx
      split at h
      · cases h
      · obtain ⟨t, ht, h⟩ := bind_eq_ok.mp h
        obtain ⟨⟨ok, t'⟩, hverify, h⟩ := bind_eq_ok.mp h
        obtain ⟨_, hbind, -⟩ := bind_eq_ok.mp hverify
        have hwidth := bindDecryptionShare_eq_ok hbind
        obtain ⟨he, -, hj⟩ := of_makeDecryptTranscript ht
        simp only [pure_eq_ok, Except.ok.injEq] at h
        cases ok with
        | false => cases h
        | true =>
          cases h
          exact ⟨rfl, by omega, by omega, hwidth, he, by omega⟩

theorem acceptedShare_eq_some {share : DecryptionShareEnvelope} {s : Int × G₂} :
    acceptedShare S electionId committeePks j C share = some s ↔
      checkEntry S electionId committeePks j C.1 C.2 share = .ok (some s) := by
  rw [acceptedShare]
  cases checkEntry S electionId committeePks j C.1 C.2 share with
  | error e => simp [Except.toOption]
  | ok r => simp [Except.toOption]

theorem acceptedShare_of_ok {share : DecryptionShareEnvelope} {r : Option (Int × G₂)}
    (h : checkEntry S electionId committeePks j C.1 C.2 share = .ok r) :
    acceptedShare S electionId committeePks j C share = r := by
  rw [acceptedShare, h]
  cases r with
  | none => rfl
  | some s => rfl

/-- The entry a keyper makes is accepted, when the committee key at its index is
    the multiple of its own share. -/
theorem checkEntry_decryptEntry {dkg : KeyperDKGState G₂} {index s w : Int}
    {ct : Ciphertext} (hs : dkg.combinedShare = some s)
    (hpk : dkg.publicKeyShare = some (mul S.g2.gen s))
    (hct : decodeCiphertext S (ct.c1, ct.c2) = .ok C) (he : electionId.length = 32) (hj : j < 2 ^ 16)
    (hn : committeePks.length < 2 ^ 16) (hidx : 1 ≤ index ∧ index ≤ committeePks.length)
    (hkey : g2FromCompressed S.g2 (committeePks.getD (index - 1).toNat []) = .ok (mul S.g2.gen s)) :
    ∃ entry, decryptEntry S dkg index electionId j ct w = .ok entry ∧
      ∀ share : DecryptionShareEnvelope, share.keyperIndex = index → share.entries[j]? = some entry →
        checkEntry S electionId committeePks j C.1 C.2 share = .ok (some (index, mul C.1 s)) := by
  obtain ⟨c1, hc1, hct⟩ := bind_eq_ok.mp hct
  obtain ⟨c2, hc2, hct⟩ := bind_eq_ok.mp hct
  cases hct
  obtain ⟨t, ht⟩ := makeDecryptTranscript_returns he (by omega : (0 : Int) ≤ j) (by omega)
  obtain ⟨⟨⟨e, z⟩, t'⟩, hprove⟩ :=
    (bindDecryptionShare_returns S t c1 c2 (mul S.g2.gen s) (by omega : 0 ≤ index) (by omega)).bind
      fun t1 _ => proveDleq_returns S S.g2.gen (mul S.g2.gen s) c1 (mul c1 s) s w t1
  obtain ⟨t1, -, hdleq⟩ := bind_eq_ok.mp hprove
  obtain ⟨heb, hzb⟩ := proveDleq_bounds S hdleq
  refine ⟨⟨S.g2.toCompressed (mul c1 s), encodeDleq e z⟩, ?_, ?_⟩
  · rw [decryptEntry, hc1, ok_bind, hc2, ok_bind, KeyperDKGState.partialDecrypt, hs, ok_bind, ht,
      ok_bind, hpk]
    exact bind_eq_ok.mpr ⟨((e, z), t'), hprove, rfl⟩
  · intro share hindex hentry
    have hdecode : decodeEntry S ⟨S.g2.toCompressed (mul c1 s), encodeDleq e z⟩
        (committeePks.getD (index - 1).toNat []) = .ok (mul c1 s, (e, z), mul S.g2.gen s) := by
      rw [decodeEntry, hkey, decodeDleq_encodeDleq heb hzb, g2FromCompressed,
        S.g2.decodePoint_toCompressed]
      rfl
    have hverify := verifyDecryptionShare_prove S (S.g2.mul_eq_zsmul S.g2.gen s)
      (S.g2.mul_eq_zsmul c1 s) hprove
    unfold checkEntry
    rw [hentry]
    simp only [hindex, hidx, and_self, not_true_eq_false, if_false, hdecode]
    rw [ht, ok_bind, hverify, ok_bind]
    rfl

/-! ## The list at one candidate -/

variable {shares : List DecryptionShareEnvelope}

theorem validShares_eq_ok {valid : List (Int × G₂)}
    (h : validShares S electionId committeePks j C.1 C.2 shares = .ok valid) :
    valid = acceptedShares S electionId committeePks j C shares := by
  rw [validShares] at h
  obtain ⟨checked, hchecked, hvalid⟩ := bind_eq_ok.mp h
  rw [pure_eq_ok, Except.ok.injEq] at hvalid
  have hall := mapM_eq_ok.mp hchecked
  rw [← hvalid]
  clear hchecked hvalid h
  rw [acceptedShares]
  induction hall with
  | nil => rfl
  | cons hr _ ih => rw [List.filterMap_cons, List.filterMap_cons, acceptedShare_of_ok hr, ih, id]

theorem validShares_ok (he : electionId.length = 32) (hj : j < 2 ^ 16)
    (hn : committeePks.length < 2 ^ 16) :
    validShares S electionId committeePks j C.1 C.2 shares =
      .ok (acceptedShares S electionId committeePks j C shares) := by
  have hcheck : ∀ share ∈ shares, checkEntry S electionId committeePks j C.1 C.2 share =
      .ok (acceptedShare S electionId committeePks j C share) := by
    intro share _
    obtain ⟨r, hr⟩ := checkEntry_returns (S := S) (C := C) he hj hn share
    rw [hr, acceptedShare_of_ok hr]
  rw [validShares, mapM_ok_of hcheck, ok_bind, List.filterMap_map]
  rfl

theorem mem_acceptedShares {s : Int × G₂} :
    s ∈ acceptedShares S electionId committeePks j C shares ↔
      ∃ share ∈ shares, acceptedShare S electionId committeePks j C share = some s :=
  List.mem_filterMap

/-- The accepted indices are indices of the committee. -/
theorem acceptedShares_bounds {s : Int × G₂}
    (hs : s ∈ acceptedShares S electionId committeePks j C shares) :
    s.1 ∈ keyperIndices committeePks.length ∧ s.1 < 2 ^ 16 := by
  obtain ⟨share, -, hshare⟩ := mem_acceptedShares.mp hs
  obtain ⟨-, h1, h2, h3, -⟩ := checkEntry_eq_some (acceptedShare_eq_some.mp hshare)
  exact ⟨mem_keyperIndices.mpr ⟨h1, h2⟩, h3⟩

/-- Each accepted share carries its own envelope's index, in the order of the list. -/
theorem acceptedShares_sublist (shares : List DecryptionShareEnvelope) :
    ((acceptedShares S electionId committeePks j C shares).map Prod.fst).Sublist
      (shares.map DecryptionShareEnvelope.keyperIndex) := by
  induction shares with
  | nil => exact List.Sublist.slnil
  | cons share shares ih =>
    rw [acceptedShares, List.filterMap_cons, List.map_cons]
    cases h : acceptedShare S electionId committeePks j C share with
    | none => exact ih.cons _
    | some s =>
      have hindex := (checkEntry_eq_some (acceptedShare_eq_some.mp h)).1
      rw [← hindex]
      exact ih.cons_cons _

/-- Accepted indices are distinct modulo the order unless they are equal. -/
theorem separated_acceptedShares (quorum : Nat) :
    Separated (((acceptedShares S electionId committeePks j C shares).take quorum).map Prod.fst) := by
  refine separated_of_bounds fun i hi => ?_
  obtain ⟨s, hs, rfl⟩ := List.mem_map.mp hi
  obtain ⟨hmem, hlt⟩ := acceptedShares_bounds (List.mem_of_mem_take hs)
  have := mem_keyperIndices.mp hmem
  have : (2 ^ 16 : Int) < curveOrder := by decide
  omega

/-! ## The loop over the candidates -/

variable (S electionId committeePks shares) (quorum : Nat)

/-- What one turn of the loop leaves for candidate `p.2` with ciphertext `p.1`. -/
def IsTau (p : (G₂ × G₂) × Nat) (tau : G₂ × List Int) : Prop :=
  ∃ valid sigma, validShares S electionId committeePks p.2 p.1.1 p.1.2 shares = .ok valid ∧
    quorum ≤ valid.length ∧ combineShares (valid.take quorum) = .ok sigma ∧
    tau = (p.1.2 + -sigma, (valid.take quorum).map Prod.fst)

variable {S electionId committeePks quorum shares}

theorem deriveTausFrom_eq_some {cts : List Ciphertext} {points : List (G₂ × G₂)} {j : Nat}
    {taus : List (G₂ × List Int)}
    (hpts : cts.mapM (fun ct => decodeCiphertext S (ct.c1, ct.c2)) = .ok points) :
    deriveTausFrom S electionId committeePks quorum shares j cts = .ok (some taus) ↔
      List.Forall₂ (IsTau S electionId committeePks shares quorum) (points.zipIdx j) taus := by
  have hall := mapM_eq_ok.mp hpts
  clear hpts
  induction hall generalizing j taus with
  | nil => simp [deriveTausFrom, eq_comm]
  | @cons ct C cts points hct _ ih =>
    obtain ⟨c1, hc1, hct⟩ := bind_eq_ok.mp hct
    obtain ⟨c2, hc2, hct⟩ := bind_eq_ok.mp hct
    cases hct
    rw [deriveTausFrom, hc1, ok_bind, hc2, ok_bind, List.zipIdx_cons, bind_eq_ok]
    constructor
    · intro h
      obtain ⟨valid, hvalid, h⟩ := h
      by_cases hlen : valid.length < quorum
      · rw [if_pos hlen] at h
        cases h
      · rw [if_neg hlen] at h
        obtain ⟨sigma, hsigma, h⟩ := bind_eq_ok.mp h
        obtain ⟨rest, hrest, h⟩ := bind_eq_ok.mp h
        rw [pure_eq_ok, Except.ok.injEq, Option.map_eq_some_iff] at h
        obtain ⟨rest, rfl, rfl⟩ := h
        exact .cons ⟨valid, sigma, hvalid, by omega, hsigma, rfl⟩ (ih.mp hrest)
    · intro h
      obtain ⟨tau, taus, htau, htaus, rfl⟩ := List.forall₂_cons_left_iff.mp h
      obtain ⟨valid, sigma, hvalid, hlen, hsigma, rfl⟩ := htau
      refine ⟨valid, hvalid, ?_⟩
      rw [if_neg (by omega)]
      exact bind_eq_ok.mpr ⟨sigma, hsigma, bind_eq_ok.mpr ⟨some taus, ih.mpr htaus, rfl⟩⟩

theorem deriveTaus_eq_some {config : ElectionConfig} {aggregate : AggregateArtifact}
    {points : List (G₂ × G₂)} {taus : List G₂} {used : List Int}
    (hpts : aggregate.aggregates.mapM (fun ct => decodeCiphertext S (ct.c1, ct.c2)) = .ok points)
    (h : deriveTaus S config aggregate shares committeePks quorum = .ok (some (taus, used))) :
    ∃ steps : List (G₂ × List Int), taus = steps.map Prod.fst ∧
      List.Forall₂ (IsTau S config.electionId committeePks shares quorum) points.zipIdx steps := by
  rw [deriveTaus] at h
  obtain ⟨derived, hderived, h⟩ := bind_eq_ok.mp h
  rw [pure_eq_ok, Except.ok.injEq, Option.map_eq_some_iff] at h
  obtain ⟨steps, rfl, h⟩ := h
  cases h
  exact ⟨steps, rfl, (deriveTausFrom_eq_some hpts).mp hderived⟩

end
end ElGamalVoting
