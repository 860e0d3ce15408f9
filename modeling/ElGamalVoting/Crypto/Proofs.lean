import ElGamalVoting.Crypto.Elgamal
import ElGamalVoting.Crypto.Transcript

/- Fiat-Shamir sigma proofs over the shared transcript (`crypto/proofs.py`): the
   DLEQ proof over two G2 bases, the (B+1)-branch OR proof, the exact budget
   proof, and the decryption-share proof.

   A Python transcript is mutated in place; here every function returns it next
   to its value. The randomness of the provers is an argument (the source takes
   it as a keyword for its fixtures). The `atMost` budget proof is left out: no
   ballot is ever verified against it.

   The results: the verifiers never raise (`verifyDleq_returns`,
   `verifyOr_returns`, `verifyBudgetExact_returns`), and the verifier accepts
   what the prover of a true DLEQ statement returns (`verifyDleq_proveDleq`,
   `verifyDecryptionShare_prove`). -/
namespace ElGamalVoting
open Lib

/-- Freshly seeded decryption-share transcript. -/
def makeDecryptTranscript (electionId : Bytes) (candidateIndex : Int) : Py Transcript :=
  if electionId.length ≠ 32 then
    .error (.valueError s!"election_id must be 32 bytes (got {electionId.length})")
  else if ¬ (0 ≤ candidateIndex ∧ candidateIndex < 2 ^ 16) then
    .error (.valueError s!"candidate_index {candidateIndex} out of u16 range")
  else do
    let t := Transcript.new onchainDecryptLabel
    let t ← t.append "electionId" electionId
    t.append "candidate" (← u16be candidateIndex)

/-! DLEQ wire codec: 64 bytes, `e || z`. -/

def encodeDleq (e z : Int) : Bytes := scalarToBytes e ++ scalarToBytes z

def decodeDleq (b : Bytes) : Py (Int × Int) :=
  if b.length ≠ dleqBytes then
    .error (.valueError s!"Expected {dleqBytes}-byte DLEQ, got {b.length}")
  else do
    let e ← scalarFromBytes (b.take 32) "dleq e"
    let z ← scalarFromBytes (b.drop 32) "dleq z"
    pure (e, z)

section Dleq
variable {G₁ G₂ : Type} [AddCommGroup G₁] [AddCommGroup G₂] (S : Suite G₁ G₂)

def bindStatementDleq (t : Transcript) (base1 point1 base2 point2 : G₂) : Py Transcript := do
  let t ← t.appendPoint S "dleq:base1" base1
  let t ← t.appendPoint S "dleq:base2" base2
  let t ← t.appendPoint S "dleq:point1" point1
  t.appendPoint S "dleq:point2" point2

/-- The part prover and verifier share: statement, commitments, challenge. -/
def dleqChallenge (t : Transcript) (base1 point1 base2 point2 a1 a2 : G₂) :
    Py (Int × Transcript) := do
  let t ← bindStatementDleq S t base1 point1 base2 point2
  let t ← t.appendPoint S "dleq:a1" a1
  let t ← t.appendPoint S "dleq:a2" a2
  t.challenge S "dleq:e"

/-- Proof that the logarithms of `point1` and `point2` are both `x`. -/
def proveDleq (base1 point1 base2 point2 : G₂) (x w : Int) (t : Transcript) :
    Py ((Int × Int) × Transcript) := do
  let (e, t) ← dleqChallenge S t base1 point1 base2 point2 (mul base1 w) (mul base2 w)
  pure ((e, (w + x * e) % curveOrder), t)

def verifyDleq (base1 point1 base2 point2 : G₂) (e z : Int) (t : Transcript) :
    Py (Bool × Transcript) := do
  let a1 := mul base1 z + mul point1 (-e % curveOrder)
  let a2 := mul base2 z + mul point2 (-e % curveOrder)
  let (e', t) ← dleqChallenge S t base1 point1 base2 point2 a1 a2
  pure (e == e', t)

def bindDecryptionShare (t : Transcript) (C1 C2 mpkK : G₂) (keyperIndex : Int) :
    Py Transcript := do
  let t ← t.appendPoint S "dec:C1" C1
  let t ← t.appendPoint S "dec:C2" C2
  let t ← t.appendPoint S "dec:mpk_k" mpkK
  t.append "dec:keyperIndex" (← u16be keyperIndex)

/-- DLEQ that `mpkK = mskK * P2` and `sigma = mskK * C1`. -/
def proveDecryptionShare (t : Transcript) (C1 C2 mpkK sigma : G₂) (mskK keyperIndex w : Int) :
    Py ((Int × Int) × Transcript) := do
  let t ← bindDecryptionShare S t C1 C2 mpkK keyperIndex
  proveDleq S S.g2.gen mpkK C1 sigma mskK w t

def verifyDecryptionShare (t : Transcript) (C1 C2 mpkK sigma : G₂) (e z keyperIndex : Int) :
    Py (Bool × Transcript) := do
  let t ← bindDecryptionShare S t C1 C2 mpkK keyperIndex
  verifyDleq S S.g2.gen mpkK C1 sigma e z t

end Dleq

/-! (B+1)-branch OR proof. -/

structure ORBranch (G₂ : Type) where
  a1 : G₂
  a2 : G₂
  e : Int
  z : Int

section Or
variable {G₁ G₂ : Type} [AddCommGroup G₁] [AddCommGroup G₂] [DecidableEq G₂] (S : Suite G₁ G₂)

def bindStatementOr (t : Transcript) (c1 c2 mpk : G₂) (candidates : List Int) :
    Py Transcript := do
  let t ← t.appendPoint S "or:P2" S.g2.gen
  let t ← t.appendPoint S "or:mpk" mpk
  let t ← t.appendPoint S "or:C1" c1
  let t ← t.appendPoint S "or:C2" c2
  let t ← t.append "or:|M|" (← toBytes candidates.length 4)
  candidates.zipIdx.foldlM (fun t mi => t.appendScalar (indexedTag "or:m" mi.2) (mi.1 % curveOrder)) t

/-- The loop that appends the branches' commitments. -/
def appendBranches (t : Transcript) (branches : List (ORBranch G₂)) : Py Transcript :=
  branches.zipIdx.foldlM (fun t bi => do
    let t ← t.appendPoint S (indexedTag "or:a1" bi.2) bi.1.a1
    t.appendPoint S (indexedTag "or:a2" bi.2) bi.1.a2) t

/-- `c2` with the candidate's own value taken out. -/
def orResidual (c2 : G₂) (m : Int) : G₂ :=
  c2 + mul S.g2.gen (-(m % curveOrder) % curveOrder)

/-- The branch a prover starts from: the real one commits to its randomness, a
    simulated one to what its chosen `(e, z)` forces. -/
def proverBranch (c1 c2 mpk : G₂) (trueIndex : Nat) (w : Int) (i : Nat) (m : Int)
    (sim : Int × Int) : ORBranch G₂ :=
  if i = trueIndex then ⟨mul S.g2.gen w, mul mpk w, 0, 0⟩
  else
    let ei := sim.1 % curveOrder
    let zi := sim.2 % curveOrder
    let Di := orResidual S c2 m
    ⟨mul S.g2.gen zi + mul c1 (-ei % curveOrder), mul mpk zi + mul Di (-ei % curveOrder), ei, zi⟩

/-- OR proof that `(c1, c2)` encrypts `candidates[trueIndex]`. -/
def proveOr (c1 c2 mpk : G₂) (candidates : List Int) (r : Int) (trueIndex : Nat) (w : Int)
    (simulated : List (Int × Int)) (t : Transcript) : Py (List (ORBranch G₂) × Transcript) :=
  let n := candidates.length
  if n = 0 then .error (.valueError "prove_or: candidate set is empty")
  else if ¬ trueIndex < n then
    .error (.valueError s!"prove_or: true_index {trueIndex} out of [0, {n})")
  else if simulated.length ≠ n then
    .error (.valueError s!"prove_or: simulated length {simulated.length} != candidates {n}")
  else do
    let branches := (candidates.zip simulated).zipIdx.map fun ms =>
      proverBranch S c1 c2 mpk trueIndex w ms.2 ms.1.1 ms.1.2
    let t ← bindStatementOr S t c1 c2 mpk candidates
    let t ← appendBranches S t branches
    let (eTotal, t) ← t.challenge S "or:e"
    -- the real branch still carries 0 here, so the sum is over the simulated ones
    let simSum := (branches.map ORBranch.e).sum
    let eReal := (eTotal - simSum) % curveOrder
    let zReal := (w + r * eReal) % curveOrder
    pure (branches.modify trueIndex (fun br => { br with e := eReal, z := zReal }), t)

/-- The two equations of one branch. -/
def branchHolds (c1 c2 mpk : G₂) (m : Int) (br : ORBranch G₂) : Bool :=
  mul S.g2.gen br.z = br.a1 + mul c1 br.e ∧ mul mpk br.z = br.a2 + mul (orResidual S c2 m) br.e

def verifyOr (c1 c2 mpk : G₂) (candidates : List Int) (branches : List (ORBranch G₂))
    (t : Transcript) : Py (Bool × Transcript) :=
  if branches.length ≠ candidates.length then pure (false, t)
  else if (candidates.zip branches).all fun mb => branchHolds S c1 c2 mpk mb.1 mb.2 then do
    let t ← bindStatementOr S t c1 c2 mpk candidates
    let t ← appendBranches S t branches
    let (e, t) ← t.challenge S "or:e"
    pure ((branches.map ORBranch.e).sum % curveOrder == e, t)
  else pure (false, t)

end Or

/-! Exact budget proof. -/

section Budget
variable {G₁ G₂ : Type} [AddCommGroup G₁] [AddCommGroup G₂] (S : Suite G₁ G₂)

def bindBudget (t : Transcript) (B : Int) : Py Transcript := do
  let t ← t.append "budget:mode" [0x00]
  t.appendScalar "budget:B" (B % curveOrder)

/-- `c2Sum` with the budget taken out: `rSum * mpk` when the sum encrypts `B`. -/
def budgetResidual (c2Sum : G₂) (B : Int) : G₂ :=
  c2Sum + mul S.g2.gen (-(B % curveOrder) % curveOrder)

def proveBudgetExact (c1Sum c2Sum mpk : G₂) (B rSum w : Int) (t : Transcript) :
    Py ((Int × Int) × Transcript) := do
  let t ← bindBudget t B
  proveDleq S S.g2.gen c1Sum mpk (budgetResidual S c2Sum B) rSum w t

def verifyBudgetExact (c1Sum c2Sum mpk : G₂) (B e z : Int) (t : Transcript) :
    Py (Bool × Transcript) := do
  let t ← bindBudget t B
  verifyDleq S S.g2.gen c1Sum mpk (budgetResidual S c2Sum B) e z t

end Budget

/-! ## The verifiers return -/

theorem makeDecryptTranscript_returns {electionId : Bytes} {j : Int} (he : electionId.length = 32)
    (h0 : 0 ≤ j) (hj : j < 2 ^ 16) : Returns (makeDecryptTranscript electionId j) := by
  have hu : u16be j = .ok (beBytes 2 j.toNat) := toBytes_ok h0 (by omega)
  rw [makeDecryptTranscript, if_neg (not_not.mpr he), if_neg (not_not.mpr ⟨h0, hj⟩)]
  refine (append_returns _ (by decide) (by omega)).bind fun t _ => ?_
  rw [hu, ok_bind]
  exact append_returns _ (by decide) (by rw [length_beBytes]; decide)

/-- A decryption transcript is only ever seeded for a 32-byte id and a u16 index. -/
theorem of_makeDecryptTranscript {electionId : Bytes} {j : Int} {t : Transcript}
    (h : makeDecryptTranscript electionId j = .ok t) :
    electionId.length = 32 ∧ 0 ≤ j ∧ j < 2 ^ 16 := by
  rw [makeDecryptTranscript] at h
  by_cases he : electionId.length = 32
  · by_cases hj : 0 ≤ j ∧ j < 2 ^ 16
    · exact ⟨he, hj⟩
    · rw [if_neg (not_not.mpr he), if_pos hj] at h
      cases h
  · rw [if_pos he] at h
    cases h

section
variable {G₁ G₂ : Type} [AddCommGroup G₁] [AddCommGroup G₂] (S : Suite G₁ G₂)

theorem dleqChallenge_returns (t : Transcript) (base1 point1 base2 point2 a1 a2 : G₂) :
    Returns (dleqChallenge S t base1 point1 base2 point2 a1 a2) := by
  have hbind : Returns (bindStatementDleq S t base1 point1 base2 point2) :=
    (appendPoint_returns S t _ (by decide)).bind fun t1 _ =>
    (appendPoint_returns S t1 _ (by decide)).bind fun t2 _ =>
    (appendPoint_returns S t2 _ (by decide)).bind fun t3 _ =>
    appendPoint_returns S t3 _ (by decide)
  exact hbind.bind fun t1 _ =>
    (appendPoint_returns S t1 _ (by decide)).bind fun t2 _ =>
    (appendPoint_returns S t2 _ (by decide)).bind fun t3 _ =>
    challenge_returns S t3 (by decide)

theorem proveDleq_returns (base1 point1 base2 point2 : G₂) (x w : Int) (t : Transcript) :
    Returns (proveDleq S base1 point1 base2 point2 x w t) :=
  (dleqChallenge_returns S t _ _ _ _ _ _).bind fun _ _ => .ok _

theorem verifyDleq_returns (base1 point1 base2 point2 : G₂) (e z : Int) (t : Transcript) :
    Returns (verifyDleq S base1 point1 base2 point2 e z t) :=
  (dleqChallenge_returns S t _ _ _ _ _ _).bind fun _ _ => .ok _

theorem bindDecryptionShare_returns (t : Transcript) (C1 C2 mpkK : G₂) {keyperIndex : Int}
    (h0 : 0 ≤ keyperIndex) (h : keyperIndex < 2 ^ 16) :
    Returns (bindDecryptionShare S t C1 C2 mpkK keyperIndex) := by
  have hu : u16be keyperIndex = .ok (beBytes 2 keyperIndex.toNat) := toBytes_ok h0 (by omega)
  exact (appendPoint_returns S t _ (by decide)).bind fun t1 _ =>
    (appendPoint_returns S t1 _ (by decide)).bind fun t2 _ =>
    (appendPoint_returns S t2 _ (by decide)).bind fun t3 _ => by
      rw [hu, ok_bind]
      exact append_returns _ (by decide) (by rw [length_beBytes]; decide)

theorem verifyDecryptionShare_returns (t : Transcript) (C1 C2 mpkK sigma : G₂) (e z : Int)
    {keyperIndex : Int} (h0 : 0 ≤ keyperIndex) (h : keyperIndex < 2 ^ 16) :
    Returns (verifyDecryptionShare S t C1 C2 mpkK sigma e z keyperIndex) :=
  (bindDecryptionShare_returns S t C1 C2 mpkK h0 h).bind fun _ _ => verifyDleq_returns S _ _ _ _ _ _ _

theorem verifyBudgetExact_returns (c1Sum c2Sum mpk : G₂) (B e z : Int) (t : Transcript) :
    Returns (verifyBudgetExact S c1Sum c2Sum mpk B e z t) := by
  have hbind : Returns (bindBudget t B) :=
    (append_returns t (by decide) (by decide)).bind fun t1 _ =>
    appendScalar_returns t1 _ (by decide)
  exact hbind.bind fun _ _ => verifyDleq_returns S _ _ _ _ _ _ _

theorem bindStatementOr_returns (t : Transcript) (c1 c2 mpk : G₂) {candidates : List Int}
    (hc : candidates.length < 2 ^ 32) : Returns (bindStatementOr S t c1 c2 mpk candidates) := by
  have hlen : toBytes candidates.length 4 = .ok (beBytes 4 candidates.length) :=
    toBytes_ok (by omega) (by omega)
  refine (appendPoint_returns S t _ (by decide)).bind fun t1 _ =>
    (appendPoint_returns S t1 _ (by decide)).bind fun t2 _ =>
    (appendPoint_returns S t2 _ (by decide)).bind fun t3 _ =>
    (appendPoint_returns S t3 _ (by decide)).bind fun t4 _ => ?_
  rw [hlen, ok_bind]
  refine (append_returns t4 (by decide) (by rw [length_beBytes]; decide)).bind fun t5 _ => ?_
  refine foldlM_returns (fun t mi hmi => ?_) t5
  have hi := (List.mem_zipIdx hmi).2.1
  exact appendScalar_returns t _ (length_indexedTag (by decide) (by omega))

theorem appendBranches_returns (t : Transcript) {branches : List (ORBranch G₂)}
    (hb : branches.length < 2 ^ 32) : Returns (appendBranches S t branches) := by
  refine foldlM_returns (fun t bi hbi => ?_) t
  have hi := (List.mem_zipIdx hbi).2.1
  have htag (name : String) (hn : (utf8 name).length ≤ 16) :
      (utf8 (indexedTag name bi.2)).length < 2 ^ 32 := length_indexedTag hn (by omega)
  exact (appendPoint_returns S t _ (htag _ (by decide))).bind fun t1 _ =>
    appendPoint_returns S t1 _ (htag _ (by decide))

theorem verifyOr_returns [DecidableEq G₂] (c1 c2 mpk : G₂) {candidates : List Int}
    (branches : List (ORBranch G₂)) (t : Transcript) (hc : candidates.length < 2 ^ 32) :
    Returns (verifyOr S c1 c2 mpk candidates branches t) := by
  rw [verifyOr]
  split
  · exact .ok _
  · split
    · exact (bindStatementOr_returns S t c1 c2 mpk hc).bind fun t1 _ =>
        (appendBranches_returns S t1 (by omega)).bind fun t2 _ =>
        (challenge_returns S t2 (by decide)).bind fun _ _ => .ok _
    · exact .ok _

/-! ## Completeness of the DLEQ proof -/

theorem wideReduce_bounds (b : Bytes) : 0 ≤ wideReduce b ∧ wideReduce b < curveOrder := by
  have : beNat b % curveOrder < curveOrder := Nat.mod_lt _ (by decide)
  rw [wideReduce]
  omega

theorem challenge_bounds {t t' : Transcript} {tag : String} {e : Int}
    (h : t.challenge S tag = .ok (e, t')) : 0 ≤ e ∧ e < curveOrder := by
  obtain ⟨_, _, h⟩ := bind_eq_ok.mp h
  obtain ⟨_, _, h⟩ := bind_eq_ok.mp h
  cases h
  exact wideReduce_bounds _

include S in
/-- The commitment the verifier recomputes from an honest response is the
    prover's own. -/
theorem recomputed_commitment (base point : G₂) (x w e : Int) (h : point = x • base) :
    mul base ((w + x * e) % curveOrder) + mul point (-e % curveOrder) = mul base w := by
  apply S.g2.log_injective
  subst h
  simp only [PointGroup.log_add, PointGroup.log_mul, PointGroup.log_zsmul, PointGroup.cast_emod]
  push_cast
  ring

theorem verifyDleq_proveDleq {base1 point1 base2 point2 : G₂} {x w e z : Int} {t t' : Transcript}
    (h1 : point1 = x • base1) (h2 : point2 = x • base2)
    (h : proveDleq S base1 point1 base2 point2 x w t = .ok ((e, z), t')) :
    verifyDleq S base1 point1 base2 point2 e z t = .ok (true, t') := by
  obtain ⟨⟨e', t''⟩, hchal, h⟩ := bind_eq_ok.mp h
  simp only [pure_eq_ok, Except.ok.injEq, Prod.mk.injEq] at h
  obtain ⟨⟨rfl, rfl⟩, rfl⟩ := h
  simp only [verifyDleq, recomputed_commitment S base1 point1 x w _ h1,
    recomputed_commitment S base2 point2 x w _ h2, hchal, ok_bind, pure_eq_ok, beq_self_eq_true]

theorem proveDleq_bounds {base1 point1 base2 point2 : G₂} {x w e z : Int} {t t' : Transcript}
    (h : proveDleq S base1 point1 base2 point2 x w t = .ok ((e, z), t')) :
    (0 ≤ e ∧ e < curveOrder) ∧ (0 ≤ z ∧ z < curveOrder) := by
  obtain ⟨⟨e', t''⟩, hchal, h⟩ := bind_eq_ok.mp h
  simp only [pure_eq_ok, Except.ok.injEq, Prod.mk.injEq] at h
  obtain ⟨⟨rfl, rfl⟩, rfl⟩ := h
  refine ⟨?_, emod_curveOrder_bounds (w + x * e')⟩
  rw [dleqChallenge] at hchal
  obtain ⟨_, _, hchal⟩ := bind_eq_ok.mp hchal
  obtain ⟨_, _, hchal⟩ := bind_eq_ok.mp hchal
  obtain ⟨_, _, hchal⟩ := bind_eq_ok.mp hchal
  exact challenge_bounds S hchal

/-- The verifier accepts the share proof of a keyper whose key is `mskK * P2`. -/
theorem verifyDecryptionShare_prove {C1 C2 mpkK sigma : G₂} {mskK idx w e z : Int}
    {t t' : Transcript} (hmpk : mpkK = mskK • S.g2.gen) (hsigma : sigma = mskK • C1)
    (h : proveDecryptionShare S t C1 C2 mpkK sigma mskK idx w = .ok ((e, z), t')) :
    verifyDecryptionShare S t C1 C2 mpkK sigma e z idx = .ok (true, t') := by
  rw [proveDecryptionShare] at h
  obtain ⟨t1, ht1, h⟩ := bind_eq_ok.mp h
  rw [verifyDecryptionShare]
  exact bind_eq_ok.mpr ⟨t1, ht1, verifyDleq_proveDleq S hmpk hsigma h⟩

end

theorem length_encodeDleq (e z : Int) : (encodeDleq e z).length = 64 := by
  simp [encodeDleq]

theorem decodeDleq_encodeDleq {e z : Int} (he : 0 ≤ e ∧ e < curveOrder)
    (hz : 0 ≤ z ∧ z < curveOrder) : decodeDleq (encodeDleq e z) = .ok (e, z) := by
  have hlen : (encodeDleq e z).length = dleqBytes := length_encodeDleq e z
  have htake : (encodeDleq e z).take 32 = scalarToBytes e := by
    rw [encodeDleq, List.take_append_of_le_length (by simp), List.take_of_length_le (by simp)]
  have hdrop : (encodeDleq e z).drop 32 = scalarToBytes z := by
    rw [encodeDleq, List.drop_left' (by simp)]
  rw [decodeDleq, if_neg (not_not.mpr hlen), htake, hdrop,
    scalarFromBytes_scalarToBytes, scalarFromBytes_scalarToBytes, Int.emod_eq_of_lt he.1 he.2,
    Int.emod_eq_of_lt hz.1 hz.2]
  rfl

end ElGamalVoting
