import ElGamalVoting.Core.Config
import ElGamalVoting.Crypto.BallotReturns

/- Completeness of the ballot: what `build_ballot` returns, `verify_ballot_crypto`
   accepts (`crypto/ballot.py`).

   Prover and verifier drive one transcript. Each step of the prover is matched by
   the verifier's step on its output: it accepts and leaves the same transcript, so
   the steps compose over the candidates and the budget. Between them stands the
   byte codec of the proof, which the decoder undoes on canonical scalars
   (`decodeBallotValidityProof_encode`), and the voter's signature. -/
namespace ElGamalVoting
open Lib

section Or
variable {G₁ G₂ : Type} [AddCommGroup G₁] [AddCommGroup G₂] [DecidableEq G₂] (S : Suite G₁ G₂)

/-! ## The OR proof -/

/-- A simulated branch satisfies its equations, whatever the ciphertext. -/
theorem simulated_branch_holds (c1 c2 mpk : G₂) {trueIndex i : Nat} (w m : Int) (sim : Int × Int)
    (hi : i ≠ trueIndex) :
    branchHolds S c1 c2 mpk m (proverBranch S c1 c2 mpk trueIndex w i m sim) = true := by
  rw [proverBranch, if_neg hi, branchHolds, decide_eq_true_eq]
  constructor
  · apply S.g2.log_injective
    simp only [PointGroup.log_add, PointGroup.log_mul, PointGroup.cast_emod]
    push_cast
    ring
  · apply S.g2.log_injective
    simp only [PointGroup.log_add, PointGroup.log_mul, PointGroup.cast_emod]
    push_cast
    ring

/-- The real branch answers any challenge. -/
theorem real_branch_holds (mpk : G₂) (m r w e : Int) :
    branchHolds S (encrypt S.g2 mpk m r).1 (encrypt S.g2 mpk m r).2 mpk m
      ⟨mul S.g2.gen w, mul mpk w, e, (w + r * e) % curveOrder⟩ = true := by
  rw [branchHolds, decide_eq_true_eq]
  constructor
  · apply S.g2.log_injective
    simp only [encrypt, PointGroup.log_add, PointGroup.log_mul, PointGroup.cast_emod]
    push_cast
    ring
  · apply S.g2.log_injective
    simp only [encrypt, orResidual, PointGroup.log_add, PointGroup.log_mul, PointGroup.log_gen,
      PointGroup.cast_emod]
    push_cast
    ring

omit [DecidableEq G₂] in
/-- The transcript sees the commitments of the branches and nothing else. -/
theorem appendBranches_congr {branches branches' : List (ORBranch G₂)} (t : Transcript)
    (h : (branches.map fun br => (br.a1, br.a2)) = branches'.map fun br => (br.a1, br.a2)) :
    appendBranches S t branches = appendBranches S t branches' := by
  have hloop : ∀ (n : Nat) (t : Transcript),
      (branches.zipIdx n).foldlM (fun (t : Transcript) bi => do
        let t ← t.appendPoint S (indexedTag "or:a1" bi.2) bi.1.a1
        t.appendPoint S (indexedTag "or:a2" bi.2) bi.1.a2) t =
      (branches'.zipIdx n).foldlM (fun (t : Transcript) bi => do
        let t ← t.appendPoint S (indexedTag "or:a1" bi.2) bi.1.a1
        t.appendPoint S (indexedTag "or:a2" bi.2) bi.1.a2) t := by
    induction branches generalizing branches' with
    | nil =>
      intro n t
      rw [List.map_eq_nil_iff.mp h.symm]
    | cons br branches ih =>
      intro n t
      obtain ⟨br', rest, rfl, hhead, hrest⟩ := List.map_eq_cons_iff.mp h.symm
      rw [Prod.mk.injEq] at hhead
      rw [List.zipIdx_cons, List.zipIdx_cons, List.foldlM_cons, List.foldlM_cons]
      dsimp only
      rw [hhead.1, hhead.2]
      exact bind_congr fun t => ih hrest.symm (n + 1) t
  exact hloop 0 t

omit [AddCommGroup G₂] [DecidableEq G₂] in
/-- Setting the challenge of a branch that had none adds it to the sum. -/
theorem sum_modify_e {branches : List (ORBranch G₂)} {i : Nat} {br : ORBranch G₂} (e z : Int)
    (hbr : branches[i]? = some br) (hzero : br.e = 0) :
    ((branches.modify i fun b => { b with e := e, z := z }).map ORBranch.e).sum =
      (branches.map ORBranch.e).sum + e := by
  induction branches generalizing i with
  | nil => cases hbr
  | cons b branches ih =>
    cases i with
    | zero =>
      cases hbr
      rw [List.modify_zero_cons, List.map_cons, List.map_cons, List.sum_cons, List.sum_cons, hzero,
        zero_add, add_comm]
    | succ i =>
      rw [List.modify_succ_cons, List.map_cons, List.map_cons, List.sum_cons, List.sum_cons,
        ih (by simpa using hbr)]
      omega

omit [AddCommGroup G₂] [DecidableEq G₂] in
theorem modify_commitments (branches : List (ORBranch G₂)) (i : Nat) (e z : Int) :
    ((branches.modify i fun b => { b with e := e, z := z }).map fun br => (br.a1, br.a2)) =
      branches.map fun br => (br.a1, br.a2) := by
  induction branches generalizing i with
  | nil => rw [List.modify_nil]
  | cons b branches ih =>
    cases i with
    | zero => rfl
    | succ i => rw [List.modify_succ_cons, List.map_cons, List.map_cons, ih]

/-- A scalar as the codec keeps it. -/
def Canonical (s : Int) : Prop := 0 ≤ s ∧ s < curveOrder

/-- What a range proof that was proved looks like: its length, and canonical scalars. -/
structure ProvedBranches (n : Nat) (branches : List (ORBranch G₂)) : Prop where
  length : branches.length = n
  canonical : ∀ br ∈ branches, Canonical br.e ∧ Canonical br.z

/-- The branch at an index of a finished proof. -/
def finalBranch (c1 c2 mpk : G₂) (r : Int) (trueIndex : Nat) (w eReal : Int) (i : Nat) (m : Int)
    (sim : Int × Int) : ORBranch G₂ :=
  if i = trueIndex then ⟨mul S.g2.gen w, mul mpk w, eReal, (w + r * eReal) % curveOrder⟩
  else proverBranch S c1 c2 mpk trueIndex w i m sim

/-- The branches a prover starts from. -/
def proverBranches (c1 c2 mpk : G₂) (candidates : List Int) (trueIndex : Nat) (w : Int)
    (simulated : List (Int × Int)) : List (ORBranch G₂) :=
  (candidates.zip simulated).zipIdx.map fun ms =>
    proverBranch S c1 c2 mpk trueIndex w ms.2 ms.1.1 ms.1.2

/-- The branches it ends with. -/
def finalBranches (c1 c2 mpk : G₂) (candidates : List Int) (r : Int) (trueIndex : Nat) (w : Int)
    (simulated : List (Int × Int)) (eReal : Int) : List (ORBranch G₂) :=
  (proverBranches S c1 c2 mpk candidates trueIndex w simulated).modify trueIndex fun br =>
    { br with e := eReal, z := (w + r * eReal) % curveOrder }

omit [DecidableEq G₂] in
theorem length_finalBranches {c1 c2 mpk : G₂} {candidates : List Int} {r : Int} {trueIndex : Nat} {w : Int}
    {simulated : List (Int × Int)} (eReal : Int) (hsim : simulated.length = candidates.length) :
    (finalBranches S c1 c2 mpk candidates r trueIndex w simulated eReal).length = candidates.length := by
  rw [finalBranches, List.length_modify, proverBranches, List.length_map, List.length_zipIdx,
    List.length_zip, hsim, Nat.min_self]

omit [DecidableEq G₂] in
/-- Where the branches of a proof come from. -/
theorem getElem?_zip_finalBranches {c1 c2 mpk : G₂} {candidates : List Int}
    {simulated : List (Int × Int)} {trueIndex : Nat} {r w eReal : Int} {i : Nat} {m : Int}
    {br : ORBranch G₂}
    (h : (candidates.zip (finalBranches S c1 c2 mpk candidates r trueIndex w simulated eReal))[i]? =
      some (m, br)) :
    candidates[i]? = some m ∧ ∃ sim, br = finalBranch S c1 c2 mpk r trueIndex w eReal i m sim := by
  rw [List.getElem?_zip_eq_some] at h
  obtain ⟨hm, hbr⟩ := h
  refine ⟨hm, ?_⟩
  rw [finalBranches, proverBranches, List.getElem?_modify, List.getElem?_map,
    List.getElem?_zipIdx] at hbr
  obtain ⟨b, hb, rfl⟩ := Option.map_eq_some_iff.mp hbr
  obtain ⟨ms, hms, rfl⟩ := Option.map_eq_some_iff.mp hb
  obtain ⟨ms', hms', rfl⟩ := Option.map_eq_some_iff.mp hms
  rw [List.getElem?_zip_eq_some] at hms'
  obtain ⟨hm', -⟩ := hms'
  obtain rfl := Option.some.inj (hm.symm.trans hm')
  refine ⟨ms'.2, ?_⟩
  by_cases hi : trueIndex = i
  · subst hi
    simp [finalBranch, proverBranch]
  · simp [finalBranch, hi, Ne.symm hi]

/-- Every branch of a finished proof satisfies its equations and has canonical scalars. -/
theorem finalBranch_ok {mpk : G₂} {m' : Int} {r w eReal : Int} {trueIndex i : Nat} {m : Int}
    {sim : Int × Int} (htrue : i = trueIndex → m = m') (he : Canonical eReal) :
    branchHolds S (encrypt S.g2 mpk m' r).1 (encrypt S.g2 mpk m' r).2 mpk m
      (finalBranch S (encrypt S.g2 mpk m' r).1 (encrypt S.g2 mpk m' r).2 mpk r trueIndex w eReal i m sim)
        = true ∧
    Canonical (finalBranch S (encrypt S.g2 mpk m' r).1 (encrypt S.g2 mpk m' r).2 mpk r trueIndex w eReal i
      m sim).e ∧
    Canonical (finalBranch S (encrypt S.g2 mpk m' r).1 (encrypt S.g2 mpk m' r).2 mpk r trueIndex w eReal i
      m sim).z := by
  by_cases hi : i = trueIndex
  · rw [finalBranch, if_pos hi, htrue hi]
    exact ⟨real_branch_holds S mpk m' r w eReal, he, emod_curveOrder_bounds _⟩
  · rw [finalBranch, if_neg hi]
    refine ⟨simulated_branch_holds S _ _ mpk w m sim hi, ?_⟩
    rw [proverBranch, if_neg hi]
    exact ⟨emod_curveOrder_bounds _, emod_curveOrder_bounds _⟩

omit [DecidableEq G₂] in
theorem proveOr_eq (c1 c2 mpk : G₂) {candidates : List Int} (r : Int) {trueIndex : Nat} (w : Int)
    {simulated : List (Int × Int)} (t : Transcript) (htrue : trueIndex < candidates.length)
    (hsim : simulated.length = candidates.length) :
    proveOr S c1 c2 mpk candidates r trueIndex w simulated t = (do
      let t ← bindStatementOr S t c1 c2 mpk candidates
      let t ← appendBranches S t (proverBranches S c1 c2 mpk candidates trueIndex w simulated)
      let (eTotal, t) ← t.challenge S "or:e"
      pure (finalBranches S c1 c2 mpk candidates r trueIndex w simulated ((eTotal -
        ((proverBranches S c1 c2 mpk candidates trueIndex w simulated).map ORBranch.e).sum) % curveOrder),
        t)) := by
  rw [proveOr, if_neg (by omega), if_neg (not_not.mpr htrue), if_neg (not_not.mpr hsim)]
  rfl

omit [DecidableEq G₂] in
theorem proveOr_returns (c1 c2 mpk : G₂) {candidates : List Int} (r : Int) {trueIndex : Nat} (w : Int)
    {simulated : List (Int × Int)} (t : Transcript) (htrue : trueIndex < candidates.length)
    (hsim : simulated.length = candidates.length) (hc : candidates.length < 2 ^ 32) :
    Returns (proveOr S c1 c2 mpk candidates r trueIndex w simulated t) := by
  rw [proveOr_eq S c1 c2 mpk r w t htrue hsim]
  refine (bindStatementOr_returns S t c1 c2 mpk hc).bind fun t1 _ => ?_
  refine (appendBranches_returns S t1 ?_).bind fun t2 _ => ?_
  · simp only [proverBranches, List.length_map, List.length_zipIdx, List.length_zip]
    omega
  · exact (challenge_returns S t2 (by decide)).bind fun _ _ => .ok _

omit [DecidableEq G₂] in
/-- The branch that is filled in last starts without a challenge. -/
theorem getElem?_proverBranches {c1 c2 mpk : G₂} {candidates : List Int} {trueIndex : Nat} {w : Int}
    {simulated : List (Int × Int)} (htrue : trueIndex < candidates.length)
    (hsim : simulated.length = candidates.length) :
    (proverBranches S c1 c2 mpk candidates trueIndex w simulated)[trueIndex]? =
      some ⟨mul S.g2.gen w, mul mpk w, 0, 0⟩ := by
  have hzip : ∃ ms, (candidates.zip simulated)[trueIndex]? = some ms := by
    refine ⟨_, List.getElem?_eq_getElem ?_⟩
    rw [List.length_zip]
    omega
  obtain ⟨ms, hms⟩ := hzip
  rw [proverBranches, List.getElem?_map, List.getElem?_zipIdx, hms]
  simp [proverBranch]

/-- The equations of every branch hold, and its scalars are canonical. -/
theorem finalBranches_ok {mpk : G₂} {candidates : List Int} {m r : Int} {trueIndex : Nat} {w eReal : Int}
    {simulated : List (Int × Int)} (hm : candidates[trueIndex]? = some m)
    (hsim : simulated.length = candidates.length) (he : Canonical eReal) {branches : List (ORBranch G₂)}
    (hbranches : branches = finalBranches S (encrypt S.g2 mpk m r).1 (encrypt S.g2 mpk m r).2 mpk candidates
      r trueIndex w simulated eReal) :
    ((candidates.zip branches).all fun mb =>
      branchHolds S (encrypt S.g2 mpk m r).1 (encrypt S.g2 mpk m r).2 mpk mb.1 mb.2) = true ∧
    ProvedBranches candidates.length branches := by
  have hlen : branches.length = candidates.length := by
    rw [hbranches]
    exact length_finalBranches S eReal hsim
  have hbranch : ∀ (i : Nat) m' br, (candidates.zip branches)[i]? = some (m', br) →
      branchHolds S (encrypt S.g2 mpk m r).1 (encrypt S.g2 mpk m r).2 mpk m' br = true ∧
        Canonical br.e ∧ Canonical br.z := by
    intro i m' br hi
    rw [hbranches] at hi
    obtain ⟨hm', sim, rfl⟩ := getElem?_zip_finalBranches S hi
    refine finalBranch_ok S ?_ he
    intro heq
    rw [heq, hm] at hm'
    exact (Option.some.inj hm').symm
  refine ⟨?_, hlen, ?_⟩
  · rw [List.all_eq_true]
    intro mb hmb
    obtain ⟨i, hi⟩ := List.mem_iff_getElem?.mp hmb
    exact (hbranch i mb.1 mb.2 hi).1
  · intro br hbr
    obtain ⟨i, hi⟩ := List.mem_iff_getElem?.mp hbr
    have hlt : i < candidates.length := hlen ▸ (List.getElem?_eq_some_iff.mp hi).1
    exact (hbranch i candidates[i] br
      (List.getElem?_zip_eq_some.mpr ⟨List.getElem?_eq_getElem hlt, hi⟩)).2

/-- The verifier accepts the OR proof of a true statement, and ends with the prover's
    transcript. -/
theorem verifyOr_proveOr {mpk : G₂} {candidates : List Int} {m r : Int} {trueIndex : Nat} {w : Int}
    {simulated : List (Int × Int)} {t t' : Transcript} {branches : List (ORBranch G₂)}
    (hm : candidates[trueIndex]? = some m) (hsim : simulated.length = candidates.length)
    (h : proveOr S (encrypt S.g2 mpk m r).1 (encrypt S.g2 mpk m r).2 mpk candidates r trueIndex w simulated
      t = .ok (branches, t')) :
    verifyOr S (encrypt S.g2 mpk m r).1 (encrypt S.g2 mpk m r).2 mpk candidates branches t =
      .ok (true, t') ∧ ProvedBranches candidates.length branches := by
  have htrue : trueIndex < candidates.length := (List.getElem?_eq_some_iff.mp hm).1
  rw [proveOr_eq S _ _ mpk r w t htrue hsim] at h
  obtain ⟨t1, ht1, h⟩ := bind_eq_ok.mp h
  obtain ⟨t2, ht2, h⟩ := bind_eq_ok.mp h
  obtain ⟨⟨eTotal, t3⟩, ht3, h⟩ := bind_eq_ok.mp h
  simp only [pure_eq_ok, Except.ok.injEq, Prod.mk.injEq] at h
  obtain ⟨hbranches, rfl⟩ := h
  obtain ⟨hall, hproved⟩ := finalBranches_ok S hm hsim (emod_curveOrder_bounds _) hbranches.symm
  refine ⟨?_, hproved⟩
  have hcommit : appendBranches S t1 branches = .ok t2 := by
    rw [← ht2, ← hbranches, finalBranches]
    exact appendBranches_congr S t1 (modify_commitments _ _ _ _)
  -- the real branch's challenge is what the simulated ones leave of the total
  have hsum : (branches.map ORBranch.e).sum % curveOrder = eTotal := by
    obtain ⟨h0, hlt⟩ := challenge_bounds S ht3
    rw [← hbranches, finalBranches, sum_modify_e _ _ (getElem?_proverBranches S htrue hsim) rfl,
      Int.add_emod_emod, add_sub_cancel, Int.emod_eq_of_lt h0 hlt]
  rw [verifyOr, if_neg (not_not.mpr hproved.length), if_pos hall, ht1, ok_bind, hcommit, ok_bind,
    ht3, ok_bind]
  simp only [hsum, beq_self_eq_true, pure_eq_ok]

end Or

/-! ## The proof codec -/

section Codec
variable {G₁ G₂ : Type} [AddCommGroup G₁] [AddCommGroup G₂] (S : Suite G₁ G₂) {buf rest : Bytes} {o : Nat}

theorem slice_of_drop {x : Bytes} {w : Nat} (h : buf.drop o = x ++ rest) (hw : x.length = w) :
    slice buf o w = x := by
  rw [slice, h, ← hw, List.take_left]

theorem drop_of_drop {x : Bytes} {w : Nat} (h : buf.drop o = x ++ rest) (hw : x.length = w) :
    buf.drop (o + w) = rest := by
  rw [← List.drop_drop, h, ← hw, List.drop_left]

theorem toBytes_emod (s : Int) : toBytes (s % curveOrder) 32 = .ok (scalarToBytes s) := by
  have h := emod_curveOrder_bounds s
  have hlt := toNat_emod_lt s
  exact toBytes_ok h.1 (by omega)

/-- The bytes of one branch. -/
def branchBytes (br : ORBranch G₂) : Bytes :=
  S.g2.toCompressed br.a1 ++ (S.g2.toCompressed br.a2 ++ (scalarToBytes br.e ++ scalarToBytes br.z))

theorem encodeBranch_eq (br : ORBranch G₂) : encodeBranch S br = .ok (branchBytes S br) := by
  rw [encodeBranch, toBytes_emod, ok_bind, toBytes_emod, ok_bind, branchBytes]
  simp

theorem length_branchBytes (br : ORBranch G₂) : (branchBytes S br).length = 256 := by
  simp [branchBytes, S.g2.length_toCompressed, g2Bytes]

theorem scalarFromBytes_canonical {s : Int} (h : Canonical s) (field : String) :
    scalarFromBytes (scalarToBytes s) field = .ok s := by
  rw [scalarFromBytes_scalarToBytes, Int.emod_eq_of_lt h.1 h.2]

theorem decodeBranch_of {br : ORBranch G₂} (hbr : Canonical br.e ∧ Canonical br.z)
    (h : buf.drop o = branchBytes S br ++ rest) :
    decodeBranch S buf o = .ok (br, o + 256) ∧ buf.drop (o + 256) = rest := by
  have hrest := drop_of_drop h (length_branchBytes S br)
  rw [branchBytes, List.append_assoc] at h
  have h1 := slice_of_drop h (S.g2.length_toCompressed br.a1)
  have h := drop_of_drop h (S.g2.length_toCompressed br.a1)
  rw [List.append_assoc] at h
  have h2 := slice_of_drop h (S.g2.length_toCompressed br.a2)
  have h := drop_of_drop h (S.g2.length_toCompressed br.a2)
  rw [List.append_assoc] at h
  have h3 := slice_of_drop h (length_scalarToBytes br.e)
  have h := drop_of_drop h (length_scalarToBytes br.e)
  have h4 := slice_of_drop h (length_scalarToBytes br.z)
  refine ⟨?_, hrest⟩
  have ha1 : g2FromCompressed S.g2 (slice buf o 96) = .ok br.a1 := by
    rw [show slice buf o 96 = _ from h1]
    exact S.g2.decodePoint_toCompressed "G2" br.a1
  have ha2 : g2FromCompressed S.g2 (slice buf (o + 96) 96) = .ok br.a2 := by
    rw [show slice buf (o + 96) 96 = _ from h2]
    exact S.g2.decodePoint_toCompressed "G2" br.a2
  have he : scalarFromBytes (slice buf (o + 192) 32) "branch e" = .ok br.e := by
    rw [show slice buf (o + 192) 32 = _ from h3]
    exact scalarFromBytes_canonical hbr.1 _
  have hz : scalarFromBytes (slice buf (o + 224) 32) "branch z" = .ok br.z := by
    rw [show slice buf (o + 224) 32 = _ from h4]
    exact scalarFromBytes_canonical hbr.2 _
  rw [decodeBranch, ha1, ok_bind, ha2, ok_bind, he, ok_bind, hz, ok_bind]
  rfl

theorem decodeBranches_of {brs : List (ORBranch G₂)} (hbrs : ∀ br ∈ brs, Canonical br.e ∧ Canonical br.z)
    (h : buf.drop o = (brs.map (branchBytes S)).flatten ++ rest) :
    decodeBranches S buf brs.length o = .ok (brs, o + 256 * brs.length) ∧
      buf.drop (o + 256 * brs.length) = rest := by
  induction brs generalizing o with
  | nil => exact ⟨rfl, h⟩
  | cons br brs ih =>
    rw [List.map_cons, List.flatten_cons, List.append_assoc] at h
    obtain ⟨hhead, h⟩ := decodeBranch_of S (hbrs br List.mem_cons_self) h
    obtain ⟨htail, hrest⟩ := ih (fun b hb => hbrs b (List.mem_cons_of_mem br hb)) h
    have hoff : o + 256 + 256 * brs.length = o + 256 * (br :: brs).length := by
      rw [List.length_cons]
      omega
    rw [hoff] at htail hrest
    refine ⟨?_, hrest⟩
    rw [List.length_cons, decodeBranches, hhead, ok_bind]
    dsimp only
    rw [htail, ok_bind]
    rfl

theorem decodeRangeProofs_of {n : Nat} {proofs : List (List (ORBranch G₂))}
    (hproofs : ∀ p ∈ proofs, ProvedBranches n p)
    (h : buf.drop o = (proofs.map fun p => (p.map (branchBytes S)).flatten).flatten ++ rest) :
    ∃ o', decodeRangeProofs S buf (List.replicate proofs.length n) o = .ok (proofs, o') ∧
      o' = o + 256 * (proofs.length * n) ∧ buf.drop o' = rest := by
  induction proofs generalizing o with
  | nil => exact ⟨o, rfl, by simp, h⟩
  | cons p proofs ih =>
    rw [List.map_cons, List.flatten_cons, List.append_assoc] at h
    have hp := hproofs p List.mem_cons_self
    obtain ⟨hhead, h⟩ := decodeBranches_of S hp.canonical h
    rw [hp.length] at hhead h
    obtain ⟨o', htail, ho', hrest⟩ := ih (fun q hq => hproofs q (List.mem_cons_of_mem p hq)) h
    refine ⟨o', ?_, ?_, hrest⟩
    · rw [List.length_cons, List.replicate_succ, decodeRangeProofs, hhead, ok_bind]
      dsimp only
      rw [htail, ok_bind]
      rfl
    · rw [ho', List.length_cons, Nat.add_mul]
      omega

theorem decodeBranchCounts_of {expected count : Nat} (hexpected : expected < 256 ^ 2)
    (h : buf.drop o = (List.replicate count (beBytes 2 expected)).flatten ++ rest) :
    decodeBranchCounts buf expected count o = .ok (List.replicate count expected, o + 2 * count) ∧
      buf.drop (o + 2 * count) = rest := by
  induction count generalizing o with
  | zero => exact ⟨rfl, h⟩
  | succ count ih =>
    rw [List.replicate_succ, List.flatten_cons, List.append_assoc] at h
    have hslice := slice_of_drop h (length_beBytes 2 expected)
    obtain ⟨htail, hrest⟩ := ih (drop_of_drop h (length_beBytes 2 expected))
    have hoff : o + 2 + 2 * count = o + 2 * (count + 1) := by omega
    rw [hoff] at htail hrest
    refine ⟨?_, hrest⟩
    rw [decodeBranchCounts, hslice, beNat_beBytes 2 expected hexpected, if_neg (not_not.mpr rfl), htail,
      ok_bind]
    rfl

theorem decodeBudget_of {eB zB : Int} (he : Canonical eB) (hz : Canonical zB)
    (h : buf.drop o = budgetExactTag :: (scalarToBytes eB ++ scalarToBytes zB)) :
    decodeBudget buf o = .ok (eB, zB) := by
  have htag : buf[o]? = some budgetExactTag := by
    rw [← List.head?_drop, h]
    rfl
  have hlen : buf.length = o + 65 := by
    have := congrArg List.length h
    rw [List.length_drop, List.length_cons, List.length_append, length_scalarToBytes,
      length_scalarToBytes] at this
    omega
  have h' : buf.drop (o + 1) = scalarToBytes eB ++ scalarToBytes zB := by
    rw [← List.drop_drop, h]
    rfl
  have he' : scalarFromBytes (slice buf (o + 1) 32) "budget e" = .ok eB := by
    rw [slice_of_drop h' (length_scalarToBytes eB)]
    exact scalarFromBytes_canonical he _
  have hz' : scalarFromBytes (slice buf (o + 33) 32) "budget z" = .ok zB := by
    have h'' : buf.drop (o + 33) = scalarToBytes zB ++ [] := by
      rw [List.append_nil]
      show buf.drop (o + 1 + 32) = scalarToBytes zB
      exact drop_of_drop h' (length_scalarToBytes eB)
    rw [slice_of_drop h'' (length_scalarToBytes zB)]
    exact scalarFromBytes_canonical hz _
  rw [decodeBudget, htag]
  dsimp only
  rw [if_neg (not_not.mpr rfl), he', ok_bind, hz', ok_bind, if_neg (by omega)]
  rfl

/-- The bytes of a validity proof after its version and variant. -/
def validityBody (proofs : List (List (ORBranch G₂))) (budget : Nat) (eB zB : Int) : Bytes :=
  beBytes 2 proofs.length ++ ((List.replicate proofs.length (beBytes 2 (budget + 1))).flatten ++
    ((proofs.map fun p => (p.map (branchBytes S)).flatten).flatten ++
      budgetExactTag :: (scalarToBytes eB ++ scalarToBytes zB)))

def validityBytes (proofs : List (List (ORBranch G₂))) (budget : Nat) (eB zB : Int) : Bytes :=
  bvpVersion :: variantAByte :: validityBody S proofs budget eB zB

theorem encodeBallotValidityProof_eq {budget : Nat} {proofs : List (List (ORBranch G₂))} (eB zB : Int)
    (hproofs : ∀ p ∈ proofs, p.length = budget + 1) (hne : proofs ≠ []) (hn : proofs.length ≤ 0xFFFF)
    (hb : budget ≤ 0xFFFE) :
    encodeBallotValidityProof S proofs eB zB = .ok (validityBytes S proofs budget eB zB) := by
  cases proofs with
  | nil => exact absurd rfl hne
  | cons first others =>
    have hfirst := hproofs first List.mem_cons_self
    have hsame : ¬ ((first :: others).any fun p => p.length ≠ first.length) = true := by
      rw [List.any_eq_true]
      intro h
      obtain ⟨p, hp, hlen⟩ := h
      rw [decide_eq_true_eq] at hlen
      exact hlen ((hproofs p hp).trans hfirst.symm)
    have houter : toBytes (first :: others).length 2 = .ok (beBytes 2 (first :: others).length) :=
      toBytes_ok (by omega) (by omega)
    have hcount : toBytes first.length 2 = .ok (beBytes 2 (budget + 1)) := by
      rw [hfirst]
      exact toBytes_ok (by omega) (by omega)
    have hcounts : ((first :: others).mapM fun _ => toBytes first.length 2) =
        .ok ((first :: others).map fun _ => beBytes 2 (budget + 1)) :=
      mapM_ok_of fun _ _ => hcount
    have hbytes : ((first :: others).mapM fun p => p.mapM (encodeBranch S)) =
        .ok ((first :: others).map fun p => p.map (branchBytes S)) :=
      mapM_ok_of fun p _ => mapM_ok_of fun br _ => encodeBranch_eq S br
    rw [encodeBallotValidityProof, if_neg hsame, houter, ok_bind, hcounts, ok_bind, hbytes, ok_bind, toBytes_emod, ok_bind,
      toBytes_emod, ok_bind, pure_eq_ok, Except.ok.injEq, validityBytes, validityBody, List.map_const',
      List.flatten_flatten, List.map_map]
    simp [Function.comp_def]

/-- The decoder undoes the encoder on canonical scalars. -/
theorem decodeBallotValidityProof_validityBytes {budget : Nat} {proofs : List (List (ORBranch G₂))}
    {eB zB : Int} (hproofs : ∀ p ∈ proofs, ProvedBranches (budget + 1) p) (hn : proofs.length ≤ 0xFFFF)
    (hb : budget ≤ 0xFFFE) (he : Canonical eB) (hz : Canonical zB) :
    decodeBallotValidityProof S (validityBytes S proofs budget eB zB) proofs.length budget =
      .ok (proofs, eB, zB) := by
  have h2 : (validityBytes S proofs budget eB zB).drop 2 = validityBody S proofs budget eB zB := rfl
  rw [validityBody] at h2
  have hword := slice_of_drop h2 (length_beBytes 2 proofs.length)
  have h4 := drop_of_drop h2 (length_beBytes 2 proofs.length)
  obtain ⟨hcounts, h⟩ := decodeBranchCounts_of (by omega) h4
  obtain ⟨o, hranges, -, h⟩ := decodeRangeProofs_of S hproofs h
  have hbudget := decodeBudget_of he hz h
  -- the buffer is long enough for its header
  obtain ⟨x, y, hxy⟩ := List.length_eq_two.mp (length_beBytes 2 proofs.length)
  obtain ⟨tail, hbuf⟩ : ∃ tail, validityBytes S proofs budget eB zB =
      bvpVersion :: variantAByte :: x :: y :: tail := by
    rw [validityBytes, validityBody, hxy]
    exact ⟨_, rfl⟩
  rw [hbuf] at hword hcounts hranges hbudget ⊢
  rw [decodeBallotValidityProof, if_neg (not_not.mpr rfl), if_neg (not_not.mpr rfl)]
  dsimp only
  rw [hword, beNat_beBytes 2 _ (by omega), if_neg (not_not.mpr rfl), hcounts, ok_bind]
  dsimp only
  rw [hranges, ok_bind]
  dsimp only
  rw [hbudget, ok_bind]
  rfl

end Codec

/-! ## The ballot -/

section Schnorr
variable {G₁ G₂ : Type} [AddCommGroup G₁] [AddCommGroup G₂] [DecidableEq G₁] (S : Suite G₁ G₂)

/-- The signer's own key accepts its signature. -/
theorem Schnorr.verify_sign {sk : Int} {vk : G₁} (hkey : vk = mul S.g1.gen sk) (hvk : vk ≠ 0) (msg : Bytes)
    (k : Int) :
    Schnorr.verify S vk msg (Schnorr.sign S sk vk msg k).1 (Schnorr.sign S sk vk msg k).2 = true := by
  rw [Schnorr.verify, if_neg hvk, decide_eq_true_eq]
  dsimp only [Schnorr.sign]
  generalize Schnorr.challenge S _ vk msg = e
  apply S.g1.log_injective
  rw [hkey]
  simp only [PointGroup.log_add, PointGroup.log_mul, PointGroup.cast_emod]
  push_cast
  ring

omit [DecidableEq G₁] in
theorem Schnorr.decode_encode {R : G₁} {s : Int} (hs : Canonical s) :
    Schnorr.decode S (Schnorr.encode S R s) = .ok (R, s) := by
  have hR : (S.g1.toCompressed R).length = 48 := S.g1.length_toCompressed R
  have hlen : (Schnorr.encode S R s).length = schnorrBytes := by
    rw [Schnorr.encode, List.length_append, hR, length_scalarToBytes]
    rfl
  have htake : (Schnorr.encode S R s).take 48 = S.g1.toCompressed R := by
    rw [Schnorr.encode, List.take_left' hR]
  have hdrop : (Schnorr.encode S R s).drop 48 = scalarToBytes s := by
    rw [Schnorr.encode, List.drop_left' hR]
  rw [Schnorr.decode, if_neg (not_not.mpr hlen), htake, hdrop, scalarFromBytes_canonical hs]
  rw [g1FromCompressed, S.g1.decodePoint_toCompressed, ok_bind, ok_bind]
  rfl

end Schnorr

section Ballot
variable {G₁ G₂ : Type} [AddCommGroup G₁] [AddCommGroup G₂] [DecidableEq G₁] [DecidableEq G₂]
  (S : Suite G₁ G₂)

omit [AddCommGroup G₁] [AddCommGroup G₂] [DecidableEq G₁] [DecidableEq G₂] in
theorem getElem?_voteRange {budget : Nat} {v : Int} (h0 : 0 ≤ v) (hv : v ≤ budget) :
    (voteRange budget)[v.toNat]? = some v := by
  rw [voteRange, List.getElem?_map, List.getElem?_range (by omega), Option.map_some,
    Int.toNat_of_nonneg h0]

/-- One turn of the prover's loop has a true statement: the ciphertext is the vote's, the vote is
    in range, and there is a simulation for each candidate. -/
structure HonestItem (mpk : G₂) (budget : Nat)
    (x : (G₂ × G₂) × Int × Int × Int × List (Int × Int)) : Prop where
  ciphertext : x.1 = encrypt S.g2 mpk x.2.2.1 x.2.1
  nonneg : 0 ≤ x.2.2.1
  le : x.2.2.1 ≤ budget
  sims : x.2.2.2.2.length = (voteRange budget).length

omit [DecidableEq G₁] in
theorem proveRangeProofs_complete (mpk : G₂) {budget : Nat} (hb : budget ≤ 0xFFFE)
    {items : List ((G₂ × G₂) × Int × Int × Int × List (Int × Int))} {j : Nat}
    (hitems : ∀ x ∈ items, HonestItem S mpk budget x) (hj : j + items.length ≤ 0xFFFF) (t : Transcript) :
    ∃ proofs t', proveRangeProofs S mpk budget j items t = .ok (proofs, t') ∧
      verifyRangeProofs S mpk budget j ((items.map Prod.fst).zip proofs) t = .ok (true, t') ∧
      proofs.length = items.length ∧ ∀ p ∈ proofs, ProvedBranches (budget + 1) p := by
  induction items generalizing j t with
  | nil => exact ⟨[], t, rfl, rfl, rfl, by simp⟩
  | cons x items ih =>
    obtain ⟨ct, r, vote, w, sims⟩ := x
    obtain ⟨hct, h0, hle, hsims⟩ := hitems _ List.mem_cons_self
    dsimp only at hct h0 hle hsims
    subst hct
    rw [List.length_cons] at hj
    have hrange : (voteRange budget).length = budget + 1 := by simp [voteRange]
    have hvote := getElem?_voteRange h0 hle
    have htrue : vote.toNat < (voteRange budget).length := (List.getElem?_eq_some_iff.mp hvote).1
    have hword : toBytes j 2 = .ok (beBytes 2 j) := toBytes_ok (by omega) (by omega)
    have happend : Returns (t.append "ballot:range" (beBytes 2 j)) :=
      append_returns t (by decide) (by rw [length_beBytes]; decide)
    obtain ⟨t1, ht1⟩ := happend
    obtain ⟨⟨proof, t2⟩, hprove⟩ := proveOr_returns S (encrypt S.g2 mpk vote r).1
      (encrypt S.g2 mpk vote r).2 mpk r w t1 htrue hsims (by omega)
    obtain ⟨hverify, hproved⟩ := verifyOr_proveOr S hvote hsims hprove
    obtain ⟨proofs, t', hproofs, hverifies, hlen, hall⟩ :=
      @ih (j + 1) (fun x hx => hitems x (List.mem_cons_of_mem _ hx)) (by omega) t2
    refine ⟨proof :: proofs, t', ?_, ?_, by rw [List.length_cons, List.length_cons, hlen], ?_⟩
    · rw [proveRangeProofs, hword, ok_bind, ht1, ok_bind]
      dsimp only
      rw [hprove, ok_bind]
      dsimp only
      rw [hproofs, ok_bind]
      rfl
    · rw [List.map_cons, List.zip_cons_cons, verifyRangeProofs, hword, ok_bind, ht1, ok_bind]
      dsimp only
      rw [hverify, ok_bind]
      exact hverifies
    · intro p hp
      rcases List.mem_cons.mp hp with rfl | hp
      · rwa [hrange] at hproved
      · exact hall p hp

/-- The randomness has an entry for each candidate, and a simulation of each branch. -/
structure BallotRandomness.Shaped (rand : BallotRandomness) (numCandidates budget : Nat) : Prop where
  rs : rand.rs.length = numCandidates
  rangeProofW : rand.rangeProofW.length = numCandidates
  rangeProofSims : rand.rangeProofSims.length = numCandidates
  sims : ∀ sims ∈ rand.rangeProofSims, sims.length = budget + 1

omit [DecidableEq G₁] [DecidableEq G₂] in
/-- The turns of the prover's loop over in-range votes are honest. -/
theorem honestItems {mpk : G₂} {budget : Nat} {votes rs ws : List Int} {simss : List (List (Int × Int))}
    (hvotes : ∀ v ∈ votes, 0 ≤ v ∧ v ≤ budget) (hsims : ∀ sims ∈ simss, sims.length = budget + 1) :
    ∀ x ∈ ((votes.zip rs).map fun vr => encrypt S.g2 mpk vr.1 vr.2).zip
      (rs.zip (votes.zip (ws.zip simss))), HonestItem S mpk budget x := by
  intro x hx
  obtain ⟨i, hi⟩ := List.mem_iff_getElem?.mp hx
  rw [List.getElem?_zip_eq_some] at hi
  obtain ⟨hct, hi⟩ := hi
  rw [List.getElem?_zip_eq_some] at hi
  obtain ⟨hr, hi⟩ := hi
  rw [List.getElem?_zip_eq_some] at hi
  obtain ⟨hvote, hi⟩ := hi
  rw [List.getElem?_zip_eq_some] at hi
  obtain ⟨-, hsim⟩ := hi
  have hzip : (votes.zip rs)[i]? = some (x.2.2.1, x.2.1) := List.getElem?_zip_eq_some.mpr ⟨hvote, hr⟩
  rw [List.getElem?_map, hzip, Option.map_some, Option.some.injEq] at hct
  obtain ⟨h0, hle⟩ := hvotes _ (List.mem_of_getElem? hvote)
  refine ⟨hct.symm, h0, hle, ?_⟩
  rw [hsims _ (List.mem_of_getElem? hsim)]
  simp [voteRange]

omit [DecidableEq G₁] [DecidableEq G₂] in
/-- The exact budget proof of ciphertexts whose votes sum to the budget is accepted. -/
theorem proveBudgetExact_complete (mpk : G₂) {budget : Nat} {votes rs : List Int}
    (hlen : votes.length = rs.length) (hsum : votes.sum = budget) (w : Int) (t : Transcript) :
    let sum := sumCts ((votes.zip rs).map fun vr => encrypt S.g2 mpk vr.1 vr.2)
    ∃ eB zB t', proveBudgetExact S sum.1 sum.2 mpk budget (rs.sum % curveOrder) w t = .ok ((eB, zB), t') ∧
      verifyBudgetExact S sum.1 sum.2 mpk budget eB zB t = .ok (true, t') ∧ Canonical eB ∧ Canonical zB := by
  intro sum
  have hsumCts : sum = encrypt S.g2 mpk budget rs.sum := by
    rw [← hsum]
    refine (sumCts_encrypt S.g2 mpk (votes.zip rs)).trans ?_
    rw [List.map_fst_zip (le_of_eq hlen), List.map_snd_zip (le_of_eq hlen.symm)]
  have hbind : Returns (bindBudget t budget) :=
    (append_returns t (by decide) (by decide)).bind fun t1 _ => appendScalar_returns t1 _ (by decide)
  obtain ⟨t1, ht1⟩ := hbind
  obtain ⟨⟨⟨eB, zB⟩, t2⟩, hprove⟩ := proveDleq_returns S S.g2.gen sum.1 mpk
    (budgetResidual S sum.2 budget) (rs.sum % curveOrder) w t1
  have h1 : sum.1 = (rs.sum % (curveOrder : Int)) • S.g2.gen := by
    rw [hsumCts]
    rfl
  have h2 : budgetResidual S sum.2 budget = (rs.sum % (curveOrder : Int)) • mpk := by
    apply S.g2.log_injective
    rw [hsumCts]
    simp only [budgetResidual, encrypt, PointGroup.log_add, PointGroup.log_mul, PointGroup.log_zsmul,
      PointGroup.cast_emod]
    push_cast
    ring
  have hverify := verifyDleq_proveDleq S h1 h2 hprove
  obtain ⟨he, hz⟩ := proveDleq_bounds S hprove
  refine ⟨eB, zB, t2, ?_, ?_, he, hz⟩
  · rw [proveBudgetExact, ht1, ok_bind, hprove]
  · rw [verifyBudgetExact, ht1, ok_bind, hverify]

/-- The sizes of a credential that the message encoder asks for. -/
structure Attestation.Encodable (a : Attestation) : Prop where
  pseudonym : a.pseudonym.length = 32
  vk : a.vk.length = 48
  weight : 0 ≤ a.weight ∧ a.weight < 2 ^ 256
  nonce : 0 ≤ a.nonce ∧ a.nonce < 2 ^ 256
  signature : a.signature.length ≤ 0xFFFF

omit [AddCommGroup G₁] [AddCommGroup G₂] [DecidableEq G₁] [DecidableEq G₂] in
theorem canonicalBallotMessage_returns {electionId pseudonym zkProof : Bytes} {cts : List (Bytes × Bytes)}
    {a : Attestation} (he : electionId.length = 32) (hp : pseudonym.length = 32)
    (hcts : ∀ ct ∈ cts, ct.1.length = 96 ∧ ct.2.length = 96) (hn : cts.length ≤ 0xFFFF)
    (hzk : zkProof.length < 2 ^ 32) (ha : a.Encodable) :
    Returns (canonicalBallotMessage electionId pseudonym cts zkProof a) := by
  have hcomp : ¬ (cts.any fun ct => ct.1.length ≠ 96 || ct.2.length ≠ 96) = true := by
    rw [List.any_eq_true]
    intro h
    obtain ⟨ct, hct, hbad⟩ := h
    simp [hcts ct hct] at hbad
  have hweight := ha.weight
  have hnonce := ha.nonce
  have hcount : toBytes cts.length 2 = .ok (beBytes 2 cts.length) := toBytes_ok (by omega) (by omega)
  have hproof : toBytes zkProof.length 4 = .ok (beBytes 4 zkProof.length) :=
    toBytes_ok (by omega) (by omega)
  have hw : toBytes a.weight 32 = .ok (beBytes 32 a.weight.toNat) := toBytes_ok hweight.1 (by omega)
  have hnn : toBytes a.nonce 32 = .ok (beBytes 32 a.nonce.toNat) := toBytes_ok hnonce.1 (by omega)
  have hsig := ha.signature
  have hsigLen : toBytes a.signature.length 2 = .ok (beBytes 2 a.signature.length) :=
    toBytes_ok (by omega) (by omega)
  rw [canonicalBallotMessage, if_neg (not_not.mpr he), if_neg (not_not.mpr hp), if_neg hcomp,
    if_neg (not_not.mpr ha.pseudonym), if_neg (not_not.mpr ha.vk), if_neg (by omega), ballotMessageBody,
    hcount, ok_bind, hproof, ok_bind, pure_eq_ok, ok_bind, hw, ok_bind, hnn, ok_bind, if_neg (by omega),
    hsigLen]
  exact .ok _

/-- The ballot with its credential, as it is submitted. -/
def BuiltBallot.envelope (b : BuiltBallot) (attestation : Attestation) : BallotEnvelope where
  electionId := b.electionId
  pseudonym := b.pseudonym
  vk := b.vk
  ciphertexts := b.ciphertexts.map fun ct => ⟨ct.1, ct.2⟩
  zkProof := b.zkProof
  voterSignature := b.voterSignature
  attestation

omit [AddCommGroup G₁] [AddCommGroup G₂] [DecidableEq G₁] [DecidableEq G₂] in
@[simp] theorem BuiltBallot.ciphertextPairs_envelope (b : BuiltBallot) (attestation : Attestation) :
    ciphertextPairs (b.envelope attestation).ciphertexts = b.ciphertexts := by
  rw [ciphertextPairs, BuiltBallot.envelope, List.map_map]
  exact List.map_id _

omit [DecidableEq G₁] [DecidableEq G₂] in
theorem decodeCiphertexts_toCompressed (cts : List (G₂ × G₂)) :
    (cts.map fun ct => (S.g2.toCompressed ct.1, S.g2.toCompressed ct.2)).mapM (decodeCiphertext S) =
      .ok cts := by
  rw [mapM_eq_ok, List.forall₂_map_left_iff, List.forall₂_same]
  intro ct _
  rw [decodeCiphertext, g2FromCompressed, g2FromCompressed, S.g2.decodePoint_toCompressed, ok_bind,
    S.g2.decodePoint_toCompressed, ok_bind]
  rfl

omit [DecidableEq G₁] [DecidableEq G₂] in
theorem keygen_eq {sk : Int} {vk : G₁} (hkey : vk = mul S.g1.gen sk) (hvk : vk ≠ 0) :
    ∃ sk', Schnorr.keygen S sk = .ok (sk', vk) := by
  have hne : sk % (curveOrder : Int) ≠ 0 := by
    intro hzero
    apply hvk
    rw [hkey, mul, hzero, zero_smul]
  refine ⟨sk % curveOrder, ?_⟩
  rw [Schnorr.keygen, if_neg hne, hkey, mul, mul, Int.emod_emod_of_dvd _ dvd_rfl]

omit [DecidableEq G₁] in
/-- What the proof part of an honest ballot is: it is proved, and verifies from the same start. -/
theorem buildProofs_complete {config : ElectionConfig} (mpk : G₂) {electionId : Bytes}
    (he : electionId.length = 32) (vk : G₁) {votes rs : List Int} {rand : BallotRandomness}
    (hlen : votes.length = config.numCandidates) (hrs : rs.length = config.numCandidates)
    (hvotes : ∀ v ∈ votes, 0 ≤ v ∧ v ≤ config.budget) (hsum : votes.sum = config.budget)
    (hrand : rand.Shaped config.numCandidates config.budget) :
    let ctsPts := (votes.zip rs).map fun vr => encrypt S.g2 mpk vr.1 vr.2
    let sum := sumCts ctsPts
    ∃ t0 proofs t1 t2 eB zB t3,
      seedBallotTranscript S electionId mpk vk ctsPts config.numCandidates config.budget = .ok t0 ∧
      proveRangeProofs S mpk config.budget 0
        (ctsPts.zip (rs.zip (votes.zip (rand.rangeProofW.zip rand.rangeProofSims)))) t0 = .ok (proofs, t1) ∧
      t1.append "ballot:budget" [0x00] = .ok t2 ∧
      proveBudgetExact S sum.1 sum.2 mpk config.budget (rs.sum % curveOrder) rand.budgetProofW t2 =
        .ok ((eB, zB), t3) ∧
      verifyBallotProofs S mpk electionId config.numCandidates config.budget
        ⟨vk, ctsPts, proofs, eB, zB⟩ = .ok true ∧
      proofs.length = config.numCandidates ∧ (∀ p ∈ proofs, ProvedBranches (config.budget + 1) p) ∧
      Canonical eB ∧ Canonical zB := by
  intro ctsPts sum
  have hn : config.numCandidates ≤ 0xFFFF := config.numCandidates_le
  have hb : config.budget ≤ 0xFFFE := config.budget_le
  have hcts : ctsPts.length = config.numCandidates := by
    simp only [ctsPts, List.length_map, List.length_zip]
    omega
  obtain ⟨t0, ht0⟩ : Returns (seedBallotTranscript S electionId mpk vk ctsPts config.numCandidates
    config.budget) := seedBallotTranscript_returns mpk vk he hn hb (hcts.trans_le hn)
  have hrest : (rs.zip (votes.zip (rand.rangeProofW.zip rand.rangeProofSims))).length =
      config.numCandidates := by
    have hw := hrand.rangeProofW
    have hs := hrand.rangeProofSims
    simp only [List.length_zip]
    omega
  have hitems : ∀ x ∈ ctsPts.zip (rs.zip (votes.zip (rand.rangeProofW.zip rand.rangeProofSims))),
      HonestItem S mpk config.budget x := honestItems S hvotes hrand.sims
  have hfst : (ctsPts.zip (rs.zip (votes.zip (rand.rangeProofW.zip rand.rangeProofSims)))).map Prod.fst =
      ctsPts := List.map_fst_zip (le_of_eq (hcts.trans hrest.symm))
  have hlength : (ctsPts.zip (rs.zip (votes.zip (rand.rangeProofW.zip rand.rangeProofSims)))).length =
      config.numCandidates := by
    rw [List.length_zip, hcts, hrest, Nat.min_self]
  obtain ⟨proofs, t1, hprove, hverify, hproofs, hproved⟩ :=
    proveRangeProofs_complete S mpk hb (j := 0) hitems (by rw [hlength]; omega) t0
  rw [hfst] at hverify
  have happend : Returns (t1.append "ballot:budget" [0x00]) := append_returns t1 (by decide) (by decide)
  obtain ⟨t2, ht2⟩ := happend
  obtain ⟨eB, zB, t3, hbudget, hbudgetOk, heB, hzB⟩ :=
    proveBudgetExact_complete S mpk (hlen.trans hrs.symm) hsum rand.budgetProofW t2
  refine ⟨t0, proofs, t1, t2, eB, zB, t3, ht0, hprove, ht2, hbudget, ?_, hproofs.trans hlength, hproved,
    heB, hzB⟩
  rw [verifyBallotProofs, ht0, ok_bind, hverify, ok_bind]
  dsimp only
  rw [if_pos rfl, ht2, ok_bind, hbudgetOk, ok_bind]
  rfl

/-- A ballot is accepted when its parts decode and verify. -/
theorem verifyBallotCrypto_of {mpk : G₂} {vk R : G₁} {ctsPts : List (G₂ × G₂)}
    {proofs : List (List (ORBranch G₂))} {eB zB s : Int} {preimage : Bytes} {env : BallotEnvelope}
    {numCandidates budget : Nat} (hn : 1 ≤ numCandidates ∧ numCandidates ≤ 0xFFFF)
    (hb : 1 ≤ budget ∧ budget ≤ 0xFFFE) (he : env.electionId.length = 32) (hp : env.pseudonym.length = 32)
    (hmpk : mpk ≠ 0) (hkey : env.vk = S.g1.toCompressed vk) (hvk : vk ≠ 0)
    (hcts : ciphertextPairs env.ciphertexts =
      ctsPts.map fun ct => (S.g2.toCompressed ct.1, S.g2.toCompressed ct.2))
    (hlen : ctsPts.length = numCandidates)
    (hproof : decodeBallotValidityProof S env.zkProof numCandidates budget = .ok (proofs, eB, zB))
    (hproofs : verifyBallotProofs S mpk env.electionId numCandidates budget ⟨vk, ctsPts, proofs, eB, zB⟩ =
      .ok true)
    (hsig : Schnorr.decode S env.voterSignature = .ok (R, s))
    (hmessage : canonicalBallotMessage env.electionId env.pseudonym (ciphertextPairs env.ciphertexts)
      env.zkProof env.attestation = .ok preimage)
    (hverify : Schnorr.verify S vk (S.keccak preimage) R s = true) :
    verifyBallotCrypto S mpk env numCandidates budget = .ok none := by
  have hcount : env.ciphertexts.length = numCandidates := by
    have hpairs := congrArg List.length hcts
    rw [ciphertextPairs, List.length_map, List.length_map, hlen] at hpairs
    exact hpairs
  have hdecoded : decodeBallotCrypto S mpk env numCandidates budget =
      some ⟨vk, ctsPts, proofs, eB, zB⟩ := by
    rw [decodeBallotCrypto, if_neg (not_not.mpr hn), if_neg (not_not.mpr hb), if_neg (by omega),
      if_neg hmpk, hkey, g1FromCompressed, S.g1.decodePoint_toCompressed]
    dsimp only
    rw [if_neg hvk, if_neg (not_not.mpr hcount), hcts, decodeCiphertexts_toCompressed]
    dsimp only
    rw [hproof]
  rw [verifyBallotCrypto, hdecoded]
  dsimp only
  rw [hproofs, ok_bind, if_pos rfl, hsig]
  dsimp only
  rw [verifyBallotSignature, hmessage, ok_bind, if_pos hverify]
  rfl

/-- The verifier accepts what was built: the ballot decodes to what was encoded, its proofs verify
    from the same transcript, and the signature is over the same message. -/
theorem ballot_complete (S : Suite G₁ G₂) (config : ElectionConfig) {mpk : G₂} (hmpk : mpk ≠ 0)
    {electionId pseudonym : Bytes} (he : electionId.length = 32) (hp : pseudonym.length = 32) {sk : Int}
    {vk : G₁} (hkey : vk = mul S.g1.gen sk) (hvk : vk ≠ 0) {attestation : Attestation}
    (ha : attestation.Encodable) {votes : List Int} (hlen : votes.length = config.numCandidates)
    (hvotes : ∀ v ∈ votes, 0 ≤ v ∧ v ≤ config.budget) (hsum : votes.sum = config.budget)
    {rand : BallotRandomness} (hrand : rand.Shaped config.numCandidates config.budget) :
    ∃ built, buildBallot S mpk electionId pseudonym sk vk attestation votes config.numCandidates
        config.budget rand = .ok built ∧
      verifyBallotCrypto S mpk (built.envelope attestation) config.numCandidates config.budget =
        .ok none := by
  set rs := rand.rs.map fun r : Int => r % (curveOrder : Int) with hrsdef
  have hrs : rs.length = config.numCandidates := by rw [hrsdef, List.length_map, hrand.rs]
  set ctsPts := (votes.zip rs).map fun vr => encrypt S.g2 mpk vr.1 vr.2 with hctsdef
  have hn1 : 1 ≤ config.numCandidates := config.one_le_numCandidates
  have hn : config.numCandidates ≤ 0xFFFF := config.numCandidates_le
  have hb1 : 1 ≤ config.budget := config.one_le_budget
  have hb : config.budget ≤ 0xFFFE := config.budget_le
  have hcts : ctsPts.length = config.numCandidates := by
    rw [hctsdef, List.length_map, List.length_zip]
    omega
  obtain ⟨t0, proofs, t1, t2, eB, zB, t3, ht0, hranges, ht2, hbudget, hverify, hproofs, hproved, heB, hzB⟩ :=
    buildProofs_complete S mpk he vk hlen hrs hvotes hsum hrand
  -- the proof's bytes decode to the proof
  have hencode := encodeBallotValidityProof_eq S eB zB (fun p hp => (hproved p hp).length)
    (List.ne_nil_of_length_pos (by omega)) (by omega) hb
  have hdecode := decodeBallotValidityProof_validityBytes S hproved (by omega) hb heB hzB
  rw [hproofs] at hdecode
  have hzk : (validityBytes S proofs config.budget eB zB).length < 2 ^ 32 := by
    have hshape := (decodeBallotValidityProof_shape hdecode).1
    have hbranches : config.numCandidates * (config.budget + 1) ≤ 2500 := config.branches_le
    omega
  set ctBytes := ctsPts.map fun ct => (S.g2.toCompressed ct.1, S.g2.toCompressed ct.2) with hbytesdef
  have hctBytes : ∀ ct ∈ ctBytes, ct.1.length = 96 ∧ ct.2.length = 96 := by
    intro ct hct
    obtain ⟨pt, -, rfl⟩ := List.mem_map.mp hct
    exact ⟨S.g2.length_toCompressed _, S.g2.length_toCompressed _⟩
  obtain ⟨preimage, hmessage⟩ := canonicalBallotMessage_returns he hp hctBytes
    (by rw [hbytesdef, List.length_map]; omega) hzk ha
  obtain ⟨sk', hkeygen⟩ := keygen_eq S hkey hvk
  have hnone : (votes.zipIdx.find? fun vj => vj.1 < 0 || (config.budget : Int) < vj.1) = none := by
    rw [List.find?_eq_none]
    intro vj hvj
    obtain ⟨h0, hle⟩ := hvotes vj.1 (List.fst_mem_of_mem_zipIdx hvj)
    simp [h0, hle]
  set signed := Schnorr.sign S sk vk (S.keccak preimage) rand.schnorrK with hsigned
  refine ⟨⟨electionId, pseudonym, S.g1.toCompressed vk, ctBytes, validityBytes S proofs config.budget eB zB,
    Schnorr.encode S signed.1 signed.2, preimage⟩, ?_, ?_⟩
  · rw [buildBallot, if_neg (not_not.mpr hlen), hnone]
    dsimp only
    rw [if_neg (not_not.mpr hsum), hkeygen, ok_bind]
    dsimp only
    rw [if_neg (not_not.mpr rfl), ht0, ok_bind, hranges, ok_bind]
    dsimp only
    rw [ht2, ok_bind, hbudget, ok_bind]
    dsimp only
    rw [hencode, ok_bind, hmessage, ok_bind]
    rfl
  · have hpairs := BuiltBallot.ciphertextPairs_envelope ⟨electionId, pseudonym, S.g1.toCompressed vk, ctBytes,
      validityBytes S proofs config.budget eB zB, Schnorr.encode S signed.1 signed.2, preimage⟩ attestation
    exact verifyBallotCrypto_of S ⟨hn1, hn⟩ ⟨hb1, hb⟩ he hp hmpk rfl hvk hpairs hcts hdecode hverify
      (Schnorr.decode_encode S (emod_curveOrder_bounds _)) (hpairs ▸ hmessage)
      (Schnorr.verify_sign S hkey hvk _ _)

end Ballot

/-- A vote for the single candidate by the voter with key 3, over the residues. -/
theorem ballot_complete_one :
    ∃ built, buildBallot Residue.suite (.ofNat 17) (beBytes 32 1) (beBytes 32 2) 3 (.ofNat 3)
        ⟨beBytes 32 1, beBytes 32 2, beBytes 48 3, 5, [], .v1, 1⟩ [1] smallConfig.numCandidates
        smallConfig.budget ⟨[6], [7], [[(8, 9), (10, 12)]], 13, 14⟩ = .ok built ∧
      verifyBallotCrypto Residue.suite (.ofNat 17)
        (built.envelope ⟨beBytes 32 1, beBytes 32 2, beBytes 48 3, 5, [], .v1, 1⟩)
        smallConfig.numCandidates smallConfig.budget = .ok none := by
  apply ballot_complete Residue.suite smallConfig
  · decide +kernel
  · exact length_beBytes 32 1
  · exact length_beBytes 32 2
  · decide +kernel
  · decide +kernel
  · exact ⟨length_beBytes 32 2, length_beBytes 48 3, by decide, by decide, by decide⟩
  · rfl
  · decide
  · rfl
  · exact ⟨rfl, rfl, rfl, by decide⟩

end ElGamalVoting
