import ElGamalVoting.Core.Config
import ElGamalVoting.Crypto.Ballot

/- Special soundness of the ballot proofs (`crypto/proofs.py`).

   Two accepting answers to different challenges under the same commitments give
   away the witness. For a DLEQ the answers `(e, z)` and `(e', z')` give the
   logarithm `(z - z') / (e - e')` of both points. An OR proof may spread its
   challenge over the branches as it likes, but when the sums differ some branch
   has two different challenges, and that branch's equations open the ciphertext
   to its candidate. The openings of all candidates and the budget proof together
   say that the votes sum to the budget, first modulo the group order and then,
   as all votes are small, as integers. -/
namespace ElGamalVoting
open Lib

section
variable {G₁ G₂ : Type} [AddCommGroup G₁] [AddCommGroup G₂]

/-- The commitments `verify_dleq` recomputes from an answer. -/
def dleqCommitments (base1 point1 base2 point2 : G₂) (e z : Int) : G₂ × G₂ :=
  (mul base1 z + mul point1 (-e % curveOrder), mul base2 z + mul point2 (-e % curveOrder))

theorem verifyDleq_eq (S : Suite G₁ G₂) (base1 point1 base2 point2 : G₂) (e z : Int) (t : Transcript) :
    verifyDleq S base1 point1 base2 point2 e z t = (do
      let a := dleqCommitments base1 point1 base2 point2 e z
      let (e', t) ← dleqChallenge S t base1 point1 base2 point2 a.1 a.2
      pure (e == e', t)) :=
  rfl

/-- Two answers to different challenges for which `verify_dleq` recomputes the same
    commitments. -/
structure DleqFork (base1 point1 base2 point2 : G₂) (e z e' z' : Int) : Prop where
  challenges : e % curveOrder ≠ e' % curveOrder
  commitments : dleqCommitments base1 point1 base2 point2 e z =
    dleqCommitments base1 point1 base2 point2 e' z'

/-- Two lists of branches with the same commitments that both satisfy the equations of
    `verify_or`, and whose challenges have different sums. -/
structure OrFork [DecidableEq G₂] (S : Suite G₁ G₂) (c1 c2 mpk : G₂) (candidates : List Int)
    (branches branches' : List (ORBranch G₂)) : Prop where
  length : branches.length = candidates.length
  length' : branches'.length = candidates.length
  holds : ((candidates.zip branches).all fun mb => branchHolds S c1 c2 mpk mb.1 mb.2) = true
  holds' : ((candidates.zip branches').all fun mb => branchHolds S c1 c2 mpk mb.1 mb.2) = true
  commitments : (branches.map fun br => (br.a1, br.a2)) = branches'.map fun br => (br.a1, br.a2)
  challenges : (branches.map ORBranch.e).sum % curveOrder ≠ (branches'.map ORBranch.e).sum % curveOrder

/-- The witness two answers give away. -/
def extracted (e z e' z' : Int) : Int :=
  (((z : ZMod curveOrder) - z') / ((e : ZMod curveOrder) - e')).val

theorem cast_extracted (e z e' z' : Int) :
    ((extracted e z e' z' : Int) : ZMod curveOrder) = ((z : ZMod curveOrder) - z') / (e - e') := by
  rw [extracted, Int.cast_natCast, ZMod.natCast_val, ZMod.cast_id]

theorem sub_ne_zero_of_emod_ne {e e' : Int} (h : e % curveOrder ≠ e' % curveOrder) :
    ((e : ZMod curveOrder) - e') ≠ 0 := by
  intro hzero
  exact h ((ZMod.intCast_eq_intCast_iff e e' curveOrder).mp (sub_eq_zero.mp hzero))

/-- In the scalar field: where `a = z b - e p` has two solutions, `p` is a multiple of `b`. -/
theorem solve_extracted {a b p : ZMod curveOrder} {e z e' z' : Int}
    (he : e % curveOrder ≠ e' % curveOrder) (h : z * b = a + e * p) (h' : z' * b = a + e' * p) :
    p = extracted e z e' z' * b := by
  have hne := sub_ne_zero_of_emod_ne he
  rw [cast_extracted, div_mul_eq_mul_div, eq_div_iff hne]
  linear_combination h' - h

/-- The answers of a fork give one logarithm of both points. -/
theorem DleqFork.extract (S : Suite G₁ G₂) {base1 point1 base2 point2 : G₂} {e z e' z' : Int}
    (h : DleqFork base1 point1 base2 point2 e z e' z') :
    point1 = extracted e z e' z' • base1 ∧ point2 = extracted e z e' z' • base2 := by
  have hone : ∀ base point : G₂, mul base z + mul point (-e % curveOrder) =
      mul base z' + mul point (-e' % curveOrder) → point = extracted e z e' z' • base := by
    intro base point heq
    apply S.g2.log_injective
    have hlog := congrArg S.g2.log heq
    simp only [PointGroup.log_add, PointGroup.log_mul, PointGroup.cast_emod, Int.cast_neg] at hlog
    rw [PointGroup.log_zsmul]
    refine solve_extracted h.challenges
      (a := z * S.g2.log base - e * S.g2.log point) (by ring) ?_
    linear_combination -hlog
  have hcommit := h.commitments
  rw [dleqCommitments, dleqCommitments, Prod.mk.injEq] at hcommit
  exact ⟨hone _ _ hcommit.1, hone _ _ hcommit.2⟩

variable [DecidableEq G₂] (S : Suite G₁ G₂)

/-- A branch with two different challenges opens the ciphertext to its candidate. -/
theorem branch_extract {c1 c2 mpk : G₂} {m : Int} {br br' : ORBranch G₂}
    (h : branchHolds S c1 c2 mpk m br = true) (h' : branchHolds S c1 c2 mpk m br' = true)
    (hcommit : (br.a1, br.a2) = (br'.a1, br'.a2)) (he : br.e % curveOrder ≠ br'.e % curveOrder) :
    (c1, c2) = encrypt S.g2 mpk m (extracted br.e br.z br'.e br'.z) := by
  rw [branchHolds, decide_eq_true_eq] at h h'
  rw [Prod.mk.injEq] at hcommit
  rw [← hcommit.1, ← hcommit.2] at h'
  have hc1 : S.g2.log c1 = extracted br.e br.z br'.e br'.z * S.g2.log S.g2.gen := by
    apply solve_extracted he (a := S.g2.log br.a1)
    · simpa using congrArg S.g2.log h.1
    · simpa using congrArg S.g2.log h'.1
  have hc2 : S.g2.log (orResidual S c2 m) = extracted br.e br.z br'.e br'.z * S.g2.log mpk := by
    apply solve_extracted he (a := S.g2.log br.a2)
    · simpa using congrArg S.g2.log h.2
    · simpa using congrArg S.g2.log h'.2
  rw [encrypt, Prod.mk.injEq]
  constructor
  · apply S.g2.log_injective
    rw [hc1, PointGroup.log_mul]
  · apply S.g2.log_injective
    simp only [orResidual, PointGroup.log_add, PointGroup.log_mul, PointGroup.log_gen, mul_one,
      PointGroup.cast_emod, Int.cast_neg] at hc2 ⊢
    linear_combination hc2

/-- However the challenges are spread, some branch of a fork opens the ciphertext. -/
theorem OrFork.extract {c1 c2 mpk : G₂} {candidates : List Int} {branches branches' : List (ORBranch G₂)}
    (h : OrFork S c1 c2 mpk candidates branches branches') :
    ∃ m ∈ candidates, ∃ r, (c1, c2) = encrypt S.g2 mpk m r := by
  obtain ⟨hlen, hlen', hholds, hholds', hcommit, hsum⟩ := h
  induction candidates generalizing branches branches' with
  | nil =>
    rw [List.eq_nil_of_length_eq_zero hlen, List.eq_nil_of_length_eq_zero hlen'] at hsum
    exact absurd rfl hsum
  | cons m candidates ih =>
    obtain ⟨br, branches, rfl⟩ := List.exists_cons_of_length_eq_add_one hlen
    obtain ⟨br', branches', rfl⟩ := List.exists_cons_of_length_eq_add_one hlen'
    rw [List.zip_cons_cons, List.all_cons, Bool.and_eq_true] at hholds hholds'
    rw [List.map_cons, List.map_cons, List.cons.injEq] at hcommit
    by_cases he : br.e % curveOrder = br'.e % curveOrder
    · -- the first challenges agree, so the sums differ over the rest
      have hrest : (branches.map ORBranch.e).sum % (curveOrder : Int) ≠
          (branches'.map ORBranch.e).sum % (curveOrder : Int) := by
        intro hrest
        apply hsum
        rw [List.map_cons, List.map_cons, List.sum_cons, List.sum_cons]
        exact Int.ModEq.add he hrest
      obtain ⟨m', hm', hr⟩ := ih (by simpa using hlen) (by simpa using hlen') hholds.2 hholds'.2
        hcommit.2 hrest
      exact ⟨m', List.mem_cons_of_mem m hm', hr⟩
    · exact ⟨m, List.mem_cons_self, _, branch_extract S hholds.1 hholds'.1 hcommit.1 he⟩

/-! ## The ballot -/

/-- A list in which every ciphertext opens to a vote of the range. -/
theorem exists_openings {mpk : G₂} {budget : Nat} {cts : List (G₂ × G₂)}
    (h : ∀ ct ∈ cts, ∃ branches branches', OrFork S ct.1 ct.2 mpk (voteRange budget) branches branches') :
    ∃ openings : List (Int × Int), cts = openings.map (fun vr => encrypt S.g2 mpk vr.1 vr.2) ∧
      ∀ vr ∈ openings, 0 ≤ vr.1 ∧ vr.1 ≤ budget := by
  induction cts with
  | nil => exact ⟨[], rfl, by simp⟩
  | cons ct cts ih =>
    obtain ⟨openings, hopen, hrange⟩ := ih fun c hc => h c (List.mem_cons_of_mem ct hc)
    obtain ⟨branches, branches', hfork⟩ := h ct List.mem_cons_self
    obtain ⟨m, hm, r, hr⟩ := hfork.extract
    refine ⟨(m, r) :: openings, by rw [List.map_cons, ← hopen, ← hr], ?_⟩
    intro vr hvr
    rcases List.mem_cons.mp hvr with rfl | hvr
    · obtain ⟨k, hk, rfl⟩ := List.mem_map.mp hm
      rw [List.mem_range] at hk
      exact ⟨Int.natCast_nonneg k, Int.ofNat_le.mpr (Nat.le_of_lt_succ hk)⟩
    · exact hrange vr hvr

omit [DecidableEq G₂] in
/-- The budget proof's answers fix the sum of the votes modulo the group order. -/
theorem votes_sum_cast {mpk : G₂} {budget : Nat} {openings : List (Int × Int)} {e z e' z' : Int}
    (h : DleqFork S.g2.gen (sumCts (openings.map fun vr => encrypt S.g2 mpk vr.1 vr.2)).1 mpk
      (budgetResidual S (sumCts (openings.map fun vr => encrypt S.g2 mpk vr.1 vr.2)).2 budget) e z e' z') :
    (((openings.map Prod.fst).sum : Int) : ZMod curveOrder) = ((budget : Int) : ZMod curveOrder) := by
  obtain ⟨h1, h2⟩ := h.extract S
  rw [sumCts_encrypt S.g2] at h1 h2
  have hlog1 := congrArg S.g2.log h1
  have hlog2 := congrArg S.g2.log h2
  simp only [encrypt, budgetResidual, PointGroup.log_add, PointGroup.log_mul, PointGroup.log_zsmul,
    PointGroup.log_gen, mul_one, PointGroup.cast_emod, Int.cast_neg] at hlog1 hlog2
  linear_combination hlog2 - S.g2.log mpk * hlog1

/-- Votes of the range, one a candidate, sum to less than the group order. -/
theorem votes_sum_bounds (config : ElectionConfig) {openings : List (Int × Int)}
    (hlen : openings.length = config.numCandidates)
    (hrange : ∀ vr ∈ openings, 0 ≤ vr.1 ∧ vr.1 ≤ config.budget) :
    0 ≤ (openings.map Prod.fst).sum ∧ (openings.map Prod.fst).sum < curveOrder := by
  have hsum : 0 ≤ (openings.map Prod.fst).sum ∧
      (openings.map Prod.fst).sum ≤ openings.length * (config.budget : Int) := by
    clear hlen
    induction openings with
    | nil => simp
    | cons vr openings ih =>
      obtain ⟨h0, hle⟩ := ih fun x hx => hrange x (List.mem_cons_of_mem vr hx)
      obtain ⟨hv0, hv⟩ := hrange vr List.mem_cons_self
      rw [List.map_cons, List.sum_cons, List.length_cons]
      push_cast
      constructor
      · omega
      · linarith
  refine ⟨hsum.1, lt_of_le_of_lt hsum.2 ?_⟩
  have hbranches := config.branches_le
  have hprod : config.numCandidates * config.budget ≤ maxProofBranches :=
    le_trans (Nat.mul_le_mul_left _ (Nat.le_succ _)) hbranches
  have hsmall : maxProofBranches < curveOrder := by decide
  rw [hlen]
  exact_mod_cast lt_of_le_of_lt hprod hsmall

/-- What two accepting answers give away: a ballot encrypts votes of the range that sum to
    exactly the budget, and a decryption share is the one of the keyper's key. -/
theorem ballot_special_soundness (S : Suite G₁ G₂) (config : ElectionConfig) (mpk : G₂) :
    (∀ cts : List (G₂ × G₂), cts.length = config.numCandidates →
      (∀ ct ∈ cts, ∃ branches branches',
        OrFork S ct.1 ct.2 mpk (voteRange config.budget) branches branches') →
      (∃ e z e' z', DleqFork S.g2.gen (sumCts cts).1 mpk
        (budgetResidual S (sumCts cts).2 config.budget) e z e' z') →
      ∃ openings : List (Int × Int),
        cts = openings.map (fun vr => (mul S.g2.gen vr.2, mul mpk vr.2 + mul S.g2.gen vr.1)) ∧
        (∀ vr ∈ openings, 0 ≤ vr.1 ∧ vr.1 ≤ config.budget) ∧
        (openings.map Prod.fst).sum = config.budget) ∧
    ∀ (C1 mpkK sigma : G₂) (e z e' z' : Int), DleqFork S.g2.gen mpkK C1 sigma e z e' z' →
      ∀ x, mpkK = mul S.g2.gen x → sigma = mul C1 x := by
  constructor
  · intro cts hlen hrange hbudget
    obtain ⟨openings, rfl, hvotes⟩ := exists_openings S hrange
    rw [List.length_map] at hlen
    obtain ⟨e, z, e', z', hfork⟩ := hbudget
    refine ⟨openings, rfl, hvotes, ?_⟩
    have hcast := votes_sum_cast S hfork
    obtain ⟨h0, hlt⟩ := votes_sum_bounds config hlen hvotes
    have hbudget : (config.budget : Int) < curveOrder := by
      have := config.budget_le
      have hsmall : maxBudget < curveOrder := by decide
      omega
    -- both sides are canonical residues
    have hmod := (ZMod.intCast_eq_intCast_iff _ _ curveOrder).mp hcast
    rwa [Int.ModEq, Int.emod_eq_of_lt h0 hlt, Int.emod_eq_of_lt (by omega) hbudget] at hmod
  · intro C1 mpkK sigma e z e' z' hfork x hx
    obtain ⟨hkey, hsigma⟩ := hfork.extract S
    have hsame : ((extracted e z e' z' : Int) : ZMod curveOrder) = x := by
      rw [← S.g2.gen_zsmul_inj, ← hkey, hx, S.g2.mul_eq_zsmul]
    rw [hsigma, S.g2.mul_eq_zsmul]
    exact S.g2.zsmul_congr hsame C1

end

/-! One candidate and a budget of one, the key `5 * G2` and the ciphertext of one vote under
    randomness 3. The first branch is simulated, the second answers twice. -/

namespace ForkSample

def point (n : Nat) : Residue := .ofNat n

def ct : Residue × Residue := (point 3, point 16)

def branches (e z : Int) : List (ORBranch Residue) := [⟨point 0, point 0, 0, 0⟩, ⟨point 7, point 35, e, z⟩]

theorem orFork : OrFork Residue.suite ct.1 ct.2 (point 5) (voteRange 1) (branches 1 10) (branches 2 13) where
  length := by decide
  length' := by decide
  holds := by decide +kernel
  holds' := by decide +kernel
  commitments := by decide +kernel
  challenges := by decide +kernel

end ForkSample

open ForkSample in
/-- The ciphertext opens to one vote, and the share of the key `2 * G2` is `2 * C1`. -/
theorem ballot_special_soundness_one :
    (∃ openings : List (Int × Int),
      [ct] = openings.map (fun vr => (mul Residue.suite.g2.gen vr.2,
        mul (point 5) vr.2 + mul Residue.suite.g2.gen vr.1)) ∧
      (∀ vr ∈ openings, 0 ≤ vr.1 ∧ vr.1 ≤ smallConfig.budget) ∧
      (openings.map Prod.fst).sum = smallConfig.budget) ∧
    point 6 = mul ct.1 2 := by
  obtain ⟨hballot, hshare⟩ := ballot_special_soundness Residue.suite smallConfig (point 5)
  constructor
  · refine hballot [ct] rfl ?_ ?_
    · intro c hc
      obtain rfl := List.mem_singleton.mp hc
      exact ⟨_, _, orFork⟩
    · exact ⟨0, 4, 1, 7, by decide +kernel, by decide +kernel⟩
  · have hfork : DleqFork Residue.suite.g2.gen (point 2) ct.1 (point 6) 0 1 1 3 :=
      ⟨by decide +kernel, by decide +kernel⟩
    exact hshare ct.1 (point 2) (point 6) 0 1 1 3 hfork 2 (by decide +kernel)

end ElGamalVoting
