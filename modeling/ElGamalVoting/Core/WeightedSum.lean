import Mathlib.Data.List.GetD
import ElGamalVoting.Core.Aggregation

/- What the aggregate of a list of ballots encrypts.

   The accumulators of `aggregatePoints` encrypt the weighted sums of the votes
   (`aggregatePoints_encrypts`): a ballot adds its scaled weight times its votes,
   and one whose weight scales to zero adds nothing, as the source skips it. With
   votes within the budget these sums are within the search bound
   (`candidateTotal_bounds`). -/
namespace ElGamalVoting
open Lib

section
variable {G₁ G₂ : Type} [AddCommGroup G₁] [AddCommGroup G₂] (S : Suite G₁ G₂) (mpk : G₂)

/-- A ballot's ciphertexts decode to encryptions of its votes. -/
def EncryptVotes (cts : List Ciphertext) (votes : List Int) : Prop :=
  List.Forall₂ (fun ct v => ∃ C, decodeCiphertext S (ct.c1, ct.c2) = .ok C ∧ Encrypts S.g2 mpk v C)
    cts votes

/-- The `j`-th accumulator encrypts `tot j`. -/
def AccEncrypts (tot : Nat → Int) (accs : List (G₂ × G₂)) : Prop :=
  ∀ j C, accs[j]? = some C → Encrypts S.g2 mpk (tot j) C

variable {S mpk}

theorem addBallot_encrypts {w : Int} {accs out : List (G₂ × G₂)} {cts : List Ciphertext}
    {votes : List Int} {tot : Nat → Int} (hvotes : EncryptVotes S mpk cts votes)
    (hacc : AccEncrypts S mpk tot accs) (h : addBallot S w accs cts = .ok out) :
    AccEncrypts S mpk (fun j => tot j + w * votes.getD j 0) out ∧ out.length = accs.length := by
  induction accs generalizing cts votes tot out with
  | nil =>
    rw [addBallot, pure_eq_ok, Except.ok.injEq] at h
    subst h
    exact ⟨fun j C hC => by simp at hC, rfl⟩
  | cons acc accs ih =>
    cases hvotes with
    | nil =>
      rw [addBallot] at h
      cases h
    | @cons ct v cts vs hct hvs =>
      obtain ⟨C, hC, henc⟩ := hct
      rw [addBallot, hC, ok_bind] at h
      obtain ⟨rest, hrest, h⟩ := bind_eq_ok.mp h
      cases h
      have htail : AccEncrypts S mpk (fun j => tot (j + 1)) accs := fun j D hD => hacc (j + 1) D hD
      obtain ⟨henc', hlen⟩ := ih hvs htail hrest
      refine ⟨fun j D hD => ?_, by rw [List.length_cons, hlen, List.length_cons]⟩
      cases j with
      | zero =>
        rw [List.getElem?_cons_zero, Option.some.injEq] at hD
        subst hD
        exact (hacc 0 acc rfl).addCt (henc.scalarMulCt w)
      | succ j => exact henc' j D hD

/-- The weighted sum of the votes for candidate `j`. -/
def candidateTotal (scale : Nat) (admitted : List AdmittedBallot) (votes : List (List Int)) (j : Nat) :
    Int :=
  (List.zipWith (fun ab vs => scaledWeight ab.weight scale * vs.getD j 0) admitted votes).sum

/-- The loop over the ballots, from any accumulators. -/
theorem aggregateLoop_encrypts {scale : Nat} {admitted : List AdmittedBallot} {votes : List (List Int)}
    {accs out : List (G₂ × G₂)} {tot : Nat → Int}
    (hvotes : List.Forall₂ (fun ab vs => EncryptVotes S mpk ab.envelope.ciphertexts vs) admitted votes)
    (hacc : AccEncrypts S mpk tot accs)
    (h : admitted.foldlM (fun acc ab =>
      let w := scaledWeight ab.weight scale
      if w = 0 then pure acc else addBallot S w acc ab.envelope.ciphertexts : _ → _ → Py _) accs =
        .ok out) :
    AccEncrypts S mpk (fun j => tot j + candidateTotal scale admitted votes j) out ∧
      out.length = accs.length := by
  induction hvotes generalizing accs tot with
  | nil =>
    rw [List.foldlM_nil, pure_eq_ok, Except.ok.injEq] at h
    subst h
    simpa [candidateTotal] using hacc
  | @cons ab vs admitted votes hab _ ih =>
    rw [List.foldlM_cons] at h
    obtain ⟨accs', hstep, h⟩ := bind_eq_ok.mp h
    have hone : AccEncrypts S mpk (fun j => tot j + scaledWeight ab.weight scale * vs.getD j 0) accs' ∧
        accs'.length = accs.length := by
      dsimp only at hstep
      by_cases hw : scaledWeight ab.weight scale = 0
      · rw [if_pos hw, pure_eq_ok, Except.ok.injEq] at hstep
        subst hstep
        simpa [hw] using hacc
      · rw [if_neg hw] at hstep
        exact addBallot_encrypts hab hacc hstep
    obtain ⟨henc, hlen⟩ := ih hone.1 h
    refine ⟨fun j C hC => ?_, hlen.trans hone.2⟩
    have hsum : candidateTotal scale (ab :: admitted) (vs :: votes) j =
        scaledWeight ab.weight scale * vs.getD j 0 + candidateTotal scale admitted votes j := by
      rw [candidateTotal, List.zipWith_cons_cons, List.sum_cons, candidateTotal]
    show Encrypts S.g2 mpk (tot j + candidateTotal scale (ab :: admitted) (vs :: votes) j) C
    rw [hsum, ← add_assoc]
    exact henc j C hC

theorem aggregatePoints_encrypts {scale numCandidates : Nat} {admitted : List AdmittedBallot}
    {votes : List (List Int)} {out : List (G₂ × G₂)}
    (hvotes : List.Forall₂ (fun ab vs => EncryptVotes S mpk ab.envelope.ciphertexts vs) admitted votes)
    (h : aggregatePoints S admitted numCandidates scale = .ok out) :
    AccEncrypts S mpk (candidateTotal scale admitted votes) out ∧ out.length = numCandidates := by
  have hzero : AccEncrypts S mpk (fun _ => 0) (List.replicate numCandidates ((0 : G₂), (0 : G₂))) := by
    intro j C hC
    rw [List.getElem?_replicate] at hC
    split at hC
    · cases hC
      exact encrypts_zero S.g2 mpk
    · cases hC
  obtain ⟨henc, hlen⟩ := aggregateLoop_encrypts hvotes hzero h
  refine ⟨?_, by rw [hlen, List.length_replicate]⟩
  simpa using henc

/-- What an artifact holds, and that its ciphertexts decode. -/
theorem buildAggregateArtifact_eq_ok {config : ElectionConfig} {admission : AdmissionResult}
    {A : AggregateArtifact} (h : buildAggregateArtifact S config admission = .ok A) :
    ∃ points, aggregatePoints S admission.admitted config.numCandidates config.scale = .ok points ∧
      A.aggregates.mapM (fun ct => decodeCiphertext S (ct.c1, ct.c2)) = .ok points ∧
      A.totalScaledWeight =
        (admission.admitted.map fun a => scaledWeight a.weight config.scale).sum := by
  rw [buildAggregateArtifact] at h
  obtain ⟨points, hpoints, h⟩ := bind_eq_ok.mp h
  cases h
  refine ⟨points, hpoints, ?_, rfl⟩
  rw [List.mapM_map, mapM_eq_ok, List.forall₂_same]
  intro C _
  simp only [Function.comp_apply, decodeCiphertext, g2FromCompressed, S.g2.decodePoint_toCompressed,
    ok_bind, pure_eq_ok]

end

/-! ## The search bound -/

theorem scaledWeight_nonneg {weight : Int} (h : 0 ≤ weight) (scale : Nat) :
    0 ≤ scaledWeight weight scale :=
  Int.ediv_nonneg (by omega) (by omega)

/-- Votes a ballot may cast: nonnegative, at most the budget together. -/
def WithinBudget (budget : Nat) (votes : List Int) : Prop :=
  (∀ v ∈ votes, 0 ≤ v) ∧ votes.sum ≤ budget

theorem WithinBudget.getD {budget : Nat} {votes : List Int} (h : WithinBudget budget votes) (j : Nat) :
    0 ≤ votes.getD j 0 ∧ votes.getD j 0 ≤ budget := by
  by_cases hj : j < votes.length
  · rw [List.getD_eq_getElem _ _ hj]
    have hmem := List.getElem_mem hj
    exact ⟨h.1 _ hmem, le_trans (List.single_le_sum h.1 _ hmem) h.2⟩
  · rw [List.getD_eq_default _ _ (by omega)]
    exact ⟨le_rfl, by omega⟩

theorem candidateTotal_bounds {scale budget : Nat} {admitted : List AdmittedBallot}
    {votes : List (List Int)} (j : Nat)
    (h : List.Forall₂ (fun (ab : AdmittedBallot) vs => 0 ≤ ab.weight ∧ WithinBudget budget vs)
      admitted votes) :
    0 ≤ candidateTotal scale admitted votes j ∧
      candidateTotal scale admitted votes j ≤
        budget * (admitted.map fun a => scaledWeight a.weight scale).sum := by
  induction h with
  | nil => simp [candidateTotal]
  | @cons ab vs admitted votes hab _ ih =>
    have hw := scaledWeight_nonneg hab.1 scale
    obtain ⟨hv0, hv1⟩ := hab.2.getD j
    have hlow := mul_nonneg hw hv0
    have hhigh := mul_le_mul_of_nonneg_left hv1 hw
    simp only [candidateTotal, List.zipWith_cons_cons, List.sum_cons, List.map_cons, mul_add] at ih ⊢
    rw [mul_comm (budget : Int) (scaledWeight ab.weight scale)]
    constructor
    · omega
    · omega

end ElGamalVoting
