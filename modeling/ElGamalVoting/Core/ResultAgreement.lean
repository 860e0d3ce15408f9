import ElGamalVoting.Core.DecryptionShares

/- Solving for a result and checking a published one agree.

   `recoverResult` searches every candidate's point within the bound, and
   `checkResult` multiplies the published totals out and looks at their range and
   their sum. Both start from the same points, so what has to be shown is that the
   search finds a total exactly when the check lets it pass. Below the group order
   the search is exact on a bound that is not negative
   (`babyStepGiantStepWithTable_iff`). A negative bound, which no admitted weights
   lead to but an arbitrary artifact may carry, is left to the rule on the sum. -/
namespace ElGamalVoting
open Lib

/-- The rule on the sum of the totals. -/
def SumRule (mode : Mode) (bound sum : Int) : Prop :=
  match mode with
  | .exact => sum = bound
  | .atMost => sum ≤ bound

theorem SumRule.le {mode : Mode} {bound sum : Int} (h : SumRule mode bound sum) : sum ≤ bound := by
  cases mode with
  | exact => exact le_of_eq h
  | atMost => exact h

section
variable {G₁ G₂ : Type} [AddCommGroup G₁] [AddCommGroup G₂] [DecidableEq G₂] {S : Suite G₁ G₂}
  {bound : Int} {taus : List G₂} {totals : List Int}

/-- The total of a point: in range, and its logarithm. -/
def IsTotal (S : Suite G₁ G₂) (bound total : Int) (tau : G₂) : Prop :=
  0 ≤ total ∧ total ≤ bound ∧ total • S.g2.gen = tau

/-- Totals pass exactly when each is in range and the logarithm of its point. -/
theorem badTotal_eq_none {j : Nat} (hlen : totals.length = taus.length) :
    badTotal S bound j taus totals = none ↔ List.Forall₂ (IsTotal S bound) totals taus := by
  induction taus generalizing j totals with
  | nil =>
    rw [List.length_nil, List.length_eq_zero_iff] at hlen
    subst hlen
    simp [badTotal]
  | cons tau taus ih =>
    cases totals with
    | nil => cases hlen
    | cons total totals =>
      have hlen' : totals.length = taus.length := by simpa using hlen
      have hrest := ih (j := j + 1) hlen'
      rw [badTotal, List.forall₂_cons, ← hrest, IsTotal, S.g2.mul_eq_zsmul]
      by_cases hrange : 0 ≤ total ∧ total ≤ bound
      · by_cases hmul : total • S.g2.gen = tau
        · simp [hrange, hmul]
        · simp [hrange, hmul]
      · simp only [hrange, not_false_eq_true, if_true, reduceCtorEq, false_iff]
        intro h
        exact hrange ⟨h.1.1, h.1.2.1⟩

/-- Whatever the bound, the search returns no negative number. -/
theorem babyStepGiantStepWithTable_nonneg {target : G₂} {m : Int} (hq : bound < curveOrder)
    (h : babyStepGiantStepWithTable S.g2 target (buildBabyStepTable S.g2 bound) = some m) : 0 ≤ m := by
  by_cases h0 : 0 ≤ bound
  · exact ((babyStepGiantStepWithTable_iff S.g2 h0 hq target m).mp h).1
  · obtain ⟨k, rfl⟩ := S.g2.generates target
    have hT := buildBabyStepTable_valid (g := S.g2) hq
    have hmax : (buildBabyStepTable S.g2 bound).maxVal = bound := rfl
    rw [babyStepGiantStepWithTable, hmax, if_neg (by omega)] at h
    split at h
    · cases h
      exact le_rfl
    · have hstart : k • S.g2.gen = (k - 0 * ((buildBabyStepTable S.g2 bound).n : Int)) • S.g2.gen := by
        rw [zero_mul, sub_zero]
      rw [hstart] at h
      exact (giantSteps_sound hT le_rfl h).1

/-- Below the group order and from zero on, the search of all candidates finds exactly the
    totals that pass. -/
theorem search_eq_some_of_nonneg (h0 : 0 ≤ bound) (hq : bound < curveOrder) :
    (taus.mapM fun tau => babyStepGiantStepWithTable S.g2 tau (buildBabyStepTable S.g2 bound)) =
        some totals ↔ List.Forall₂ (IsTotal S bound) totals taus := by
  have hone : ∀ (total : Int) (tau : G₂),
      babyStepGiantStepWithTable S.g2 tau (buildBabyStepTable S.g2 bound) = some total ↔
        IsTotal S bound total tau := by
    intro total tau
    rw [babyStepGiantStepWithTable_iff S.g2 h0 hq, IsTotal, eq_comm (a := tau)]
  rw [mapM_option_eq_some]
  simp only [hone]

/-- Below the group order the search of all candidates finds exactly the totals that pass, as
    long as these keep to the rule on the sum. -/
theorem search_eq_some {mode : Mode} (hq : bound < curveOrder) (hsum : SumRule mode bound totals.sum) :
    (taus.mapM fun tau => babyStepGiantStepWithTable S.g2 tau (buildBabyStepTable S.g2 bound)) =
        some totals ↔ List.Forall₂ (IsTotal S bound) totals taus := by
  by_cases h0 : 0 ≤ bound
  · exact search_eq_some_of_nonneg h0 hq
  · rw [mapM_option_eq_some]
    -- no vector of totals that are not negative sums to a negative bound
    have hneg : ¬ ∀ total ∈ totals, 0 ≤ total := by
      intro h
      have := List.sum_nonneg h
      have := hsum.le
      omega
    constructor
    · intro h
      refine absurd ?_ hneg
      intro total htotal
      obtain ⟨tau, -, hfound⟩ := forall₂_exists_right h htotal
      exact babyStepGiantStepWithTable_nonneg hq hfound
    · intro h
      refine absurd ?_ hneg
      intro total htotal
      obtain ⟨tau, -, hfound⟩ := forall₂_exists_right h htotal
      exact hfound.1

/-! ## The two paths -/

variable {config : ElectionConfig} {aggregate : AggregateArtifact}
  {shares : List DecryptionShareEnvelope} {committeePks : List Bytes} {quorum : Nat}

omit [DecidableEq G₂] in
theorem length_deriveTausFrom {electionId : Bytes} {cts : List Ciphertext} {j : Nat}
    {taus : List (G₂ × List Int)}
    (h : deriveTausFrom S electionId committeePks quorum shares j cts = .ok (some taus)) :
    taus.length = cts.length := by
  induction cts generalizing j taus with
  | nil =>
    cases h
    rfl
  | cons ct cts ih =>
    rw [deriveTausFrom] at h
    obtain ⟨c1, -, h⟩ := bind_eq_ok.mp h
    obtain ⟨c2, -, h⟩ := bind_eq_ok.mp h
    obtain ⟨valid, -, h⟩ := bind_eq_ok.mp h
    split at h
    · cases h
    · obtain ⟨sigma, -, h⟩ := bind_eq_ok.mp h
      obtain ⟨rest, hrest, h⟩ := bind_eq_ok.mp h
      rw [pure_eq_ok, Except.ok.injEq, Option.map_eq_some_iff] at h
      obtain ⟨rest, rfl, rfl⟩ := h
      simp [ih hrest]

omit [DecidableEq G₂] in
/-- There is a point for every candidate. -/
theorem length_deriveTaus {used : List Int}
    (h : deriveTaus S config aggregate shares committeePks quorum = .ok (some (taus, used))) :
    taus.length = aggregate.aggregates.length := by
  rw [deriveTaus] at h
  obtain ⟨derived, hderived, h⟩ := bind_eq_ok.mp h
  rw [pure_eq_ok, Except.ok.injEq, Option.map_eq_some_iff] at h
  obtain ⟨steps, rfl, h⟩ := h
  cases h
  rw [List.length_map]
  exact length_deriveTausFrom hderived

/-- What passes the check: as many totals as candidates, each the logarithm of its point, and
    the rule on their sum. -/
theorem checkResult_eq_none :
    checkResult S config aggregate shares committeePks quorum totals = .ok none ↔
      ∃ taus used, deriveTaus S config aggregate shares committeePks quorum = .ok (some (taus, used)) ∧
        List.Forall₂ (IsTotal S (bsgsBound config aggregate.totalScaledWeight)) totals taus ∧
        SumRule config.mode (bsgsBound config aggregate.totalScaledWeight) totals.sum := by
  by_cases hlen : totals.length = aggregate.aggregates.length
  · rw [checkResult, if_neg (not_not.mpr hlen), bind_eq_ok]
    constructor
    · intro h
      obtain ⟨derived, hderived, h⟩ := h
      -- both sides derive the same points; what remains are the totals and the rule of the sum
      cases derived with
      | none => cases h
      | some derived =>
        obtain ⟨taus, used⟩ := derived
        refine ⟨taus, used, hderived, ?_⟩
        rw [← badTotal_eq_none (j := 0) (hlen.trans (length_deriveTaus hderived).symm)]
        cases hbad : badTotal S (bsgsBound config aggregate.totalScaledWeight) 0 taus totals with
        | some reason =>
          simp only [hbad] at h
          cases h
        | none =>
          refine ⟨rfl, ?_⟩
          simp only [hbad] at h
          cases hmode : config.mode with
          | exact =>
            simp only [hmode] at h
            split at h
            · cases h
            · exact not_not.mp ‹_›
          | atMost =>
            simp only [hmode] at h
            split at h
            · cases h
            · exact not_lt.mp ‹_›
    · intro h
      obtain ⟨taus, used, hderived, htotals, hsum⟩ := h
      refine ⟨_, hderived, ?_⟩
      rw [← badTotal_eq_none (j := 0) (hlen.trans (length_deriveTaus hderived).symm)] at htotals
      simp only [htotals]
      cases hmode : config.mode with
      | exact =>
        have hsum : totals.sum = bsgsBound config aggregate.totalScaledWeight := by rwa [hmode] at hsum
        simp only [hsum, ne_eq, not_true_eq_false, if_false]
        rfl
      | atMost =>
        have hsum : totals.sum ≤ bsgsBound config aggregate.totalScaledWeight := by rwa [hmode] at hsum
        simp only [not_lt.mpr hsum, if_false]
        rfl
  · rw [checkResult, if_pos hlen]
    constructor
    · intro h
      cases h
    · intro h
      obtain ⟨taus, used, hderived, htotals, -⟩ := h
      exact absurd (htotals.length_eq.trans (length_deriveTaus hderived)) hlen

/-- What is recovered without a ceiling: the search of the derived points. -/
theorem recoverResult_eq_some {r : ResultArtifact} :
    recoverResult S config aggregate shares committeePks quorum none = .ok (some r) ↔
      ∃ taus used totals,
        deriveTaus S config aggregate shares committeePks quorum = .ok (some (taus, used)) ∧
        (taus.mapM fun tau => babyStepGiantStepWithTable S.g2 tau
          (buildBabyStepTable S.g2 (bsgsBound config aggregate.totalScaledWeight))) = some totals ∧
        r = { electionId := config.electionId, totals, keyperIndices := used,
              bsgsBound := bsgsBound config aggregate.totalScaledWeight } := by
  rw [recoverResult]
  simp only [Option.filter_none, bind_eq_ok]
  constructor
  · intro h
    obtain ⟨derived, hderived, h⟩ := h
    cases derived with
    | none => cases h
    | some derived =>
      obtain ⟨taus, used⟩ := derived
      dsimp only at h
      split at h
      · cases h
      · rename_i totals htotals
        cases h
        exact ⟨taus, used, totals, hderived, htotals, rfl⟩
  · intro h
    obtain ⟨taus, used, totals, hderived, htotals, rfl⟩ := h
    refine ⟨_, hderived, ?_⟩
    simp only [htotals]
    rfl

/-- Solving and checking agree: a vector of totals passes the check exactly when it is what is
    recovered without a ceiling and it keeps to the rule on the sum. -/
theorem check_iff_recover (S : Suite G₁ G₂) (config : ElectionConfig) (aggregate : AggregateArtifact)
    (shares : List DecryptionShareEnvelope) (committeePks : List Bytes) (quorum : Nat)
    (totals : List Int) (hq : bsgsBound config aggregate.totalScaledWeight < curveOrder) :
    checkResult S config aggregate shares committeePks quorum totals = .ok none ↔
      ∃ r, recoverResult S config aggregate shares committeePks quorum none = .ok (some r) ∧
        r.totals = totals ∧
        SumRule config.mode (bsgsBound config aggregate.totalScaledWeight) r.totals.sum := by
  rw [checkResult_eq_none]
  constructor
  · intro h
    obtain ⟨taus, used, hderived, htotals, hsum⟩ := h
    have hfound := (search_eq_some hq hsum).mpr htotals
    exact ⟨_, recoverResult_eq_some.mpr ⟨taus, used, totals, hderived, hfound, rfl⟩, rfl, hsum⟩
  · intro h
    obtain ⟨r, hr, rfl, hsum⟩ := h
    obtain ⟨taus, used, totals, hderived, hfound, rfl⟩ := recoverResult_eq_some.mp hr
    exact ⟨taus, used, hderived, (search_eq_some hq hsum).mp hfound, hsum⟩

end

/-! ## A small result

    One vote under the key `17`, decrypted by the third and the first of three keypers with the
    shares `17 + 2 * i`. -/

namespace SampleResult

def aggregate : AggregateArtifact where
  electionId := smallConfig.electionId
  aggregates := [⟨beBytes 96 6, beBytes 96 103⟩]
  admitted := [0]
  exclusions := []
  totalAdmittedWeight := 1
  totalScaledWeight := 1

def keyper (i : Int) : KeyperDKGState Residue where
  keyperId := i
  n := 3
  quorum := 2
  coefficients := none
  commitments := []
  sharesForOthers := ∅
  combinedShare := some (17 + 2 * i)
  publicKeyShare := some (mul Residue.suite.g2.gen (17 + 2 * i))

def committeePks : List Bytes :=
  (keyperIndices 3).map fun i => Residue.suite.g2.toCompressed (mul Residue.suite.g2.gen (17 + 2 * i))

def share (i : Int) : DecryptionShareEnvelope where
  electionId := smallConfig.electionId
  keyperIndex := i
  entries := (aggregate.aggregates.mapM fun ct =>
    decryptEntry Residue.suite (keyper i) i smallConfig.electionId 0 ct 9).toOption.getD []

end SampleResult

open SampleResult in
/-- The total one passes the check, and so it is what is recovered. -/
theorem check_iff_recover_small :
    checkResult Residue.suite smallConfig aggregate [share 3, share 1] committeePks 2 [1] = .ok none ∧
    ∃ r, recoverResult Residue.suite smallConfig aggregate [share 3, share 1] committeePks 2 none =
      .ok (some r) ∧ r.totals = [1] := by
  have hcheck : checkResult Residue.suite smallConfig aggregate [share 3, share 1] committeePks 2 [1] =
      .ok none := by decide +kernel
  have hq : bsgsBound smallConfig aggregate.totalScaledWeight < curveOrder := by decide +kernel
  obtain ⟨r, hr, htotals, -⟩ := (check_iff_recover Residue.suite smallConfig aggregate
    [share 3, share 1] committeePks 2 [1] hq).mp hcheck
  exact ⟨hcheck, r, hr, htotals⟩

end ElGamalVoting
