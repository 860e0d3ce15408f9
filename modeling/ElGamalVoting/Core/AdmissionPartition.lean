import ElGamalVoting.Core.AdmissionReturns
import ElGamalVoting.Core.AdmissionWinners

/- Admission as a partition of the ballots (`admit` of `core/admission.py`).

   Every sequence number is admitted or excluded, once (`resolveDuplicates_once`). Which of
   the two, and with which reason, is said of a ballot without mention of the order of the
   list (`mem_exclusions_iff`, `mem_admitted_iff`), and the exclusions come out in strictly
   increasing order: another order of the ballots gives the same exclusions and the same
   admitted ballots. -/
namespace ElGamalVoting
open Lib

/-! ## The duplicate policy over validated ballots -/

/-- The ballots with no reason against them. -/
def validOf (reasons : List (StoredBallot × Option ExclusionReason)) : List StoredBallot :=
  (reasons.filter fun sr => sr.2.isNone).map Prod.fst

section
variable {policy : DuplicatePolicy} {reasons : List (StoredBallot × Option ExclusionReason)}

theorem mem_validOf {sb : StoredBallot} : sb ∈ validOf reasons ↔ (sb, none) ∈ reasons := by
  rw [validOf, List.mem_map]
  constructor
  · intro h
    obtain ⟨⟨sb', reason⟩, hmem, rfl⟩ := h
    obtain ⟨hmem, hnone⟩ := List.mem_filter.mp hmem
    have hnone : reason = none := Option.isNone_iff_eq_none.mp hnone
    rwa [hnone] at hmem
  · intro h
    exact ⟨_, List.mem_filter.mpr ⟨h, rfl⟩, rfl⟩

/-- The exclusions of the ballots with a reason against them. -/
def invalidOf (reasons : List (StoredBallot × Option ExclusionReason)) : List Exclusion :=
  reasons.filterMap fun sr => sr.2.map fun reason => ⟨sr.1.sequenceNumber, reason⟩

theorem invalidOf_append_validOf (reasons : List (StoredBallot × Option ExclusionReason)) :
    ((invalidOf reasons).map Exclusion.sequenceNumber ++
        (validOf reasons).map StoredBallot.sequenceNumber).Perm
      (reasons.map fun sr => sr.1.sequenceNumber) := by
  induction reasons with
  | nil => exact .nil
  | cons sr reasons ih =>
    obtain ⟨sb, reason⟩ := sr
    cases reason with
    | some reason => exact ih.cons sb.sequenceNumber
    | none => exact List.perm_middle.trans (ih.cons sb.sequenceNumber)

theorem perm_exclusions (policy : DuplicatePolicy)
    (reasons : List (StoredBallot × Option ExclusionReason)) : (resolveDuplicates policy reasons).exclusions.Perm
    (invalidOf reasons ++ ((validOf reasons).filter
      fun sb => sb.sequenceNumber ∈ duplicateLosers (validOf reasons) policy).map
        fun sb => ⟨sb.sequenceNumber, .duplicatePseudonym⟩) :=
  List.perm_insertionSort _ _

/-- Every sequence number is admitted or excluded, and once. -/
theorem resolveDuplicates_once (policy : DuplicatePolicy)
    (reasons : List (StoredBallot × Option ExclusionReason)) :
    ((resolveDuplicates policy reasons).admitted.map AdmittedBallot.sequenceNumber ++
        (resolveDuplicates policy reasons).exclusions.map Exclusion.sequenceNumber).Perm
      (reasons.map fun sr => sr.1.sequenceNumber) := by
  let losers := duplicateLosers (validOf reasons) policy
  let winning := ((validOf reasons).filter fun sb => sb.sequenceNumber ∉ losers).map StoredBallot.sequenceNumber
  let losing := ((validOf reasons).filter fun sb => sb.sequenceNumber ∈ losers).map StoredBallot.sequenceNumber
  have hadmitted : (resolveDuplicates policy reasons).admitted.map AdmittedBallot.sequenceNumber = winning :=
    List.map_map
  have hexcluded : ((resolveDuplicates policy reasons).exclusions.map Exclusion.sequenceNumber).Perm
      ((invalidOf reasons).map Exclusion.sequenceNumber ++ losing) := by
    have hperm := (perm_exclusions policy reasons).map Exclusion.sequenceNumber
    rwa [List.map_append, List.map_map] at hperm
  have hsplit : (winning ++ losing).Perm ((validOf reasons).map StoredBallot.sequenceNumber) := by
    have hperm := ((validOf reasons).filter_append_perm fun sb => sb.sequenceNumber ∉ losers).map
      StoredBallot.sequenceNumber
    simpa only [winning, losing, List.map_append, decide_not, Bool.not_not] using hperm
  rw [hadmitted]
  calc List.Perm _ (winning ++ ((invalidOf reasons).map Exclusion.sequenceNumber ++ losing)) :=
        hexcluded.append_left winning
    List.Perm _ ((invalidOf reasons).map Exclusion.sequenceNumber ++ (winning ++ losing)) :=
        List.perm_append_comm_assoc _ _ _
    List.Perm _ ((invalidOf reasons).map Exclusion.sequenceNumber ++
          (validOf reasons).map StoredBallot.sequenceNumber) := hsplit.append_left _
    List.Perm _ (reasons.map fun sr => sr.1.sequenceNumber) := invalidOf_append_validOf reasons

end

section
variable {policy : DuplicatePolicy} {reasons : List (StoredBallot × Option ExclusionReason)}
  (hnodup : (reasons.map fun sr => sr.1.sequenceNumber).Nodup)
include hnodup

theorem nodup_validOf : ((validOf reasons).map StoredBallot.sequenceNumber).Nodup :=
  (((invalidOf_append_validOf reasons).nodup_iff.mpr hnodup).of_append_right)

theorem mem_admitted_iff {ab : AdmittedBallot} : ab ∈ (resolveDuplicates policy reasons).admitted ↔
    ∃ sb, Best policy (validOf reasons) sb ∧ ab = sb.admitted := by
  rw [resolveDuplicates_admitted, List.mem_map]
  constructor
  · intro h
    obtain ⟨sb, hsb, rfl⟩ := h
    exact ⟨sb, (mem_admittedBallots_iff (nodup_validOf hnodup)).mp hsb, rfl⟩
  · intro h
    obtain ⟨sb, hsb, rfl⟩ := h
    exact ⟨sb, (mem_admittedBallots_iff (nodup_validOf hnodup)).mpr hsb, rfl⟩

theorem mem_exclusions_iff {x : Exclusion} : x ∈ (resolveDuplicates policy reasons).exclusions ↔
    ∃ sb, x.sequenceNumber = sb.sequenceNumber ∧ ((sb, some x.reason) ∈ reasons ∨
      (sb ∈ validOf reasons ∧ ¬ Best policy (validOf reasons) sb ∧ x.reason = .duplicatePseudonym)) := by
  rw [(perm_exclusions policy reasons).mem_iff, List.mem_append, invalidOf, List.mem_filterMap, List.mem_map]
  constructor
  · rintro (⟨⟨sb, reason⟩, hmem, hx⟩ | ⟨sb, hsb, rfl⟩)
    · obtain ⟨r, rfl, rfl⟩ := Option.map_eq_some_iff.mp hx
      exact ⟨sb, rfl, .inl hmem⟩
    · obtain ⟨hvalid, hlose⟩ := List.mem_filter.mp hsb
      rw [decide_eq_true_eq, mem_duplicateLosers_iff (nodup_validOf hnodup) hvalid] at hlose
      exact ⟨sb, rfl, .inr ⟨hvalid, hlose, rfl⟩⟩
  · rintro ⟨sb, hseq, hmem | ⟨hvalid, hlose, hreason⟩⟩
    · refine .inl ⟨_, hmem, ?_⟩
      rw [Option.map_some, ← hseq]
    · refine .inr ⟨sb, List.mem_filter.mpr ⟨hvalid, ?_⟩, ?_⟩
      · rwa [decide_eq_true_eq, mem_duplicateLosers_iff (nodup_validOf hnodup) hvalid]
      · rw [← hseq, ← hreason]

theorem pairwise_exclusions : (resolveDuplicates policy reasons).exclusions.Pairwise
    fun x y => x.sequenceNumber < y.sequenceNumber := by
  have hdistinct : ((resolveDuplicates policy reasons).exclusions.map Exclusion.sequenceNumber).Nodup :=
    ((resolveDuplicates_once policy reasons).nodup_iff.mpr hnodup).of_append_right
  have hsorted : (resolveDuplicates policy reasons).exclusions.Pairwise
      fun x y => x.sequenceNumber ≤ y.sequenceNumber := List.pairwise_insertionSort _ _
  refine (hsorted.and (List.pairwise_map.mp hdistinct)).imp ?_
  intro x y hxy
  exact lt_of_le_of_ne hxy.1 hxy.2

theorem nodup_admitted : (resolveDuplicates policy reasons).admitted.Nodup :=
  (((resolveDuplicates_once policy reasons).nodup_iff.mpr hnodup).of_append_left).of_map _

/-- The order of the ballots decides nothing. -/
theorem resolveDuplicates_perm {reasons' : List (StoredBallot × Option ExclusionReason)}
    (hperm : reasons'.Perm reasons) :
    (resolveDuplicates policy reasons').exclusions = (resolveDuplicates policy reasons).exclusions ∧
      (resolveDuplicates policy reasons').admitted.Perm (resolveDuplicates policy reasons).admitted := by
  have hnodup' : (reasons'.map fun sr => sr.1.sequenceNumber).Nodup := (hperm.map _).nodup_iff.mpr hnodup
  have hvalid : ∀ sb, sb ∈ validOf reasons' ↔ sb ∈ validOf reasons := by
    intro sb
    rw [mem_validOf, mem_validOf, hperm.mem_iff]
  have hbest : ∀ sb, Best policy (validOf reasons') sb ↔ Best policy (validOf reasons) sb := by
    intro sb
    simp only [Best, hvalid]
  have hadmitted : (resolveDuplicates policy reasons').admitted.Perm (resolveDuplicates policy reasons).admitted := by
    rw [List.perm_ext_iff_of_nodup (nodup_admitted hnodup') (nodup_admitted hnodup)]
    intro ab
    simp only [mem_admitted_iff hnodup, mem_admitted_iff hnodup', hbest]
  have hexcluded : (resolveDuplicates policy reasons').exclusions.Perm
      (resolveDuplicates policy reasons).exclusions := by
    rw [List.perm_ext_iff_of_nodup ((pairwise_exclusions hnodup').imp fun h heq => (heq ▸ h).ne rfl)
      ((pairwise_exclusions hnodup).imp fun h heq => (heq ▸ h).ne rfl)]
    intro x
    simp only [mem_exclusions_iff hnodup, mem_exclusions_iff hnodup', hbest, hvalid, hperm.mem_iff]
  refine ⟨?_, hadmitted⟩
  refine hexcluded.eq_of_pairwise ?_ (pairwise_exclusions hnodup') (pairwise_exclusions hnodup)
  intro x y _ _ hxy hyx
  exact absurd hxy hyx.asymm

end

/-! ## Admission -/

section
variable {G₁ G₂ : Type} [AddCommGroup G₁] [AddCommGroup G₂] [DecidableEq G₁] [DecidableEq G₂]

/-- The ranks, compared nonce first, of the valid ballots of a pseudonym. -/
def validRanks (S : Suite G₁ G₂) (config : ElectionConfig) (mpk : G₂) (ballots : List StoredBallot)
    (pseudonym : Bytes) : Set (Int ×ₗ Int) :=
  {rank | ∃ sb ∈ ballots, validateBallot S sb config mpk = .ok none ∧
    sb.envelope.pseudonym = pseudonym ∧ toLex (sb.envelope.attestation.nonce, sb.sequenceNumber) = rank}

/-- The rank a policy keeps. -/
def DuplicatePolicy.Keeps (ranks : Set (Int ×ₗ Int)) (rank : Int ×ₗ Int) : DuplicatePolicy → Prop
  | lastWins => IsGreatest ranks rank
  | firstWins => IsLeast ranks rank

/-- What admission decides of the ballots. -/
structure Decides (S : Suite G₁ G₂) (config : ElectionConfig) (mpk : G₂) (ballots : List StoredBallot)
    (r : AdmissionResult) : Prop where
  once : (r.admitted.map AdmittedBallot.sequenceNumber ++ r.exclusions.map Exclusion.sequenceNumber).Perm
    (ballots.map StoredBallot.sequenceNumber)
  admitted : ∀ ab ∈ r.admitted, ∃ sb ∈ ballots, validateBallot S sb config mpk = .ok none ∧ ab = sb.admitted
  invalid : ∀ sb ∈ ballots, ∀ reason, validateBallot S sb config mpk = .ok (some reason) ↔
    ⟨sb.sequenceNumber, reason⟩ ∈ r.exclusions ∧ reason ≠ .duplicatePseudonym
  winner : ∀ sb ∈ ballots, validateBallot S sb config mpk = .ok none →
    ∃ best ∈ ballots, validateBallot S best config mpk = .ok none ∧
      best.envelope.pseudonym = sb.envelope.pseudonym ∧
      config.duplicatePolicy.Keeps (validRanks S config mpk ballots sb.envelope.pseudonym)
        (toLex (best.envelope.attestation.nonce, best.sequenceNumber)) ∧
      r.admitted.filter (fun ab => ab.envelope.pseudonym = sb.envelope.pseudonym) = [best.admitted] ∧
      ∀ other ∈ ballots, validateBallot S other config mpk = .ok none →
        other.envelope.pseudonym = sb.envelope.pseudonym → other ≠ best →
        ⟨other.sequenceNumber, .duplicatePseudonym⟩ ∈ r.exclusions
  sorted : r.exclusions.Pairwise fun x y => x.sequenceNumber < y.sequenceNumber
  weight : r.totalAdmittedWeight = (r.admitted.map fun ab => ab.envelope.attestation.weight).sum

variable {S : Suite G₁ G₂} {config : ElectionConfig} {mpk : G₂}

/-- Validation on its own never speaks of duplicates. -/
theorem validateBallot_ne_duplicate {sb : StoredBallot} :
    validateBallot S sb config mpk ≠ .ok (some .duplicatePseudonym) := by
  intro h
  rw [validateBallot] at h
  split at h
  · rename_i reason hpre
    cases h
    unfold precheckBallot at hpre
    dsimp only at hpre
    split_ifs at hpre <;> cases hpre
  · obtain ⟨reason, -, h⟩ := bind_eq_ok.mp h
    cases reason with
    | none => cases h
    | some reason => cases reason <;> cases h

/-- The best of the valid ballots has the rank the policy keeps. -/
theorem Best.keeps {policy : DuplicatePolicy} {ballots valid : List StoredBallot}
    (hvalid : ∀ sb, sb ∈ valid ↔ sb ∈ ballots ∧ validateBallot S sb config mpk = .ok none)
    {best : StoredBallot} (h : Best policy valid best) :
    policy.Keeps (validRanks S config mpk ballots best.envelope.pseudonym)
      (toLex (best.envelope.attestation.nonce, best.sequenceNumber)) := by
  have hmem : toLex (best.envelope.attestation.nonce, best.sequenceNumber) ∈
      validRanks S config mpk ballots best.envelope.pseudonym :=
    ⟨best, ((hvalid best).mp h.1).1, ((hvalid best).mp h.1).2, rfl, rfl⟩
  have hbound : ∀ sb ∈ ballots, validateBallot S sb config mpk = .ok none →
      sb.envelope.pseudonym = best.envelope.pseudonym → ¬ beats policy (ballotRank sb) (ballotRank best) = true :=
    fun sb hsb hok hp => h.2 sb ((hvalid sb).mpr ⟨hsb, hok⟩) hp
  cases policy with
  | lastWins =>
    refine ⟨hmem, ?_⟩
    rintro _ ⟨sb, hsb, hok, hp, rfl⟩
    have hle := hbound sb hsb hok hp
    rw [beats, rankLt_iff] at hle
    rw [Prod.Lex.le_iff]
    simp only [ballotRank] at hle
    simp only [ofLex_toLex]
    omega
  | firstWins =>
    refine ⟨hmem, ?_⟩
    rintro _ ⟨sb, hsb, hok, hp, rfl⟩
    have hle := hbound sb hsb hok hp
    rw [beats, rankLt_iff] at hle
    rw [Prod.Lex.le_iff]
    simp only [ballotRank] at hle
    simp only [ofLex_toLex]
    omega

/-- What the two passes decide, once every ballot is validated. -/
theorem decides_of_reasons {ballots : List StoredBallot} {reasons : List (StoredBallot × Option ExclusionReason)}
    (hnodup : (ballots.map StoredBallot.sequenceNumber).Nodup) (hfst : reasons.map Prod.fst = ballots)
    (hreason : ∀ sr ∈ reasons, validateBallot S sr.1 config mpk = .ok sr.2) :
    Decides S config mpk ballots (resolveDuplicates config.duplicatePolicy reasons) := by
  subst hfst
  rw [List.map_map] at hnodup
  have hmem : ∀ sb ∈ reasons.map Prod.fst, ∀ reason, validateBallot S sb config mpk = .ok reason ↔
      (sb, reason) ∈ reasons := by
    intro sb hsb reason
    obtain ⟨sr, hsr, rfl⟩ := List.mem_map.mp hsb
    constructor
    · intro h
      rw [hreason sr hsr, Except.ok.injEq] at h
      rwa [← h]
    · exact fun h => hreason _ h
  have hvalid : ∀ sb, sb ∈ validOf reasons ↔
      sb ∈ reasons.map Prod.fst ∧ validateBallot S sb config mpk = .ok none := by
    intro sb
    rw [mem_validOf]
    constructor
    · intro h
      exact ⟨List.mem_map_of_mem h, hreason _ h⟩
    · intro h
      exact (hmem sb h.1 none).mp h.2
  refine ⟨?_, ?_, ?_, ?_, pairwise_exclusions hnodup, ?_⟩
  · rw [List.map_map]
    exact resolveDuplicates_once config.duplicatePolicy reasons
  · intro ab hab
    obtain ⟨sb, hbest, rfl⟩ := (mem_admitted_iff hnodup).mp hab
    obtain ⟨hsb, hok⟩ := (hvalid sb).mp hbest.1
    exact ⟨sb, hsb, hok, rfl⟩
  -- an exclusion of another reason can only come from the ballot itself: the numbers are distinct
  · intro sb hsb reason
    rw [mem_exclusions_iff hnodup]
    constructor
    · intro h
      refine ⟨⟨sb, rfl, .inl ((hmem sb hsb _).mp h)⟩, ?_⟩
      intro hdup
      exact validateBallot_ne_duplicate (hdup ▸ h)
    · rintro ⟨⟨sb', hseq, hmem' | ⟨-, -, hdup⟩⟩, hne⟩
      · have heq : sb = sb' := List.inj_on_of_nodup_map (f := StoredBallot.sequenceNumber)
          (by rwa [List.map_map]) hsb (List.mem_map_of_mem hmem') hseq
        rw [heq]
        exact hreason _ hmem'
      · exact absurd hdup hne
  -- the winner of the pseudonym is admitted, every other valid ballot under it is a duplicate
  · intro sb hsb hok
    obtain ⟨best, hbest, hp⟩ := exists_best config.duplicatePolicy ((hvalid sb).mpr ⟨hsb, hok⟩)
    obtain ⟨hmembest, hokbest⟩ := (hvalid best).mp hbest.1
    refine ⟨best, hmembest, hokbest, hp, ?_, ?_, ?_⟩
    · rw [← hp]
      exact hbest.keeps hvalid
    · rw [← hp]
      exact admitted_of_pseudonym (nodup_validOf hnodup) hbest
    · intro other hother hokother hpother hne
      rw [mem_exclusions_iff hnodup]
      refine ⟨other, rfl, .inr ⟨(hvalid other).mpr ⟨hother, hokother⟩, ?_, rfl⟩⟩
      intro hbest'
      exact hne (hbest'.unique (nodup_validOf hnodup) hbest (hpother.trans hp.symm))
  · show ((resolveDuplicates config.duplicatePolicy reasons).admitted.map AdmittedBallot.weight).sum = _
    rw [resolveDuplicates_admitted, List.map_map, List.map_map]
    rfl

/-- Admission that returns partitions the ballots, keeps the right one of each pseudonym, and does not
    look at the order of the list. -/
theorem admit_partitions (S : Suite G₁ G₂) (config : ElectionConfig) (mpkBytes : Bytes)
    {ballots : List StoredBallot} (hnodup : (ballots.map StoredBallot.sequenceNumber).Nodup)
    {r : AdmissionResult} (h : admitBallots S ballots config mpkBytes = .ok r) :
    (∃ mpk, g2FromCompressed S.g2 mpkBytes = .ok mpk ∧ Decides S config mpk ballots r) ∧
      ∀ ballots' : List StoredBallot, ballots'.Perm ballots →
        ∃ r', admitBallots S ballots' config mpkBytes = .ok r' ∧
          r'.exclusions = r.exclusions ∧ r'.admitted.Perm r.admitted := by
  obtain ⟨mpk, hkey, reasons, hreasons, rfl⟩ := admitBallots_eq_ok h
  obtain ⟨hfst, hreason⟩ := of_mapM_tagged hreasons
  refine ⟨⟨mpk, hkey, decides_of_reasons hnodup hfst hreason⟩, ?_⟩
  intro ballots' hperm
  obtain ⟨reasons', hreasons', hperm'⟩ := mapM_perm hperm hreasons
  refine ⟨resolveDuplicates config.duplicatePolicy reasons', ?_, ?_⟩
  · rw [admitBallots, hkey, ok_bind, hreasons', ok_bind]
    rfl
  · apply resolveDuplicates_perm _ hperm'
    rwa [← hfst, List.map_map] at hnodup

end

/-- A voter who sent one ballot twice, and a copy that came after the close. -/
theorem admit_partitions_three :
    let ballots : List StoredBallot :=
      [⟨0, sampleBallot 1, some 150⟩, ⟨1, sampleBallot 1, some 150⟩, ⟨2, sampleBallot 1, some 250⟩]
    let r : AdmissionResult := ⟨[⟨1, sampleBallot 1, 1⟩], [⟨0, .duplicatePseudonym⟩, ⟨2, .outOfWindow⟩], 1⟩
    admitBallots Residue.suite ballots smallConfig (beBytes 96 17) = .ok r ∧
      (∃ mpk, g2FromCompressed Residue.suite.g2 (beBytes 96 17) = .ok mpk ∧
        Decides Residue.suite smallConfig mpk ballots r) ∧
      ∀ ballots' : List StoredBallot, ballots'.Perm ballots →
        ∃ r', admitBallots Residue.suite ballots' smallConfig (beBytes 96 17) = .ok r' ∧
          r'.exclusions = r.exclusions ∧ r'.admitted.Perm r.admitted := by
  intro ballots r
  have hr : admitBallots Residue.suite ballots smallConfig (beBytes 96 17) = .ok r := by decide +kernel
  exact ⟨hr, admit_partitions Residue.suite smallConfig (beBytes 96 17) (by decide) hr⟩

end ElGamalVoting
