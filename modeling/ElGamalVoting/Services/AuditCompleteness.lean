import ElGamalVoting.Core.AdmissionWinners
import ElGamalVoting.Crypto.BallotCompleteness
import ElGamalVoting.Services.AuditSoundness
import ElGamalVoting.Services.HonestElection

/- When the audit of an honest election has no findings.

   The auditor's path meets the producers' at every step but one. The key it recomputes from the
   submissions is the finalized one, the aggregate is the published one, and the totals are those
   that decrypt it; what is left of the check on them is the rule on their sum. The bound it
   compares, though, is derived from the raw total weight, where `finalize` published the one
   of the scaled total. -/
namespace ElGamalVoting
open Lib

/-! ## The key -/

section
variable {E : EthLib} {calls : List Call} {electionId : Bytes} {st : Stored}

theorem submitterIndex_of_recovery {config : ElectionConfig} {sub : DKGResultSubmission} {i : Int}
    (h : keyperIndexByRecovery E config (dkgResultDigest E electionId sub.pkElection sub.committeePks)
      sub.keyperSignature = .ok i) : submitterIndex E config electionId sub = some i := by
  unfold keyperIndexByRecovery at h
  split at h
  · cases h
  · rename_i recovered hrecover
    split at h
    · cases h
    · rename_i idx hmember
      cases h
      rw [submitterIndex, hrecover]
      exact hmember

/-- The submissions, as the data layer lists them. -/
def Stored.listedSubmissions (st : Stored) : List DKGResultSubmission :=
  (sortedKeys st.dkgByKeyper).filterMap st.dkgByKeyper.get?

theorem Stored.CameFrom.submitter (h : st.CameFrom E calls electionId) {e : Int × DKGResultSubmission}
    (he : e ∈ st.dkgByKeyper.entries) : submitterIndex E st.config electionId e.2 = some e.1 :=
  submitterIndex_of_recovery (h.dkg e.1 e.2 (Dict.get?_eq_some.mpr he)).1

/-- The auditor recovers each signer as the store did, so its votes are the store's. -/
theorem Stored.CameFrom.signedVotes (h : st.CameFrom E calls electionId) :
    (signedVotes E st.config electionId st.listedSubmissions).Perm (dkgVotes st) := by
  refine ((sorted_values_perm st.dkgByKeyper).filterMap _).trans ?_
  have hvotes : st.dkgByKeyper.values.filterMap (fun sub =>
      (submitterIndex E st.config electionId sub).map fun idx =>
        (idx, (sub.pkElection, sub.committeePks), (sub.pkElection, sub.committeePks))) = dkgVotes st := by
    rw [Dict.values, List.filterMap_map, dkgVotes, ← List.filterMap_eq_map]
    apply List.filterMap_congr
    intro e he
    rw [Function.comp_apply, h.submitter he]
    rfl
  rw [hvotes]

/-- No stored submission is one the auditor turns away. -/
theorem Stored.CameFrom.recognised (h : st.CameFrom E calls electionId) :
    st.listedSubmissions.filter (fun sub => submitterIndex E st.config electionId sub = none) = [] := by
  rw [List.filter_eq_nil_iff]
  intro sub hsub
  obtain ⟨e, he, rfl⟩ := List.mem_map.mp ((sorted_values_perm st.dkgByKeyper).mem_iff.mp hsub)
  simp [h.submitter he]

theorem Stored.CameFrom.auditDkg (h : st.CameFrom E calls electionId) (hok : st.Ok E electionId)
    {K : FinalizedKey} (hkey : finalizedKeyOf st = .ok (some K)) :
    auditDkg E st.config electionId st.listedSubmissions (some K) = { dkgOk := true } := by
  rw [finalizedKeyOf_ok hok, Except.ok.injEq, Option.map_eq_some_iff] at hkey
  obtain ⟨w, hwin, rfl⟩ := hkey
  obtain ⟨i, k, hvote, hsupport⟩ := Quorum.winner_eq_some hwin
  obtain ⟨e, -, heq⟩ := List.mem_map.mp hvote
  cases heq
  have hperm := h.signedVotes
  have hvoters : ((ElGamalVoting.signedVotes E st.config electionId st.listedSubmissions).map Prod.fst).Nodup := by
    rw [(hperm.map Prod.fst).nodup_iff, dkgVotes, List.map_map]
    exact st.dkgByKeyper.nodup
  have hlen : (ElGamalVoting.signedVotes E st.config electionId st.listedSubmissions).length <
      st.config.threshold.t * 2 := by
    rw [hperm.length_eq, dkgVotes, List.length_map]
    exact votes_lt_two_quorums hok.dkgVoters
  rw [← Quorum.support_perm hperm] at hsupport
  have hrecomputed : recomputedKey E st.config electionId st.listedSubmissions =
      some (e.2.pkElection, e.2.committeePks) :=
    Quorum.find?_groupVotes st.config.threshold.one_le_t hvoters hlen hsupport
  simp [ElGamalVoting.auditDkg, hrecomputed, h.recognised]

end

/-! ## The audit of a store -/

section
variable {G₁ G₂ : Type} [AddCommGroup G₁] [AddCommGroup G₂] [DecidableEq G₁] [DecidableEq G₂]
  {S : Suite G₁ G₂} {E : EthLib} {calls : List Call} {electionId : Bytes} {st : Stored}

omit [DecidableEq G₁] in
/-- From the flags of the first two steps on, what is left is the check on the totals and the
    comparison of the bounds. -/
theorem auditResult_ok_iff {config : ElectionConfig} {A : AggregateArtifact}
    {shares : List DecryptionShareEnvelope} {committeePks : List Bytes} {r : ResultArtifact}
    (hreturns : Returns (checkResult S config A shares committeePks config.threshold.t r.totals)) :
    (∃ report, auditResult S { dkgOk := true, aggregateOk := true } config A shares committeePks r =
        .ok report ∧ report.ok = true) ↔
      checkResult S config A shares committeePks config.threshold.t r.totals = .ok none ∧
        r.bsgsBound = bsgsBound config A.totalAdmittedWeight := by
  obtain ⟨reason, hreason⟩ := hreturns
  rw [auditResult, hreason, ok_bind]
  cases reason with
  | some reason =>
    constructor
    · rintro ⟨report, hreport, hok⟩
      cases hreport
      rw [AuditReport.ok_note] at hok
      cases hok
    · rintro ⟨hnone, -⟩
      cases hnone
  | none =>
    dsimp only
    split
    · rename_i hne
      constructor
      · rintro ⟨report, hreport, hok⟩
        cases hreport
        rw [AuditReport.ok_note] at hok
        cases hok
      · rintro ⟨-, heq⟩
        exact absurd heq hne
    · rename_i heq
      exact ⟨fun _ => ⟨rfl, not_not.mp heq⟩, fun _ => ⟨_, rfl, rfl⟩⟩

/-- On a store whose canonical aggregate is the recomputed one and that has a result, the audit
    comes down to the check on the totals. -/
theorem audit_eq (hst : (runCalls E {} calls).elections.get? electionId = some st) {K : FinalizedKey}
    (hkey : finalizedKeyOf st = .ok (some K)) {A : AggregateArtifact}
    (hA : aggregateOf E electionId st = .ok (some A)) (hrecomputed : Recomputed S K st A)
    {r : ResultArtifact} (hr : st.result = some r) :
    audit S E ((runCalls E {} calls).reads E) electionId =
      auditResult S { dkgOk := true, aggregateOk := true } st.config A st.listedShares K.committeePks r := by
  have hstored := getStored_eq_ok.mpr hst
  have hfinal : getFinalizedKey (runCalls E {} calls) electionId = .ok (some K) :=
    getFinalizedKey_eq_some.mpr ⟨st, hst, hkey⟩
  have helection : getElection (runCalls E {} calls) electionId =
      .ok ⟨st.config, st.cancelled, some K, st.tallyStalled⟩ := by
    rw [getElection, hstored, ok_bind, hfinal, ok_bind]
    rfl
  have hsubmissions : getDkgSubmissions (runCalls E {} calls) electionId = .ok st.listedSubmissions := by
    rw [getDkgSubmissions, hstored, ok_bind]
    rfl
  have hagg : getAggregate E (runCalls E {} calls) electionId = .ok (some A) :=
    getAggregate_eq_some.mpr ⟨st, hst, hA⟩
  have hshares : listDecryptionShares (runCalls E {} calls) electionId = .ok st.listedShares := by
    rw [listDecryptionShares, hstored, ok_bind]
    rfl
  have hresult : getResult (runCalls E {} calls) electionId = .ok (some r) := by
    rw [getResult, hstored, ok_bind, hr]
    rfl
  have hok := ((ok_empty (E := E)).run calls).records _ _ hst
  have hballots := readAllBallots_run calls hst
  obtain ⟨admission, hadmission, hbuild⟩ := hrecomputed
  rw [audit]
  simp only [InMemoryDataLayer.reads] at hballots ⊢
  rw [helection, ok_bind, hsubmissions, ok_bind, hfinal, ok_bind]
  simp only [(cameFrom_run calls _ _ hst).auditDkg hok hkey]
  rw [hballots, ok_bind, hadmission, ok_bind, hbuild, ok_bind, hagg, ok_bind]
  simp only [auditAggregate, if_true]
  rw [hshares, ok_bind, hresult, ok_bind]

/-! ## The votes behind the ballots -/

/-- The scaled weights of the admitted ballots together. -/
def scaledTotal (config : ElectionConfig) (admitted : List AdmittedBallot) : Int :=
  (admitted.map fun a => scaledWeight a.weight config.scale).sum

/-- The votes the admitted ballots encrypt, whatever these are. -/
def VotesBehind (S : Suite G₁ G₂) (mpk : G₂) (admitted : List AdmittedBallot) (votes : List (List Int)) :
    Prop :=
  List.Forall₂ (fun ab vs => EncryptVotes S mpk ab.envelope.ciphertexts vs) admitted votes

/-- The weighted sums of the votes, as far as a point tells them. -/
def reducedTotals (config : ElectionConfig) (admitted : List AdmittedBallot) (votes : List (List Int)) :
    List Int :=
  (List.range config.numCandidates).map fun j => candidateTotal config.scale admitted votes j % curveOrder

/-- Votes as the proofs of the ballots have them: one for each candidate, none negative, and
    the budget together. -/
def SpendBudgets (config : ElectionConfig) (votes : List (List Int)) : Prop :=
  ∀ vs ∈ votes, vs.length = config.numCandidates ∧ (∀ v ∈ vs, 0 ≤ v) ∧ vs.sum = config.budget

omit [DecidableEq G₁] [DecidableEq G₂] in
/-- Every pair of points encrypts something. -/
theorem exists_encrypts (mpk : G₂) (ct : G₂ × G₂) : ∃ v, Encrypts S.g2 mpk v ct := by
  obtain ⟨r, hr⟩ := S.g2.generates ct.1
  obtain ⟨v, hv⟩ := S.g2.generates (ct.2 - r • mpk)
  refine ⟨v, r, Prod.ext ?_ ?_⟩
  · rw [hr, encrypt, S.g2.mul_eq_zsmul]
  · show ct.2 = mul mpk r + mul S.g2.gen v
    rw [S.g2.mul_eq_zsmul, S.g2.mul_eq_zsmul, ← hv, add_sub_cancel]

/-- The admitted ballots decode, so there are votes behind them. -/
theorem exists_votesBehind {config : ElectionConfig} {ballots : List StoredBallot} {mpkBytes : Bytes}
    {admission : AdmissionResult} (hadmission : admitBallots S ballots config mpkBytes = .ok admission)
    (mpk : G₂) : ∃ votes, VotesBehind S mpk admission.admitted votes := by
  obtain ⟨key, -, reasons, hreasons, rfl⟩ := admitBallots_eq_ok hadmission
  have hone : ∀ ab ∈ (resolveDuplicates config.duplicatePolicy reasons).admitted,
      ∃ vs, EncryptVotes S mpk ab.envelope.ciphertexts vs := by
    intro ab hab
    obtain ⟨sb, -, hvalid, rfl⟩ := of_mem_admitted hreasons hab
    obtain ⟨pts, hpts, -⟩ := (of_validateBallot hvalid).2.2
    rw [ciphertextPairs, List.mapM_map, mapM_eq_ok] at hpts
    choose vote hvote using exists_encrypts (S := S) mpk
    refine ⟨pts.map vote, List.forall₂_map_right_iff.mpr (hpts.imp ?_)⟩
    intro ct C hC
    exact ⟨C, hC, hvote C⟩
  choose! votes hvotes using hone
  exact ⟨_, List.forall₂_map_right_iff.mpr (List.forall₂_same.mpr hvotes)⟩

theorem weight_nonneg_of_admitted {config : ElectionConfig} {ballots : List StoredBallot} {mpkBytes : Bytes}
    {admission : AdmissionResult} (hadmission : admitBallots S ballots config mpkBytes = .ok admission)
    {ab : AdmittedBallot} (hab : ab ∈ admission.admitted) : 0 ≤ ab.weight := by
  obtain ⟨key, -, reasons, hreasons, rfl⟩ := admitBallots_eq_ok hadmission
  obtain ⟨sb, -, hvalid, rfl⟩ := of_mem_admitted hreasons hab
  exact (credential_bounds hvalid).1.1

/-- No admitted ballot has a negative weight, so the bound is not negative. -/
theorem scaledTotal_nonneg {config : ElectionConfig} {ballots : List StoredBallot} {mpkBytes : Bytes}
    {admission : AdmissionResult} (hadmission : admitBallots S ballots config mpkBytes = .ok admission) :
    0 ≤ bsgsBound config (scaledTotal config admission.admitted) := by
  apply mul_nonneg (Int.natCast_nonneg _)
  apply List.sum_nonneg
  intro w hw
  obtain ⟨ab, hab, rfl⟩ := List.mem_map.mp hw
  exact scaledWeight_nonneg (weight_nonneg_of_admitted hadmission hab) config.scale

omit [DecidableEq G₁] [DecidableEq G₂] in
/-- A total in range with the point of `T` is `T` reduced. -/
theorem IsTotal.eq_emod {bound total T : Int} (hq : bound < curveOrder)
    (h : IsTotal S bound total (T • S.g2.gen)) : total = T % curveOrder := by
  obtain ⟨h0, h1, heq⟩ := h
  have hmod := (ZMod.intCast_eq_intCast_iff _ _ _).mp (S.g2.gen_zsmul_inj.mp heq)
  rwa [Int.ModEq, Int.emod_eq_of_lt h0 (by omega)] at hmod

omit [DecidableEq G₁] [DecidableEq G₂] in
/-- Votes that spend every ballot's budget sum to the bound. -/
theorem sum_candidateTotal {mpk : G₂} {config : ElectionConfig} {admitted : List AdmittedBallot}
    {votes : List (List Int)} (hvotes : VotesBehind S mpk admitted votes)
    (hspent : SpendBudgets config votes) :
    ((List.range config.numCandidates).map (candidateTotal config.scale admitted votes)).sum =
      bsgsBound config (scaledTotal config admitted) := by
  induction hvotes with
  | nil =>
    have hzero : candidateTotal config.scale [] [] = fun _ => 0 := rfl
    simp [hzero, scaledTotal, bsgsBound]
  | @cons ab vs admitted votes hab _ ih =>
    have hrest := ih fun us hus => hspent us (List.mem_cons_of_mem vs hus)
    obtain ⟨hlen, -, hbudget⟩ := hspent vs List.mem_cons_self
    have hvs : ((List.range config.numCandidates).map fun j => vs.getD j 0) = vs := by
      rw [← hlen]
      apply List.ext_getElem
      · simp
      · intro j _ hj
        rw [List.getElem_map, List.getElem_range, List.getD_eq_getElem _ _ hj]
    have hsplit : candidateTotal config.scale (ab :: admitted) (vs :: votes) = fun j =>
        scaledWeight ab.weight config.scale * vs.getD j 0 + candidateTotal config.scale admitted votes j := by
      funext j
      rw [candidateTotal, List.zipWith_cons_cons, List.sum_cons, candidateTotal]
    rw [hsplit, List.sum_map_add, List.sum_map_mul_left, hvs, hbudget, hrest]
    simp only [bsgsBound, scaledTotal, List.map_cons, List.sum_cons]
    ring

/-- Ballots that spend their budgets, as their proofs say, keep to the rule on the sum. -/
theorem sumRule_of_spent {mpk : G₂} {config : ElectionConfig} {ballots : List StoredBallot} {mpkBytes : Bytes}
    {admission : AdmissionResult} (hadmission : admitBallots S ballots config mpkBytes = .ok admission)
    {votes : List (List Int)} (hvotes : VotesBehind S mpk admission.admitted votes)
    (hspent : SpendBudgets config votes)
    (hbound : bsgsBound config (scaledTotal config admission.admitted) < curveOrder) :
    SumRule config.mode (bsgsBound config (scaledTotal config admission.admitted))
      (reducedTotals config admission.admitted votes).sum := by
  have hwithin : List.Forall₂ (fun (ab : AdmittedBallot) vs => 0 ≤ ab.weight ∧ WithinBudget config.budget vs)
      admission.admitted votes := by
    rw [List.forall₂_iff_zip]
    refine ⟨hvotes.length_eq, fun {ab vs} hmem => ?_⟩
    obtain ⟨hab, hvs⟩ := List.of_mem_zip hmem
    obtain ⟨-, hpos, hsum⟩ := hspent vs hvs
    exact ⟨weight_nonneg_of_admitted hadmission hab, hpos, hsum.le⟩
  -- each sum is within the bound, below the group order
  have hreduced : reducedTotals config admission.admitted votes =
      (List.range config.numCandidates).map (candidateTotal config.scale admission.admitted votes) := by
    apply List.map_congr_left
    intro j _
    obtain ⟨h0, h1⟩ := candidateTotal_bounds j hwithin
    exact Int.emod_eq_of_lt h0 (lt_of_le_of_lt h1 hbound)
  rw [hreduced, sum_candidateTotal hvotes hspent]
  cases config.mode with
  | exact => exact rfl
  | atMost => exact le_rfl

/-! ## The audit of an honest election -/

section
variable {config : ElectionConfig} {C : Committee G₂} {dealer : Int → KeyperDKGState G₂}
  {received : Int → Dict Int Int} {A : AggregateArtifact} {shares : List DecryptionShareEnvelope}

omit [DecidableEq G₁] in
/-- From enough honest shares the points of the totals are derived. -/
theorem HonestShares.taus (h : HonestShares S E config C A shares)
    (hdkg : DkgComplete S.g2 config.threshold.n config.threshold.t C.commitments dealer received C.out)
    (hn : config.threshold.n < 2 ^ 16) (hquorum : config.threshold.t ≤ shares.length)
    {admission : AdmissionResult} (hbuild : buildAggregateArtifact S config admission = .ok A)
    {votes : List (List Int)}
    (hvotes : VotesBehind S (mul S.g2.gen (DkgComplete.secret S.g2 C.commitments)) admission.admitted votes) :
    ∃ used, deriveTaus S config A shares (C.key S config).committeePks config.threshold.t =
      .ok (some ((List.range config.numCandidates).map fun j =>
        candidateTotal config.scale admission.admitted votes j • S.g2.gen, used)) := by
  obtain ⟨points, hpoints, hdecode, -⟩ := buildAggregateArtifact_eq_ok hbuild
  have hlist : QuorumList S E config A C.out (publishedCommittee S.g2 config.threshold.n C.out) shares []
      shares :=
    ⟨by simp, h.distinct, hquorum, h.produced, by simp⟩
  rw [← decrypted_aggregate hvotes hpoints]
  exact hlist.taus hdkg hn hdecode

omit [DecidableEq G₁] [DecidableEq G₂] in
/-- Points were derived for some candidate, so there was a quorum of shares. -/
theorem quorum_le_of_deriveTaus {committeePks : List Bytes} {quorum : Nat} {admission : AdmissionResult}
    (hbuild : buildAggregateArtifact S config admission = .ok A) {taus : List G₂} {used : List Int}
    (h : deriveTaus S config A shares committeePks quorum = .ok (some (taus, used)))
    (hne : taus ≠ []) : quorum ≤ shares.length := by
  obtain ⟨points, -, hdecode, -⟩ := buildAggregateArtifact_eq_ok hbuild
  obtain ⟨steps, rfl, hsteps⟩ := deriveTaus_eq_some hdecode h
  obtain ⟨step, hstep⟩ := List.exists_mem_of_ne_nil steps (by simpa using hne)
  obtain ⟨P, -, valid, -, hvalid, hlen, -, -⟩ := forall₂_exists_left hsteps hstep
  rw [validShares_eq_ok hvalid] at hlen
  exact le_trans hlen (List.length_filterMap_le _ _)

omit [DecidableEq G₁] in
/-- A check whose points are derived returns. -/
theorem checkResult_returns {committeePks : List Bytes} {quorum : Nat} {totals : List Int}
    (h : Returns (deriveTaus S config A shares committeePks quorum)) :
    Returns (checkResult S config A shares committeePks quorum totals) := by
  obtain ⟨derived, hderived⟩ := h
  rw [checkResult]
  split
  · exact .ok _
  · rw [hderived, ok_bind]
    cases derived with
    | none => exact .ok _
    | some derived =>
      dsimp only
      repeat' split
      all_goals exact .ok _

/-- What an honest aggregator recovered: the reduced totals, under the scaled bound. -/
theorem HonestShares.recovered (h : HonestShares S E config C A shares)
    (hdkg : DkgComplete S.g2 config.threshold.n config.threshold.t C.commitments dealer received C.out)
    (hn : config.threshold.n < 2 ^ 16) {ballots : List StoredBallot} {mpkBytes : Bytes}
    {admission : AdmissionResult} (hadmission : admitBallots S ballots config mpkBytes = .ok admission)
    (hbuild : buildAggregateArtifact S config admission = .ok A)
    (hbound : bsgsBound config (scaledTotal config admission.admitted) < curveOrder)
    {votes : List (List Int)}
    (hvotes : VotesBehind S (mul S.g2.gen (DkgComplete.secret S.g2 C.commitments)) admission.admitted votes)
    {r : ResultArtifact}
    (hr : recoverResult S config A shares (C.key S config).committeePks config.threshold.t none =
      .ok (some r)) :
    config.threshold.t ≤ shares.length ∧
      r.bsgsBound = bsgsBound config (scaledTotal config admission.admitted) ∧
      r.totals = reducedTotals config admission.admitted votes ∧
      List.Forall₂ (IsTotal S (bsgsBound config (scaledTotal config admission.admitted))) r.totals
        ((List.range config.numCandidates).map fun j =>
          candidateTotal config.scale admission.admitted votes j • S.g2.gen) := by
  obtain ⟨points, hpoints, -, hscaled⟩ := buildAggregateArtifact_eq_ok hbuild
  obtain ⟨taus, used, totals, htaus, hfound, rfl⟩ := recoverResult_eq_some.mp hr
  have hlen : taus.length = config.numCandidates := by
    have hpts := (aggregatePoints_encrypts hvotes hpoints).2
    rw [length_deriveTaus htaus]
    rw [buildAggregateArtifact, hpoints, ok_bind] at hbuild
    cases hbuild
    rw [List.length_map, hpts]
  have hquorum : config.threshold.t ≤ shares.length := by
    refine quorum_le_of_deriveTaus hbuild htaus (List.ne_nil_of_length_pos ?_)
    rw [hlen]
    exact config.one_le_numCandidates
  obtain ⟨used', htaus'⟩ := h.taus hdkg hn hquorum hbuild hvotes
  cases htaus.symm.trans htaus'
  rw [hscaled] at hfound ⊢
  have htotals := (search_eq_some_of_nonneg (scaledTotal_nonneg hadmission) hbound).mp hfound
  refine ⟨hquorum, rfl, ?_, htotals⟩
  rw [List.forall₂_map_right_iff] at htotals
  have hreduced : reducedTotals config admission.admitted votes = totals.map id :=
    map_eq_of_forall₂ htotals fun total _ j htotal => (IsTotal.eq_emod hbound htotal).symm
  rw [hreduced, List.map_id]

omit [DecidableEq G₁] in
/-- The check on the totals that the audit of an honest election makes comes down to the rule
    on their sum. -/
theorem HonestShares.checked (h : HonestShares S E config C A shares)
    (hdkg : DkgComplete S.g2 config.threshold.n config.threshold.t C.commitments dealer received C.out)
    (hn : config.threshold.n < 2 ^ 16) (hquorum : config.threshold.t ≤ shares.length)
    {admission : AdmissionResult} (hbuild : buildAggregateArtifact S config admission = .ok A)
    {votes : List (List Int)}
    (hvotes : VotesBehind S (mul S.g2.gen (DkgComplete.secret S.g2 C.commitments)) admission.admitted votes)
    {totals : List Int}
    (htotals : List.Forall₂ (IsTotal S (bsgsBound config (scaledTotal config admission.admitted))) totals
      ((List.range config.numCandidates).map fun j =>
        candidateTotal config.scale admission.admitted votes j • S.g2.gen)) :
    Returns (checkResult S config A shares (C.key S config).committeePks config.threshold.t totals) ∧
      (checkResult S config A shares (C.key S config).committeePks config.threshold.t totals = .ok none ↔
        SumRule config.mode (bsgsBound config (scaledTotal config admission.admitted)) totals.sum) := by
  obtain ⟨-, -, -, hscaled⟩ := buildAggregateArtifact_eq_ok hbuild
  obtain ⟨used, htaus⟩ := h.taus hdkg hn hquorum hbuild hvotes
  refine ⟨checkResult_returns ⟨_, htaus⟩, ?_⟩
  rw [checkResult_eq_none, hscaled]
  constructor
  · rintro ⟨-, -, -, -, hsum⟩
    exact hsum
  · intro hsum
    exact ⟨_, used, htaus, htotals, hsum⟩

end

section
variable {config : ElectionConfig} {C : Committee G₂} {dealer : Int → KeyperDKGState G₂}
  {received : Int → Dict Int Int} {start stop : Int} {r : ResultArtifact} {K : FinalizedKey} {mpk : G₂}
  {admission : AdmissionResult} {votes : List (List Int)}

/-- What an honest election leaves for the audit: the published result is of the reduced totals
    and the scaled bound, and the check on it comes down to the rule on the sum. -/
theorem HonestRun.published (hrun : HonestRun S E config C start stop calls)
    (hdkg : DkgComplete S.g2 config.threshold.n config.threshold.t C.commitments dealer received C.out)
    (hn : config.threshold.n < 2 ^ 16)
    (hst : (runCalls E {} calls).elections.get? config.electionId = some st)
    (hconfig : st.config = config) (hr : st.result = some r) (hkey : finalizedKeyOf st = .ok (some K))
    (hmpk : g2FromCompressed S.g2 K.pkElection = .ok mpk)
    (hadmission : admitBallots S st.ballots config K.pkElection = .ok admission)
    (hbound : bsgsBound config (scaledTotal config admission.admitted) < curveOrder)
    (hvotes : VotesBehind S mpk admission.admitted votes) :
    r.totals = reducedTotals config admission.admitted votes ∧
    ((∃ report, audit S E ((runCalls E {} calls).reads E) config.electionId = .ok report ∧
        report.ok = true) ↔
      SumRule config.mode (bsgsBound config (scaledTotal config admission.admitted)) r.totals.sum ∧
        bsgsBound config (scaledTotal config admission.admitted) =
          bsgsBound config admission.totalAdmittedWeight) := by
  obtain ⟨A, shares, hA, hfinal, hshares, hlen, hrecovered⟩ := hrun.result hdkg hst hr
  cases hkey.symm.trans hfinal
  have hcanonical := hrun.canonical hdkg hst hA
  have hlisted := hrun.shares hst hA
  rw [audit_eq hst hkey hA hcanonical hr]
  subst hconfig
  obtain ⟨admission', hadmission', hbuild⟩ := hcanonical
  cases hadmission.symm.trans hadmission'
  -- the key of the DKG is the multiple of its secret
  have hsecret : mul S.g2.gen (DkgComplete.secret S.g2 C.commitments) = mpk :=
    Except.ok.inj ((S.g2.decodePoint_toCompressed _ _).symm.trans hmpk)
  rw [← hsecret] at hvotes
  obtain ⟨hquorum, hpublished, htotals, hall⟩ :=
    hshares.recovered hdkg hn hadmission hbuild hbound hvotes hrecovered
  obtain ⟨hreturns, hchecked⟩ :=
    hlisted.checked hdkg hn (le_trans hquorum hlen) hbuild hvotes hall
  have hweight : A.totalAdmittedWeight = admission.totalAdmittedWeight := by
    rw [buildAggregateArtifact] at hbuild
    obtain ⟨points, -, hbuild⟩ := bind_eq_ok.mp hbuild
    cases hbuild
    rfl
  rw [auditResult_ok_iff hreturns, hchecked, hpublished, hweight]
  exact ⟨htotals, Iff.rfl⟩

theorem totalAdmittedWeight_eq {ballots : List StoredBallot} {mpkBytes : Bytes}
    (hadmission : admitBallots S ballots config mpkBytes = .ok admission) :
    admission.totalAdmittedWeight = (admission.admitted.map AdmittedBallot.weight).sum := by
  obtain ⟨key, -, reasons, -, rfl⟩ := admitBallots_eq_ok hadmission
  rfl

/-- The budget is positive, so the bounds agree exactly when the totals do. -/
theorem bsgsBound_inj {a b : Int} : bsgsBound config a = bsgsBound config b ↔ a = b := by
  have hbudget : (config.budget : Int) ≠ 0 := by
    have := config.one_le_budget
    omega
  rw [bsgsBound, bsgsBound, mul_right_inj' hbudget]

end

/-- After an honest election with a published result, the audit has no findings exactly when the
    weights of the admitted ballots sum to what their scaled weights sum to, and the votes behind
    the ballots keep to the rule on their sum; and this they do when every ballot spends its
    budget, as its proof says. -/
theorem audit_complete_iff (S : Suite G₁ G₂) (E : EthLib) {config : ElectionConfig}
    (hn : config.threshold.n < 2 ^ 16) {C : Committee G₂} {dealer : Int → KeyperDKGState G₂}
    {received : Int → Dict Int Int}
    (hdkg : DkgComplete S.g2 config.threshold.n config.threshold.t C.commitments dealer received C.out)
    {start stop : Int} {calls : List Call} (hrun : HonestRun S E config C start stop calls) {st : Stored}
    (hst : (runCalls E {} calls).elections.get? config.electionId = some st)
    (hconfig : st.config = config) {r : ResultArtifact} (hr : st.result = some r) {K : FinalizedKey}
    (hkey : finalizedKeyOf st = .ok (some K)) {mpk : G₂}
    (hmpk : g2FromCompressed S.g2 K.pkElection = .ok mpk) {admission : AdmissionResult}
    (hadmission : admitBallots S st.ballots config K.pkElection = .ok admission)
    (hbound : bsgsBound config (scaledTotal config admission.admitted) < curveOrder) :
    (∃ votes, VotesBehind S mpk admission.admitted votes) ∧
    ∀ votes, VotesBehind S mpk admission.admitted votes →
      ((∃ report, audit S E ((runCalls E {} calls).reads E) config.electionId = .ok report ∧
          report.ok = true) ↔
        (admission.admitted.map AdmittedBallot.weight).sum = scaledTotal config admission.admitted ∧
          SumRule config.mode (bsgsBound config (scaledTotal config admission.admitted))
            (reducedTotals config admission.admitted votes).sum) ∧
      (SpendBudgets config votes →
        SumRule config.mode (bsgsBound config (scaledTotal config admission.admitted))
          (reducedTotals config admission.admitted votes).sum) := by
  refine ⟨exists_votesBehind hadmission mpk, fun votes hvotes => ⟨?_, fun hspent => ?_⟩⟩
  · obtain ⟨htotals, hiff⟩ :=
      hrun.published hdkg hn hst hconfig hr hkey hmpk hadmission hbound hvotes
    rw [hiff, bsgsBound_inj, totalAdmittedWeight_eq hadmission, htotals]
    exact ⟨fun h => ⟨h.2.symm, h.1⟩, fun h => ⟨h.2, h.1.symm⟩⟩
  · exact sumRule_of_spent hadmission hvotes hspent hbound

end

/-! ## Two small elections

    A committee of one, and one ballot of weight five: counted as it is, or in units of two. -/

namespace ScaleSample

/-- The election that counts in units of `k + 1`. -/
def config (k : Nat) : ElectionConfig :=
  { smallConfig with
    threshold := ⟨1, 1, Nat.one_pos, Nat.one_pos, by decide⟩
    keypers := [⟨beBytes 32 1, []⟩]
    resultPublisherKey := beBytes 32 4
    scale := k + 1
    one_le_scale := Nat.succ_pos k
    length_keypers := rfl
    nodup_keys := by decide }

def electionId : Bytes := smallConfig.electionId

def coeff : Int → Nat → Int := fun _ _ => 17

def committee : Committee Residue :=
  ⟨honestCommitments Residue.suite.g2 1 1 coeff, honestOut Residue.suite.g2 1 1 coeff⟩

def keyper : KeyperService Residue := committee.keyper 1 ⟨1⟩

/-- The store after the registration. -/
def registered (k : Nat) : InMemoryDataLayer where
  elections := (∅ : Dict Bytes Stored).set (config k).electionId { config := config k }
  nextId := 1

def register (k : Nat) : Call :=
  ⟨0, 0, .register (config k) (plainEth.signMessage (config k).adminKey (registerDigest plainEth (config k)))⟩

theorem prints : ∀ k < 2, (config k).prints = true := by
  decide +kernel

theorem runCalls_register {k : Nat} (hk : k < 2) (calls : List Call) :
    runCalls plainEth {} (register k :: calls) = runCalls plainEth (registered k) calls := by
  have hregister : Call.perform plainEth (register k) {} = .ok (registered k) :=
    registerElection_first rfl (prints k hk) fun digest =>
      plainEth_recoverMessage (by show smallConfig.adminKey.length < 256; decide) digest
  rw [runCalls, List.foldl_cons, Call.apply, hregister]
  rfl

def submission : DKGResultSubmission :=
  (keyper.dkgResult Residue.suite plainEth electionId committee.commitments).toOption.getD ⟨[], [], [], []⟩

def submit : Call :=
  ⟨50, 50, .dkgResult electionId submission.pkElection submission.committeePks submission.keyperSignature⟩

/-- A credential for weight five. -/
def attestation : Attestation :=
  { sampleAttestation 5 with
    signature := (signAttestation Residue.suite 11 (Residue.ofNat 11) (sampleFields 5) 5).toOption.getD [] }

@[irreducible] def ballot : BallotEnvelope :=
  BuiltBallot.envelope ((buildBallot Residue.suite (Residue.ofNat 17) electionId (sampleFields 5).pseudonym 3
    (Residue.ofNat 3) attestation [1] 1 1 ⟨[6], [7], [[(8, 9), (10, 12)]], 13, 14⟩).toOption.getD
      ⟨[], [], [], [], [], [], []⟩) attestation

def vote : Call := ⟨150, 150, .ballot electionId ballot []⟩

/-- The units the ballot counts for. -/
def units (k : Nat) : Nat := (5 + (k + 1) / 2) / (k + 1)

def aggregate (k : Nat) : AggregateArtifact where
  electionId := electionId
  aggregates := [⟨beBytes 96 (6 * units k), beBytes 96 (103 * units k)⟩]
  admitted := [0]
  exclusions := []
  totalAdmittedWeight := 5
  totalScaledWeight := units k

/-- The signature of the private key `key`. -/
def signed (key : Nat) (digest : Py Bytes) : Bytes :=
  plainEth.signMessage (beBytes 32 key) (digest.toOption.getD [])

def submitAggregate (k : Nat) : Call :=
  ⟨250, 250, .aggregate electionId (aggregate k)
    (signed 1 (aggregateDigestOf plainEth electionId (aggregate k)))⟩

@[irreducible] def share (k : Nat) : DecryptionShareEnvelope :=
  ⟨electionId, 1, (keyper.decryptEntries Residue.suite electionId (aggregate k).aggregates
    fun _ => 9).toOption.getD []⟩

def submitShare (k : Nat) : Call :=
  ⟨250, 250, .decryptionShare electionId (share k)
    (signed 1 (shareEnvelopeDigest plainEth electionId (share k).entries))⟩

def result (k : Nat) : ResultArtifact := ⟨electionId, [units k], [1], units k⟩

def resultSig (k : Nat) : Bytes :=
  signed 4 ((resultDigest plainEth electionId (result k)).bind (requestDigest plainEth "result" electionId))

def publish (k : Nat) : Call := ⟨250, 250, .result electionId (result k) (resultSig k)⟩

def calls (k : Nat) : List Call :=
  [register k, submit, vote, submitAggregate k, submitShare k, publish k]

theorem submission_eq :
    keyper.dkgResult Residue.suite plainEth electionId committee.commitments = .ok submission := by
  decide +kernel

/-- The store when the committee aggregates, when it decrypts and when the result is recovered. -/
def storeAt (k : Nat) (calls : List Call) : InMemoryDataLayer :=
  runCalls plainEth (registered k) (submit :: vote :: calls)

theorem aggregated : ∀ k < 2,
    keyper.produceAggregate Residue.suite plainEth ((storeAt k []).reads plainEth) electionId 250 =
      .ok (aggregate k, signed 1 (aggregateDigestOf plainEth electionId (aggregate k))) := by
  decide +kernel

theorem decrypted : ∀ k < 2,
    keyper.produceDecryptionShare Residue.suite plainEth ((storeAt k [submitAggregate k]).reads plainEth)
      electionId 250 (fun _ => 9) =
      .ok (some (share k, signed 1 (shareEnvelopeDigest plainEth electionId (share k).entries))) := by
  decide +kernel

theorem published : ∀ k < 2, (match finalize Residue.suite plainEth
    ((storeAt k [submitAggregate k, submitShare k]).reads plainEth) electionId ⟨4⟩ 250 with
    | .publish r sig => some (r, sig)
    | _ => none) = some (result k, resultSig k) := by
  decide +kernel

theorem finalized {k : Nat} (hk : k < 2) :
    finalize Residue.suite plainEth ((storeAt k [submitAggregate k, submitShare k]).reads plainEth)
      electionId ⟨4⟩ 250 = .publish (result k) (resultSig k) := by
  have hpublished := published k hk
  split at hpublished
  · rename_i heq
    cases hpublished
    exact heq
  · cases hpublished

theorem mem_committee (k : Nat) : (1 : Int) ∈ keyperIndices (config k).threshold.n := by
  show (1 : Int) ∈ keyperIndices 1
  decide

theorem submit_honest (k : Nat) (past : List Call) :
    HonestCall Residue.suite plainEth (config k) committee 0 past submit :=
  fun _ => ⟨1, mem_committee k, ⟨1⟩, submission_eq⟩

/-- Each maker works on the store its call then meets. -/
theorem moment (past : List Call) (call : Call) (h : Timed 0 past call.now) :
    Moment plainEth 0 past call (runCalls plainEth {} past) call.now :=
  ⟨past, [], (List.append_nil _).symm, rfl, h, le_refl call.now⟩

theorem submitAggregate_honest {k : Nat} (hk : k < 2) :
    HonestCall Residue.suite plainEth (config k) committee 0 [register k, submit, vote] (submitAggregate k) := by
  have hmoment := moment [register k, submit, vote] (submitAggregate k)
    (by simp [Timed, register, submit, vote, submitAggregate])
  rw [runCalls_register hk] at hmoment
  exact fun _ => ⟨1, mem_committee k, ⟨1⟩, _, 250, hmoment, aggregated k hk⟩

theorem submitShare_honest {k : Nat} (hk : k < 2) :
    HonestCall Residue.suite plainEth (config k) committee 0 [register k, submit, vote, submitAggregate k]
      (submitShare k) := by
  have hmoment := moment [register k, submit, vote, submitAggregate k] (submitShare k)
    (by simp [Timed, register, submit, vote, submitAggregate, submitShare])
  rw [runCalls_register hk] at hmoment
  exact fun _ => ⟨1, mem_committee k, ⟨1⟩, _, 250, fun _ => 9, hmoment, decrypted k hk⟩

theorem publish_honest {k : Nat} (hk : k < 2) :
    HonestCall Residue.suite plainEth (config k) committee 0
      [register k, submit, vote, submitAggregate k, submitShare k] (publish k) := by
  have hmoment := moment [register k, submit, vote, submitAggregate k, submitShare k] (publish k)
    (by simp [Timed, register, submit, vote, submitAggregate, submitShare, publish])
  rw [runCalls_register hk] at hmoment
  exact fun _ => ⟨⟨4⟩, _, 250, hmoment, finalized hk⟩

theorem honestRun {k : Nat} (hk : k < 2) :
    HonestRun Residue.suite plainEth (config k) committee 0 300 (calls k) where
  timed := by simp [calls, Timed, register, submit, vote, submitAggregate, submitShare, publish]
  honest := by
    intro past call rest h
    rcases past with _ | ⟨_, _ | ⟨_, _ | ⟨_, _ | ⟨_, _ | ⟨_, _ | ⟨_, past⟩⟩⟩⟩⟩⟩
    · cases h
      exact trivial
    · cases h
      exact submit_honest k _
    · cases h
      exact trivial
    · cases h
      exact submitAggregate_honest hk
    · cases h
      exact submitShare_honest hk
    · cases h
      exact publish_honest hk
    · exact absurd (congrArg List.length h) (by simp [calls])

/-- The record of the election in the end. -/
def stored (k : Nat) : Stored :=
  ((storeAt k [submitAggregate k, submitShare k, publish k]).elections.get? electionId).getD
    { config := config k }

theorem stored_fields : ∀ k < 2,
    ((storeAt k [submitAggregate k, submitShare k, publish k]).elections.get? electionId).isSome = true ∧
      (stored k).config = config k ∧ (stored k).result = some (result k) ∧
      aggregateOf plainEth electionId (stored k) = .ok (some (aggregate k)) := by
  decide +kernel

theorem get?_stored {k : Nat} (hk : k < 2) :
    (runCalls plainEth {} (calls k)).elections.get? (config k).electionId = some (stored k) := by
  obtain ⟨st, hst⟩ := Option.isSome_iff_exists.mp (stored_fields k hk).1
  rw [calls, runCalls_register hk, stored, hst]
  exact hst

theorem dkgComplete (k : Nat) : DkgComplete Residue.suite.g2 (config k).threshold.n (config k).threshold.t
    committee.commitments (honestDealer Residue.suite.g2 1 1 coeff) (honestShares Residue.suite.g2 1 1 coeff)
    committee.out :=
  honest_dkgComplete Residue.suite.g2 1 1 coeff

/-- The stored ballots are admitted, with the weights of the aggregate. -/
theorem admits {k : Nat} (hk : k < 2) : ∃ K admission, finalizedKeyOf (stored k) = .ok (some K) ∧
    g2FromCompressed Residue.suite.g2 K.pkElection =
      .ok (mul Residue.suite.g2.gen (DkgComplete.secret Residue.suite.g2 committee.commitments)) ∧
    admitBallots Residue.suite (stored k).ballots (config k) K.pkElection = .ok admission ∧
    (admission.admitted.map AdmittedBallot.weight).sum = 5 ∧
    scaledTotal (config k) admission.admitted = units k := by
  obtain ⟨-, hconfig, hresult, haggregate⟩ := stored_fields k hk
  obtain ⟨-, -, -, hkey, -⟩ := (honestRun hk).result (dkgComplete k) (get?_stored hk) hresult
  obtain ⟨admission, hadmission, hbuild⟩ := (honestRun hk).canonical (dkgComplete k) (get?_stored hk) haggregate
  rw [hconfig] at hadmission hbuild
  refine ⟨_, admission, hkey, Residue.suite.g2.decodePoint_toCompressed _ _, hadmission, ?_, ?_⟩
  · rw [← totalAdmittedWeight_eq hadmission]
    rw [buildAggregateArtifact] at hbuild
    obtain ⟨points, -, hbuild⟩ := bind_eq_ok.mp hbuild
    exact congrArg AggregateArtifact.totalAdmittedWeight (Except.ok.inj hbuild)
  · obtain ⟨-, -, -, hscaled⟩ := buildAggregateArtifact_eq_ok hbuild
    exact hscaled.symm

end ScaleSample

open ScaleSample in
/-- Counted as it is, the ballot of weight five leaves nothing to find. -/
theorem audit_complete_of_five :
    ∃ report, audit Residue.suite plainEth ((runCalls plainEth {} (calls 0)).reads plainEth)
      (config 0).electionId = .ok report ∧ report.ok = true := by
  have hk : 0 < 2 := by decide
  obtain ⟨K, admission, hkey, hmpk, hadmission, hweight, hscaled⟩ := admits hk
  obtain ⟨-, hconfig, hresult, -⟩ := stored_fields 0 hk
  have hbound : bsgsBound (config 0) (scaledTotal (config 0) admission.admitted) < curveOrder := by
    rw [hscaled]
    decide
  obtain ⟨⟨votes, hvotes⟩, hiff⟩ := audit_complete_iff Residue.suite plainEth (by decide) (dkgComplete 0)
    (honestRun hk) (get?_stored hk) hconfig hresult hkey hmpk hadmission hbound
  refine (hiff votes hvotes).1.mpr ⟨by rw [hweight, hscaled]; rfl, ?_⟩
  rw [← ((honestRun hk).published (dkgComplete 0) (by decide) (get?_stored hk) hconfig hresult hkey hmpk
    hadmission hbound hvotes).1, hscaled]
  rfl

open ScaleSample in
/-- Counted in units of two it is three units, and the audit of the honest election fails: it
    derives a bound of five. -/
theorem scaled_audit_fails :
    HonestRun Residue.suite plainEth (config 1) committee 0 300 (calls 1) ∧
    (runCalls plainEth {} (calls 1)).elections.get? (config 1).electionId = some (stored 1) ∧
    (stored 1).config = config 1 ∧ (config 1).threshold.n < 2 ^ 16 ∧
    (stored 1).result = some (result 1) ∧
    (∃ K admission, finalizedKeyOf (stored 1) = .ok (some K) ∧
      admitBallots Residue.suite (stored 1).ballots (config 1) K.pkElection = .ok admission ∧
      bsgsBound (config 1) (scaledTotal (config 1) admission.admitted) < curveOrder) ∧
    ¬ ∃ report, audit Residue.suite plainEth ((runCalls plainEth {} (calls 1)).reads plainEth)
      (config 1).electionId = .ok report ∧ report.ok = true := by
  have hk : 1 < 2 := by decide
  obtain ⟨K, admission, hkey, hmpk, hadmission, hweight, hscaled⟩ := admits hk
  obtain ⟨-, hconfig, hresult, -⟩ := stored_fields 1 hk
  have hbound : bsgsBound (config 1) (scaledTotal (config 1) admission.admitted) < curveOrder := by
    rw [hscaled]
    decide
  refine ⟨honestRun hk, get?_stored hk, hconfig, by decide, hresult, ⟨K, admission, hkey, hadmission, hbound⟩, ?_⟩
  obtain ⟨votes, hvotes⟩ := exists_votesBehind hadmission
    (mul Residue.suite.g2.gen (DkgComplete.secret Residue.suite.g2 committee.commitments))
  rw [((honestRun hk).published (dkgComplete 1) (by decide) (get?_stored hk) hconfig hresult hkey hmpk
    hadmission hbound hvotes).2, totalAdmittedWeight_eq hadmission, hweight, hscaled]
  rintro ⟨-, hsame⟩
  exact absurd hsame (by decide)

end ElGamalVoting
