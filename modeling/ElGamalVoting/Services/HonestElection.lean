import ElGamalVoting.Adapters.MemoryHistory
import ElGamalVoting.Services.CompleteReads
import ElGamalVoting.Services.Tally
import ElGamalVoting.Services.TallyAggregator

/- An election run by an honest committee and an honest tally aggregator.

   Ballots, stall requests, cancellations and whatever concerns other elections are any calls at
   all. A key, an aggregate, a share or a result of the election is what `submit_dkg_result`,
   `produce_aggregate`, `produce_decryption_share` or `finalize` made of the store at an earlier
   moment, under one clock; between the making and the writing anything may happen.

   From this it follows that every stored aggregate is the one recomputed from the final ballots,
   that every stored share is an honest one of the canonical aggregate, and that a stored result
   was recovered from such shares. -/
namespace ElGamalVoting
open Lib

section
variable {G₁ G₂ : Type} [AddCommGroup G₁] [AddCommGroup G₂] [DecidableEq G₁] [DecidableEq G₂]

/-- A moment after some of the calls `past` and before `call`: the store and the clock then. -/
def Moment (E : EthLib) (start : Int) (past : List Call) (call : Call) (s : InMemoryDataLayer)
    (now : Int) : Prop :=
  ∃ before between, past = before ++ between ∧ s = runCalls E {} before ∧ Timed start before now ∧
    Timed now between call.now

/-- A committee after its DKG: the commitments, and what each keyper is left with. -/
structure Committee (G₂ : Type) where
  commitments : Dict Int (List G₂)
  out : Int → KeyperDKGState G₂ × Int × G₂

/-- Member `i` of the committee, with its signing key. -/
def Committee.keyper (C : Committee G₂) (i : Int) (signer : Signer) : KeyperService G₂ :=
  ⟨i, signer, (C.out i).1⟩

section
variable (S : Suite G₁ G₂) (E : EthLib) (config : ElectionConfig) (C : Committee G₂) (start : Int)

/-- What a call of the election carries: something made of the store at an earlier moment. -/
def HonestCall (past : List Call) (call : Call) : Prop :=
  match call.write with
  | .dkgResult electionId pkElection committeePks sig => electionId = config.electionId →
    ∃ i ∈ keyperIndices config.threshold.n, ∃ signer,
      (C.keyper i signer).dkgResult S E electionId C.commitments =
        .ok ⟨electionId, pkElection, committeePks, sig⟩
  | .aggregate electionId aggregate sig => electionId = config.electionId →
    ∃ i ∈ keyperIndices config.threshold.n, ∃ signer s now, Moment E start past call s now ∧
      (C.keyper i signer).produceAggregate S E (s.reads E) electionId now = .ok (aggregate, sig)
  | .decryptionShare electionId share sig => electionId = config.electionId →
    ∃ i ∈ keyperIndices config.threshold.n, ∃ signer s now nonce, Moment E start past call s now ∧
      (C.keyper i signer).produceDecryptionShare S E (s.reads E) electionId now nonce =
        .ok (some (share, sig))
  | .result electionId result sig => electionId = config.electionId →
    ∃ publisher s now, Moment E start past call s now ∧
      finalize S E (s.reads E) electionId publisher now = .publish result sig
  | _ => True

/-- A run from the empty store whose calls of the election are honest. -/
structure HonestRun (stop : Int) (calls : List Call) : Prop where
  timed : Timed start calls stop
  honest : ∀ past call rest, calls = past ++ call :: rest → HonestCall S E config C start past call

/-- The key and the committee keys of a completed DKG, as published. -/
noncomputable def Committee.key : FinalizedKey :=
  ⟨S.g2.toCompressed (mul S.g2.gen (DkgComplete.secret S.g2 C.commitments)),
    publishedCommittee S.g2 config.threshold.n C.out⟩

end

variable {S : Suite G₁ G₂} {E : EthLib} {config : ElectionConfig} {C : Committee G₂} {start stop : Int}
  {calls : List Call} {st : Stored}

/-! ## Moments of a run -/

/-- A run up to a moment of it is a run. -/
theorem HonestRun.take {before after : List Call} {now : Int}
    (h : HonestRun S E config C start stop (before ++ after)) (htimed : Timed start before now) :
    HonestRun S E config C start now before := by
  refine ⟨htimed, fun past call rest hsplit => h.honest past call (rest ++ after) ?_⟩
  rw [hsplit, List.append_assoc, List.cons_append]

/-- What is known of a moment before a call of the run: it ends a run itself, its record is
    kept, and after the close of voting the ballots are. -/
theorem HonestRun.moment (h : HonestRun S E config C start stop calls) {past rest : List Call} {call : Call}
    (hsplit : calls = past ++ call :: rest) {s : InMemoryDataLayer} {now : Int}
    (hmoment : Moment E start past call s now)
    (hst : (runCalls E {} calls).elections.get? config.electionId = some st) {st₀ : Stored}
    (hst₀ : s.elections.get? config.electionId = some st₀) :
    (∃ before, s = runCalls E {} before ∧ HonestRun S E config C start now before) ∧ now ≤ call.now ∧
      st₀.Later E config.electionId st ∧ (st₀.config.votingEnd ≤ now → st.ballots = st₀.ballots) := by
  obtain ⟨before, between, rfl, rfl, hbefore, hbetween⟩ := hmoment
  obtain ⟨-, hcall, hrest⟩ := timed_split (hsplit ▸ h.timed)
  have hcalls : calls = before ++ (between ++ call :: rest) := by rw [hsplit, List.append_assoc]
  have hok : (runCalls E {} before).Ok E := ok_empty.run before
  have hend : runCalls E {} calls = runCalls E (runCalls E {} before) (between ++ call :: rest) := by
    rw [hcalls, runCalls_append]
  rw [hend] at hst
  refine ⟨⟨before, rfl, (hcalls ▸ h).take hbefore⟩, (timed_bounds hbetween).1, ?_, fun hclosed => ?_⟩
  · obtain ⟨st', hst', hlater⟩ := hok.later hst₀ (between ++ call :: rest)
    cases hst.symm.trans hst'
    exact hlater
  · -- no reading after the moment is before it
    have hnow : ∀ c ∈ between ++ call :: rest, st₀.config.votingEnd ≤ c.now := by
      intro c hc
      have hmiddle := (timed_bounds hbetween).1
      rcases List.mem_append.mp hc with hc | hc
      · have := (timed_bounds hbetween).2 c hc
        omega
      · rcases List.mem_cons.mp hc with rfl | hc
        · omega
        · have := (timed_bounds hrest).2 c hc
          omega
    obtain ⟨st', hst', hballots⟩ := hok.ballots_closed hst₀ hnow
    cases hst.symm.trans hst'
    exact hballots

/-! ## The reads a maker makes -/

variable {s : InMemoryDataLayer} {electionId : Bytes} {now : Int}

/-- The guards a keyper's call passed: a key, and the close of voting or a result. -/
theorem checkCanAggregate_eq_ok {record : ElectionRecord} {key : FinalizedKey}
    (h : KeyperService.checkCanAggregate (s.reads E) electionId now = .ok (record, key)) :
    ∃ st, s.elections.get? electionId = some st ∧ finalizedKeyOf st = .ok (some key) ∧
      record.config = st.config ∧ (st.config.votingEnd ≤ now ∨ st.result.isSome = true) := by
  rw [KeyperService.checkCanAggregate] at h
  obtain ⟨record', hrecord, h⟩ := bind_eq_ok.mp h
  obtain ⟨result, hresult, h⟩ := bind_eq_ok.mp h
  obtain ⟨st, hst, hkey, hconfig⟩ := getElection_eq_ok hrecord
  obtain rfl : st.result = result := by
    change getResult s electionId = .ok result at hresult
    rw [getResult, getStored_eq_ok.mpr hst, ok_bind] at hresult
    exact Except.ok.inj hresult
  dsimp only at h
  split at h
  · cases h
  · rename_i hstate
    split at h
    · cases h
    · rename_i key' hfinal
      cases h
      refine ⟨st, hst, hfinal ▸ hkey, hconfig, ?_⟩
      rw [hconfig] at hstate
      by_contra hnone
      push Not at hnone
      obtain ⟨hopen, hresult⟩ := hnone
      rw [deriveState] at hstate
      refine hstate ?_
      split_ifs <;> simp_all

/-! ## The key -/

section
variable {dealer : Int → KeyperDKGState G₂} {received : Int → Dict Int Int}

omit [DecidableEq G₁] in
/-- Every keyper derives and signs the one key of the DKG. -/
theorem dkgResult_eq_ok
    (hdkg : DkgComplete S.g2 config.threshold.n config.threshold.t C.commitments dealer received C.out)
    {i : Int} (hi : i ∈ keyperIndices config.threshold.n) {signer : Signer} {sub : DKGResultSubmission}
    (h : (C.keyper i signer).dkgResult S E electionId C.commitments = .ok sub) :
    (sub.pkElection, sub.committeePks) = ((C.key S config).pkElection, (C.key S config).committeePks) := by
  have hquorum : (C.keyper i signer).dkg.quorum = config.threshold.t := by
    obtain ⟨-, -, -, hst⟩ := round2_eq_ok S.g2 (hdkg.completes i hi)
    show (C.out i).1.quorum = config.threshold.t
    rw [hst]
    exact (hdkg.parties i hi).2
  rw [KeyperService.dkgResult, hquorum] at h
  rw [hdkg.jointMpk config.threshold.one_le_t, ok_bind, hdkg.committee, ok_bind] at h
  obtain ⟨sig, -, h⟩ := bind_eq_ok.mp h
  cases h
  rw [List.map_map]
  rfl

/-- A stored submission is of the key of the DKG. -/
theorem HonestRun.submission (h : HonestRun S E config C start stop calls)
    (hdkg : DkgComplete S.g2 config.threshold.n config.threshold.t C.commitments dealer received C.out)
    (hst : (runCalls E {} calls).elections.get? config.electionId = some st) {i : Int}
    {sub : DKGResultSubmission} (hsub : st.dkgByKeyper.get? i = some sub) :
    (sub.pkElection, sub.committeePks) = ((C.key S config).pkElection, (C.key S config).committeePks) := by
  obtain ⟨-, call, hcall, hwrite⟩ := (cameFrom_run calls _ _ hst).dkg i sub hsub
  obtain ⟨past, rest, hsplit⟩ := List.append_of_mem hcall
  have hhonest := h.honest past call rest hsplit
  rw [HonestCall, hwrite] at hhonest
  obtain ⟨j, hj, signer, hresult⟩ := hhonest rfl
  have hkey := dkgResult_eq_ok hdkg hj hresult
  exact hkey

/-- A finalized key is the key of the DKG. -/
theorem HonestRun.key (h : HonestRun S E config C start stop calls)
    (hdkg : DkgComplete S.g2 config.threshold.n config.threshold.t C.commitments dealer received C.out)
    (hst : (runCalls E {} calls).elections.get? config.electionId = some st) {K : FinalizedKey}
    (hkey : finalizedKeyOf st = .ok (some K)) : K = C.key S config := by
  have hok := ((ok_empty (E := E)).run calls).records _ _ hst
  rw [finalizedKeyOf_ok hok, Except.ok.injEq, Option.map_eq_some_iff] at hkey
  obtain ⟨w, hwin, rfl⟩ := hkey
  obtain ⟨i, k, hvote, -⟩ := Quorum.winner_eq_some hwin
  obtain ⟨⟨j, sub⟩, hsub, heq⟩ := List.mem_map.mp hvote
  cases heq
  have hcontent := h.submission hdkg hst (Dict.get?_eq_some.mpr hsub)
  rw [Prod.mk.injEq] at hcontent
  rw [hcontent.1, hcontent.2]

/-! ## The close of voting -/

/-- A result is stored only after the close of voting. -/
theorem HonestRun.closed (h : HonestRun S E config C start stop calls)
    (hst : (runCalls E {} calls).elections.get? config.electionId = some st)
    (hresult : st.result.isSome = true) : st.config.votingEnd ≤ stop := by
  obtain ⟨r, hr⟩ := Option.isSome_iff_exists.mp hresult
  obtain ⟨call, hcall, sig, hwrite⟩ := (cameFrom_run calls _ _ hst).result r hr
  obtain ⟨past, rest, hsplit⟩ := List.append_of_mem hcall
  have hhonest := h.honest past call rest hsplit
  rw [HonestCall, hwrite] at hhonest
  obtain ⟨publisher, s, now, hmoment, hpublish⟩ := hhonest rfl
  obtain ⟨record, -, -, -, hrecord, -, hclosed, -⟩ := finalize_eq_publish hpublish
  obtain ⟨st₀, hst₀, -, hconfig⟩ := getElection_eq_ok hrecord
  obtain ⟨-, hle, hlater, -⟩ := h.moment hsplit hmoment hst hst₀
  have hstop := ((timed_bounds h.timed).2 call hcall).2
  rw [hlater.config, ← hconfig]
  omega

/-- A keyper whose guards passed acts after the close of voting, with the key of the DKG. -/
theorem HonestRun.guards (h : HonestRun S E config C start stop calls)
    (hdkg : DkgComplete S.g2 config.threshold.n config.threshold.t C.commitments dealer received C.out)
    {record : ElectionRecord} {key : FinalizedKey}
    (hguard : KeyperService.checkCanAggregate ((runCalls E {} calls).reads E) config.electionId stop =
      .ok (record, key)) :
    ∃ st, (runCalls E {} calls).elections.get? config.electionId = some st ∧ record.config = st.config ∧
      key = C.key S config ∧ st.config.votingEnd ≤ stop := by
  obtain ⟨st, hst, hkey, hconfig, hclosed⟩ := checkCanAggregate_eq_ok hguard
  refine ⟨st, hst, hconfig, h.key hdkg hst hkey, ?_⟩
  rcases hclosed with hclosed | hresult
  · exact hclosed
  · exact h.closed hst hresult

/-! ## The aggregate -/

/-- What a keyper produces is the aggregate of the ballots it read. -/
theorem produceAggregate_eq_ok {keyper : KeyperService G₂} {dl : DataLayer} {A : AggregateArtifact}
    {sig : Bytes} (h : keyper.produceAggregate S E dl electionId now = .ok (A, sig)) :
    ∃ record key stored admission, KeyperService.checkCanAggregate dl electionId now = .ok (record, key) ∧
      readAllBallots dl electionId = .ok stored ∧
      admitBallots S stored record.config key.pkElection = .ok admission ∧
      buildAggregateArtifact S record.config admission = .ok A := by
  rw [KeyperService.produceAggregate] at h
  obtain ⟨⟨record, key⟩, hguard, h⟩ := bind_eq_ok.mp h
  obtain ⟨stored, hstored, h⟩ := bind_eq_ok.mp h
  obtain ⟨admission, hadmission, h⟩ := bind_eq_ok.mp h
  obtain ⟨artifact, hbuild, h⟩ := bind_eq_ok.mp h
  obtain ⟨digest, -, h⟩ := bind_eq_ok.mp h
  obtain ⟨sig', -, h⟩ := bind_eq_ok.mp h
  cases h
  exact ⟨record, key, stored, admission, hguard, hstored, hadmission, hbuild⟩

/-- The ballot list of the store, read in pages. -/
theorem readAllBallots_run (calls : List Call) {st : Stored}
    (hst : (runCalls E {} calls).elections.get? electionId = some st) :
    readAllBallots ((runCalls E {} calls).reads E) electionId = .ok st.ballots := by
  have hnumbers : st.ballots.map StoredBallot.sequenceNumber = pyRange st.ballots.length :=
    numbers_eq_pyRange (numbered_run E calls electionId st hst)
  let store : GrowingStore := ⟨fun _ => st.ballots, fun _ => List.prefix_rfl, fun _ => hnumbers⟩
  have hanswers : store.Answers (fun _ => (runCalls E {} calls).reads E) electionId := by
    refine ⟨?_, fun i start count _ => ⟨(st.ballots.drop start).take count, ?_, List.prefix_rfl, id⟩⟩
    · show countBallots _ _ = _
      rw [countBallots, getStored_eq_ok.mpr hst, ok_bind]
      rfl
    · show listBallots _ _ _ _ = _
      rw [listBallots, getStored_eq_ok.mpr hst, ok_bind, pySlice_nat, pure_eq_ok]
  rw [readAllBallots_eq_over]
  exact readAllBallotsOver_growing hanswers

/-- The aggregate of the ballots as they are in the end. -/
def Recomputed (S : Suite G₁ G₂) (key : FinalizedKey) (st : Stored) (A : AggregateArtifact) : Prop :=
  ∃ admission, admitBallots S st.ballots st.config key.pkElection = .ok admission ∧
    buildAggregateArtifact S st.config admission = .ok A

theorem HonestRun.aggregate (h : HonestRun S E config C start stop calls)
    (hdkg : DkgComplete S.g2 config.threshold.n config.threshold.t C.commitments dealer received C.out)
    (hst : (runCalls E {} calls).elections.get? config.electionId = some st) {i : Int}
    {A : AggregateArtifact} (hA : st.aggregateByKeyper.get? i = some A) :
    Recomputed S (C.key S config) st A := by
  obtain ⟨call, hcall, sig, hwrite⟩ := (cameFrom_run calls _ _ hst).aggregates i A hA
  obtain ⟨past, rest, hsplit⟩ := List.append_of_mem hcall
  have hhonest := h.honest past call rest hsplit
  rw [HonestCall, hwrite] at hhonest
  obtain ⟨j, -, signer, s, now, hmoment, hproduced⟩ := hhonest rfl
  obtain ⟨record, key, stored, admission, hguard, hstored, hadmission, hbuild⟩ :=
    produceAggregate_eq_ok hproduced
  obtain ⟨st₀, hst₀, -, -, -⟩ := checkCanAggregate_eq_ok hguard
  obtain ⟨⟨before, rfl, hbefore⟩, -, hlater, hkept⟩ := h.moment hsplit hmoment hst hst₀
  obtain ⟨st₁, hst₁, hconfig, rfl, hclosed⟩ := hbefore.guards hdkg hguard
  cases hst₀.symm.trans hst₁
  rw [readAllBallots_run before hst₀, Except.ok.injEq] at hstored
  refine ⟨admission, ?_, ?_⟩
  · rw [hkept hclosed, hlater.config, ← hconfig, hstored]
    exact hadmission
  · rw [hlater.config, ← hconfig]
    exact hbuild

/-- The canonical aggregate is the recomputed one. -/
theorem HonestRun.canonical (h : HonestRun S E config C start stop calls)
    (hdkg : DkgComplete S.g2 config.threshold.n config.threshold.t C.commitments dealer received C.out)
    (hst : (runCalls E {} calls).elections.get? config.electionId = some st) {A : AggregateArtifact}
    (hA : aggregateOf E config.electionId st = .ok (some A)) : Recomputed S (C.key S config) st A := by
  have hok := ((ok_empty (E := E)).run calls).records _ _ hst
  obtain ⟨votes, hvotes, hwinner⟩ := aggregateOf_ok hok
  rw [hwinner, Except.ok.injEq] at hA
  obtain ⟨i, k, hvote, -⟩ := Quorum.winner_eq_some hA
  obtain ⟨⟨j, B⟩, hmem, hB⟩ := forall₂_exists_left (mapM_eq_ok.mp hvotes) hvote
  obtain ⟨digest, -, hB⟩ := bind_eq_ok.mp hB
  cases hB
  exact h.aggregate hdkg hst (Dict.get?_eq_some.mpr hmem)

/-! ## The shares and the result -/

/-- Shares of the aggregate `A` that members of the committee produced, one a keyper. -/
structure HonestShares (S : Suite G₁ G₂) (E : EthLib) (config : ElectionConfig) (C : Committee G₂)
    (A : AggregateArtifact) (shares : List DecryptionShareEnvelope) : Prop where
  distinct : (shares.map DecryptionShareEnvelope.keyperIndex).Nodup
  produced : ∀ share ∈ shares, ∃ i ∈ keyperIndices config.threshold.n,
    HonestShare S E (fun i => (C.out i).1) config.electionId A i share

/-- The shares of a record, as the data layer lists them. -/
def Stored.listedShares (st : Stored) : List DecryptionShareEnvelope :=
  (sortedKeys st.sharesByKeyper).filterMap st.sharesByKeyper.get?

theorem HonestRun.shares (h : HonestRun S E config C start stop calls)
    (hst : (runCalls E {} calls).elections.get? config.electionId = some st) {A : AggregateArtifact}
    (hA : aggregateOf E config.electionId st = .ok (some A)) :
    HonestShares S E config C A st.listedShares := by
  have hcame := cameFrom_run calls _ _ hst
  have hperm := sorted_values_perm st.sharesByKeyper
  constructor
  · -- a share is stored under its own index
    have hkeys : st.sharesByKeyper.values.map DecryptionShareEnvelope.keyperIndex = st.sharesByKeyper.keys := by
      rw [Dict.values, List.map_map, Dict.keys]
      apply List.map_congr_left
      intro e he
      exact (hcame.shares e.1 e.2 (Dict.get?_eq_some.mpr he)).1
    rw [Stored.listedShares, (hperm.map _).nodup_iff, hkeys]
    exact st.sharesByKeyper.nodup
  · intro share hshare
    obtain ⟨e, he, rfl⟩ := List.mem_map.mp (hperm.mem_iff.mp hshare)
    obtain ⟨-, -, call, hcall, sig, hwrite⟩ := hcame.shares e.1 e.2 (Dict.get?_eq_some.mpr he)
    obtain ⟨past, rest, hsplit⟩ := List.append_of_mem hcall
    have hhonest := h.honest past call rest hsplit
    rw [HonestCall, hwrite] at hhonest
    obtain ⟨i, hi, signer, s, now, nonce, hmoment, hproduced⟩ := hhonest rfl
    refine ⟨i, hi, signer, s.reads E, now, nonce, sig, ?_, hproduced⟩
    -- the aggregate the keyper decrypted is the one canonical now
    rw [KeyperService.produceDecryptionShare] at hproduced
    obtain ⟨⟨record, key⟩, hguard, hproduced⟩ := bind_eq_ok.mp hproduced
    obtain ⟨st₀, hst₀, -⟩ := checkCanAggregate_eq_ok hguard
    obtain ⟨-, -, hlater, -⟩ := h.moment hsplit hmoment hst hst₀
    obtain ⟨agg, hagg, hproduced⟩ := bind_eq_ok.mp hproduced
    cases agg with
    | none => cases hproduced
    | some B =>
      obtain ⟨st₁, hst₁, hB⟩ := getAggregate_eq_some.mp hagg
      cases hst₀.symm.trans hst₁
      cases hA.symm.trans (hlater.aggregate B hB)
      exact hagg

/-- A stored result was recovered from honest shares of the canonical aggregate, no more than
    are stored now, under the key of the DKG. -/
theorem HonestRun.result (h : HonestRun S E config C start stop calls)
    (hdkg : DkgComplete S.g2 config.threshold.n config.threshold.t C.commitments dealer received C.out)
    (hst : (runCalls E {} calls).elections.get? config.electionId = some st) {r : ResultArtifact}
    (hr : st.result = some r) :
    ∃ A shares, aggregateOf E config.electionId st = .ok (some A) ∧
      finalizedKeyOf st = .ok (some (C.key S config)) ∧ HonestShares S E config C A shares ∧
      shares.length ≤ st.listedShares.length ∧
      recoverResult S st.config A shares (C.key S config).committeePks st.config.threshold.t none =
        .ok (some r) := by
  obtain ⟨call, hcall, sig, hwrite⟩ := (cameFrom_run calls _ _ hst).result r hr
  obtain ⟨past, rest, hsplit⟩ := List.append_of_mem hcall
  have hhonest := h.honest past call rest hsplit
  rw [HonestCall, hwrite] at hhonest
  obtain ⟨publisher, s, now, hmoment, hpublish⟩ := hhonest rfl
  obtain ⟨record, A, key, shares, hrecord, hkey, -, hagg, hshares, hrecovered⟩ :=
    finalize_eq_publish hpublish
  obtain ⟨st₀, hst₀, hfinal, hconfig⟩ := getElection_eq_ok hrecord
  obtain ⟨⟨before, rfl, hbefore⟩, -, hlater, -⟩ := h.moment hsplit hmoment hst hst₀
  obtain ⟨st₁, hst₁, hA⟩ := getAggregate_eq_some.mp hagg
  cases hst₀.symm.trans hst₁
  rw [hkey] at hfinal
  obtain rfl := hbefore.key hdkg hst₀ hfinal
  obtain rfl : st₀.listedShares = shares := by
    change listDecryptionShares (runCalls E {} before) config.electionId = .ok shares at hshares
    rw [listDecryptionShares, getStored_eq_ok.mpr hst₀, ok_bind] at hshares
    exact Except.ok.inj hshares
  refine ⟨A, st₀.listedShares, hlater.aggregate A hA, hlater.key _ hfinal, hbefore.shares hst₀ hA,
    hlater.length_shares, ?_⟩
  rw [hlater.config, ← hconfig]
  exact hrecovered

end

end
end ElGamalVoting
