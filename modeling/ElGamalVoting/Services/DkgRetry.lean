import ElGamalVoting.Adapters.MemoryLifecycle
import ElGamalVoting.Services.DkgAttempt

/- A further attempt at the DKG, after others that failed.

   The data layer keeps the first submission of every keyper for good, while every
   attempt deals with fresh polynomials. So a keyper that got a submission in
   during an earlier attempt can publish nothing else. In a complete attempt, from
   whatever state the attempts before left, every keyper derives the key of
   the attempt (`published_complete`); it becomes final exactly when a quorum of
   them may still publish it (`dkg_retry_finalizes_iff`). -/
namespace ElGamalVoting
open Lib

/-- Whether a keyper may publish a key: it has nothing on record, or the very same. -/
def mayPublish (dl : InMemoryDataLayer) (eid : Bytes) (key : FinalizedKey) (i : Int) : Bool :=
  match (dl.elections.get? eid).bind fun st => st.dkgByKeyper.get? i with
  | none => true
  | some existing => (existing.pkElection, existing.committeePks) = (key.pkElection, key.committeePks)

/-! ## What the data layer keeps through any attempt -/

section
variable {G₁ G₂ : Type} [AddCommGroup G₁] [AddCommGroup G₂] [DecidableEq G₂] {S : Suite G₁ G₂}
  {E : EthLib} {member : Int → Member} {eid : Bytes} {attempt : Attempt G₂}
  {P : InMemoryDataLayer → Prop}

omit [AddCommGroup G₂] [DecidableEq G₂] in
theorem request_keeps {α : Type} {i : Int} {handler : Run G₂ α}
    (h : Keeps (fun c : Ceremony G₂ => P c.dl) handler) :
    Keeps (fun c : Ceremony G₂ => P c.dl) (request attempt i handler) := by
  apply Keeps.withState
  intro c hc
  refine Keeps.bind (P := fun c : Ceremony G₂ => P c.dl) (Keeps.setState ?_) ?_ c hc
  · exact hc
  intro _
  split
  · refine h.bind fun reply => ?_
    split
    · exact Keeps.pure _
    · exact Keeps.raise _
  · exact Keeps.raise _

omit [AddCommGroup G₂] [DecidableEq G₂] in
theorem handleAt_keeps {i : Int}
    {handler : KeyperNode → KeyperServer G₂ → KeyperServer G₂ × Handle Reply} :
    Keeps (fun c : Ceremony G₂ => P c.dl) (handleAt member i handler) :=
  Keeps.withState fun _ hc => hc

omit [DecidableEq G₂] in
theorem distributeCommitments_keeps (i : Int) :
    Keeps (fun c : Ceremony G₂ => P c.dl) (distributeCommitments S E member eid attempt i) := by
  apply Keeps.read
  intro c
  refine (Keeps.ofExcept _ _).bind ?_
  rintro ⟨eid', config, idx, st⟩
  refine (Keeps.ofExcept _ _).bind fun body => ?_
  refine (Keeps.forM fun peer _ => ?_).bind fun _ => Keeps.pure _
  split
  · exact Keeps.pure _
  · exact (request_keeps handleAt_keeps).bind fun _ => Keeps.pure _

theorem sealAndSendShare_keeps {i idx recipient : Int} {electionId : PyStr} {eid' : Bytes}
    {st : KeyperDKGState G₂} : Keeps (fun c : Ceremony G₂ => P c.dl)
      (sealAndSendShare S E member attempt i electionId eid' idx recipient st) := by
  apply Keeps.read
  intro c
  refine (Keeps.ofExcept _ _).bind fun body => ?_
  exact (request_keeps handleAt_keeps).bind fun _ => Keeps.pure _

theorem distributeShares_keeps (i : Int) :
    Keeps (fun c : Ceremony G₂ => P c.dl) (distributeShares S E member eid attempt i) := by
  apply Keeps.read
  intro c
  refine (Keeps.ofExcept _ _).bind ?_
  rintro ⟨eid', config, idx, st⟩
  refine (Keeps.forM fun recipient _ => ?_).bind fun _ => Keeps.pure _
  split
  · exact Keeps.pure _
  · exact sealAndSendShare_keeps

theorem revealAt_keeps (dealer : Int) (accusation : Accusation) :
    Keeps (fun c : Ceremony G₂ => P c.dl) (revealAt S E member attempt dealer accusation) := by
  apply Keeps.read
  intro c
  dsimp only
  split
  · exact sealAndSendShare_keeps.bind fun _ => Keeps.pure _
  · exact Keeps.raise _

theorem roundTwoComplaints_keeps (targets : List Int) :
    Keeps (fun c : Ceremony G₂ => P c.dl) (roundTwoComplaints S E member eid attempt targets) := by
  refine (Keeps.mapM fun i _ => ?_).bind fun _ => Keeps.pure _
  refine (request_keeps handleAt_keeps).bind fun reply => ?_
  split
  · exact Keeps.pure _
  · exact Keeps.pure _

theorem repairRounds_keeps (idxs : List Int) (rounds : Nat) (complaints : List (Int × List Accusation)) :
    Keeps (fun c : Ceremony G₂ => P c.dl)
      (repairRounds S E member eid attempt idxs rounds complaints) := by
  induction rounds generalizing complaints with
  | zero => exact Keeps.pure _
  | succ rounds ih =>
    rw [repairRounds]
    split
    · exact Keeps.pure _
    · refine Keeps.bind ?_ fun _ => (roundTwoComplaints_keeps _).bind fun _ => ih _
      refine Keeps.forM fun complaint _ => Keeps.forM fun accusation _ => ?_
      split
      · exact (request_keeps (revealAt_keeps _ _)).ignore
      · exact Keeps.pure _

/-- The store after keyper `i` was asked to publish. -/
def publishedStore (S : Suite G₁ G₂) (E : EthLib) (member : Int → Member) (eid : Bytes)
    (attempt : Attempt G₂) (c : Ceremony G₂) (i : Int) : InMemoryDataLayer :=
  match (publishedResult S E ((member i).node c.dl) (c.servers i) (electionKey eid)).2 with
  | .error _ => c.dl
  | .ok r => if (attempt.fates c.sent).delivered then
      (submitDkgResult E c.dl r.electionId r.pkElection r.committeePks
        r.keyperSignature).toOption.getD c.dl else c.dl

omit [DecidableEq G₂] in
/-- A submission is a write to the store, or does not reach it. -/
theorem publishAt_keeps (hwrite : ∀ dl call, P dl → P (Call.apply E call dl)) (i : Int) :
    Keeps (fun c : Ceremony G₂ => P c.dl) (publishAt S E member eid attempt i) := by
  apply Keeps.withState
  intro c hc
  show P (publishedStore S E member eid attempt c i)
  unfold publishedStore
  split
  · exact hc
  · rename_i r _
    split
    · have hcall := hwrite c.dl
        ⟨0, 0, .dkgResult r.electionId r.pkElection r.committeePks r.keyperSignature⟩ hc
      rw [Call.apply, Call.perform] at hcall
      cases hsubmit : submitDkgResult E c.dl r.electionId r.pkElection r.committeePks
          r.keyperSignature with
      | error e => exact hc
      | ok dl' =>
        simp only [hsubmit] at hcall
        exact hcall
    · exact hc

omit [AddCommGroup G₂] [DecidableEq G₂] in
theorem phaseAll_keeps {idxs : List Int} {handler : Int → Run G₂ Reply}
    (h : ∀ i ∈ idxs, Keeps (fun c : Ceremony G₂ => P c.dl) (handler i)) :
    Keeps (fun c : Ceremony G₂ => P c.dl) (phaseAll attempt idxs handler) :=
  Keeps.forM fun i hi => (request_keeps (h i hi)).bind fun _ => Keeps.pure _

/-- What every write keeps, every attempt keeps, whatever fails in it. -/
theorem runDkgHttp_keeps (hwrite : ∀ dl call, P dl → P (Call.apply E call dl)) (idxs : List Int) :
    Keeps (fun c : Ceremony G₂ => P c.dl) (runDkgHttp S E member eid attempt idxs) := by
  refine (phaseAll_keeps fun i _ => handleAt_keeps).bind fun _ => ?_
  refine (phaseAll_keeps fun i _ => distributeCommitments_keeps i).bind fun _ => ?_
  refine (phaseAll_keeps fun i _ => distributeShares_keeps i).bind fun _ => ?_
  refine (roundTwoComplaints_keeps idxs).bind fun _ => ?_
  refine (repairRounds_keeps idxs maxRepairRounds _).bind fun complaints => ?_
  refine Keeps.bind ?_ fun _ => ?_
  · refine Keeps.forM fun i _ => ?_
    split
    · exact Keeps.pure _
    · exact (request_keeps (publishAt_keeps hwrite i)).ignore
  · apply Keeps.read
    intro c
    refine (Keeps.ofExcept _ _).bind fun key => ?_
    split
    · exact Keeps.raise _
    · exact Keeps.pure _

/-- The store after any history of attempts is as sound as a store after any run. -/
theorem history_ok {c : Ceremony G₂} (hc : c.dl.Ok E) (idxs : List Int) (attempts : List (Attempt G₂)) :
    (c.history S E member eid idxs attempts).dl.Ok E :=
  run_invariant (fun c : Ceremony G₂ => c.dl.Ok E) (fun c _ hok =>
    runDkgHttp_keeps (P := fun dl => dl.Ok E) (fun _ call h => h.apply call) idxs { c with sent := 0 } hok)
    hc attempts

end

/-! ## Publishing -/

/-- The votes for a key before an attempt, with those of the keypers that had none. -/
structure PublishedBy (old : Stored) (key : FinalizedKey) (done : List Int) (st : Stored) : Prop where
  config : st.config = old.config
  votes : dkgVotes st = dkgVotes old ++ (done.filter fun i => (old.dkgByKeyper.get? i).isNone).map
    fun i => (i, (key.pkElection, key.committeePks), (key.pkElection, key.committeePks))
  waiting : ∀ i, i ∉ done → st.dkgByKeyper.get? i = old.dkgByKeyper.get? i

section
variable {E : EthLib} {dl : InMemoryDataLayer} {eid : Bytes} {old st : Stored} {key : FinalizedKey}
  {done : List Int} {i : Int}

/-- A keyper's submission of the key is recorded when it had none, and else changes nothing. -/
theorem submitDkgResult_published (hst : dl.elections.get? eid = some st)
    (h : PublishedBy old key done st) (hi : i ∉ done) {sig identity : Bytes}
    (hmember : memberIndex old.config identity = some i)
    (hrecover : E.recoverMessage (dkgResultDigest E eid key.pkElection key.committeePks) sig = some identity) :
    ∃ st', ((submitDkgResult E dl eid key.pkElection key.committeePks sig).toOption.getD dl).elections.get?
        eid = some st' ∧ PublishedBy old key (done ++ [i]) st' := by
  have hidx : keyperIndexByRecovery E st.config
      (dkgResultDigest E eid key.pkElection key.committeePks) sig = .ok i := by
    rw [keyperIndexByRecovery, hrecover, h.config]
    dsimp only
    rw [hmember]
  have hwaiting := h.waiting i hi
  rw [submitDkgResult, getStored_eq_ok.mpr hst, ok_bind, hidx, ok_bind]
  cases hold : st.dkgByKeyper.get? i with
  | some existing =>
    -- accepted as a resend or refused, it changes nothing
    have hsame : (Except.toOption (if (existing.pkElection, existing.committeePks) ≠
        (key.pkElection, key.committeePks) then
          (.error (.immutability s!"keyper {i} already submitted a different DKG result") : Py InMemoryDataLayer)
        else pure dl)).getD dl = dl := by
      split <;> rfl
    dsimp only
    rw [hsame]
    refine ⟨st, hst, h.config, ?_, fun k hk => h.waiting k (by simp_all)⟩
    rw [h.votes, List.filter_append]
    simp [← hwaiting, hold]
  | none =>
    refine ⟨_, Dict.get?_set_self _ _ _, h.config, ?_, ?_⟩
    · rw [dkgVotes, Dict.entries_set_new hold, List.map_append]
      change dkgVotes st ++ _ = _
      rw [h.votes, List.filter_append, List.map_append, List.append_assoc]
      simp [← hwaiting, hold]
    · intro k hk
      have hne : k ≠ i := by simp_all
      rw [Dict.get?_set_ne hne]
      exact h.waiting k (by simp_all)

/-- The keypers that may publish a key: those that voted for it and those that did not vote. -/
theorem countP_mayPublish (hst : dl.elections.get? eid = some st) (h : st.Ok E eid) (key : FinalizedKey) :
    (keyperIndices st.config.threshold.n).countP (mayPublish dl eid key) =
      Quorum.support (dkgVotes st) (key.pkElection, key.committeePks) +
        ((keyperIndices st.config.threshold.n).filter fun i => (st.dkgByKeyper.get? i).isNone).length := by
  have hmay : ∀ i, mayPublish dl eid key i = match st.dkgByKeyper.get? i with
      | none => true
      | some existing =>
        decide ((existing.pkElection, existing.committeePks) = (key.pkElection, key.committeePks)) := by
    intro i
    rw [mayPublish, hst]
    rfl
  rw [List.countP_eq_countP_filter_add _ _ fun i => (st.dkgByKeyper.get? i).isNone, add_comm]
  congr 1
  · have hperm : ((keyperIndices st.config.threshold.n).filter
        fun i => !(st.dkgByKeyper.get? i).isNone).Perm st.dkgByKeyper.keys := by
      apply (List.perm_ext_iff_of_nodup ((nodup_keyperIndices _).filter _) st.dkgByKeyper.nodup).mpr
      intro k
      rw [List.mem_filter]
      constructor
      · rintro ⟨-, hk⟩
        by_contra hnone
        rw [Dict.get?_eq_none.mpr hnone] at hk
        cases hk
      · intro hk
        obtain ⟨v, hv⟩ := Dict.exists_get?_of_mem_keys hk
        exact ⟨h.dkgVoters k hk, by rw [hv]; rfl⟩
    rw [hperm.countP_eq, Dict.keys, List.countP_map, Quorum.support, dkgVotes, List.countP_map]
    apply List.countP_congr
    intro e he
    simp only [Function.comp_apply, hmay, Dict.get?_eq_some.mpr he]
  · rw [List.countP_eq_length]
    intro i hi
    rw [hmay, Option.isNone_iff_eq_none.mp (List.mem_filter.mp hi).2]

/-- After everybody published, the key is final when a quorum could publish it, and otherwise
    nothing is. -/
theorem finalizedKeyOf_published (hdl : dl.elections.get? eid = some old) (hold : old.Ok E eid)
    (hst : st.Ok E eid) (hnone : finalizedKeyOf old = .ok none)
    (h : PublishedBy old key (keyperIndices old.config.threshold.n) st) :
    finalizedKeyOf st = .ok (if old.config.threshold.t ≤
      (keyperIndices old.config.threshold.n).countP (mayPublish dl eid key) then some key else none) := by
  have hno : Quorum.winner old.config.threshold.t (dkgVotes old) = none := by
    rw [finalizedKeyOf_ok hold, Except.ok.injEq, Option.map_eq_none_iff] at hnone
    exact hnone
  have hlen : (dkgVotes st).length < old.config.threshold.t * 2 := by
    rw [dkgVotes, List.length_map, ← h.config]
    exact votes_lt_two_quorums hst.dkgVoters
  have hwinner := Quorum.winner_step (k := (key.pkElection, key.committeePks))
    (v := (key.pkElection, key.committeePks)) old.config.threshold.one_le_t hno hlen ?_ ?_
  · rw [finalizedKeyOf_ok hst, h.config, hwinner, countP_mayPublish hdl hold, h.votes,
      Quorum.support_append]
    have hnew : Quorum.support (((keyperIndices old.config.threshold.n).filter fun i =>
        (old.dkgByKeyper.get? i).isNone).map fun i => (i, (key.pkElection, key.committeePks),
          (key.pkElection, key.committeePks))) (key.pkElection, key.committeePks) =
        ((keyperIndices old.config.threshold.n).filter fun i =>
          (old.dkgByKeyper.get? i).isNone).length := by
      rw [Quorum.support, List.countP_map, List.countP_eq_length]
      simp
    rw [hnew]
    split <;> rfl
  · intro k' hk'
    rw [h.votes, Quorum.support_append]
    have hother : Quorum.support (((keyperIndices old.config.threshold.n).filter fun i =>
        (old.dkgByKeyper.get? i).isNone).map fun i => (i, (key.pkElection, key.committeePks),
          (key.pkElection, key.committeePks))) k' = 0 := by
      rw [Quorum.support, List.countP_map, List.countP_eq_zero]
      simpa using fun _ _ _ heq => hk' heq.symm
    omega
  · intro e he heq
    obtain ⟨e', -, rfl⟩ := List.mem_map.mp he
    exact heq

end

/-! ## A complete attempt -/

section
variable {G₁ G₂ : Type} [AddCommGroup G₁] [AddCommGroup G₂] [DecidableEq G₂] {S : Suite G₁ G₂}
  {E : EthLib} {member : Int → Member} {eid : Bytes} {config : ElectionConfig}
  {draws : Int → Nat → Int} {c : Ceremony G₂} {old : Stored}

omit [AddCommGroup G₂] [DecidableEq G₂] in
/-- A request that may fail changes what its handler does, whether it fails or not. -/
theorem ignore_request {α : Type} {i : Int} (handler : Run G₂ α) :
    Yields (request (Attempt.complete draws) i handler).ignore c ()
      (handler { c with sent := c.sent + 1 }).2 := by
  have hrequest : request (Attempt.complete draws) i handler c =
      (handler >>= pure) { c with sent := c.sent + 1 } := rfl
  show (Except.ok (), (request (Attempt.complete draws) i handler c).2) = _
  rw [hrequest, bind_pure]

/-- Publishing leaves what every keyper publishes from. -/
theorem ReadyToPublish.dkgPublish {s : KeyperServer G₂} {node : KeyperNode}
    (h : ReadyToPublish S eid config draws s) (electionId : PyStr) (submit : DKGResultSubmission → Py Unit) :
    ReadyToPublish S eid config draws (dkgPublish S E node s electionId submit).1 := by
  have heffect := (dkgPublish_effect electionId submit : Effect S E node s _ _ _)
  generalize (ElGamalVoting.dkgPublish S E node s electionId submit).1 = s',
    (ElGamalVoting.dkgPublish S E node s electionId submit).2 = reply at heffect ⊢
  cases heffect with
  | quiet completed states boxes _ =>
    exact ⟨completed ▸ h.completed, (boxes _).symm ▸ h.commitments⟩
  | published dealt completed states boxes =>
    exact ⟨completed ▸ h.completed, (boxes _).symm ▸ h.commitments⟩

/-- Every keyper publishes the key of the attempt, and those without a submission get it in. -/
theorem publishAll_complete (hcommittee : HonestCommittee E old.config member) (hok : c.dl.Ok E)
    (hold : c.dl.elections.get? eid = some old)
    (hready : ∀ j ∈ keyperIndices old.config.threshold.n,
      ReadyToPublish S eid old.config draws (c.servers j)) :
    ∃ c' st, Yields (publishAll S E member eid (Attempt.complete draws)
        (keyperIndices old.config.threshold.n) []) c ⟨⟩ c' ∧ c'.dl.Ok E ∧
      c'.dl.elections.get? eid = some st ∧
      PublishedBy old (attemptKey S.g2 old.config.threshold draws)
        (keyperIndices old.config.threshold.n) st := by
  -- the loop keeps: the store is well formed, who has not published can, and who has is on record
  have hloop := Yields.forM (s := c) (l := keyperIndices old.config.threshold.n)
    (f := fun i => if i ∈ ([] : List (Int × List Accusation)).map Prod.fst then pure ()
      else (request (Attempt.complete draws) i
        (publishAt S E member eid (Attempt.complete draws) i)).ignore)
    (I := fun done c => c.dl.Ok E ∧ (∀ j ∈ keyperIndices old.config.threshold.n,
        ReadyToPublish S eid old.config draws (c.servers j)) ∧
      ∃ st, c.dl.elections.get? eid = some st ∧
        PublishedBy old (attemptKey S.g2 old.config.threshold draws) done st) ?_
    ⟨hok, hready, old, hold, rfl, by simp, fun _ _ => rfl⟩
  · obtain ⟨c', hyields, hok', -, st, hst, hpublished⟩ := hloop
    exact ⟨c', st, hyields, hok', hst, hpublished⟩
  · rintro done i rest c hl ⟨hok, hready, st, hst, hpublished⟩
    have hi : i ∈ keyperIndices old.config.threshold.n := by simp [hl]
    have hnew : i ∉ done := by
      have hnodup := nodup_keyperIndices old.config.threshold.n
      rw [hl, List.nodup_append] at hnodup
      intro hmem
      exact hnodup.2.2 i hmem i List.mem_cons_self rfl
    have hknown : ((member i).node c.dl).getConfig eid = .ok old.config := by
      rw [node_getConfig hok hst, hpublished.config]
    obtain ⟨sig, hresult, hrecover⟩ := publishedResult_ready hknown hcommittee hi (hready i hi)
    obtain ⟨st', hst', hpublished'⟩ := submitDkgResult_published hst hpublished hnew
      (hcommittee.registered i hi) hrecover
    refine ⟨_, ignore_request _, ?_, ?_, st', ?_, hpublished'⟩
    · exact publishAt_keeps (P := fun dl => dl.Ok E) (fun _ call h => h.apply call) i _ hok
    · intro j hj
      show ReadyToPublish S eid old.config draws (Function.update c.servers i _ j)
      by_cases hij : j = i
      · rw [hij, Function.update_self]
        exact (hready i hi).dkgPublish _ _
      · rw [Function.update_of_ne hij]
        exact hready j hj
    · show (publishedStore S E member eid (Attempt.complete draws) c i).elections.get? eid = some st'
      rw [publishedStore, hresult]
      exact hst'

/-- The end of a complete attempt, when the number of commitments fits its four bytes. -/
theorem runDkgHttp_complete (draws : Int → Nat → Int)
    (hcommittee : HonestCommittee E old.config member) (hok : c.dl.Ok E)
    (hold : c.dl.elections.get? eid = some old) (ht : old.config.threshold.t < 256 ^ 4) :
    ∃ st, (runDkgHttp S E member eid (Attempt.complete draws) (keyperIndices old.config.threshold.n)
        c).2.dl.elections.get? eid = some st ∧ st.Ok E eid ∧
      PublishedBy old (attemptKey S.g2 old.config.threshold draws)
        (keyperIndices old.config.threshold.n) st := by
  have hknown : ∀ m : Member, (m.node c.dl).getConfig eid = .ok old.config := node_getConfig hok hold
  obtain ⟨c₁, c₂, c₃, h₁, h₂, h₃, hprogress⟩ := exchange_complete S draws hknown hcommittee ht rfl
  obtain ⟨c₄, h₄, hdl, hready⟩ := roundTwo_complete hknown hcommittee hprogress
  obtain ⟨c₅, st, h₅, hok₅, hst, hpublished⟩ := publishAll_complete hcommittee (hdl ▸ hok) (hdl ▸ hold) hready
  refine ⟨st, ?_, hok₅.records _ _ hst, hpublished⟩
  have hrepair : Yields (repairRounds S E member eid (Attempt.complete draws)
      (keyperIndices old.config.threshold.n) maxRepairRounds []) c₄ [] c₄ := rfl
  -- the draws of a complete attempt are the given ones
  change ((phaseAll (Attempt.complete draws) (keyperIndices old.config.threshold.n) fun i =>
    handleAt member i fun node s => dkgRound1 S E node s (electionKey eid) (draws i)) >>= _) c |>.2.dl.elections.get?
      eid = _
  rw [h₁.bind_eq, h₂.bind_eq, h₃.bind_eq, h₄.bind_eq, hrepair.bind_eq, h₅.bind_eq]
  have hrest : Keeps (fun c : Ceremony G₂ => c.dl.elections.get? eid = some st) (do
      let c ← Act.state
      let key ← Act.ofExcept .raised (getFinalizedKey c.dl eid)
      if key.isNone ∧ ([] : List (Int × List Accusation)) ≠ [] then
        Act.raise (.complaint (([] : List (Int × List Accusation)).flatMap Prod.snd))
      else pure key.isSome : Run G₂ Bool) := by
    apply Keeps.read
    intro c
    refine (Keeps.ofExcept _ _).bind fun key => ?_
    split
    · exact Keeps.raise _
    · exact Keeps.pure _
  exact hrest c₅ hst

/-- A quorum whose size does not fit its four bytes stops every attempt before publishing. -/
theorem runDkgHttp_too_large (draws : Int → Nat → Int)
    (hcommittee : HonestCommittee E old.config member) (hok : c.dl.Ok E)
    (hold : c.dl.elections.get? eid = some old) (ht : ¬ old.config.threshold.t < 256 ^ 4) :
    (runDkgHttp S E member eid (Attempt.complete draws) (keyperIndices old.config.threshold.n) c).2.dl =
      c.dl := by
  have hknown : ∀ m : Member, (m.node c.dl).getConfig eid = .ok old.config := node_getConfig hok hold
  obtain ⟨c₁, h₁, hprogress⟩ := round1_phase S draws hknown hcommittee rfl
  -- there is a first dealer, and its own commitments do not fit their count of four bytes
  obtain ⟨rest, hcons⟩ : ∃ rest, keyperIndices old.config.threshold.n = 1 :: rest := by
    have hn : old.config.threshold.n ≠ 0 := by
      have := old.config.threshold.one_le_t
      have := old.config.threshold.t_le_n
      omega
    obtain ⟨k, hk⟩ := Nat.exists_eq_succ_of_ne_zero hn
    refine ⟨(List.range k).map fun i : Nat => ((i + 1 : Nat) : Int) + 1, ?_⟩
    rw [hk, keyperIndices, List.range_succ_eq_map, List.map_cons, List.map_map]
    rfl
  have h1 : (1 : Int) ∈ keyperIndices old.config.threshold.n := by simp [hcons]
  have hraises : Raises (distributeCommitments S E member eid (Attempt.complete draws) 1)
      { c₁ with sent := c₁.sent + 1 } := by
    obtain ⟨st, hdealing, hcomms, -⟩ :=
      dealingOf_progress (hknown (member 1)) hcommittee h1 (hprogress.servers 1 h1)
    have hbody : ∃ e, commitmentsBody S E ((member 1).node c.dl) eid 1 st = .error e := by
      have hdigest : ∃ e, dkgCommitmentsDigest E eid 1 (st.commitments.map S.g2.toCompressed) = .error e := by
        cases hcase : dkgCommitmentsDigest E eid 1 (st.commitments.map S.g2.toCompressed) with
        | error e => exact ⟨e, rfl⟩
        | ok digest =>
          obtain ⟨preimage, hpreimage, -⟩ := hashed_eq_ok.mp hcase
          obtain ⟨dealer, -, hpreimage⟩ := bind_eq_ok.mp hpreimage
          obtain ⟨count, hcount, -⟩ := bind_eq_ok.mp hpreimage
          have hlt := (toBytes_eq_ok hcount).2.1
          rw [hcomms, List.length_map, length_dealtCommitments] at hlt
          exact absurd (by exact_mod_cast hlt) ht
      obtain ⟨e, he⟩ := hdigest
      exact ⟨.raised e, by rw [commitmentsBody, he]; rfl⟩
    obtain ⟨e, he⟩ := hbody
    have hdealt : Yields (Act.ofExcept CallError.handler (dealingOf E ((member 1).node c₁.dl)
        (c₁.servers 1) (electionKey eid)) : Run G₂ _) { c₁ with sent := c₁.sent + 1 }
        (eid, old.config, 1, st) { c₁ with sent := c₁.sent + 1 } :=
      Yields.ofExcept (hprogress.store ▸ hdealing) _
    refine Raises.withState (Raises.after hdealt ?_)
    exact (Raises.ofExcept (hprogress.store ▸ he) _).bind _
  have hphase : Raises (phaseAll (Attempt.complete draws) (keyperIndices old.config.threshold.n)
      (distributeCommitments S E member eid (Attempt.complete draws))) c₁ := by
    rw [phaseAll, hcons]
    refine Raises.bind ?_ _
    refine Raises.bind ?_ _
    exact Raises.withState (Raises.after (Yields.setState _ _) (hraises.bind _))
  change ((phaseAll (Attempt.complete draws) (keyperIndices old.config.threshold.n) fun i =>
    handleAt member i fun node s => dkgRound1 S E node s (electionKey eid) (draws i)) >>= _) c |>.2.dl = _
  rw [h₁.bind_eq, hphase.bind_snd]
  -- so the phase ends with no call to the store
  have hkept : Keeps (fun d : Ceremony G₂ => d.dl = c.dl) (phaseAll (Attempt.complete draws)
      (keyperIndices old.config.threshold.n)
      (distributeCommitments S E member eid (Attempt.complete draws))) :=
    phaseAll_keeps (P := fun dl => dl = c.dl) fun i _ =>
      distributeCommitments_keeps (P := fun dl => dl = c.dl) i
  exact hkept c₁ hprogress.store

/-- The record of an election keeps its configuration through any history. -/
theorem history_record (hok : c.dl.Ok E) (hold : c.dl.elections.get? eid = some old) (idxs : List Int)
    (attempts : List (Attempt G₂)) :
    ∃ st, (c.history S E member eid idxs attempts).dl.elections.get? eid = some st ∧
      st.config = old.config := by
  have hwrite : ∀ (dl : InMemoryDataLayer) (call : Call),
      (dl.Ok E ∧ ∃ st, dl.elections.get? eid = some st ∧ st.config = old.config) →
      (call.apply E dl).Ok E ∧ ∃ st, (call.apply E dl).elections.get? eid = some st ∧
        st.config = old.config := by
    rintro dl call ⟨hdl, st, hst, hconfig⟩
    refine ⟨hdl.apply call, ?_⟩
    obtain ⟨st', hst', rfl | hstep⟩ := hdl.record hst call
    · exact ⟨st', hst', hconfig⟩
    · exact ⟨st', hst', hstep.config_eq.trans hconfig⟩
  exact (run_invariant (fun c : Ceremony G₂ => c.dl.Ok E ∧ ∃ st, c.dl.elections.get? eid = some st ∧
      st.config = old.config)
    (fun c _ hinv => runDkgHttp_keeps (P := fun dl => dl.Ok E ∧ ∃ st, dl.elections.get? eid = some st ∧
      st.config = old.config) hwrite idxs { c with sent := 0 } hinv) ⟨hok, old, hold, rfl⟩ attempts).2

/-- A complete attempt from a store without a final key, whatever the servers hold: its key becomes
    final exactly when a quorum of keypers has nothing else on record. -/
theorem attempted_complete_iff (hok : c.dl.Ok E) (hold : c.dl.elections.get? eid = some old)
    (hcommittee : HonestCommittee E old.config member)
    (hnone : getFinalizedKey c.dl eid = .ok none) (S : Suite G₁ G₂) (draws : Int → Nat → Int) :
    getFinalizedKey (c.attempted S E member eid (Attempt.complete draws)
        (keyperIndices old.config.threshold.n)).dl eid =
      .ok (some (attemptKey S.g2 old.config.threshold draws)) ↔
    old.config.threshold.t < 256 ^ 4 ∧
      old.config.threshold.t ≤ (keyperIndices old.config.threshold.n).countP
        (mayPublish c.dl eid (attemptKey S.g2 old.config.threshold draws)) := by
  have hkey : finalizedKeyOf old = .ok none := by
    rwa [getFinalizedKey, getStored_eq_ok.mpr hold, ok_bind] at hnone
  by_cases ht : old.config.threshold.t < 256 ^ 4
  · obtain ⟨st, hst, hok', hpublished⟩ := runDkgHttp_complete (S := S) (c := { c with sent := 0 })
      draws hcommittee hok hold ht
    have hfinal := finalizedKeyOf_published hold (hok.records _ _ hold) hok' hkey hpublished
    rw [getFinalizedKey, Ceremony.attempted, getStored_eq_ok.mpr hst, ok_bind, hfinal]
    by_cases hquorum : old.config.threshold.t ≤ (keyperIndices old.config.threshold.n).countP
        (mayPublish c.dl eid (attemptKey S.g2 old.config.threshold draws))
    · rw [if_pos hquorum]
      exact ⟨fun _ => ⟨ht, hquorum⟩, fun _ => rfl⟩
    · rw [if_neg hquorum]
      exact ⟨by simp, fun h => absurd h.2 hquorum⟩
  · have hsame := runDkgHttp_too_large (S := S) (c := { c with sent := 0 }) draws hcommittee hok hold ht
    rw [Ceremony.attempted, hsame, hnone]
    exact ⟨by simp, fun h => absurd h.1 ht⟩

/-- After any history of attempts that left no key, a further complete attempt makes its key
    final exactly when a quorum of keypers has nothing else on record. -/
theorem dkg_retry_finalizes_iff (S : Suite G₁ G₂) (E : EthLib) (member : Int → Member) (eid : Bytes)
    (calls : List Call) (servers : Int → KeyperServer G₂)
    (hold : (runCalls E {} calls).elections.get? eid = some old)
    (hcommittee : HonestCommittee E old.config member) (attempts : List (Attempt G₂))
    (hc : c = (⟨servers, runCalls E {} calls, 0⟩ : Ceremony G₂).history S E member eid
      (keyperIndices old.config.threshold.n) attempts)
    (hnone : getFinalizedKey c.dl eid = .ok none) (draws : Int → Nat → Int) :
    getFinalizedKey (c.attempted S E member eid (Attempt.complete draws)
        (keyperIndices old.config.threshold.n)).dl eid =
      .ok (some (attemptKey S.g2 old.config.threshold draws)) ↔
    old.config.threshold.t < 256 ^ 4 ∧
      old.config.threshold.t ≤ (keyperIndices old.config.threshold.n).countP
        (mayPublish c.dl eid (attemptKey S.g2 old.config.threshold draws)) := by
  have hok : (runCalls E {} calls).Ok E := ok_empty.run calls
  have hkept : c.dl.Ok E := hc ▸ history_ok hok _ attempts
  obtain ⟨st, hst, hconfig⟩ : ∃ st, c.dl.elections.get? eid = some st ∧ st.config = old.config :=
    hc ▸ history_record hok hold _ attempts
  rw [← hconfig] at hcommittee ⊢
  exact attempted_complete_iff hkept hst hcommittee hnone S draws

end
end ElGamalVoting

/-! ## An attempt that blocks every later one -/

namespace ElGamalVoting
open Lib

namespace RetrySample

/-- A committee of two, both needed. -/
def config : ElectionConfig :=
  { smallConfig with
    threshold := ⟨2, 2, Nat.two_pos, by decide, by decide⟩
    keypers := [⟨beBytes 32 1, []⟩, ⟨beBytes 32 2, []⟩]
    length_keypers := rfl
    nodup_keys := by decide +kernel }

def member (i : Int) : Member where
  signer := ⟨i⟩
  x25519Seal := fun _ plaintext => plaintext
  x25519Unseal := some
  retention := none

def register : Call :=
  ⟨0, 0, .register config (plainEth.signMessage config.adminKey (registerDigest plainEth config))⟩

/-- An attempt whose requests are lost from one on. The first twelve take it to the end of round 2,
    the next two are keyper 1's publishing. -/
def cutAt (request : Nat) : Attempt Residue where
  draws := fun d j => 5 * d + j
  fates := fun k => { delivered := k < request }

/-- The store after the registration. -/
def store : InMemoryDataLayer where
  elections := (∅ : Dict Bytes Stored).set config.electionId { config }
  nextId := 1

/-- The system after attempts from the registration on. -/
def after (attempts : List (Attempt Residue)) : Ceremony Residue :=
  (⟨fun _ => {}, store, 0⟩ : Ceremony Residue).history Residue.suite plainEth
    member config.electionId (keyperIndices config.threshold.n) attempts

/-- The draws of the complete attempt. -/
def freshDraws (d : Int) (j : Nat) : Int := 1 + 5 * d + j

theorem runCalls_register : runCalls plainEth {} [register] = store := by
  have hregister : Call.perform plainEth register {} = .ok store :=
    registerElection_first rfl (by rfl) fun digest => plainEth_recoverMessage (by decide) digest
  rw [runCalls, List.foldl_cons, List.foldl_nil, Call.apply, hregister]

theorem store_ok : store.Ok plainEth := runCalls_register ▸ ok_empty.run [register]

theorem get?_store : store.elections.get? config.electionId = some { config } := Dict.get?_set_self _ _ _

theorem after_ok (attempts : List (Attempt Residue)) : (after attempts).dl.Ok plainEth :=
  history_ok store_ok _ attempts

theorem after_record (attempts : List (Attempt Residue)) :
    ∃ st, (after attempts).dl.elections.get? config.electionId = some st ∧ st.config = config :=
  history_record (c := ⟨fun _ => {}, store, 0⟩) store_ok get?_store _ attempts

theorem after_eq (attempts : List (Attempt Residue)) :
    after attempts = (⟨fun _ => {}, runCalls plainEth {} [register], 0⟩ : Ceremony Residue).history
      Residue.suite plainEth member config.electionId (keyperIndices config.threshold.n) attempts := by
  rw [runCalls_register, after]

theorem honest : HonestCommittee plainEth config member where
  registered := by decide +kernel
  signs := by
    intro i hi digest
    have hb := mem_keyperIndices.mp hi
    have hn : (config.threshold.n : Int) = 2 := rfl
    refine ⟨plainEth.signMessage (beBytes 32 i.toNat) digest, ?_, ?_⟩
    · have hkey : toBytes (member i).signer.privateKey 32 = .ok (beBytes 32 i.toNat) :=
        toBytes_ok (by show 0 ≤ i; omega) (by show i < 256 ^ 32; omega)
      rw [signDigest, hkey]
      rfl
    · exact plainEth_recoverMessage (by rw [length_beBytes]; decide) digest
  opens := fun _ _ _ _ => rfl

end RetrySample

open RetrySample in
/-- An attempt that failed before anybody published does no harm. -/
theorem dkg_retry_after_lost_publish :
    getFinalizedKey ((after [cutAt 12]).attempted Residue.suite plainEth member config.electionId
      (Attempt.complete freshDraws) (keyperIndices config.threshold.n)).dl config.electionId =
      .ok (some (attemptKey Residue.suite.g2 config.threshold freshDraws)) := by
  have hleft : getFinalizedKey (after [cutAt 12]).dl config.electionId = .ok none ∧
      config.threshold.t ≤ (keyperIndices config.threshold.n).countP (mayPublish (after [cutAt 12]).dl
        config.electionId (attemptKey Residue.suite.g2 config.threshold freshDraws)) := by
    decide +kernel
  have hold : (runCalls plainEth {} [register]).elections.get? config.electionId = some { config } := by
    rw [runCalls_register, get?_store]
  have hiff := dkg_retry_finalizes_iff Residue.suite plainEth member config.electionId [register]
    (fun _ => {}) hold honest [cutAt 12] (after_eq [cutAt 12]) hleft.1 freshDraws
  exact hiff.mpr ⟨by decide, hleft.2⟩

open RetrySample in
/-- After one in which only keyper 1's submission arrived, a complete attempt has no key at its end:
    keyper 1 cannot publish another. -/
theorem failed_attempt_blocks_dkg :
    getFinalizedKey (after [cutAt 14]).dl config.electionId = .ok none ∧
    getFinalizedKey ((after [cutAt 14]).attempted Residue.suite plainEth member config.electionId
      (Attempt.complete freshDraws) (keyperIndices config.threshold.n)).dl config.electionId ≠
        .ok (some (attemptKey Residue.suite.g2 config.threshold freshDraws)) := by
  have hleft : getFinalizedKey (after [cutAt 14]).dl config.electionId = .ok none ∧
      ¬ config.threshold.t ≤ (keyperIndices config.threshold.n).countP (mayPublish (after [cutAt 14]).dl
        config.electionId (attemptKey Residue.suite.g2 config.threshold freshDraws)) := by
    decide +kernel
  refine ⟨hleft.1, fun hfinal => hleft.2 ?_⟩
  obtain ⟨st, hst, hconfig⟩ := after_record [cutAt 14]
  have hiff := attempted_complete_iff (after_ok [cutAt 14]) hst (hconfig ▸ honest) hleft.1 Residue.suite
    freshDraws
  rw [hconfig] at hiff
  exact (hiff.mp hfinal).2

end ElGamalVoting
