import ElGamalVoting.Adapters.MemorySteps

/- Agreement in the in-memory data layer, over every run.

   The invariant `InMemoryDataLayer.Ok` says that voters are committee members,
   that a stored aggregate's digest exists, and that ids are those of the
   sequence. Under it both reads answer with the majority's winner
   (`finalizedKeyOf_ok`, `aggregateOf_ok`). A DKG vote is only ever added and an
   aggregate vote only changes while there is no winner, so both answers are
   permanent. -/
namespace ElGamalVoting
open Lib

/-- What holds of a stored election at every point of a run. -/
structure Stored.Ok (E : EthLib) (electionId : Bytes) (st : Stored) : Prop where
  id : st.config.electionId = electionId
  dkgVoters : ∀ i ∈ st.dkgByKeyper.keys, i ∈ keyperIndices st.config.threshold.n
  aggregateVoters : ∀ i ∈ st.aggregateByKeyper.keys, i ∈ keyperIndices st.config.threshold.n
  digests : ∀ e ∈ st.aggregateByKeyper.entries, Returns (aggregateDigestOf E electionId e.2)

structure InMemoryDataLayer.Ok (E : EthLib) (s : InMemoryDataLayer) : Prop where
  ids : ∀ electionId ∈ s.elections.keys, ∃ k, k ≤ s.nextId ∧ k < 256 ^ 32 ∧ electionId = beBytes 32 k
  records : ∀ electionId st, s.elections.get? electionId = some st → st.Ok E electionId

variable {E : EthLib} {s s' : InMemoryDataLayer} {call : Call} {electionId : Bytes} {st st' : Stored}

/-! ## The two reads answer with the winner -/

/-- One vote a keyper, so fewer votes than two quorums. -/
theorem votes_lt_two_quorums {V : Type} {config : ElectionConfig} {votes : Dict Int V}
    (h : ∀ i ∈ votes.keys, i ∈ keyperIndices config.threshold.n) :
    votes.entries.length < config.threshold.t * 2 := by
  have hle : votes.keys.length ≤ (keyperIndices config.threshold.n).length :=
    (List.Nodup.subperm votes.nodup h).length_le
  have hmajority := config.threshold.majority
  rw [length_keyperIndices, Dict.keys, List.length_map] at hle
  omega

theorem finalizedKeyOf_ok (h : st.Ok E electionId) :
    finalizedKeyOf st = .ok ((Quorum.winner st.config.threshold.t (dkgVotes st)).map fun w =>
      ⟨w.1, w.2⟩) := by
  have hvoters : ((dkgVotes st).map Prod.fst).Nodup := by
    rw [dkgVotes, List.map_map]
    exact st.dkgByKeyper.nodup
  have hlen : (dkgVotes st).length < st.config.threshold.t * 2 := by
    rw [dkgVotes, List.length_map]
    exact votes_lt_two_quorums h.dkgVoters
  rw [finalizedKeyOf, resolveUnique_groupVotes st.config.threshold.one_le_t hvoters hlen, ok_bind]
  rfl

theorem aggregateOf_ok (h : st.Ok E electionId) :
    ∃ votes, aggregateVotes E electionId st = .ok votes ∧
      aggregateOf E electionId st = .ok (Quorum.winner st.config.threshold.t votes) := by
  have hvotes : ∃ votes, aggregateVotes E electionId st = .ok votes := by
    apply mapM_returns
    intro e he
    exact (h.digests e he).bind fun key _ => .ok (e.1, key, e.2)
  obtain ⟨votes, hvotes⟩ := hvotes
  refine ⟨votes, hvotes, ?_⟩
  have hfst : votes.map Prod.fst = st.aggregateByKeyper.entries.map Prod.fst := by
    refine map_eq_of_forall₂ (mapM_eq_ok.mp hvotes) fun e _ vote hvote => ?_
    obtain ⟨key, -, hvote⟩ := bind_eq_ok.mp hvote
    cases hvote
    rfl
  have hlen : votes.length < st.config.threshold.t * 2 := by
    rw [← List.length_map Prod.fst, hfst, List.length_map]
    exact votes_lt_two_quorums h.aggregateVoters
  rw [aggregateOf, hvotes, ok_bind]
  exact resolveUnique_groupVotes st.config.threshold.one_le_t (hfst ▸ st.aggregateByKeyper.nodup) hlen _ _

/-! ## The invariant -/

theorem keyperIndexByRecovery_mem {config : ElectionConfig} {digest sig : Bytes} {idx : Int}
    (h : keyperIndexByRecovery E config digest sig = .ok idx) :
    idx ∈ keyperIndices config.threshold.n := by
  unfold keyperIndexByRecovery at h
  split at h
  · cases h
  · split at h
    · cases h
    · rename_i hmember
      cases h
      obtain ⟨h1, h2, -⟩ := memberIndex_eq_some hmember
      exact mem_keyperIndices.mpr ⟨h1, h2⟩

/-- A change of a record keeps what holds of it, and its configuration. -/
theorem RecordStep.ok (hstep : RecordStep E s call electionId st st') (h : st.Ok E electionId) :
    st'.Ok E electionId := by
  cases hstep with
  | dkgResult pkElection committeePks keyperSig idx hwrite hidx hnew =>
    refine ⟨h.id, fun i hi => ?_, h.aggregateVoters, h.digests⟩
    rcases Dict.mem_keys_set.mp hi with rfl | hi
    · exact keyperIndexByRecovery_mem hidx
    · exact h.dkgVoters i hi
  | aggregate aggregate keyperSig digest idx hwrite hnow hdigest hidx hopen =>
    refine ⟨h.id, h.dkgVoters, fun i hi => ?_, fun e he => ?_⟩
    · rcases Dict.mem_keys_set.mp hi with rfl | hi
      · exact keyperIndexByRecovery_mem hidx
      · exact h.aggregateVoters i hi
    · have hget := Dict.get?_eq_some.mpr he
      rw [Dict.get?_set] at hget
      split at hget
      · cases hget
        exact ⟨digest, hdigest⟩
      · exact h.digests e (Dict.get?_eq_some.mp hget)
  | cancel => exact ⟨h.id, h.dkgVoters, h.aggregateVoters, h.digests⟩
  | ballot => exact ⟨h.id, h.dkgVoters, h.aggregateVoters, h.digests⟩
  | decryptionShare => exact ⟨h.id, h.dkgVoters, h.aggregateVoters, h.digests⟩
  | result => exact ⟨h.id, h.dkgVoters, h.aggregateVoters, h.digests⟩
  | tallyStalled => exact ⟨h.id, h.dkgVoters, h.aggregateVoters, h.digests⟩

/-- The id the next registration gets is not in use. -/
theorem InMemoryDataLayer.Ok.fresh (h : s.Ok E) (hlt : s.nextId + 1 < 256 ^ 32) :
    beBytes 32 (s.nextId + 1) ∉ s.elections.keys := by
  intro hmem
  obtain ⟨k, hk, hk', heq⟩ := h.ids _ hmem
  have := beBytes_inj hlt hk' heq
  omega

/-- A new election under the next id. -/
theorem InMemoryDataLayer.Ok.registered (h : s.Ok E) {config : ElectionConfig} (hlt : s.nextId + 1 < 256 ^ 32)
    (hid : config.electionId = beBytes 32 (s.nextId + 1)) :
    InMemoryDataLayer.Ok E { putStored s config.electionId { config } with nextId := s.nextId + 1 } := by
  constructor
  · intro electionId hmem
    rcases Dict.mem_keys_set.mp hmem with rfl | hmem
    · exact ⟨s.nextId + 1, le_rfl, hlt, hid⟩
    · obtain ⟨k, hk, hk', heq⟩ := h.ids electionId hmem
      exact ⟨k, Nat.le_succ_of_le hk, hk', heq⟩
  · intro electionId st hst
    simp only [putStored, Dict.get?_set] at hst
    split at hst
    · cases hst
      exact ⟨‹electionId = _›.symm, by simp, by simp, by simp⟩
    · exact h.records electionId st hst

theorem InMemoryDataLayer.Ok.perform (h : s.Ok E) (hcall : call.perform E s = .ok s') : s'.Ok E := by
  rcases Call.perform_cases hcall with ⟨config, adminSig, -, -, hlt, hid, rfl⟩ | hchanges
  · exact h.registered hlt hid
  · rcases hchanges with ⟨electionId, st, st', hst, hstep, rfl⟩ | rfl
    · constructor
      · intro eid hmem
        rcases Dict.mem_keys_set.mp hmem with rfl | hmem
        · exact h.ids _ (Dict.mem_keys_of_get? hst)
        · exact h.ids eid hmem
      · intro eid st'' hst''
        simp only [putStored, Dict.get?_set] at hst''
        split at hst''
        · cases hst''
          subst eid
          exact hstep.ok (h.records _ _ hst)
        · exact h.records eid st'' hst''
    · exact h

theorem InMemoryDataLayer.Ok.apply (h : s.Ok E) (call : Call) : (call.apply E s).Ok E := by
  unfold Call.apply
  split
  · exact h.perform ‹_›
  · exact h

theorem ok_empty : InMemoryDataLayer.Ok E {} where
  ids := by simp
  records := by simp

theorem InMemoryDataLayer.Ok.run (h : s.Ok E) (calls : List Call) : (runCalls E s calls).Ok E :=
  run_invariant (fun t : InMemoryDataLayer => t.Ok E) (fun _ call hs => hs.apply call) h calls

/-! ## Permanence -/

/-- What a call does to one election's record. -/
theorem InMemoryDataLayer.Ok.record (h : s.Ok E) (hst : s.elections.get? electionId = some st)
    (call : Call) :
    ∃ st', (call.apply E s).elections.get? electionId = some st' ∧
      (st' = st ∨ RecordStep E s call electionId st st') := by
  unfold Call.apply
  split
  · rename_i s' hcall
    rcases Call.perform_cases hcall with ⟨config, adminSig, -, -, hlt, hid, rfl⟩ | hchanges
    · have hne : electionId ≠ config.electionId := by
        rintro rfl
        exact h.fresh hlt (hid ▸ Dict.mem_keys_of_get? hst)
      exact ⟨st, by simp only [putStored, Dict.get?_set_ne hne, hst], .inl rfl⟩
    · rcases hchanges with ⟨eid, old, new, hold, hstep, rfl⟩ | rfl
      · simp only [putStored, Dict.get?_set]
        by_cases heq : electionId = eid
        · subst heq
          obtain rfl : st = old := Option.some.inj (hst.symm.trans hold)
          exact ⟨new, if_pos rfl, .inr hstep⟩
        · exact ⟨st, by rw [if_neg heq, hst], .inl rfl⟩
      · exact ⟨st, hst, .inl rfl⟩
  · exact ⟨st, hst, .inl rfl⟩

theorem RecordStep.finalizedKeyOf_kept {K : FinalizedKey}
    (hstep : RecordStep E s call electionId st st') (h : st.Ok E electionId)
    (hkey : finalizedKeyOf st = .ok (some K)) : finalizedKeyOf st' = .ok (some K) := by
  have h' := hstep.ok h
  cases hstep with
  | dkgResult pkElection committeePks keyperSig idx hwrite hidx hnew =>
    rw [finalizedKeyOf_ok h, Except.ok.injEq, Option.map_eq_some_iff] at hkey
    obtain ⟨w, hwin, rfl⟩ := hkey
    have hlen := votes_lt_two_quorums h'.dkgVoters
    have hvotes : dkgVotes { st with
        dkgByKeyper := st.dkgByKeyper.set idx ⟨electionId, pkElection, committeePks, keyperSig⟩ } =
          dkgVotes st ++ [(idx, (pkElection, committeePks), (pkElection, committeePks))] := by
      rw [dkgVotes, Dict.entries_set_new hnew, List.map_append]
      rfl
    rw [Dict.entries_set_new hnew] at hlen
    rw [finalizedKeyOf_ok h', hvotes, Quorum.winner_append (by simpa [dkgVotes] using hlen) hwin]
    rfl
  | cancel => exact hkey
  | ballot => exact hkey
  | aggregate => exact hkey
  | decryptionShare => exact hkey
  | result => exact hkey
  | tallyStalled => exact hkey

theorem RecordStep.aggregateOf_kept {A : AggregateArtifact}
    (hstep : RecordStep E s call electionId st st') (h : st.Ok E electionId)
    (hst : s.elections.get? electionId = some st) (hagg : aggregateOf E electionId st = .ok (some A)) :
    aggregateOf E electionId st' = .ok (some A) := by
  cases hstep with
  | aggregate aggregate keyperSig digest idx hwrite hnow hdigest hidx hopen =>
    -- the vote would not have been accepted: an aggregate is fixed already
    rw [aggregateFinalized, h.id, getAggregate, getStored_eq_ok.mpr hst, ok_bind, hagg, ok_bind] at hopen
    cases hopen
  | cancel => exact hagg
  | dkgResult => exact hagg
  | ballot => exact hagg
  | decryptionShare => exact hagg
  | result => exact hagg
  | tallyStalled => exact hagg

/-- A record property that every change keeps is kept over a run. -/
theorem InMemoryDataLayer.Ok.run_record {P : Stored → Prop} (h : s.Ok E)
    (hP : ∀ s call st st', s.Ok E → s.elections.get? electionId = some st →
      RecordStep E s call electionId st st' → P st → P st')
    (hst : s.elections.get? electionId = some st) (hp : P st) (calls : List Call) :
    ∃ st', (runCalls E s calls).elections.get? electionId = some st' ∧ P st' := by
  have hstep : ∀ (t : InMemoryDataLayer) (call : Call),
      (t.Ok E ∧ ∃ st, t.elections.get? electionId = some st ∧ P st) →
      (call.apply E t).Ok E ∧ ∃ st, (call.apply E t).elections.get? electionId = some st ∧ P st := by
    intro t call ht
    obtain ⟨hok, st, hst, hp⟩ := ht
    refine ⟨hok.apply call, ?_⟩
    obtain ⟨st', hst', rfl | hstep⟩ := hok.record hst call
    · exact ⟨st', hst', hp⟩
    · exact ⟨st', hst', hP t call st st' hok hst hstep hp⟩
  exact (run_invariant
    (fun t : InMemoryDataLayer => t.Ok E ∧ ∃ st, t.elections.get? electionId = some st ∧ P st) hstep
    ⟨h, st, hst, hp⟩ calls).2

/-! ## Agreement over every run -/

theorem getFinalizedKey_eq_some {K : FinalizedKey} :
    getFinalizedKey s electionId = .ok (some K) ↔
      ∃ st, s.elections.get? electionId = some st ∧ finalizedKeyOf st = .ok (some K) := by
  rw [getFinalizedKey, bind_eq_ok]
  simp only [getStored_eq_ok]

theorem getAggregate_eq_some {A : AggregateArtifact} :
    getAggregate E s electionId = .ok (some A) ↔
      ∃ st, s.elections.get? electionId = some st ∧ aggregateOf E electionId st = .ok (some A) := by
  rw [getAggregate, bind_eq_ok]
  simp only [getStored_eq_ok]

/-- A read of a record that answers for every known election raises only for an unknown one. -/
theorem InMemoryDataLayer.Ok.read_ne_conflict {α : Type} (h : s.Ok E) {read : Stored → Py α}
    (hread : ∀ st, st.Ok E electionId → Returns (read st)) (msg : String) :
    (getStored s electionId >>= read) ≠ .error (.quorumConflict msg) := by
  intro herror
  rcases bind_eq_error.mp herror with hget | ⟨st, hst, herr⟩
  · unfold getStored at hget
    split at hget
    · cases hget
    · cases hget
  · obtain ⟨a, ha⟩ := hread st (h.records _ _ (getStored_eq_ok.mp hst))
    rw [ha] at herr
    cases herr

theorem InMemoryDataLayer.Ok.share_after_aggregate (h : s.Ok E) {now : Int}
    {share : DecryptionShareEnvelope} {sig : Bytes}
    (hshare : submitDecryptionShare E s now electionId share sig = .ok s') :
    ∃ A, getAggregate E s electionId = .ok (some A) := by
  rw [submitDecryptionShare] at hshare
  obtain ⟨st, hst, hshare⟩ := bind_eq_ok.mp hshare
  split at hshare
  · cases hshare
  · obtain ⟨finalized, hfinal, hshare⟩ := bind_eq_ok.mp hshare
    cases finalized with
    | false => cases hshare
    | true =>
      rw [aggregateFinalized, (h.records _ _ (getStored_eq_ok.mp hst)).id] at hfinal
      obtain ⟨found, hfound, hfinal⟩ := bind_eq_ok.mp hfinal
      cases found with
      | none => cases hfinal
      | some A => exact ⟨A, hfound⟩

/-- Quorum agreement and permanence, after any writes to an empty store and through any
    further ones. -/
theorem quorum_agreement (E : EthLib) (calls : List Call) (electionId : Bytes) :
    (∀ msg, getFinalizedKey (runCalls E {} calls) electionId ≠ .error (.quorumConflict msg)) ∧
    (∀ msg, getAggregate E (runCalls E {} calls) electionId ≠ .error (.quorumConflict msg)) ∧
    (∀ K, getFinalizedKey (runCalls E {} calls) electionId = .ok (some K) → ∀ more,
      getFinalizedKey (runCalls E (runCalls E {} calls) more) electionId = .ok (some K)) ∧
    (∀ A, getAggregate E (runCalls E {} calls) electionId = .ok (some A) → ∀ more,
      getAggregate E (runCalls E (runCalls E {} calls) more) electionId = .ok (some A)) ∧
    (∀ now share sig s', submitDecryptionShare E (runCalls E {} calls) now electionId share sig = .ok s' →
      ∃ A, getAggregate E (runCalls E {} calls) electionId = .ok (some A)) := by
  have hok : (runCalls E {} calls).Ok E := ok_empty.run calls
  refine ⟨hok.read_ne_conflict fun st h => ⟨_, finalizedKeyOf_ok h⟩,
    hok.read_ne_conflict fun st h => ?_, fun K hK more => ?_, fun A hA more => ?_,
    fun now share sig s' hshare => hok.share_after_aggregate hshare⟩
  · obtain ⟨votes, -, hagg⟩ := aggregateOf_ok h
    exact ⟨_, hagg⟩
  · obtain ⟨st, hst, hkey⟩ := getFinalizedKey_eq_some.mp hK
    exact getFinalizedKey_eq_some.mpr (hok.run_record (P := fun st => finalizedKeyOf st = .ok (some K))
      (fun s call st st' hs hst hstep hp => hstep.finalizedKeyOf_kept (hs.records _ _ hst) hp)
      hst hkey more)
  · obtain ⟨st, hst, hagg⟩ := getAggregate_eq_some.mp hA
    exact getAggregate_eq_some.mpr
      (hok.run_record (P := fun st => aggregateOf E electionId st = .ok (some A))
        (fun s call st st' hs hst hstep hp => hstep.aggregateOf_kept (hs.records _ _ hst) hst hp)
        hst hagg more)

/-! A committee of three in which two agree on a key and on an aggregate, and the third does
    not. -/

/-- The first registration, signed by the admin. -/
theorem registerElection_first {E : EthLib} {config : ElectionConfig}
    (hid : config.electionId = beBytes 32 1) (hprints : config.prints = true)
    (hsig : ∀ digest, E.recoverMessage digest (E.signMessage config.adminKey digest) =
      some config.adminKey) :
    registerElection E {} config (E.signMessage config.adminKey (registerDigest E config)) =
      .ok { elections := (∅ : Dict Bytes Stored).set config.electionId { config }, nextId := 1 } := by
  have hverify : verifyRegister E config.adminKey
      (E.signMessage config.adminKey (registerDigest E config)) config = true := by
    rw [verifyRegister, hprints, signedBy]
    simp [hsig]
  have hbytes : toBytes (((0 : Nat) : Int) + 1) 32 = .ok (beBytes 32 1) := by
    rw [toBytes, if_neg (by decide), if_pos (by decide)]
    rfl
  rw [registerElection, if_neg (not_not.mpr hverify), hbytes, ok_bind, if_neg (not_not.mpr hid), hid]
  rfl

namespace SampleRun

def aggregate (weight : Int) : AggregateArtifact := ⟨smallConfig.electionId, [], [], [], weight, weight⟩

def dkgResult (key pkElection : Bytes) : Call :=
  ⟨50, 50, .dkgResult smallConfig.electionId pkElection []
    (plainEth.signMessage key (dkgResultDigest plainEth smallConfig.electionId pkElection []))⟩

def submit (key : Bytes) (weight : Int) : Call :=
  ⟨250, 250, .aggregate smallConfig.electionId (aggregate weight)
    (plainEth.signMessage key
      ((aggregateDigestOf plainEth smallConfig.electionId (aggregate weight)).toOption.getD []))⟩

def calls : List Call :=
  [⟨0, 0, .register smallConfig (plainEth.signMessage [5] (registerDigest plainEth smallConfig))⟩,
    dkgResult [1] [7], dkgResult [2] [8], dkgResult [3] [7],
    submit [1] 6, submit [2] 5, submit [3] 4, submit [1] 5, submit [3] 5]

end SampleRun

open SampleRun in
/-- The majority's key and the aggregate the first keyper changed to stay, whatever follows. -/
theorem quorum_agreement_of_three :
    (getFinalizedKey (runCalls plainEth {} calls) smallConfig.electionId = .ok (some ⟨[7], []⟩) ∧
      getAggregate plainEth (runCalls plainEth {} calls) smallConfig.electionId =
        .ok (some (aggregate 5))) ∧
    (∀ more, getFinalizedKey (runCalls plainEth (runCalls plainEth {} calls) more)
      smallConfig.electionId = .ok (some ⟨[7], []⟩)) ∧
    ∀ more, getAggregate plainEth (runCalls plainEth (runCalls plainEth {} calls) more)
      smallConfig.electionId = .ok (some (aggregate 5)) := by
  have hfixed : getFinalizedKey (runCalls plainEth {} calls) smallConfig.electionId =
      .ok (some ⟨[7], []⟩) ∧ getAggregate plainEth (runCalls plainEth {} calls)
        smallConfig.electionId = .ok (some (aggregate 5)) := by
    decide +kernel
  obtain ⟨-, -, hkey, hagg, -⟩ := quorum_agreement plainEth calls smallConfig.electionId
  exact ⟨hfixed, hkey _ hfixed.1, hagg _ hfixed.2⟩

end ElGamalVoting
