import ElGamalVoting.Adapters.MemoryLifecycle
import ElGamalVoting.Lib.Table

/- Where the content of the in-memory data layer comes from.

   Every submission, aggregate, share and result of a record was carried by a call of the run
   that led to it, under the index its signature recovers to (`cameFrom_run`). What was accepted
   stays: the configuration, the finalized key, the canonical aggregate and the shares of a
   record outlast every further call, and once voting has closed the ballots do too. -/
namespace ElGamalVoting
open Lib

/-- The content of a record, each value with a call of the list that carried it. -/
structure Stored.CameFrom (E : EthLib) (calls : List Call) (electionId : Bytes) (st : Stored) : Prop where
  dkg : ∀ i sub, st.dkgByKeyper.get? i = some sub →
    keyperIndexByRecovery E st.config (dkgResultDigest E electionId sub.pkElection sub.committeePks)
      sub.keyperSignature = .ok i ∧
    ∃ call ∈ calls, call.write =
      .dkgResult electionId sub.pkElection sub.committeePks sub.keyperSignature
  aggregates : ∀ i A, st.aggregateByKeyper.get? i = some A →
    ∃ call ∈ calls, ∃ sig, call.write = .aggregate electionId A sig
  shares : ∀ i share, st.sharesByKeyper.get? i = some share → share.keyperIndex = i ∧
    i ∈ keyperIndices st.config.threshold.n ∧
    ∃ call ∈ calls, ∃ sig, call.write = .decryptionShare electionId share sig
  result : ∀ r, st.result = some r → ∃ call ∈ calls, ∃ sig, call.write = .result electionId r sig

variable {E : EthLib} {s s' : InMemoryDataLayer} {call : Call} {calls : List Call} {electionId : Bytes}
  {st st' : Stored}

theorem RecordStep.cameFrom (hstep : RecordStep E s call electionId st st') (hcall : call ∈ calls)
    (h : st.CameFrom E calls electionId) : st'.CameFrom E calls electionId := by
  cases hstep with
  | dkgResult pkElection committeePks keyperSig idx hwrite hidx hnew =>
    refine ⟨fun i sub hsub => ?_, h.aggregates, h.shares, h.result⟩
    rw [Dict.get?_set] at hsub
    split at hsub
    · cases hsub
      subst i
      exact ⟨hidx, call, hcall, hwrite⟩
    · exact h.dkg i sub hsub
  | aggregate aggregate keyperSig digest idx hwrite hnow hdigest hidx hopen =>
    refine ⟨h.dkg, fun i A hA => ?_, h.shares, h.result⟩
    rw [Dict.get?_set] at hA
    split at hA
    · cases hA
      exact ⟨call, hcall, keyperSig, hwrite⟩
    · exact h.aggregates i A hA
  | decryptionShare share keyperSig digest hwrite hnow hfixed hdigest hidx hnew =>
    refine ⟨h.dkg, h.aggregates, fun i share' hshare => ?_, h.result⟩
    rw [Dict.get?_set] at hshare
    split at hshare
    · cases hshare
      subst i
      exact ⟨rfl, keyperIndexByRecovery_mem hidx, call, hcall, keyperSig, hwrite⟩
    · exact h.shares i share' hshare
  | result result resultPublisherSig payload hwrite hpayload hsig hnew =>
    refine ⟨h.dkg, h.aggregates, h.shares, fun r hr => ?_⟩
    cases hr
    exact ⟨call, hcall, resultPublisherSig, hwrite⟩
  | cancel => exact ⟨h.dkg, h.aggregates, h.shares, h.result⟩
  | ballot => exact ⟨h.dkg, h.aggregates, h.shares, h.result⟩
  | tallyStalled => exact ⟨h.dkg, h.aggregates, h.shares, h.result⟩

/-- What holds of a fresh record and is kept by every change holds of every record of a run. -/
theorem records_invariant {P : Bytes → Stored → Prop} (calls : List Call)
    (hfresh : ∀ config : ElectionConfig, config.prints = true → P config.electionId { config })
    (hstep : ∀ s call electionId st st', call ∈ calls → RecordStep E s call electionId st st' →
      P electionId st → P electionId st') :
    ∀ electionId st, (runCalls E {} calls).elections.get? electionId = some st → P electionId st := by
  refine run_invariant_of (Q := fun _ call => call ∈ calls) (fun t : InMemoryDataLayer =>
    ∀ electionId st, t.elections.get? electionId = some st → P electionId st) ?_ (by simp) ?_
  · intro t call h hcall electionId st hst
    rw [Call.apply] at hst
    split at hst
    · rename_i t' hperform
      rcases Call.perform_cases hperform with ⟨config, adminSig, -, hverify, -, -, rfl⟩ | hchange
      · rw [putStored] at hst
        simp only [Dict.get?_set] at hst
        split at hst
        · cases hst
          subst electionId
          exact hfresh config (prints_of_verifyRegister hverify)
        · exact h electionId st hst
      · rcases hchange with ⟨id, old, new, hold, hrecord, rfl⟩ | rfl
        · rw [putStored] at hst
          simp only [Dict.get?_set] at hst
          split at hst
          · cases hst
            subst electionId
            exact hstep t call id old st hcall hrecord (h id old hold)
          · exact h electionId st hst
        · exact h electionId st hst
    · exact h electionId st hst
  · intro before call after hsplit
    rw [hsplit]
    simp

theorem cameFrom_run (calls : List Call) :
    ∀ electionId st, (runCalls E {} calls).elections.get? electionId = some st →
      st.CameFrom E calls electionId :=
  records_invariant (P := fun electionId st => st.CameFrom E calls electionId) calls
    (fun _ _ => ⟨by simp, by simp, by simp, by simp⟩)
    (fun _ _ _ _ _ hcall hstep h => hstep.cameFrom hcall h)

/-! ## Stored ballots are numbered by position -/

/-- The rows of a page from an offset on. -/
theorem pySlice_nat {α : Type} (l : List α) (start count : Nat) :
    pySlice l start (start + count : Int) = (l.drop start).take count := by
  rw [pySlice, sliceIndex, sliceIndex, if_neg (by omega), if_neg (by omega), Int.toNat_natCast, List.drop_take]
  congr 2
  omega

def Stored.Numbered (st : Stored) : Prop :=
  ∀ (i : Nat) sb, st.ballots[i]? = some sb → sb.sequenceNumber = i

theorem numbered_append (h : st.Numbered) (ballot : BallotEnvelope) (time : Option Int) :
    Stored.Numbered { st with ballots := st.ballots ++ [⟨st.ballots.length, ballot, time⟩] } := by
  intro i sb hi
  rcases lt_trichotomy i st.ballots.length with hlt | rfl | hgt
  · rw [List.getElem?_append_left hlt] at hi
    exact h i sb hi
  · rw [List.getElem?_concat_length] at hi
    cases hi
    rfl
  · have hnone : (st.ballots ++ [⟨st.ballots.length, ballot, time⟩])[i]? = none := by
      rw [List.getElem?_eq_none_iff, List.length_append]
      exact hgt
    rw [hnone] at hi
    cases hi

theorem RecordStep.numbered (hstep : RecordStep E s call electionId st st') (h : st.Numbered) :
    st'.Numbered := by
  cases hstep with
  | ballot ballot gatewaySig => exact numbered_append h ballot _
  | _ => exact h

theorem numbered_run (E : EthLib) (calls : List Call) :
    ∀ electionId st, (runCalls E {} calls).elections.get? electionId = some st → st.Numbered :=
  records_invariant (P := fun _ st => st.Numbered) calls (fun _ _ i sb hi => by cases hi)
    (fun _ _ _ _ _ _ hstep h => hstep.numbered h)

theorem Stored.Numbered.unique (h : st.Numbered) {sb sb' : StoredBallot} (hsb : sb ∈ st.ballots)
    (hsb' : sb' ∈ st.ballots) (heq : sb.sequenceNumber = sb'.sequenceNumber) : sb = sb' := by
  obtain ⟨i, hi⟩ := List.mem_iff_getElem?.mp hsb
  obtain ⟨j, hj⟩ := List.mem_iff_getElem?.mp hsb'
  have hij : i = j := by
    have := h i sb hi
    have := h j sb' hj
    omega
  subst hij
  exact Option.some.inj (hi.symm.trans hj)

/-! ## What stays -/

theorem getElection_eq_ok {record : ElectionRecord} (h : getElection s electionId = .ok record) :
    ∃ st, s.elections.get? electionId = some st ∧ finalizedKeyOf st = .ok record.finalizedKey ∧
      record.config = st.config := by
  obtain ⟨st, hst, h⟩ := bind_eq_ok.mp h
  obtain ⟨key, hkey, h⟩ := bind_eq_ok.mp h
  obtain ⟨st', hst', hkey⟩ := bind_eq_ok.mp hkey
  cases hst.symm.trans hst'
  cases h
  exact ⟨st, getStored_eq_ok.mp hst, hkey, rfl⟩

theorem voting_of_deriveState {config : ElectionConfig} {facts : StateFacts} {now : Int}
    (h : deriveState config facts now = .voting) :
    facts.keyFinalized = true ∧ isVotingOpen config now = true := by
  rw [deriveState] at h
  split_ifs at h with _ _ _ hkey hstart hend
  refine ⟨by simpa using hkey, ?_⟩
  simp only [isVotingOpen, decide_eq_true_eq]
  omega

theorem isVotingOpen_of_requireVotingOpen {now : Int} (h : requireVotingOpen st now = .ok ()) :
    isVotingOpen st.config now = true := by
  rw [requireVotingOpen] at h
  obtain ⟨key, -, h⟩ := bind_eq_ok.mp h
  dsimp only at h
  split at h
  · cases h
  · rename_i hvoting
    exact (voting_of_deriveState (not_not.mp hvoting)).2

/-- No call at or after the close of voting adds a ballot. -/
theorem RecordStep.ballots_closed (hstep : RecordStep E s call electionId st st')
    (hclosed : st.config.votingEnd ≤ call.now) : st'.ballots = st.ballots := by
  cases hstep with
  | ballot ballot gatewaySig hwrite hgateway hopen =>
    have hwindow := isVotingOpen_of_requireVotingOpen hopen
    simp only [isVotingOpen, decide_eq_true_eq] at hwindow
    omega
  | _ => rfl

theorem RecordStep.share_kept {i : Int} {share : DecryptionShareEnvelope}
    (hstep : RecordStep E s call electionId st st') (h : st.sharesByKeyper.get? i = some share) :
    st'.sharesByKeyper.get? i = some share := by
  cases hstep with
  | decryptionShare share' keyperSig digest hwrite hnow hfixed hdigest hidx hnew =>
    have hne : i ≠ share'.keyperIndex := by
      rintro rfl
      rw [hnew] at h
      cases h
    rw [Dict.get?_set_ne hne]
    exact h
  | _ => exact h

/-- What a later moment of a run still has of an earlier one. -/
structure Stored.Later (E : EthLib) (electionId : Bytes) (st st' : Stored) : Prop where
  config : st'.config = st.config
  key : ∀ K, finalizedKeyOf st = .ok (some K) → finalizedKeyOf st' = .ok (some K)
  aggregate : ∀ A, aggregateOf E electionId st = .ok (some A) → aggregateOf E electionId st' = .ok (some A)
  shares : ∀ i share, st.sharesByKeyper.get? i = some share → st'.sharesByKeyper.get? i = some share

theorem InMemoryDataLayer.Ok.later (h : s.Ok E) (hst : s.elections.get? electionId = some st)
    (calls : List Call) :
    ∃ st', (runCalls E s calls).elections.get? electionId = some st' ∧ st.Later E electionId st' := by
  refine h.run_record (P := fun st' => st.Later E electionId st') ?_ hst
    ⟨rfl, fun _ h => h, fun _ h => h, fun _ _ h => h⟩ calls
  intro t call st₁ st₂ hok hst₁ hstep hlater
  refine ⟨hstep.config_eq.trans hlater.config, fun K hK => ?_, fun A hA => ?_, fun i share hi => ?_⟩
  · exact hstep.finalizedKeyOf_kept (hok.records _ _ hst₁) (hlater.key K hK)
  · exact hstep.aggregateOf_kept (hok.records _ _ hst₁) hst₁ (hlater.aggregate A hA)
  · exact hstep.share_kept (hlater.shares i share hi)

/-- From the close of voting on, the ballots are those there. -/
theorem InMemoryDataLayer.Ok.ballots_closed (h : s.Ok E) (hst : s.elections.get? electionId = some st)
    {calls : List Call} (hclosed : ∀ call ∈ calls, st.config.votingEnd ≤ call.now) :
    ∃ st', (runCalls E s calls).elections.get? electionId = some st' ∧ st'.ballots = st.ballots := by
  have hrun : (runCalls E s calls).Ok E ∧ ∃ st', (runCalls E s calls).elections.get? electionId = some st' ∧
      st'.config = st.config ∧ st'.ballots = st.ballots := by
    refine run_invariant_of (Q := fun _ call => st.config.votingEnd ≤ call.now)
      (fun t : InMemoryDataLayer => t.Ok E ∧ ∃ st', t.elections.get? electionId = some st' ∧
        st'.config = st.config ∧ st'.ballots = st.ballots) ?_ ⟨h, st, hst, rfl, rfl⟩ ?_
    · intro t call ht hnow
      obtain ⟨hok, st₁, hst₁, hconfig, hballots⟩ := ht
      refine ⟨hok.apply call, ?_⟩
      obtain ⟨st₂, hst₂, rfl | hstep⟩ := hok.record hst₁ call
      · exact ⟨_, hst₂, hconfig, hballots⟩
      · rw [← hconfig] at hnow
        exact ⟨st₂, hst₂, hstep.config_eq.trans hconfig, (hstep.ballots_closed hnow).trans hballots⟩
    · intro before call after hsplit
      exact hclosed call (by rw [hsplit]; simp)
  obtain ⟨-, st', hst', -, hballots⟩ := hrun
  exact ⟨st', hst', hballots⟩

/-! ## The sorted lists -/

/-- The values listed by their sorted keys are the values. -/
theorem sorted_values_perm {V : Type} (d : Dict Int V) :
    ((sortedKeys d).filterMap d.get?).Perm d.values := by
  have hrows : d.entries.Perm (d.entries.map fun e => (e.1, id e.2)) := by simp
  have hsorted := Table.orderBy_eq hrows
  rw [List.map_id] at hsorted
  rw [sortedKeys, ← hsorted]
  exact (Table.orderBy_perm d.entries).map Prod.snd

/-- A later record lists no fewer shares. -/
theorem Stored.Later.length_shares (h : st.Later E electionId st') :
    ((sortedKeys st.sharesByKeyper).filterMap st.sharesByKeyper.get?).length ≤
      ((sortedKeys st'.sharesByKeyper).filterMap st'.sharesByKeyper.get?).length := by
  have hkeys : ∀ i ∈ st.sharesByKeyper.keys, i ∈ st'.sharesByKeyper.keys := by
    intro i hi
    obtain ⟨share, hshare⟩ := Dict.exists_get?_of_mem_keys hi
    exact Dict.mem_keys_of_get? (h.shares i share hshare)
  have hle := (List.Nodup.subperm st.sharesByKeyper.nodup hkeys).length_le
  rw [(sorted_values_perm _).length_eq, (sorted_values_perm _).length_eq]
  simpa [Dict.keys, Dict.values] using hle

end ElGamalVoting
