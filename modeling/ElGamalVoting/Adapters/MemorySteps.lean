import ElGamalVoting.Adapters.Memory
import ElGamalVoting.Lib.Run

/- What a write to the in-memory data layer can do.

   `RecordStep` lists, for each kind of write, the change it makes to one
   election's record and the checks it passed; `Call.perform_cases` says that an
   accepted call registers a fresh election, makes one such change, or is a resend
   that changes nothing. Every invariant of the store is derived from these. -/
namespace ElGamalVoting
open Lib

/-- An accepted change of election `electionId`'s record `st`, in the store `s`. -/
inductive RecordStep (E : EthLib) (s : InMemoryDataLayer) (call : Call) (electionId : Bytes)
    (st : Stored) : Stored → Prop
  | cancel (adminSig : Bytes) (hwrite : call.write = .cancel electionId adminSig)
      (hnow : call.now < st.config.votingStart)
      (hsig : verifyRequest E st.config.adminKey adminSig "cancel" electionId [] = true) :
      RecordStep E s call electionId st { st with cancelled := true }
  | dkgResult (pkElection : Bytes) (committeePks : List Bytes) (keyperSig : Bytes) (idx : Int)
      (hwrite : call.write = .dkgResult electionId pkElection committeePks keyperSig)
      (hidx : keyperIndexByRecovery E st.config (dkgResultDigest E electionId pkElection committeePks)
        keyperSig = .ok idx)
      (hnew : st.dkgByKeyper.get? idx = none) :
      RecordStep E s call electionId st { st with
        dkgByKeyper := st.dkgByKeyper.set idx ⟨electionId, pkElection, committeePks, keyperSig⟩ }
  | ballot (ballot : BallotEnvelope) (gatewaySig : Bytes)
      (hwrite : call.write = .ballot electionId ballot gatewaySig)
      (hgateway : requireGateway E st ballot gatewaySig = .ok ())
      (hopen : requireVotingOpen st call.now = .ok ()) :
      RecordStep E s call electionId st { st with
        ballots := st.ballots ++ [⟨st.ballots.length, ballot, some call.now⟩] }
  | aggregate (aggregate : AggregateArtifact) (keyperSig digest : Bytes) (idx : Int)
      (hwrite : call.write = .aggregate electionId aggregate keyperSig)
      (hnow : st.config.votingEnd ≤ call.now)
      (hdigest : aggregateDigestOf E electionId aggregate = .ok digest)
      (hidx : keyperIndexByRecovery E st.config digest keyperSig = .ok idx)
      (hopen : aggregateFinalized E s st = .ok false) :
      RecordStep E s call electionId st { st with
        aggregateByKeyper := st.aggregateByKeyper.set idx aggregate }
  | decryptionShare (share : DecryptionShareEnvelope) (keyperSig digest : Bytes)
      (hwrite : call.write = .decryptionShare electionId share keyperSig)
      (hnow : st.config.votingEnd ≤ call.now)
      (hfixed : aggregateFinalized E s st = .ok true)
      (hdigest : shareEnvelopeDigest E electionId share.entries = .ok digest)
      (hidx : keyperIndexByRecovery E st.config digest keyperSig = .ok share.keyperIndex)
      (hnew : st.sharesByKeyper.get? share.keyperIndex = none) :
      RecordStep E s call electionId st { st with
        sharesByKeyper := st.sharesByKeyper.set share.keyperIndex share }
  | result (result : ResultArtifact) (resultPublisherSig payload : Bytes)
      (hwrite : call.write = .result electionId result resultPublisherSig)
      (hpayload : resultDigest E electionId result = .ok payload)
      (hsig : verifyRequest E st.config.resultPublisherKey resultPublisherSig "result" electionId
        payload = true)
      (hnew : st.result = none) :
      RecordStep E s call electionId st { st with result := some result }
  | tallyStalled (stalled : Bool) (sig payload : Bytes) (issuedAt : Int)
      (hwrite : call.write = .tallyStalled electionId stalled sig issuedAt)
      (hfresh : requestIsFresh issuedAt call.now = true)
      (hunused : (electionId, stallOp stalled, issuedAt) ∉ s.usedRequestNonces)
      (hpayload : requestNoncePayload issuedAt = .ok payload)
      (hauthority : requireStallAuthority E st call.later electionId stalled sig payload = .ok ()) :
      RecordStep E s call electionId st { st with tallyStalled := stalled }

/-- The nonces spent after a call. -/
def Call.spend (call : Call) (used : List (Bytes × String × Int)) : List (Bytes × String × Int) :=
  match call.write with
  | .tallyStalled electionId stalled _ issuedAt => (electionId, stallOp stalled, issuedAt) :: used
  | _ => used

variable {E : EthLib} {s s' : InMemoryDataLayer} {call : Call}

theorem getStored_eq_ok {electionId : Bytes} {st : Stored} :
    getStored s electionId = .ok st ↔ s.elections.get? electionId = some st := by
  rw [getStored]
  cases s.elections.get? electionId with
  | none => simp
  | some st' => simp

theorem prints_of_verifyRegister {adminKey signature : Bytes} {config : ElectionConfig}
    (h : verifyRegister E adminKey signature config = true) : config.prints = true :=
  (Bool.and_eq_true_iff.mp h).1

theorem registerElection_eq_ok {config : ElectionConfig} {adminSig : Bytes}
    (h : registerElection E s config adminSig = .ok s') :
    verifyRegister E config.adminKey adminSig config = true ∧ s.nextId + 1 < 256 ^ 32 ∧
      config.electionId = beBytes 32 (s.nextId + 1) ∧
      s' = { putStored s config.electionId { config } with nextId := s.nextId + 1 } := by
  rw [registerElection] at h
  split at h
  · cases h
  · rename_i hverify
    obtain ⟨electionId, hid, h⟩ := bind_eq_ok.mp h
    obtain ⟨-, hlt, rfl⟩ := toBytes_eq_ok hid
    split at h
    · cases h
    · rename_i heq
      cases h
      refine ⟨not_not.mp hverify, by exact_mod_cast hlt, not_not.mp heq, ?_⟩
      rw [not_not.mp heq]

/-- The outcome of an accepted write to an existing election: one change of its record, or
    the store as it was. -/
def Changes (E : EthLib) (call : Call) (s s' : InMemoryDataLayer) : Prop :=
  (∃ electionId st st', s.elections.get? electionId = some st ∧
    RecordStep E s call electionId st st' ∧
    s' = { putStored s electionId st' with usedRequestNonces := call.spend s.usedRequestNonces }) ∨
  s' = s

theorem cancelElection_changes {electionId adminSig : Bytes}
    (hwrite : call.write = .cancel electionId adminSig)
    (h : cancelElection E s call.now electionId adminSig = .ok s') : Changes E call s s' := by
  rw [cancelElection] at h
  obtain ⟨st, hst, h⟩ := bind_eq_ok.mp h
  split at h
  · cases h
  · rename_i hnow
    split at h
    · cases h
    · rename_i hsig
      cases h
      refine .inl ⟨electionId, st, _, getStored_eq_ok.mp hst,
        .cancel adminSig hwrite (by omega) (not_not.mp hsig), ?_⟩
      rw [Call.spend, hwrite]
      rfl

theorem submitDkgResult_changes {electionId pkElection : Bytes} {committeePks : List Bytes}
    {keyperSig : Bytes} (hwrite : call.write = .dkgResult electionId pkElection committeePks keyperSig)
    (h : submitDkgResult E s electionId pkElection committeePks keyperSig = .ok s') :
    Changes E call s s' := by
  rw [submitDkgResult] at h
  obtain ⟨st, hst, h⟩ := bind_eq_ok.mp h
  obtain ⟨idx, hidx, h⟩ := bind_eq_ok.mp h
  split at h
  · split at h
    · cases h
    · cases h
      exact .inr rfl
  · rename_i hnew
    cases h
    refine .inl ⟨electionId, st, _, getStored_eq_ok.mp hst,
      .dkgResult pkElection committeePks keyperSig idx hwrite hidx hnew, ?_⟩
    rw [Call.spend, hwrite]
    rfl

theorem submitBallot_changes {electionId : Bytes} {ballot : BallotEnvelope} {gatewaySig : Bytes}
    (hwrite : call.write = .ballot electionId ballot gatewaySig)
    (h : submitBallot E s call.now electionId ballot gatewaySig = .ok s') : Changes E call s s' := by
  rw [submitBallot] at h
  obtain ⟨st, hst, h⟩ := bind_eq_ok.mp h
  obtain ⟨⟨⟩, hgateway, h⟩ := bind_eq_ok.mp h
  obtain ⟨⟨⟩, hopen, h⟩ := bind_eq_ok.mp h
  cases h
  refine .inl ⟨electionId, st, _, getStored_eq_ok.mp hst,
    .ballot ballot gatewaySig hwrite hgateway hopen, ?_⟩
  rw [Call.spend, hwrite]
  rfl

theorem submitAggregate_changes {electionId : Bytes} {aggregate : AggregateArtifact}
    {keyperSig : Bytes} (hwrite : call.write = .aggregate electionId aggregate keyperSig)
    (h : submitAggregate E s call.now electionId aggregate keyperSig = .ok s') :
    Changes E call s s' := by
  rw [submitAggregate] at h
  obtain ⟨st, hst, h⟩ := bind_eq_ok.mp h
  split at h
  · cases h
  · rename_i hnow
    obtain ⟨digest, hdigest, h⟩ := bind_eq_ok.mp h
    obtain ⟨idx, hidx, h⟩ := bind_eq_ok.mp h
    split at h
    · cases h
      exact .inr rfl
    · obtain ⟨finalized, hfinal, h⟩ := bind_eq_ok.mp h
      cases finalized with
      | true => cases h
      | false =>
        cases h
        refine .inl ⟨electionId, st, _, getStored_eq_ok.mp hst,
          .aggregate aggregate keyperSig digest idx hwrite (by omega) hdigest hidx hfinal, ?_⟩
        rw [Call.spend, hwrite]
        rfl

theorem submitDecryptionShare_changes {electionId : Bytes} {share : DecryptionShareEnvelope}
    {keyperSig : Bytes} (hwrite : call.write = .decryptionShare electionId share keyperSig)
    (h : submitDecryptionShare E s call.now electionId share keyperSig = .ok s') :
    Changes E call s s' := by
  rw [submitDecryptionShare] at h
  obtain ⟨st, hst, h⟩ := bind_eq_ok.mp h
  split at h
  · cases h
  · rename_i hnow
    obtain ⟨finalized, hfinal, h⟩ := bind_eq_ok.mp h
    cases finalized with
    | false => cases h
    | true =>
      obtain ⟨digest, hdigest, h⟩ := bind_eq_ok.mp h
      obtain ⟨idx, hidx, h⟩ := bind_eq_ok.mp h
      split at h
      · cases h
      · rename_i hindex
        obtain rfl := not_not.mp hindex
        split at h
        · split at h
          · cases h
          · cases h
            exact .inr rfl
        · rename_i hnew
          cases h
          refine .inl ⟨electionId, st, _, getStored_eq_ok.mp hst,
            .decryptionShare share keyperSig digest hwrite (by omega) hfinal hdigest hidx hnew, ?_⟩
          rw [Call.spend, hwrite]
          rfl

theorem publishResult_changes {electionId : Bytes} {result : ResultArtifact}
    {resultPublisherSig : Bytes} (hwrite : call.write = .result electionId result resultPublisherSig)
    (h : publishResult E s electionId result resultPublisherSig = .ok s') : Changes E call s s' := by
  rw [publishResult] at h
  obtain ⟨st, hst, h⟩ := bind_eq_ok.mp h
  obtain ⟨payload, hpayload, h⟩ := bind_eq_ok.mp h
  split at h
  · cases h
  · rename_i hsig
    split at h
    · split at h
      · cases h
      · cases h
        exact .inr rfl
    · rename_i hnew
      cases h
      refine .inl ⟨electionId, st, _, getStored_eq_ok.mp hst,
        .result result resultPublisherSig payload hwrite hpayload (not_not.mp hsig) hnew, ?_⟩
      rw [Call.spend, hwrite]
      rfl

/-- An accepted turn of the flag: the request was fresh, unused and authorised. -/
theorem setTallyStalled_eq_ok {now later : Int} {electionId : Bytes} {stalled : Bool} {sig : Bytes}
    {issuedAt : Int} (h : setTallyStalled E s now later electionId stalled sig issuedAt = .ok s') :
    ∃ st payload, s.elections.get? electionId = some st ∧ requestIsFresh issuedAt now = true ∧
      (electionId, stallOp stalled, issuedAt) ∉ s.usedRequestNonces ∧
      requestNoncePayload issuedAt = .ok payload ∧
      requireStallAuthority E st later electionId stalled sig payload = .ok () ∧
      s' = { putStored s electionId { st with tallyStalled := stalled } with
        usedRequestNonces := (electionId, stallOp stalled, issuedAt) :: s.usedRequestNonces } := by
  rw [setTallyStalled] at h
  obtain ⟨st, hst, h⟩ := bind_eq_ok.mp h
  split at h
  · cases h
  · rename_i hfresh
    split at h
    · cases h
    · rename_i hunused
      obtain ⟨payload, hpayload, h⟩ := bind_eq_ok.mp h
      obtain ⟨⟨⟩, hauthority, h⟩ := bind_eq_ok.mp h
      cases h
      exact ⟨st, payload, getStored_eq_ok.mp hst, not_not.mp hfresh, hunused, hpayload, hauthority, rfl⟩

theorem setTallyStalled_changes {electionId : Bytes} {stalled : Bool} {sig : Bytes} {issuedAt : Int}
    (hwrite : call.write = .tallyStalled electionId stalled sig issuedAt)
    (h : setTallyStalled E s call.now call.later electionId stalled sig issuedAt = .ok s') :
    Changes E call s s' := by
  obtain ⟨st, payload, hst, hfresh, hunused, hpayload, hauthority, rfl⟩ := setTallyStalled_eq_ok h
  refine .inl ⟨electionId, st, _, hst,
    .tallyStalled stalled sig payload issuedAt hwrite hfresh hunused hpayload hauthority, ?_⟩
  rw [Call.spend, hwrite]

/-- Everything an accepted call can do. -/
theorem Call.perform_cases (h : call.perform E s = .ok s') :
    (∃ config adminSig, call.write = .register config adminSig ∧
      verifyRegister E config.adminKey adminSig config = true ∧ s.nextId + 1 < 256 ^ 32 ∧
      config.electionId = beBytes 32 (s.nextId + 1) ∧
      s' = { putStored s config.electionId { config } with nextId := s.nextId + 1 }) ∨
    Changes E call s s' := by
  unfold Call.perform at h
  split at h
  · exact .inl ⟨_, _, by assumption, registerElection_eq_ok h⟩
  · exact .inr (cancelElection_changes (by assumption) h)
  · exact .inr (submitDkgResult_changes (by assumption) h)
  · exact .inr (submitBallot_changes (by assumption) h)
  · exact .inr (submitAggregate_changes (by assumption) h)
  · exact .inr (submitDecryptionShare_changes (by assumption) h)
  · exact .inr (publishResult_changes (by assumption) h)
  · exact .inr (setTallyStalled_changes (by assumption) h)

end ElGamalVoting
