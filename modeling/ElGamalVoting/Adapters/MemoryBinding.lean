import ElGamalVoting.Adapters.MemoryAgreement
import ElGamalVoting.Core.ContentBinding

/- What a content signature binds in the in-memory data layer.

   `SignedLog` is what the signers signed: for an election, artifacts that carry its id,
   and for a share envelope also the signer's own index. Nobody forges a signature
   (`Unforgeable`) and no two of the byte strings at hand have one hash
   (`CollisionFree`). Then an accepted artifact is one its signer signed if and only if
   it carries the id of the election it is written to, which no write checks; an aggregate
   that a quorum currently submits is the one that is read back. -/
namespace ElGamalVoting
open Lib

structure SignedLog where
  aggregates : Bytes → Bytes → AggregateArtifact → Prop
  shares : Bytes → ElectionConfig → DecryptionShareEnvelope → Prop
  results : Bytes → Bytes → ResultArtifact → Prop
  aggregates_id : ∀ key electionId A, aggregates key electionId A → A.electionId = electionId
  shares_id : ∀ key config share, shares key config share → share.electionId = config.electionId
  shares_index : ∀ key config share, shares key config share →
    memberIndex config key = some share.keyperIndex
  shares_sized : ∀ key config share, shares key config share → share.WellSized
  results_id : ∀ key electionId r, results key electionId r → r.electionId = electionId

/-- The artifact of a call comes from its JSON decoder. -/
def Call.Decoded (call : Call) : Prop :=
  match call.write with
  | .aggregate _ A _ => ∃ d, decAggregate d = .ok A
  | .decryptionShare _ share _ => ∃ d, decDecryptionShare d = .ok share
  | .result _ r _ => ∃ d, decResult d = .ok r
  | _ => True

/-- The artifact carries the id of the election it is written to. -/
def Call.CarriesOwnId (call : Call) : Prop :=
  match call.write with
  | .aggregate electionId A _ => A.electionId = electionId
  | .decryptionShare electionId share _ => share.electionId = electionId
  | .result electionId r _ => r.electionId = electionId
  | _ => True

section
variable (E : EthLib) (log : SignedLog)

/-- The signer recovered from the call's signature signed the artifact, as it is, for this
    election. -/
def Call.SignedContent (s : InMemoryDataLayer) (call : Call) : Prop :=
  match call.write with
  | .aggregate electionId A sig => ∃ digest key, aggregateDigestOf E electionId A = .ok digest ∧
    E.recoverMessage digest sig = some key ∧ log.aggregates key electionId A
  | .decryptionShare electionId share sig => ∃ st digest key,
    s.elections.get? electionId = some st ∧
    shareEnvelopeDigest E electionId share.entries = .ok digest ∧
    E.recoverMessage digest sig = some key ∧ log.shares key st.config share
  | .result electionId r sig => ∃ payload digest key, resultDigest E electionId r = .ok payload ∧
    requestDigest E "result" electionId payload = .ok digest ∧
    E.recoverMessage digest sig = some key ∧ log.results key electionId r
  | _ => True

/-- Whoever is recovered from a signature over a digest signed an artifact with it. -/
structure SignedLog.Unforgeable (calls : List Call) : Prop where
  aggregates : ∀ call ∈ calls, ∀ electionId A sig, call.write = .aggregate electionId A sig →
    ∀ digest key, aggregateDigestOf E electionId A = .ok digest → E.recoverMessage digest sig = some key →
    ∃ B, log.aggregates key electionId B ∧ aggregateDigestOf E electionId B = .ok digest
  shares : ∀ call ∈ calls, ∀ electionId share sig, call.write = .decryptionShare electionId share sig →
    ∀ digest key, shareEnvelopeDigest E electionId share.entries = .ok digest →
    E.recoverMessage digest sig = some key →
    ∀ config : ElectionConfig, config.electionId = electionId → memberIndex config key ≠ none →
    ∃ B, log.shares key config B ∧ shareEnvelopeDigest E electionId B.entries = .ok digest
  results : ∀ call ∈ calls, ∀ electionId r sig, call.write = .result electionId r sig →
    ∀ payload digest key, resultDigest E electionId r = .ok payload →
    requestDigest E "result" electionId payload = .ok digest → E.recoverMessage digest sig = some key →
    ∃ r' payload', log.results key electionId r' ∧ resultDigest E electionId r' = .ok payload' ∧
      requestDigest E "result" electionId payload' = .ok digest

/-- The byte strings hashed for the artifacts of a run and for the signed ones. -/
inductive SignedLog.Hashed (calls : List Call) : Bytes → Prop
  | written {call : Call} {electionId : Bytes} {A : AggregateArtifact} {sig x : Bytes}
      (hcall : call ∈ calls) (hwrite : call.write = .aggregate electionId A sig)
      (hx : aggregatePreimage E electionId A = .ok x) : SignedLog.Hashed calls x
  | signed {key electionId : Bytes} {A : AggregateArtifact} {x : Bytes}
      (hlog : log.aggregates key electionId A) (hx : aggregatePreimage E electionId A = .ok x) :
      SignedLog.Hashed calls x
  | writtenShare {call : Call} {electionId : Bytes} {share : DecryptionShareEnvelope} {sig x : Bytes}
      (hcall : call ∈ calls) (hwrite : call.write = .decryptionShare electionId share sig)
      (hx : sharePreimage E electionId share.entries = .ok x) : SignedLog.Hashed calls x
  | signedShare {key electionId : Bytes} {config : ElectionConfig} {share : DecryptionShareEnvelope}
      {x : Bytes} (hlog : log.shares key config share)
      (hx : sharePreimage E electionId share.entries = .ok x) : SignedLog.Hashed calls x
  | writtenResult {call : Call} {electionId : Bytes} {r : ResultArtifact} {sig x : Bytes}
      (hcall : call ∈ calls) (hwrite : call.write = .result electionId r sig)
      (hx : resultPreimage E electionId r = .ok x) : SignedLog.Hashed calls x
  | signedResult {key electionId : Bytes} {r : ResultArtifact} {x : Bytes}
      (hlog : log.results key electionId r) (hx : resultPreimage E electionId r = .ok x) :
      SignedLog.Hashed calls x
  | request {electionId y x : Bytes} (hy : SignedLog.Hashed calls y)
      (hx : requestPreimage "result" electionId (E.keccak y) = .ok x) : SignedLog.Hashed calls x

/-- No two of them have one hash. -/
def SignedLog.CollisionFree (calls : List Call) : Prop :=
  ∀ x y, log.Hashed E calls x → log.Hashed E calls y → E.keccak x = E.keccak y → x = y

end
section
variable {E : EthLib} {log : SignedLog} {calls : List Call} {s : InMemoryDataLayer} {call : Call}
  {electionId : Bytes}

theorem keyperIndexByRecovery_eq_ok {config : ElectionConfig} {digest sig : Bytes} {idx : Int}
    (h : keyperIndexByRecovery E config digest sig = .ok idx) :
    ∃ key, E.recoverMessage digest sig = some key ∧ memberIndex config key = some idx := by
  unfold keyperIndexByRecovery at h
  split at h
  · cases h
  · rename_i key hkey
    split at h
    · cases h
    · rename_i hmember
      cases h
      exact ⟨key, hkey, hmember⟩

theorem verifyRequest_eq_true {identity sig payload : Bytes} {op : String}
    (h : verifyRequest E identity sig op electionId payload = true) :
    ∃ digest, requestDigest E op electionId payload = .ok digest ∧
      E.recoverMessage digest sig = some identity := by
  rw [verifyRequest] at h
  cases hdigest : requestDigest E op electionId payload with
  | error e =>
    rw [hdigest] at h
    cases h
  | ok digest =>
    rw [hdigest] at h
    exact ⟨digest, rfl, beq_iff_eq.mp h⟩

/-! ## Equal digests -/

/-- An aggregate of the run with the digest of a signed one, under its own id, is that one. -/
theorem SignedLog.CollisionFree.aggregate_eq (hfree : log.CollisionFree E calls) (habi : AbiInjective E)
    (hcall : call ∈ calls) {A B : AggregateArtifact} {sig digest key : Bytes}
    (hwrite : call.write = .aggregate electionId A sig)
    (hA : aggregateDigestOf E electionId A = .ok digest) (hlog : log.aggregates key electionId B)
    (hB : aggregateDigestOf E electionId B = .ok digest) (hown : A.electionId = electionId) : A = B := by
  obtain ⟨x, hx, rfl⟩ := hashed_eq_ok.mp hA
  obtain ⟨y, hy, hxy⟩ := hashed_eq_ok.mp hB
  obtain rfl := hfree x y (.written hcall hwrite hx) (.signed hlog hy) hxy.symm
  exact aggregatePreimage_inj habi hx hy (hown.trans (log.aggregates_id _ _ _ hlog).symm)

/-- A share envelope of the run with the digest of a signed one has its entries. -/
theorem SignedLog.CollisionFree.share_entries_eq (hfree : log.CollisionFree E calls)
    (habi : AbiInjective E) (hcall : call ∈ calls) {share B : DecryptionShareEnvelope}
    {config : ElectionConfig} {sig digest key : Bytes}
    (hwrite : call.write = .decryptionShare electionId share sig) (hsized : share.WellSized)
    (hshare : shareEnvelopeDigest E electionId share.entries = .ok digest)
    (hlog : log.shares key config B) (hB : shareEnvelopeDigest E electionId B.entries = .ok digest) :
    share.entries = B.entries := by
  obtain ⟨x, hx, rfl⟩ := hashed_eq_ok.mp hshare
  obtain ⟨y, hy, hxy⟩ := hashed_eq_ok.mp hB
  obtain rfl := hfree x y (.writtenShare hcall hwrite hx) (.signedShare hlog hy) hxy.symm
  exact sharePreimage_inj habi (fun e he => (hsized.entries e he).2)
    (fun e he => ((log.shares_sized _ _ _ hlog).entries e he).2) hx hy

/-- A result of the run whose request has the digest of a signed one's is, under its own id,
    that one. -/
theorem SignedLog.CollisionFree.result_eq (hfree : log.CollisionFree E calls) (habi : AbiInjective E)
    (hcall : call ∈ calls) {r r' : ResultArtifact} {sig payload payload' digest key : Bytes}
    (hwrite : call.write = .result electionId r sig) (hr : resultDigest E electionId r = .ok payload)
    (hrequest : requestDigest E "result" electionId payload = .ok digest)
    (hlog : log.results key electionId r') (hr' : resultDigest E electionId r' = .ok payload')
    (hrequest' : requestDigest E "result" electionId payload' = .ok digest)
    (hown : r.electionId = electionId) : r = r' := by
  obtain ⟨x, hx, rfl⟩ := hashed_eq_ok.mp hr
  obtain ⟨y, hy, rfl⟩ := hashed_eq_ok.mp hr'
  have hhashed : log.Hashed E calls x := .writtenResult hcall hwrite hx
  have hhashed' : log.Hashed E calls y := .signedResult hlog hy
  -- the request hashes the digest of the result, so the hash is undone twice
  obtain ⟨a, ha, rfl⟩ := hashed_eq_ok.mp hrequest
  obtain ⟨b, hb, hab⟩ := hashed_eq_ok.mp hrequest'
  obtain rfl := hfree a b (.request hhashed ha) (.request hhashed' hb) hab.symm
  obtain rfl := hfree x y hhashed hhashed' (requestPreimage_inj ha hb)
  exact resultPreimage_inj habi hx hy (hown.trans (log.results_id _ _ _ hlog).symm)

/-! ## Accepted artifacts -/

section
variable (habi : AbiInjective E) (hfree : log.CollisionFree E calls)
  (hsigned : log.Unforgeable E calls) (hcall : call ∈ calls)
include habi hfree hsigned hcall

theorem aggregate_signed_iff {A : AggregateArtifact} {sig : Bytes}
    (hwrite : call.write = .aggregate electionId A sig)
    (haccept : Returns (submitAggregate E s call.now electionId A sig)) :
    (∃ digest key, aggregateDigestOf E electionId A = .ok digest ∧
      E.recoverMessage digest sig = some key ∧ log.aggregates key electionId A) ↔
      A.electionId = electionId := by
  obtain ⟨s', haccept⟩ := haccept
  constructor
  · intro h
    obtain ⟨digest, key, -, -, hlog⟩ := h
    exact log.aggregates_id _ _ _ hlog
  · intro hown
    obtain ⟨st, -, haccept⟩ := bind_eq_ok.mp haccept
    split at haccept
    · cases haccept
    · obtain ⟨digest, hdigest, haccept⟩ := bind_eq_ok.mp haccept
      obtain ⟨idx, hidx, -⟩ := bind_eq_ok.mp haccept
      obtain ⟨key, hkey, -⟩ := keyperIndexByRecovery_eq_ok hidx
      obtain ⟨B, hlog, hB⟩ := hsigned.aggregates call hcall _ _ _ hwrite digest key hdigest hkey
      obtain rfl := hfree.aggregate_eq habi hcall hwrite hdigest hlog hB hown
      exact ⟨digest, key, hdigest, hkey, hlog⟩

theorem share_signed_iff {share : DecryptionShareEnvelope} {sig : Bytes} (hs : s.Ok E)
    (hwrite : call.write = .decryptionShare electionId share sig) (hsized : share.WellSized)
    (haccept : Returns (submitDecryptionShare E s call.now electionId share sig)) :
    (∃ st digest key, s.elections.get? electionId = some st ∧
      shareEnvelopeDigest E electionId share.entries = .ok digest ∧
      E.recoverMessage digest sig = some key ∧ log.shares key st.config share) ↔
      share.electionId = electionId := by
  obtain ⟨s', haccept⟩ := haccept
  constructor
  · intro h
    obtain ⟨st, digest, key, hst, -, -, hlog⟩ := h
    exact (log.shares_id _ _ _ hlog).trans (hs.records _ _ hst).id
  · intro hown
    obtain ⟨st, hst, haccept⟩ := bind_eq_ok.mp haccept
    have hst := getStored_eq_ok.mp hst
    have hid := (hs.records _ _ hst).id
    split at haccept
    · cases haccept
    · obtain ⟨finalized, -, haccept⟩ := bind_eq_ok.mp haccept
      split at haccept
      · cases haccept
      · obtain ⟨digest, hdigest, haccept⟩ := bind_eq_ok.mp haccept
        obtain ⟨idx, hidx, haccept⟩ := bind_eq_ok.mp haccept
        obtain ⟨key, hkey, hmember⟩ := keyperIndexByRecovery_eq_ok hidx
        split at haccept
        · cases haccept
        · rename_i hindex
          obtain ⟨B, hlog, hB⟩ := hsigned.shares call hcall _ _ _ hwrite digest key hdigest hkey
            st.config hid (by simp [hmember])
          have hentries := hfree.share_entries_eq habi hcall hwrite hsized hdigest hlog hB
          -- the index is the signer's in both, and the write checked the one stored
          have hkeyper : share.keyperIndex = B.keyperIndex := by
            rw [← not_not.mp hindex]
            exact Option.some.inj (hmember.symm.trans (log.shares_index _ _ _ hlog))
          have heq : share = B := by
            have hB' := (log.shares_id _ _ _ hlog).trans hid
            cases share
            cases B
            rw [DecryptionShareEnvelope.mk.injEq]
            exact ⟨hown.trans hB'.symm, hkeyper, hentries⟩
          exact ⟨st, digest, key, hst, hdigest, hkey, heq ▸ hlog⟩

theorem result_signed_iff {r : ResultArtifact} {sig : Bytes}
    (hwrite : call.write = .result electionId r sig)
    (haccept : Returns (publishResult E s electionId r sig)) :
    (∃ payload digest key, resultDigest E electionId r = .ok payload ∧
      requestDigest E "result" electionId payload = .ok digest ∧
      E.recoverMessage digest sig = some key ∧ log.results key electionId r) ↔
      r.electionId = electionId := by
  obtain ⟨s', haccept⟩ := haccept
  constructor
  · intro h
    obtain ⟨payload, digest, key, -, -, -, hlog⟩ := h
    exact log.results_id _ _ _ hlog
  · intro hown
    obtain ⟨st, -, haccept⟩ := bind_eq_ok.mp haccept
    obtain ⟨payload, hpayload, haccept⟩ := bind_eq_ok.mp haccept
    split at haccept
    · cases haccept
    · rename_i hverify
      obtain ⟨digest, hdigest, hkey⟩ := verifyRequest_eq_true (not_not.mp hverify)
      obtain ⟨r', payload', hlog, hr', hdigest'⟩ := hsigned.results call hcall _ _ _ hwrite payload
        digest _ hpayload hdigest hkey
      obtain rfl := hfree.result_eq habi hcall hwrite hpayload hdigest hlog hr' hdigest' hown
      exact ⟨payload, digest, _, hpayload, hdigest, hkey, hlog⟩

/-- An accepted artifact is the one signed exactly when it carries its election's id. -/
theorem signedContent_iff (hs : s.Ok E) (hdecoded : call.Decoded)
    (haccept : Returns (call.perform E s)) : call.SignedContent E log s ↔ call.CarriesOwnId := by
  unfold Call.perform at haccept
  unfold Call.SignedContent Call.CarriesOwnId
  unfold Call.Decoded at hdecoded
  cases hwrite : call.write with
  | aggregate electionId A sig =>
    rw [hwrite] at haccept
    exact aggregate_signed_iff habi hfree hsigned hcall hwrite haccept
  | decryptionShare electionId share sig =>
    rw [hwrite] at haccept hdecoded
    obtain ⟨d, hd⟩ := hdecoded
    exact share_signed_iff habi hfree hsigned hcall hs hwrite (decDecryptionShare_wellSized hd) haccept
  | result electionId r sig =>
    rw [hwrite] at haccept
    exact result_signed_iff habi hfree hsigned hcall hwrite haccept
  | register => exact Iff.rfl
  | cancel => exact Iff.rfl
  | dkgResult => exact Iff.rfl
  | ballot => exact Iff.rfl
  | tallyStalled => exact Iff.rfl

end

/-! ## The aggregate a quorum submits

    A vote is taken only while no digest has a quorum, so no digest ever has more votes than
    one. Where a quorum of the votes are one artifact, these are then all votes with its
    digest. -/

/-- The number of stored aggregates with a digest. -/
def Stored.digestCount (E : EthLib) (electionId : Bytes) (st : Stored) (digest : Bytes) : Nat :=
  st.aggregateByKeyper.count fun A => (aggregateDigestOf E electionId A).toOption = some digest

theorem support_aggregateVotes {st : Stored} {votes : List (Int × Bytes × AggregateArtifact)}
    (hvotes : aggregateVotes E electionId st = .ok votes) (digest : Bytes) :
    Quorum.support votes digest = st.digestCount E electionId digest := by
  refine countP_eq_of_forall₂ (mapM_eq_ok.mp hvotes) ?_
  intro e vote hcast
  obtain ⟨key, hkey, hcast⟩ := bind_eq_ok.mp hcast
  cases hcast
  show decide (key = digest) = decide ((aggregateDigestOf E electionId e.2).toOption = some digest)
  rw [hkey, decide_eq_decide]
  exact ⟨congrArg some, Option.some.inj⟩

def Stored.AtMostQuorum (E : EthLib) (electionId : Bytes) (st : Stored) : Prop :=
  ∀ digest, st.digestCount E electionId digest ≤ st.config.threshold.t

theorem RecordStep.atMostQuorum {st st' : Stored} (hstep : RecordStep E s call electionId st st')
    (hs : s.Ok E) (hst : s.elections.get? electionId = some st) (h : st.AtMostQuorum E electionId) :
    st'.AtMostQuorum E electionId := by
  cases hstep with
  | aggregate aggregate keyperSig digest idx hwrite hnow hdigest hidx hopen =>
    intro k
    have hok := hs.records _ _ hst
    obtain ⟨votes, hvotes, hagg⟩ := aggregateOf_ok hok
    rw [aggregateFinalized, hok.id, getAggregate, getStored_eq_ok.mpr hst, ok_bind, hagg, ok_bind] at hopen
    have hnone : Quorum.winner st.config.threshold.t votes = none := by
      cases hw : Quorum.winner st.config.threshold.t votes with
      | none => rfl
      | some A =>
        rw [hw] at hopen
        cases hopen
    have hlt := (Quorum.winner_eq_none st.config.threshold.one_le_t).mp hnone k
    rw [support_aggregateVotes hvotes] at hlt
    have hset := st.aggregateByKeyper.count_set idx aggregate
      fun A => (aggregateDigestOf E electionId A).toOption = some k
    show (st.aggregateByKeyper.set idx aggregate).count _ ≤ st.config.threshold.t
    have hone : (if decide ((aggregateDigestOf E electionId aggregate).toOption = some k) = true
      then 1 else 0) ≤ 1 := by split <;> omega
    rw [Stored.digestCount] at hlt
    omega
  | cancel => exact h
  | dkgResult => exact h
  | ballot => exact h
  | decryptionShare => exact h
  | result => exact h
  | tallyStalled => exact h

def InMemoryDataLayer.AtMostQuorum (E : EthLib) (s : InMemoryDataLayer) : Prop :=
  ∀ electionId st, s.elections.get? electionId = some st → st.AtMostQuorum E electionId

theorem InMemoryDataLayer.AtMostQuorum.apply (h : s.AtMostQuorum E) (hs : s.Ok E) (call : Call) :
    (call.apply E s).AtMostQuorum E := by
  unfold Call.apply
  split
  · rename_i s' hperform
    intro electionId st' hst'
    rcases Call.perform_cases hperform with ⟨config, adminSig, -, -, -, -, rfl⟩ | hchanges
    · simp only [putStored, Dict.get?_set] at hst'
      split at hst'
      · cases hst'
        intro digest
        exact Nat.zero_le _
      · exact h electionId st' hst'
    · rcases hchanges with ⟨eid, st, new, hst, hstep, rfl⟩ | rfl
      · simp only [putStored, Dict.get?_set] at hst'
        split at hst'
        · rename_i heq
          cases hst'
          subst heq
          exact hstep.atMostQuorum hs hst (h _ _ hst)
        · exact h electionId st' hst'
      · exact h electionId st' hst'
  · exact h

theorem InMemoryDataLayer.AtMostQuorum.run (h : s.AtMostQuorum E) (hs : s.Ok E) (calls : List Call) :
    (runCalls E s calls).AtMostQuorum E := by
  refine (run_invariant (fun t : InMemoryDataLayer => t.Ok E ∧ t.AtMostQuorum E) ?_ ⟨hs, h⟩ calls).2
  intro t call ht
  exact ⟨ht.1.apply call, ht.2.apply ht.1 call⟩

/-- The aggregate that a quorum of the votes are is the answer. -/
theorem aggregateOf_of_quorum {st : Stored} {A : AggregateArtifact} (h : st.Ok E electionId)
    (hmost : st.AtMostQuorum E electionId)
    (hA : st.config.threshold.t ≤ st.aggregateByKeyper.count fun B => B = A) :
    aggregateOf E electionId st = .ok (some A) := by
  obtain ⟨votes, hvotes, hagg⟩ := aggregateOf_ok h
  have hpos := st.config.threshold.one_le_t
  -- one of the quorum's votes gives the digest of `A`
  obtain ⟨e, he, heA⟩ := List.countP_pos_iff.mp (Nat.lt_of_lt_of_le hpos hA)
  obtain ⟨digest, hdigest⟩ := h.digests e he
  rw [of_decide_eq_true heA] at hdigest
  have hsame : ∀ B, decide (B = A) = true →
      decide ((aggregateDigestOf E electionId B).toOption = some digest) = true := by
    intro B hB
    rw [of_decide_eq_true hB, hdigest]
    exact decide_eq_true rfl
  have hall := Dict.of_count_le hsame (Nat.le_trans (hmost digest) hA)
  have hsupport : st.config.threshold.t ≤ Quorum.support votes digest := by
    rw [support_aggregateVotes hvotes]
    exact Nat.le_trans hA (List.countP_mono_left fun e _ => hsame e.2)
  obtain ⟨w, hw⟩ := Option.isSome_iff_exists.mp (Quorum.winner_isSome hpos hsupport)
  obtain ⟨i, k, hmem, hk⟩ := Quorum.winner_eq_some hw
  have hlen : votes.length < st.config.threshold.t * 2 := by
    rw [← (mapM_eq_ok.mp hvotes).length_eq]
    exact votes_lt_two_quorums h.aggregateVoters
  obtain rfl := Quorum.support_agree hlen hk hsupport
  obtain ⟨f, hf, hcast⟩ := mapM_ok_mem_right hvotes hmem
  obtain ⟨key, hkey, hcast⟩ := bind_eq_ok.mp hcast
  cases hcast
  rw [hagg, hw, of_decide_eq_true (hall f hf (decide_eq_true (by rw [hkey]; rfl)))]

/-- An accepted artifact is one that its signer signed for the election exactly when it
    carries the election's id; and the aggregate that a quorum of keypers currently submits
    is the one read back. -/
theorem content_signature_binds (E : EthLib) (log : SignedLog) (calls : List Call)
    (habi : AbiInjective E) (hfree : log.CollisionFree E calls) (hsigned : log.Unforgeable E calls)
    (hdecoded : ∀ call ∈ calls, call.Decoded) :
    (∀ before call after, calls = before ++ call :: after →
      Returns (call.perform E (runCalls E {} before)) →
      (call.SignedContent E log (runCalls E {} before) ↔ call.CarriesOwnId)) ∧
    (∀ electionId st A, (runCalls E {} calls).elections.get? electionId = some st →
      st.config.threshold.t ≤ (st.aggregateByKeyper.count fun B => B = A) →
      getAggregate E (runCalls E {} calls) electionId = .ok (some A)) := by
  constructor
  · intro before call after hcalls haccept
    have hcall : call ∈ calls := by simp [hcalls]
    exact signedContent_iff habi hfree hsigned hcall (ok_empty.run before) (hdecoded call hcall) haccept
  · intro electionId st A hst hA
    have hok : (runCalls E {} calls).Ok E := ok_empty.run calls
    have hmost : (runCalls E {} calls).AtMostQuorum E := by
      refine InMemoryDataLayer.AtMostQuorum.run ?_ ok_empty calls
      intro electionId st hst
      cases hst
    exact getAggregate_eq_some.mpr ⟨st, hst,
      aggregateOf_of_quorum (hok.records _ _ hst) (hmost _ _ hst) hA⟩

end


/-! Two keypers sign an aggregate; whoever passes it on may change the id in it. -/

namespace BindingSample

def aggregate (electionId : Bytes) : AggregateArtifact := ⟨electionId, [], [0], [], 3, 3⟩

/-- What the two keypers signed, and nothing else. -/
def signed : SignedLog where
  aggregates key electionId A :=
    (key = [1] ∨ key = [2]) ∧ electionId = smallConfig.electionId ∧ A = aggregate smallConfig.electionId
  shares _ _ _ := False
  results _ _ _ := False
  aggregates_id := by
    intro key electionId A h
    rw [h.2.2, h.2.1]
    rfl
  shares_id _ _ _ h := h.elim
  shares_index _ _ _ h := h.elim
  shares_sized _ _ _ h := h.elim
  results_id _ _ _ h := h.elim

def register : Call :=
  ⟨0, 0, .register smallConfig (codedEth.signMessage [5] (registerDigest codedEth smallConfig))⟩

def signature (key : Bytes) : Bytes :=
  ((aggregateDigestOf codedEth smallConfig.electionId (aggregate smallConfig.electionId)).map
    (codedEth.signMessage key)).toOption.getD []

/-- A keyper's signature, with an aggregate that carries some id. -/
def submit (key ownId : Bytes) : Call :=
  ⟨250, 250, .aggregate smallConfig.electionId (aggregate ownId) (signature key)⟩

/-- The store once the election is registered. -/
def registered : InMemoryDataLayer where
  elections := (∅ : Dict Bytes Stored).set smallConfig.electionId { config := smallConfig }
  nextId := 1

theorem runCalls_register (calls : List Call) :
    runCalls codedEth {} (register :: calls) = runCalls codedEth registered calls := by
  have hregister : registerElection codedEth {} smallConfig
      (codedEth.signMessage [5] (registerDigest codedEth smallConfig)) = .ok registered :=
    registerElection_first rfl (by rfl) (plainEth_recoverMessage (by decide))
  have happly : register.apply codedEth {} = registered := by
    rw [Call.apply, Call.perform, register]
    simp only
    rw [hregister]
  rw [runCalls, List.foldl_cons, happly]
  rfl

theorem collisionFree (calls : List Call) : signed.CollisionFree codedEth calls := by
  intro x y _ _ h
  exact h

/-- The signer recovered from one of the signatures signed the aggregate. -/
theorem recovered {key digest signer : Bytes} (hkey : key = [1] ∨ key = [2])
    (hdigest : aggregateDigestOf codedEth smallConfig.electionId (aggregate smallConfig.electionId) =
      .ok digest) (h : codedEth.recoverMessage digest (signature key) = some signer) : signer = key := by
  have hsig : signature key = plainEth.signMessage key digest := by
    rw [signature, hdigest]
    rfl
  have hlen : key.length < 256 := by rcases hkey with rfl | rfl <;> decide
  rw [hsig] at h
  exact Option.some.inj (h.symm.trans (plainEth_recoverMessage hlen digest))

theorem unforgeable (ids : List (Bytes × Bytes)) (hids : ∀ p ∈ ids, p.1 = [1] ∨ p.1 = [2]) :
    signed.Unforgeable codedEth (register :: ids.map fun p => submit p.1 p.2) := by
  have hcalls : ∀ call ∈ register :: ids.map (fun p => submit p.1 p.2),
      call = register ∨ ∃ p ∈ ids, call = submit p.1 p.2 := by
    intro call hcall
    rcases List.mem_cons.mp hcall with rfl | hcall
    · exact .inl rfl
    · obtain ⟨p, hp, rfl⟩ := List.mem_map.mp hcall
      exact .inr ⟨p, hp, rfl⟩
  refine ⟨?_, ?_, ?_⟩
  · intro call hcall electionId A sig hwrite digest key hdigest hkey
    rcases hcalls call hcall with rfl | ⟨p, hp, rfl⟩
    · cases hwrite
    · cases hwrite
      -- the digest does not depend on the id the artifact carries
      have hsigned : aggregateDigestOf codedEth smallConfig.electionId
          (aggregate smallConfig.electionId) = .ok digest := hdigest
      obtain rfl := recovered (hids p hp) hsigned hkey
      exact ⟨aggregate smallConfig.electionId, ⟨hids p hp, rfl, rfl⟩, hsigned⟩
  · intro call hcall electionId share sig hwrite
    rcases hcalls call hcall with rfl | ⟨p, hp, rfl⟩ <;> cases hwrite
  · intro call hcall electionId r sig hwrite
    rcases hcalls call hcall with rfl | ⟨p, hp, rfl⟩ <;> cases hwrite

theorem decoded (ids : List (Bytes × Bytes)) (hids : ∀ p ∈ ids, p.2.length = 32) :
    ∀ call ∈ register :: ids.map (fun p => submit p.1 p.2), call.Decoded := by
  intro call hcall
  rcases List.mem_cons.mp hcall with rfl | hcall
  · exact trivial
  · obtain ⟨p, hp, rfl⟩ := List.mem_map.mp hcall
    have hsized : (aggregate p.2).WellSized := by
      refine ⟨hids p hp, ?_, ?_, ?_, Int.natCast_nonneg 3, Int.natCast_nonneg 3⟩
      · intro ct hct
        cases hct
      · intro n hn
        cases List.mem_singleton.mp hn
        exact le_rfl
      · intro x hx
        cases hx
    exact ⟨_, decAggregate_encAggregate hsized⟩

/-- Both keypers' aggregates arrive as they were signed: the first is the signed one, and it is
    read back. -/
theorem content_signature_binds_two :
    (submit [1] smallConfig.electionId).SignedContent codedEth signed (runCalls codedEth {} [register]) ∧
      getAggregate codedEth (runCalls codedEth {} [register, submit [1] smallConfig.electionId,
        submit [2] smallConfig.electionId]) smallConfig.electionId =
          .ok (some (aggregate smallConfig.electionId)) := by
  obtain ⟨hbinds, hquorum⟩ := content_signature_binds codedEth signed
    (register :: [([1], smallConfig.electionId), ([2], smallConfig.electionId)].map
      fun p : Bytes × Bytes => submit p.1 p.2)
    codedEth_abiInjective (collisionFree _) (unforgeable _ (by decide)) (decoded _ (by decide))
  constructor
  · refine (hbinds [register] _ _ rfl ?_).mpr rfl
    rw [runCalls_register]
    exact Returns.of_isOk (by decide +kernel)
  · have hstored : ((runCalls codedEth registered [submit [1] smallConfig.electionId,
        submit [2] smallConfig.electionId]).elections.get? smallConfig.electionId).any (fun st =>
          st.config.threshold.t ≤ st.aggregateByKeyper.count
            fun B => B = aggregate smallConfig.electionId) = true := by
      decide +kernel
    rw [← runCalls_register] at hstored
    obtain ⟨st, hst, hcount⟩ := (Option.any_eq_true _ _).mp hstored
    exact hquorum _ st _ hst (of_decide_eq_true hcount)

/-- The first keyper's aggregate arrives with the id of another election in it, and is accepted:
    the keyper did not sign that. -/
theorem relayed_aggregate_not_signed :
    (AbiInjective codedEth ∧ signed.CollisionFree codedEth [register, submit [1] (beBytes 32 2)] ∧
      signed.Unforgeable codedEth [register, submit [1] (beBytes 32 2)] ∧
      ∀ call ∈ [register, submit [1] (beBytes 32 2)], call.Decoded) ∧
    Returns ((submit [1] (beBytes 32 2)).perform codedEth (runCalls codedEth {} [register])) ∧
    ¬ (submit [1] (beBytes 32 2)).SignedContent codedEth signed (runCalls codedEth {} [register]) := by
  refine ⟨⟨codedEth_abiInjective, collisionFree _, unforgeable [([1], beBytes 32 2)] (by decide),
    decoded [([1], beBytes 32 2)] (by decide)⟩, ?_, ?_⟩
  · rw [runCalls_register]
    exact Returns.of_isOk (by decide +kernel)
  · intro h
    obtain ⟨digest, key, -, -, hlog⟩ := h
    exact absurd (congrArg AggregateArtifact.electionId hlog.2.2) (by decide)

end BindingSample

end ElGamalVoting
