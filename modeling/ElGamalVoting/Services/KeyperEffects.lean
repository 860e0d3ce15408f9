import ElGamalVoting.Services.KeyperServer
import ElGamalVoting.Lib.Run

/- What a call of the keyper's service does to its state.

   `Effect` lists every way a handler can leave the three DKG maps, with the
   conditions under which it does; most calls leave them as they are. Creating an
   empty inbox is no effect: an inbox is read through `KeyperServer.box`, for which a
   missing entry and an empty one are the same. -/
namespace ElGamalVoting
open Lib

section
variable {G₂ : Type} {s : KeyperServer G₂} {key : PyStr}

@[simp] theorem withInbox_completed : (s.withInbox key).completed = s.completed := by
  unfold KeyperServer.withInbox
  split <;> rfl

@[simp] theorem withInbox_dkgStates : (s.withInbox key).dkgStates = s.dkgStates := by
  unfold KeyperServer.withInbox
  split <;> rfl

@[simp] theorem withInbox_box (k : PyStr) : (s.withInbox key).box k = s.box k := by
  unfold KeyperServer.withInbox
  split
  · rename_i hnone
    simp only [KeyperServer.box, Dict.get?_set]
    by_cases hk : k = key
    · rw [if_pos hk, hk, hnone]
      rfl
    · rw [if_neg hk]
  · rfl

theorem setBox_box (k : PyStr) (box : Inbox G₂) :
    (s.setBox key box).box k = if k = key then box else s.box k := by
  simp only [KeyperServer.box, KeyperServer.setBox, Dict.get?_set]
  split <;> rfl

end

/-- Two election ids with one text are one. -/
theorem electionKey_inj {eid eid' : Bytes} (h : electionKey eid = electionKey eid') : eid = eid' := by
  have hread := fromHex_hex eid
  rw [show (hex eid).toList.map Char.toNat = electionKey eid from rfl, h] at hread
  exact Option.some.inj (hread.symm.trans (fromHex_hex eid')).symm |>.symm

theorem fromHex_electionKey (eid : Bytes) : fromHex (electionKey eid) = some eid := fromHex_hex eid

theorem electionBytes_eq_ok {electionId : PyStr} {eid : Bytes} :
    electionBytes electionId = .ok eid ↔ fromHex electionId = some eid := by
  unfold electionBytes
  cases fromHex electionId with
  | none => simp
  | some b => simp

theorem liftPy_eq_ok {α : Type} {x : Py α} {a : α} : liftPy x = .ok a ↔ x = .ok a := by
  cases x with
  | error e => simp [liftPy, Except.mapError]
  | ok b => simp [liftPy, Except.mapError]

section
variable {G₁ G₂ : Type} [AddCommGroup G₁] [AddCommGroup G₂] [DecidableEq G₂] (S : Suite G₁ G₂)
  (E : EthLib) (node : KeyperNode)

/-- The state and the reply a call leaves. In every case but `quiet` the election's
    configuration and its text are those of the call. -/
inductive Effect (s : KeyperServer G₂) : KeyperCall → KeyperServer G₂ → Handle Reply → Prop
  | quiet {call : KeyperCall} {s' : KeyperServer G₂} {reply : Handle Reply}
      (completed : s'.completed = s.completed) (states : s'.dkgStates = s.dkgStates)
      (boxes : ∀ k, s'.box k = s.box k) (unverified : reply ≠ .ok .verified) : Effect s call s' reply
  | round1 {electionId : PyStr} {randomScalar : Nat → Int} {eid : Bytes} {config : ElectionConfig}
      {idx : Int} {st : KeyperDKGState G₂} {s' : KeyperServer G₂} (share : Int)
      (parsed : fromHex electionId = some eid) (known : node.getConfig eid = .ok config)
      (mine : memberIndex config (node.signer.identity E) = some idx)
      (fresh : st =
        KeyperDKGState.round1 S.g2 idx config.threshold.n config.threshold.t randomScalar)
      (completed : s'.completed = s.completed)
      (states : s'.dkgStates = s.dkgStates.set (electionKey eid) st)
      (boxes : ∀ k, s'.box k = if k = electionKey eid then
        { commitments := (∅ : Dict Int (List G₂)).set idx st.commitments
          shares := (∅ : Dict Int Int).set idx share }
        else s.box k) : Effect s (.dkgRound1 electionId randomScalar) s' (.ok (.index idx))
  | commitments {body : CommitmentsBody} {eid : Bytes} {config : ElectionConfig} {comms : List G₂}
      {s' : KeyperServer G₂} (parsed : fromHex body.electionId = some eid)
      (known : node.getConfig eid = .ok config)
      (dealer : body.dealerIndex ∈ keyperIndices config.threshold.n)
      (first : (s.box body.electionId).commitments.get? body.dealerIndex = none)
      (sized : comms.length = config.threshold.t)
      (completed : s'.completed = s.completed) (states : s'.dkgStates = s.dkgStates)
      (boxes : ∀ k, s'.box k = if k = body.electionId then
        { s.box body.electionId with
          commitments := (s.box body.electionId).commitments.set body.dealerIndex comms }
        else s.box k) : Effect s (.receiveCommitments body) s' (.ok .ok)
  | share {body : ShareBody} {eid : Bytes} {config : ElectionConfig}
      {s' : KeyperServer G₂} (share : Int) (parsed : fromHex body.electionId = some eid)
      (known : node.getConfig eid = .ok config)
      (dealer : body.dealerIndex ∈ keyperIndices config.threshold.n)
      (mine : memberIndex config (node.signer.identity E) = some body.recipientIndex)
      (allowed : ∀ old, (s.box body.electionId).shares.get? body.dealerIndex = some old → share ≠ old →
        mayReplace S (s.box body.electionId) body.dealerIndex body.recipientIndex share = true)
      (completed : s'.completed = s.completed) (states : s'.dkgStates = s.dkgStates)
      (boxes : ∀ k, s'.box k = if k = body.electionId then
        { s.box body.electionId with
          shares := (s.box body.electionId).shares.set body.dealerIndex share }
        else s.box k) : Effect s (.receiveShare body) s' (.ok .ok)
  | complain {electionId : PyStr} {eid : Bytes} {st : KeyperDKGState G₂} {message : String}
      {s' : KeyperServer G₂} {reply : Handle Reply} (bad : List Int)
      (parsed : fromHex electionId = some eid)
      (dealt : s.dkgStates.get? (electionKey eid) = some st)
      (rejects : st.round2 S.g2 (s.box (electionKey eid)).commitments (s.box (electionKey eid)).shares =
        .error (.badDealers message bad))
      (completed : s'.completed = s.completed) (states : s'.dkgStates = s.dkgStates)
      (boxes : ∀ k, s'.box k = if k = electionKey eid then
        { s.box (electionKey eid) with complained := (s.box (electionKey eid)).complained ++ bad }
        else s.box k) (unverified : reply ≠ .ok .verified) : Effect s (.dkgRound2 electionId) s' reply
  | round2 {electionId : PyStr} {eid : Bytes} {config : ElectionConfig} {st st' : KeyperDKGState G₂}
      {combined : Int} {pk : G₂} {s' : KeyperServer G₂} {expiresAt : Option Int}
      (parsed : fromHex electionId = some eid) (known : node.getConfig eid = .ok config)
      (dealt : s.dkgStates.get? (electionKey eid) = some st)
      (combines : st.round2 S.g2 (s.box (electionKey eid)).commitments (s.box (electionKey eid)).shares =
        .ok (st', combined, pk))
      (completed : s'.completed = s.completed.set (electionKey eid) ⟨combined, expiresAt⟩)
      (states : s'.dkgStates = s.dkgStates.set (electionKey eid) st')
      (boxes : ∀ k, s'.box k = s.box k) : Effect s (.dkgRound2 electionId) s' (.ok .verified)
  | published {electionId : PyStr} {submit : DKGResultSubmission → Py Unit} {eid : Bytes}
      {st : KeyperDKGState G₂} {s' : KeyperServer G₂} (dealt : s.dkgStates.get? (electionKey eid) = some st)
      (completed : s'.completed = s.completed)
      (states : s'.dkgStates = s.dkgStates.set (electionKey eid) st.zeroizeDealing)
      (boxes : ∀ k, s'.box k = s.box k) : Effect s (.dkgPublish electionId submit) s' (.ok .ok)

variable {S E node} {s : KeyperServer G₂}

/-- A call that leaves the maps as they are, creates at most an empty inbox, and does
    not report a verified round 2. -/
theorem Effect.same {call : KeyperCall} {reply : Handle Reply} (h : reply ≠ .ok .verified) :
    Effect S E node s call s reply :=
  .quiet rfl rfl (fun _ => rfl) h

theorem Effect.withInbox {call : KeyperCall} {reply : Handle Reply} {key : PyStr}
    (h : reply ≠ .ok .verified) : Effect S E node s call (s.withInbox key) reply :=
  .quiet withInbox_completed withInbox_dkgStates withInbox_box h

omit [AddCommGroup G₁] [AddCommGroup G₂] [DecidableEq G₂] in
theorem myIndex_eq_ok {config : ElectionConfig} {idx : Int} :
    myIndex E node config = .ok idx ↔ memberIndex config (node.signer.identity E) = some idx := by
  unfold myIndex
  cases memberIndex config (node.signer.identity E) with
  | none => simp
  | some i => simp

/-- A dealer whose signature was checked is a member of the committee. -/
theorem mem_keyperIndices_of_dealerSigned {config : ElectionConfig} {dealer : Int} {digest : Py Bytes}
    {signature : Option Bytes} (h : dealerSigned E config dealer digest signature = true) :
    dealer ∈ keyperIndices config.threshold.n := by
  rw [mem_keyperIndices, ← config.length_keypers]
  by_contra hout
  have hnone : membersAddr config dealer = none := if_neg hout
  unfold dealerSigned at h
  rw [hnone] at h
  cases h

omit [DecidableEq G₂] in
theorem freshDealing_eq_ok {electionId : PyStr} {randomScalar : Nat → Int} {eid : Bytes}
    {st : KeyperDKGState G₂} {idx share : Int}
    (h : freshDealing S E node electionId randomScalar = .ok (eid, st, idx, share)) :
    ∃ config, fromHex electionId = some eid ∧ node.getConfig eid = .ok config ∧
      memberIndex config (node.signer.identity E) = some idx ∧
      st = KeyperDKGState.round1 S.g2 idx config.threshold.n config.threshold.t randomScalar := by
  obtain ⟨eid', heid, h⟩ := bind_eq_ok.mp h
  obtain ⟨config, hconfig, h⟩ := bind_eq_ok.mp h
  obtain ⟨idx', hidx, h⟩ := bind_eq_ok.mp h
  obtain ⟨share', -, h⟩ := bind_eq_ok.mp h
  cases h
  exact ⟨config, electionBytes_eq_ok.mp heid, liftPy_eq_ok.mp hconfig, myIndex_eq_ok.mp hidx, rfl⟩

theorem dkgRound1_effect (electionId : PyStr) (randomScalar : Nat → Int) :
    Effect S E node s (.dkgRound1 electionId randomScalar)
      (dkgRound1 S E node s electionId randomScalar).1
      (dkgRound1 S E node s electionId randomScalar).2 := by
  unfold dkgRound1
  cases hfresh : freshDealing S E node electionId randomScalar with
  | error e => exact .same (by simp)
  | ok dealing =>
    obtain ⟨eid, st, idx, share⟩ := dealing
    obtain ⟨config, hparsed, hknown, hmine, hst⟩ := freshDealing_eq_ok hfresh
    refine .round1 share hparsed hknown hmine hst rfl rfl ?_
    intro k
    simp only [KeyperServer.box, Dict.get?_set]
    split <;> rfl

omit [AddCommGroup G₁] [AddCommGroup G₂] [DecidableEq G₂] in
theorem checkCommitments_eq_ok {body : CommitmentsBody} (h : checkCommitments E node body = .ok ()) :
    ∃ eid config, fromHex body.electionId = some eid ∧ node.getConfig eid = .ok config ∧
      body.dealerIndex ∈ keyperIndices config.threshold.n ∧
      body.commitments.length = config.threshold.t := by
  obtain ⟨eid, heid, h⟩ := bind_eq_ok.mp h
  obtain ⟨config, hconfig, h⟩ := bind_eq_ok.mp h
  split at h
  · cases h
  · rename_i hsigned
    split at h
    · cases h
    · rename_i hlen
      exact ⟨eid, config, electionBytes_eq_ok.mp heid, liftPy_eq_ok.mp hconfig,
        mem_keyperIndices_of_dealerSigned (not_not.mp hsigned), not_not.mp hlen⟩

theorem receiveCommitments_effect (body : CommitmentsBody) :
    Effect S E node s (.receiveCommitments body) (receiveCommitments S E node s body).1
      (receiveCommitments S E node s body).2 := by
  unfold receiveCommitments
  cases hcheck : checkCommitments E node body with
  | error e => exact .same (by simp)
  | ok _ =>
    obtain ⟨eid, config, hparsed, hknown, hdealer, hlen⟩ := checkCommitments_eq_ok hcheck
    simp only [withInbox_box]
    cases hstored : (s.box body.electionId).commitments.get? body.dealerIndex with
    | some stored =>
      simp only
      split
      · exact .withInbox (by simp)
      · exact .withInbox (by simp)
    | none =>
      simp only
      cases hread : body.commitments.mapM (g2FromCompressed S.g2) with
      | error e => exact .withInbox (by simp)
      | ok comms =>
        have hsized : comms.length = config.threshold.t := by
          rw [← (mapM_eq_ok.mp hread).length_eq, hlen]
        refine .commitments hparsed hknown hdealer hstored hsized withInbox_completed
          withInbox_dkgStates ?_
        intro k
        rw [setBox_box, withInbox_box]

omit [AddCommGroup G₁] [AddCommGroup G₂] [DecidableEq G₂] in
theorem checkShare_eq_ok {body : ShareBody} {share : Int} (h : checkShare E node body = .ok share) :
    ∃ eid config, fromHex body.electionId = some eid ∧ node.getConfig eid = .ok config ∧
      body.dealerIndex ∈ keyperIndices config.threshold.n ∧
      memberIndex config (node.signer.identity E) = some body.recipientIndex := by
  obtain ⟨eid, heid, h⟩ := bind_eq_ok.mp h
  obtain ⟨config, hconfig, h⟩ := bind_eq_ok.mp h
  refine ⟨eid, config, electionBytes_eq_ok.mp heid, liftPy_eq_ok.mp hconfig, ?_⟩
  split at h
  · cases h
  · split at h
    · cases h
    · obtain ⟨idx, hidx, h⟩ := bind_eq_ok.mp h
      split at h
      · cases h
      · rename_i hrecipient
        split at h
        · cases h
        · rename_i hsigned
          refine ⟨mem_keyperIndices_of_dealerSigned (not_not.mp hsigned), ?_⟩
          rw [not_not.mp hrecipient]
          exact myIndex_eq_ok.mp hidx

theorem receiveShare_effect (body : ShareBody) :
    Effect S E node s (.receiveShare body) (receiveShare S E node s body).1
      (receiveShare S E node s body).2 := by
  unfold receiveShare
  cases hcheck : checkShare E node body with
  | error e => exact .same (by simp)
  | ok share =>
    obtain ⟨eid, config, hparsed, hknown, hdealer, hmine⟩ := checkShare_eq_ok hcheck
    simp only [withInbox_box]
    split
    · exact .withInbox (by simp)
    · rename_i hguard
      refine .share share hparsed hknown hdealer hmine ?_ withInbox_completed withInbox_dkgStates ?_
      · intro old hold hne
        by_contra hnot
        apply hguard
        rw [hold, Bool.eq_false_of_not_eq_true hnot]
        simpa using hne.symm
      · intro k
        rw [setBox_box, withInbox_box]

theorem dkgRound2_effect (electionId : PyStr) :
    Effect S E node s (.dkgRound2 electionId) (dkgRound2 S E node s electionId).1
      (dkgRound2 S E node s electionId).2 := by
  unfold dkgRound2
  split
  · exact .same (by simp)
  · rename_i eid config hread
    obtain ⟨eid', heid, hread⟩ := bind_eq_ok.mp hread
    obtain ⟨config', hconfig, hread⟩ := bind_eq_ok.mp hread
    cases hread
    have hparsed := electionBytes_eq_ok.mp heid
    have hknown := liftPy_eq_ok.mp hconfig
    cases hdealt : s.dkgStates.get? (electionKey eid) with
    | none => exact .same (by simp)
    | some st =>
      simp only [withInbox_box, withInbox_dkgStates, withInbox_completed]
      split
      · exact .withInbox (by simp)
      · split
        · rename_i bad hrejects
          refine .complain bad hparsed hdealt hrejects withInbox_completed withInbox_dkgStates ?_ ?_
          · intro k
            rw [setBox_box, withInbox_box]
          · intro hreply
            have hmap := liftPy_eq_ok.mp hreply
            cases haccused : accusationsOf E node eid _ bad with
            | error e =>
              rw [haccused] at hmap
              cases hmap
            | ok accusations =>
              rw [haccused] at hmap
              cases hmap
        · exact .withInbox (by simp)
        · rename_i st' combined pk hcombines
          exact .round2 hparsed hknown hdealt hcombines rfl rfl fun k => withInbox_box k

theorem revealShare_effect (accusation : Option Accusation) (delivery : Handle Unit) :
    Effect S E node s (.revealShare accusation delivery)
      (revealShare E node s accusation delivery).1 (revealShare E node s accusation delivery).2 := by
  unfold revealShare
  split
  · exact .same (by simp)
  · split
    · exact .same (by simp)
    · split
      · exact .same (by simp)
      · exact .same (by simp)

omit [DecidableEq G₂] in
/-- Deriving the result to publish reads the state only. -/
theorem publishedResult_state (S : Suite G₁ G₂) (E : EthLib) (node : KeyperNode) (s : KeyperServer G₂)
    (electionId : PyStr) :
    (publishedResult S E node s electionId).1.completed = s.completed ∧
      (publishedResult S E node s electionId).1.dkgStates = s.dkgStates ∧
      ∀ k, (publishedResult S E node s electionId).1.box k = s.box k := by
  unfold publishedResult
  split
  · exact ⟨rfl, rfl, fun _ => rfl⟩
  · split
    · exact ⟨rfl, rfl, fun _ => rfl⟩
    · exact ⟨withInbox_completed, withInbox_dkgStates, withInbox_box⟩

theorem dkgPublish_effect (electionId : PyStr) (submit : DKGResultSubmission → Py Unit) :
    Effect S E node s (.dkgPublish electionId submit) (dkgPublish S E node s electionId submit).1
      (dkgPublish S E node s electionId submit).2 := by
  obtain ⟨hcompleted, hstates, hboxes⟩ := publishedResult_state S E node s electionId
  unfold dkgPublish
  split
  · rename_i s' e hresult
    rw [hresult] at hcompleted hstates hboxes
    exact .quiet hcompleted hstates hboxes (by simp)
  · rename_i s' submission hresult
    rw [hresult] at hcompleted hstates hboxes
    split
    · exact .quiet hcompleted hstates hboxes (by simp)
    · simp only
      split
      · exact .quiet hcompleted hstates hboxes (by simp)
      · rename_i st hdealt
        exact .published (hstates ▸ hdealt) hcompleted (by rw [← hstates]) hboxes

theorem triggerAggregate_effect (electionId : PyStr) (dl : DataLayer) (now : Int) (recompute : Bool) :
    Effect S E node s (.aggregate electionId dl now recompute)
      (triggerAggregate E node s electionId dl now recompute).1
      (triggerAggregate E node s electionId dl now recompute).2 := by
  unfold triggerAggregate
  split
  · exact .same (by simp)
  · split
    · exact .same (by simp)
    · simp only
      split
      · exact .same (by simp)
      · split
        · exact .same (by simp)
        · exact .quiet rfl rfl (fun _ => rfl) (by simp)

theorem publishDecrShare_effect (electionId : PyStr) (dl : DataLayer) (now : Int) (nonce : Nat → Int)
    (submit : DecryptionShareEnvelope → Bytes → Py Unit) :
    Effect S E node s (.publishDecrShare electionId dl now nonce submit)
      (publishDecrShare S E node s electionId dl now nonce submit).1
      (publishDecrShare S E node s electionId dl now nonce submit).2 := by
  apply Effect.same
  intro hreply
  obtain ⟨eid, -, hreply⟩ := bind_eq_ok.mp hreply
  split at hreply
  · cases hreply
  · obtain ⟨config, -, hreply⟩ := bind_eq_ok.mp hreply
    obtain ⟨idx, -, hreply⟩ := bind_eq_ok.mp hreply
    simp only at hreply
    split at hreply
    · cases hreply
    · cases hreply
    · split at hreply
      · cases hreply
      · split at hreply
        · cases hreply
        · cases hreply

/-- Every call has one of the effects. -/
theorem handle_effect (call : KeyperCall) :
    Effect S E node s call (call.handle S E node s).1 (call.handle S E node s).2 := by
  cases call with
  | dkgRound1 electionId randomScalar => exact dkgRound1_effect electionId randomScalar
  | receiveCommitments body => exact receiveCommitments_effect body
  | receiveShare body => exact receiveShare_effect body
  | dkgRound2 electionId => exact dkgRound2_effect electionId
  | revealShare accusation delivery => exact revealShare_effect accusation delivery
  | dkgPublish electionId submit => exact dkgPublish_effect electionId submit
  | aggregate electionId dl now recompute => exact triggerAggregate_effect electionId dl now recompute
  | aggregateFinished eid done => exact .quiet rfl rfl (fun _ => rfl) fun h => by cases h
  | publishDecrShare electionId dl now nonce submit =>
    exact publishDecrShare_effect electionId dl now nonce submit

end
end ElGamalVoting
