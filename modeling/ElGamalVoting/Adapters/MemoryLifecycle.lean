import ElGamalVoting.Adapters.MemoryAgreement

/- The lifecycle of an election in the in-memory data layer.

   The state is derived from the clock and four stored facts. Each fact has its own
   write, and the writes do not look at the derived state: a DKG result and a tally
   result are taken at any time, a cancellation until the voting starts. So a run
   goes forward only if three combinations stay out of it (`PhaseGated`): a DKG
   result or a tally result accepted after the DKG failed, and a cancellation
   accepted after a result. In every other run, from any moment to any later one,
   the state moves along `leadsTo` (`lifecycle_forward`). -/
namespace ElGamalVoting
open Lib

/-- The state as the coordinator derives it from what the data layer answers. -/
def electionState (dl : DataLayer) (electionId : Bytes) (now : Int) : Py ElectionState := do
  let rec' ← dl.getElection electionId
  let result ← dl.getResult electionId
  let facts : StateFacts := {
    cancelled := rec'.cancelled
    keyFinalized := rec'.finalizedKey.isSome
    resultPublished := result.isSome
    tallyStalled := rec'.tallyStalled }
  pure (deriveState rec'.config facts now)

/-- Forward along `Registered, KeyReady, Voting, Tallying, Complete`, where `Tallying` and
    `TallyStalled` alternate. The DKG fails only without a key and a cancellation comes
    before the voting; nothing leaves `DKGFailed`, `Cancelled` and `Complete`. -/
def ElectionState.leadsTo : ElectionState → ElectionState → Bool
  | .registered, _ => true
  | .keyReady, b => b ∈ [.keyReady, .voting, .tallying, .tallyStalled, .complete, .cancelled]
  | .voting, b => b ∈ [.voting, .tallying, .tallyStalled, .complete]
  | .tallying, b => b ∈ [.tallying, .tallyStalled, .complete]
  | .tallyStalled, b => b ∈ [.tallying, .tallyStalled, .complete]
  | .dkgFailed, b => b = .dkgFailed
  | .cancelled, b => b = .cancelled
  | .complete, b => b = .complete

/-- The readings of the clock do not go back, from `t` through the calls to `t'`. -/
def Timed : Int → List Call → Int → Prop
  | t, [], t' => t ≤ t'
  | t, call :: calls, t' => t ≤ call.now ∧ call.now ≤ call.later ∧ Timed call.later calls t'

theorem timed_bounds {calls : List Call} {t t' : Int} (h : Timed t calls t') :
    t ≤ t' ∧ ∀ call ∈ calls, t ≤ call.now ∧ call.now ≤ t' := by
  induction calls generalizing t with
  | nil => exact ⟨h, fun call hcall => by cases hcall⟩
  | cons c calls ih =>
    obtain ⟨hnow, hlater, hrest⟩ := h
    obtain ⟨hle, hcalls⟩ := ih hrest
    refine ⟨by omega, fun call hcall => ?_⟩
    rcases List.mem_cons.mp hcall with rfl | hcall
    · omega
    · have := hcalls call hcall
      omega

/-- The readings up to a call and those after it. -/
theorem timed_split {past rest : List Call} {call : Call} {t t' : Int}
    (h : Timed t (past ++ call :: rest) t') :
    Timed t past call.now ∧ call.now ≤ call.later ∧ Timed call.later rest t' := by
  induction past generalizing t with
  | nil => exact ⟨h.1, h.2.1, h.2.2⟩
  | cons c past ih =>
    obtain ⟨hnow, hlater, hrest⟩ := h
    obtain ⟨hpast, hcall⟩ := ih hrest
    exact ⟨⟨hnow, hlater, hpast⟩, hcall⟩

/-- An accepted DKG result or tally result finds an election whose DKG has not failed, and an
    accepted cancellation one that is not complete. -/
def PhaseGated (E : EthLib) (s : InMemoryDataLayer) (call : Call) : Prop :=
  Returns (call.perform E s) →
  match call.write with
  | .dkgResult electionId _ _ _ => electionState (s.reads E) electionId call.now ≠ .ok .dkgFailed
  | .result electionId _ _ => electionState (s.reads E) electionId call.now ≠ .ok .dkgFailed
  | .cancel electionId _ => electionState (s.reads E) electionId call.now ≠ .ok .complete
  | _ => True

namespace ElectionState

theorem leadsTo_refl (a : ElectionState) : a.leadsTo a = true := by
  cases a <;> rfl

theorem leadsTo_trans {a b c : ElectionState} (hab : a.leadsTo b = true) (hbc : b.leadsTo c = true) :
    a.leadsTo c = true := by
  cases a <;> cases b <;> first | exact absurd hab (by decide) | (cases c <;> first | rfl | exact absurd hbc (by decide))

end ElectionState

/-! ## Time and the facts -/

variable {config : ElectionConfig} {facts : StateFacts} {now t t' : Int}

/-- With a key and no result, the clock and the stall flag decide. -/
theorem deriveState_live {tallyStalled : Bool} :
    deriveState config ⟨false, true, false, tallyStalled⟩ now =
      if now < config.votingStart then .keyReady else if now < config.votingEnd then .voting
      else if tallyStalled then .tallyStalled else .tallying := by
  simp [deriveState]

/-- While no fact changes, time alone moves the state forward. -/
theorem deriveState_later (h : t ≤ t') :
    (deriveState config facts t).leadsTo (deriveState config facts t') = true := by
  have hwindow := config.start_lt_end
  obtain ⟨cancelled, keyFinalized, resultPublished, tallyStalled⟩ := facts
  cases cancelled with
  | true => rfl
  | false =>
    cases resultPublished with
    | true => rfl
    | false =>
      cases keyFinalized with
      | false =>
        by_cases hstart : config.votingStart ≤ t
        · have hstart' : config.votingStart ≤ t' := by omega
          simp [deriveState, hstart, hstart', ElectionState.leadsTo]
        · simp [deriveState, hstart, ElectionState.leadsTo]
      | true =>
        rw [deriveState_live, deriveState_live]
        split_ifs <;> first | rfl | omega

/-- The facts of a record, given whether its key is finalized. -/
def factsOf (st : Stored) (keyFinalized : Bool) : StateFacts where
  cancelled := st.cancelled
  keyFinalized := keyFinalized
  resultPublished := st.result.isSome
  tallyStalled := st.tallyStalled

section
variable {E : EthLib} {s : InMemoryDataLayer} {call : Call} {electionId : Bytes} {st st' : Stored}
  {key key' : Option FinalizedKey}

theorem electionState_eq (hst : s.elections.get? electionId = some st)
    (hkey : finalizedKeyOf st = .ok key) (now : Int) :
    electionState (s.reads E) electionId now =
      .ok (deriveState st.config (factsOf st key.isSome) now) := by
  have hget := getStored_eq_ok.mpr hst
  have helection : getElection s electionId = .ok ⟨st.config, st.cancelled, key, st.tallyStalled⟩ := by
    rw [getElection, hget, ok_bind, getFinalizedKey, hget, ok_bind, hkey, ok_bind]
    rfl
  have hresult : getResult s electionId = .ok st.result := by
    rw [getResult, hget, ok_bind]
    rfl
  show (getElection s electionId >>= fun rec' => getResult s electionId >>= fun result => _) = _
  rw [helection, ok_bind, hresult, ok_bind]
  rfl

theorem electionState_eq_ok {σ : ElectionState} (h : electionState (s.reads E) electionId now = .ok σ) :
    ∃ st key, s.elections.get? electionId = some st ∧ finalizedKeyOf st = .ok key ∧
      σ = deriveState st.config (factsOf st key.isSome) now := by
  obtain ⟨rec', hrec, -⟩ := bind_eq_ok.mp h
  obtain ⟨st, hget, hrec⟩ := bind_eq_ok.mp hrec
  obtain ⟨key, hkey, -⟩ := bind_eq_ok.mp hrec
  obtain ⟨st', hget', hkey⟩ := bind_eq_ok.mp hkey
  cases hget.symm.trans hget'
  have hst := getStored_eq_ok.mp hget
  refine ⟨st, key, hst, hkey, ?_⟩
  rw [electionState_eq hst hkey] at h
  exact (Except.ok.inj h).symm

/-! ## One write -/

theorem RecordStep.config_eq (hstep : RecordStep E s call electionId st st') :
    st'.config = st.config := by
  cases hstep <;> rfl

/-- A cancellation is taken before the voting starts, of an election that is not complete. -/
theorem deriveState_cancel {facts : StateFacts} (hnow : now < config.votingStart)
    (hgate : deriveState config facts now ≠ .complete) :
    (deriveState config facts now).leadsTo
      (deriveState config { facts with cancelled := true } now) = true := by
  obtain ⟨cancelled, keyFinalized, resultPublished, tallyStalled⟩ := facts
  have hnot : ¬ config.votingStart ≤ now := by omega
  cases cancelled with
  | true => rfl
  | false =>
    cases resultPublished with
    | true => exact absurd rfl hgate
    | false => cases keyFinalized <;> simp [deriveState, hnow, hnot, ElectionState.leadsTo]

/-- A key becomes final before the DKG failed. -/
theorem deriveState_key {facts : StateFacts} (hnone : facts.keyFinalized = false)
    (hgate : deriveState config facts now ≠ .dkgFailed) :
    (deriveState config facts now).leadsTo
      (deriveState config { facts with keyFinalized := true } now) = true := by
  obtain ⟨cancelled, keyFinalized, resultPublished, tallyStalled⟩ := facts
  subst hnone
  cases cancelled with
  | true => rfl
  | false =>
    cases resultPublished with
    | true => rfl
    | false =>
      by_cases hstart : config.votingStart ≤ now
      · exact absurd (by simp [deriveState, hstart]) hgate
      · simp [deriveState, hstart, ElectionState.leadsTo]

/-- A result completes an election unless its DKG failed. -/
theorem deriveState_result {facts : StateFacts} (hgate : deriveState config facts now ≠ .dkgFailed) :
    (deriveState config facts now).leadsTo
      (deriveState config { facts with resultPublished := true } now) = true := by
  obtain ⟨cancelled, keyFinalized, resultPublished, tallyStalled⟩ := facts
  cases cancelled with
  | true => rfl
  | false =>
    cases resultPublished with
    | true => rfl
    | false =>
      cases keyFinalized with
      | false =>
        by_cases hstart : config.votingStart ≤ now
        · exact absurd (by simp [deriveState, hstart]) hgate
        · simp [deriveState, hstart, ElectionState.leadsTo]
      | true =>
        rw [deriveState_live]
        split_ifs <;> rfl

/-- The stall flag is seen only while the votes are tallied. -/
theorem deriveState_stalled {facts : StateFacts} (stalled : Bool) :
    (deriveState config facts now).leadsTo
      (deriveState config { facts with tallyStalled := stalled } now) = true := by
  obtain ⟨cancelled, keyFinalized, resultPublished, tallyStalled⟩ := facts
  cases cancelled with
  | true => rfl
  | false =>
    cases resultPublished with
    | true => rfl
    | false =>
      cases keyFinalized with
      | false => exact ElectionState.leadsTo_refl _
      | true =>
        rw [deriveState_live, deriveState_live]
        split_ifs <;> rfl

/-- An accepted write moves the state forward at the moment it is made. -/
theorem RecordStep.forward (hstep : RecordStep E s call electionId st st') (h : st.Ok E electionId)
    (hst : s.elections.get? electionId = some st) (haccepted : Returns (call.perform E s))
    (hgate : PhaseGated E s call) (hkey : finalizedKeyOf st = .ok key)
    (hkey' : finalizedKeyOf st' = .ok key') :
    (deriveState st.config (factsOf st key.isSome) call.now).leadsTo
      (deriveState st'.config (factsOf st' key'.isSome) call.now) = true := by
  have hstate := electionState_eq (E := E) hst hkey call.now
  have hgated := hgate haccepted
  have hkept : ∀ K, _ := fun K => hstep.finalizedKeyOf_kept (K := K) h
  cases hstep with
  | cancel adminSig hwrite hnow hsig =>
    cases hkey.symm.trans hkey'
    rw [hwrite] at hgated
    refine deriveState_cancel hnow ?_
    intro hcomplete
    rw [hcomplete] at hstate
    exact hgated hstate
  | dkgResult pkElection committeePks keyperSig idx hwrite hidx hnew =>
    rw [hwrite] at hgated
    -- a key that is final stays; one that becomes final moves the state on, for it had not failed
    cases key with
    | some K =>
      cases (hkept K hkey).symm.trans hkey'
      exact ElectionState.leadsTo_refl _
    | none =>
      cases key' with
      | none => exact ElectionState.leadsTo_refl _
      | some K =>
        show (deriveState st.config (factsOf st false) call.now).leadsTo
          (deriveState st.config { factsOf st false with keyFinalized := true } call.now) = true
        refine deriveState_key rfl ?_
        intro hfailed
        exact hgated (hstate.trans (congrArg Except.ok hfailed))
  | ballot ballot gatewaySig hwrite hgateway hopen =>
    cases hkey.symm.trans hkey'
    exact ElectionState.leadsTo_refl _
  | aggregate aggregate keyperSig digest idx hwrite hnow hdigest hidx hopen =>
    cases hkey.symm.trans hkey'
    exact ElectionState.leadsTo_refl _
  | decryptionShare share keyperSig digest hwrite hnow hfixed hdigest hidx hnew =>
    cases hkey.symm.trans hkey'
    exact ElectionState.leadsTo_refl _
  | result result resultPublisherSig payload hwrite hpayload hsig hnew =>
    cases hkey.symm.trans hkey'
    rw [hwrite] at hgated
    refine deriveState_result ?_
    intro hfailed
    rw [hfailed] at hstate
    exact hgated hstate
  | tallyStalled stalled sig payload issuedAt hwrite hfresh hunused hpayload hauthority =>
    cases hkey.symm.trans hkey'
    exact deriveState_stalled stalled

/-! ## Runs -/

/-- One call, from its first reading of the clock on. -/
theorem InMemoryDataLayer.Ok.forward (h : s.Ok E) (hgate : PhaseGated E s call) {σ : ElectionState}
    (hσ : electionState (s.reads E) electionId call.now = .ok σ) (hlater : call.now ≤ t) :
    ∃ σ', electionState ((call.apply E s).reads E) electionId t = .ok σ' ∧ σ.leadsTo σ' = true := by
  obtain ⟨st, key, hst, hkey, rfl⟩ := electionState_eq_ok hσ
  have hok := h.records electionId st hst
  obtain ⟨st', hst', hchange⟩ := h.record hst call
  have hok' := (h.apply call).records electionId st' hst'
  refine ⟨_, electionState_eq hst' (finalizedKeyOf_ok hok') t, ?_⟩
  refine ElectionState.leadsTo_trans ?_ (deriveState_later hlater)
  rcases hchange with rfl | hstep
  · cases hkey.symm.trans (finalizedKeyOf_ok hok)
    exact ElectionState.leadsTo_refl _
  · cases hperform : call.perform E s with
    | ok s' => exact hstep.forward hok hst ⟨s', hperform⟩ hgate hkey (finalizedKeyOf_ok hok')
    | error e =>
      -- a rejected call leaves the record
      rw [Call.apply, hperform] at hst'
      cases hst.symm.trans hst'
      cases hkey.symm.trans (finalizedKeyOf_ok hok)
      exact ElectionState.leadsTo_refl _

theorem InMemoryDataLayer.Ok.run_forward (h : s.Ok E) {calls : List Call} (htimed : Timed t calls t')
    (hgate : ∀ before call after, calls = before ++ call :: after →
      PhaseGated E (runCalls E s before) call) {σ : ElectionState}
    (hσ : electionState (s.reads E) electionId t = .ok σ) :
    ∃ σ', electionState ((runCalls E s calls).reads E) electionId t' = .ok σ' ∧
      σ.leadsTo σ' = true := by
  induction calls generalizing s t σ with
  | nil =>
    obtain ⟨st, key, hst, hkey, rfl⟩ := electionState_eq_ok hσ
    exact ⟨_, electionState_eq hst hkey t', deriveState_later htimed⟩
  | cons call calls ih =>
    obtain ⟨hnow, hlater, hrest⟩ := htimed
    -- to the call's own reading first, then over the call, then on
    obtain ⟨st, key, hst, hkey, rfl⟩ := electionState_eq_ok hσ
    have hbefore := electionState_eq (E := E) hst hkey call.now
    obtain ⟨σ₁, hσ₁, hstep⟩ := h.forward (hgate [] call calls rfl) hbefore hlater
    obtain ⟨σ₂, hσ₂, hrun⟩ := ih (h.apply call) hrest (fun before c after hsplit =>
      hgate (call :: before) c after (by rw [hsplit, List.cons_append])) hσ₁
    exact ⟨σ₂, hσ₂, ElectionState.leadsTo_trans (deriveState_later hnow)
      (ElectionState.leadsTo_trans hstep hrun)⟩

/-- In every run under a nondecreasing clock whose accepted writes are phase gated, the state
    of an election between any two moments moves forward. -/
theorem lifecycle_forward (E : EthLib) (before between : List Call) (electionId : Bytes)
    {t t' : Int} (hclock : Timed t between t')
    (hgate : ∀ first call rest, before ++ between = first ++ call :: rest →
      PhaseGated E (runCalls E {} first) call) {σ : ElectionState}
    (hσ : electionState ((runCalls E {} before).reads E) electionId t = .ok σ) :
    ∃ σ', electionState ((runCalls E {} (before ++ between)).reads E) electionId t' = .ok σ' ∧
      σ.leadsTo σ' = true := by
  have hok : (runCalls E {} before).Ok E := ok_empty.run before
  rw [runCalls_append]
  refine hok.run_forward hclock ?_ hσ
  intro first call rest hsplit
  have happend : before ++ between = (before ++ first) ++ call :: rest := by
    rw [hsplit, List.append_assoc]
  have h := hgate (before ++ first) call rest happend
  rwa [runCalls_append] at h

end

namespace LifecycleSample

def register : Call :=
  ⟨0, 0, .register smallConfig (plainEth.signMessage [5] (registerDigest plainEth smallConfig))⟩

/-- A keyper's submission of the key, at a time. -/
def dkgResult (now : Int) (key : Bytes) : Call :=
  ⟨now, now, .dkgResult smallConfig.electionId [7] []
    (plainEth.signMessage key (dkgResultDigest plainEth smallConfig.electionId [7] []))⟩

def signedRequest (key : Bytes) (op : String) (payload : Py Bytes) : Bytes :=
  ((payload >>= requestDigest plainEth op smallConfig.electionId).map
    (plainEth.signMessage key)).toOption.getD []

def result (now : Int) : Call :=
  let artifact : ResultArtifact := ⟨smallConfig.electionId, [1], [1, 2], 1⟩
  ⟨now, now, .result smallConfig.electionId artifact
    (signedRequest [4] "result" (resultDigest plainEth smallConfig.electionId artifact))⟩

def cancel (now : Int) : Call :=
  ⟨now, now, .cancel smallConfig.electionId (signedRequest [5] "cancel" (.ok []))⟩

def stateAt (calls : List Call) (now : Int) : Py ElectionState :=
  electionState ((runCalls plainEth {} calls).reads plainEth) smallConfig.electionId now

/-- The store once the election is registered. -/
def registered : InMemoryDataLayer where
  elections := (∅ : Dict Bytes Stored).set smallConfig.electionId { config := smallConfig }
  nextId := 1

theorem apply_register : register.apply plainEth {} = registered := by
  have hregister : registerElection plainEth {} smallConfig
      (plainEth.signMessage [5] (registerDigest plainEth smallConfig)) = .ok registered :=
    registerElection_first rfl (by rfl) (plainEth_recoverMessage (by decide))
  rw [Call.apply, Call.perform, register]
  simp only
  rw [hregister]

theorem runCalls_register (calls : List Call) :
    runCalls plainEth {} (register :: calls) = runCalls plainEth registered calls := by
  rw [runCalls, List.foldl_cons, apply_register]
  rfl

theorem dkgResult_gated {s : InMemoryDataLayer} {now : Int} {key : Bytes}
    (h : electionState (s.reads plainEth) smallConfig.electionId now ≠ .ok .dkgFailed) :
    PhaseGated plainEth s (dkgResult now key) :=
  fun _ => h

theorem result_gated {s : InMemoryDataLayer} {now : Int}
    (h : electionState (s.reads plainEth) smallConfig.electionId now ≠ .ok .dkgFailed) :
    PhaseGated plainEth s (result now) :=
  fun _ => h

/-- A run through the whole lifecycle, from the key to the result. -/
theorem lifecycle_forward_sample :
    stateAt [register] 10 = .ok .registered ∧
      ∃ σ, stateAt [register, dkgResult 50 [1], dkgResult 60 [2], result 250] 250 = .ok σ ∧
        ElectionState.leadsTo .registered σ = true := by
  have hregistered : stateAt [register] 10 = .ok .registered := by
    rw [stateAt, runCalls_register]
    decide +kernel
  refine ⟨hregistered, ?_⟩
  refine lifecycle_forward plainEth [register] [dkgResult 50 [1], dkgResult 60 [2], result 250] _
    (t := 10) (by simp [Timed, dkgResult, result]) ?_ hregistered
  refine inputs_cons (fun _ => trivial) <| inputs_cons (dkgResult_gated ?_) <|
    inputs_cons (dkgResult_gated ?_) <| inputs_cons (result_gated ?_) inputs_nil
  · rw [apply_register]
    decide +kernel
  · rw [apply_register]
    decide +kernel
  · rw [apply_register]
    decide +kernel

/-- Keys submitted after the voting should have started open it all the same, and an
    election with a result is cancelled. -/
theorem lifecycle_leaves_terminal :
    (stateAt [register] 150 = .ok .dkgFailed ∧
      stateAt [register, dkgResult 150 [1], dkgResult 150 [2]] 150 = .ok .voting) ∧
    (stateAt [register, result 20] 20 = .ok .complete ∧
      stateAt [register, result 20, cancel 30] 30 = .ok .cancelled) := by
  simp only [stateAt, runCalls_register]
  decide +kernel

end LifecycleSample
end ElGamalVoting
