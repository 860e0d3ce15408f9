import ElGamalVoting.Adapters.MemorySteps

/- Requests to mark a tally stalled and to clear the mark (`set_tally_stalled` of
   `adapters/memory.py`).

   `setTallyStalledBody` is the method statement by statement, with the state a call that
   raises leaves behind; it touches the state only in its last two lines
   (`setTallyStalledBody_run`). A request that was accepted is remembered for good, so no
   run accepts it a second time. -/
namespace ElGamalVoting
open Lib

/-- A Python method: its state is there after an exception too. -/
abbrev Method (σ : Type) := ExceptT PyError (StateM σ)

def Method.lift {σ α : Type} (x : Py α) : Method σ α := ExceptT.mk (pure x)

def setTallyStalledBody (E : EthLib) (now later : Int) (electionId : Bytes) (stalled : Bool) (sig : Bytes)
    (issuedAt : Int) : Method InMemoryDataLayer Unit := do
  let s ← get
  let st ← Method.lift (getStored s electionId)
  if ¬ requestIsFresh issuedAt now then
    throw (.writeAuthorization (s!"{stallOp stalled}: issued_at {issuedAt} is outside the " ++
      s!"+/-{requestFreshness}s acceptance window"))
  if (electionId, stallOp stalled, issuedAt) ∈ s.usedRequestNonces then
    throw (.writeAuthorization s!"{stallOp stalled}: this request has already been used")
  let payload ← Method.lift (requestNoncePayload issuedAt)
  Method.lift (requireStallAuthority E st later electionId stalled sig payload)
  modify fun s => { s with usedRequestNonces := (electionId, stallOp stalled, issuedAt) :: s.usedRequestNonces }
  modify fun s => putStored s electionId { st with tallyStalled := stalled }

section
variable {σ α β : Type}

theorem Method.run_lift_bind (x : Py α) (f : α → Method σ β) (s : σ) :
    ((Method.lift x >>= f).run).run s =
      match x with
      | .ok a => ((f a).run).run s
      | .error e => (.error e, s) := by
  cases x <;> rfl

end

/-- The method either raises with the state as it was, or leaves what the write says. -/
theorem setTallyStalledBody_run (E : EthLib) (now later : Int) (electionId : Bytes) (stalled : Bool)
    (sig : Bytes) (issuedAt : Int) (s : InMemoryDataLayer) :
    (setTallyStalledBody E now later electionId stalled sig issuedAt).run.run s =
      match setTallyStalled E s now later electionId stalled sig issuedAt with
      | .ok s' => (.ok (), s')
      | .error e => (.error e, s) := by
  unfold setTallyStalledBody setTallyStalled
  show ((Method.lift (getStored s electionId) >>= _).run).run s = _
  rw [Method.run_lift_bind]
  cases getStored s electionId with
  | error e => rfl
  | ok st =>
    dsimp only
    rw [ok_bind]
    by_cases hfresh : requestIsFresh issuedAt now = true
    case neg =>
      rw [if_pos hfresh, if_pos hfresh]
      rfl
    rw [if_neg (not_not.mpr hfresh), if_neg (not_not.mpr hfresh)]
    by_cases hused : (electionId, stallOp stalled, issuedAt) ∈ s.usedRequestNonces
    case pos =>
      rw [if_pos hused, if_pos hused]
      rfl
    rw [if_neg hused, if_neg hused, Method.run_lift_bind]
    cases requestNoncePayload issuedAt with
    | error e => rfl
    | ok payload =>
      dsimp only
      rw [ok_bind, Method.run_lift_bind]
      cases requireStallAuthority E st later electionId stalled sig payload with
      | error e => rfl
      | ok _ => rfl

/-! ## Runs -/

/-- A request to turn the stall flag. -/
structure StallRequest where
  now : Int
  later : Int
  electionId : Bytes
  stalled : Bool
  sig : Bytes
  issuedAt : Int

def StallRequest.call (r : StallRequest) : Call :=
  ⟨r.now, r.later, .tallyStalled r.electionId r.stalled r.sig r.issuedAt⟩

/-- The method on a store. -/
def StallRequest.run (E : EthLib) (r : StallRequest) (s : InMemoryDataLayer) : Py Unit × InMemoryDataLayer :=
  (setTallyStalledBody E r.now r.later r.electionId r.stalled r.sig r.issuedAt).run.run s

/-- The request is signed, for its direction, election and time, by who may make it: the result
    publisher marks, the administrator clears. -/
def StallRequest.Signed (E : EthLib) (r : StallRequest) (config : ElectionConfig) : Prop :=
  ∃ payload digest, requestNoncePayload r.issuedAt = .ok payload ∧
    requestDigest E (stallOp r.stalled) r.electionId payload = .ok digest ∧
    E.recoverMessage digest r.sig = some (if r.stalled then config.resultPublisherKey else config.adminKey)

section
variable {E : EthLib} {s : InMemoryDataLayer} {r : StallRequest}

/-- What the method leaves is what the call leaves. -/
theorem StallRequest.run_state (E : EthLib) (r : StallRequest) (s : InMemoryDataLayer) :
    (r.run E s).2 = r.call.apply E s := by
  rw [StallRequest.run, setTallyStalledBody_run, Call.apply, Call.perform, StallRequest.call]
  dsimp only
  cases setTallyStalled E s r.now r.later r.electionId r.stalled r.sig r.issuedAt with
  | error e => rfl
  | ok s' => rfl

theorem StallRequest.run_eq_ok (h : (r.run E s).1 = .ok ()) :
    ∃ s', setTallyStalled E s r.now r.later r.electionId r.stalled r.sig r.issuedAt = .ok s' ∧
      (r.run E s).2 = s' := by
  rw [StallRequest.run, setTallyStalledBody_run] at h ⊢
  cases hset : setTallyStalled E s r.now r.later r.electionId r.stalled r.sig r.issuedAt with
  | error e =>
    rw [hset] at h
    cases h
  | ok s' => exact ⟨s', rfl, rfl⟩

theorem StallRequest.run_eq_error {e : PyError} (h : (r.run E s).1 = .error e) : (r.run E s).2 = s := by
  rw [StallRequest.run, setTallyStalledBody_run] at h ⊢
  cases hset : setTallyStalled E s r.now r.later r.electionId r.stalled r.sig r.issuedAt with
  | error e => rfl
  | ok s' =>
    rw [hset] at h
    cases h

/-- The authority that turned the flag signed the request. -/
theorem verifyRequest_of_requireStallAuthority {st : Stored} {later : Int} {electionId sig payload : Bytes}
    {stalled : Bool} (h : requireStallAuthority E st later electionId stalled sig payload = .ok ()) :
    verifyRequest E (if stalled then st.config.resultPublisherKey else st.config.adminKey) sig
      (stallOp stalled) electionId payload = true := by
  by_contra hnot
  cases stalled with
  | true =>
    rw [if_pos rfl] at hnot
    simp only [requireStallAuthority, if_true] at h
    split at h
    · cases h
    split at h
    · cases h
    · cases h
  | false =>
    rw [if_neg Bool.false_ne_true] at hnot
    simp only [requireStallAuthority, Bool.false_eq_true, if_false] at h
    rw [if_pos hnot] at h
    cases h

theorem signed_of_requireStallAuthority {st : Stored} {payload : Bytes}
    (hpayload : requestNoncePayload r.issuedAt = .ok payload)
    (h : requireStallAuthority E st r.later r.electionId r.stalled r.sig payload = .ok ()) :
    r.Signed E st.config := by
  have hverify := verifyRequest_of_requireStallAuthority h
  rw [verifyRequest] at hverify
  cases hdigest : requestDigest E (stallOp r.stalled) r.electionId payload with
  | error e =>
    rw [hdigest] at hverify
    cases hverify
  | ok digest =>
    rw [hdigest] at hverify
    exact ⟨payload, digest, hpayload, hdigest, beq_iff_eq.mp hverify⟩

/-- A spent request stays spent, whatever is written. -/
theorem usedRequestNonces_apply (call : Call) {nonce : Bytes × String × Int}
    (h : nonce ∈ s.usedRequestNonces) : nonce ∈ (call.apply E s).usedRequestNonces := by
  rw [Call.apply]
  cases hperform : call.perform E s with
  | error e => exact h
  | ok s' =>
    dsimp only
    rcases Call.perform_cases hperform with ⟨config, adminSig, -, -, -, -, rfl⟩ | hchanges
    · exact h
    · rcases hchanges with ⟨electionId, st, st', -, -, rfl⟩ | rfl
      · show nonce ∈ call.spend s.usedRequestNonces
        rw [Call.spend]
        split
        · exact List.mem_cons_of_mem _ h
        · exact h
      · exact h

theorem usedRequestNonces_run (calls : List Call) {nonce : Bytes × String × Int}
    (h : nonce ∈ s.usedRequestNonces) : nonce ∈ (runCalls E s calls).usedRequestNonces :=
  run_invariant (fun s : InMemoryDataLayer => nonce ∈ s.usedRequestNonces)
    (fun _ call h => usedRequestNonces_apply call h) h calls

end

/-- Over every run of writes, with any clock readings, a request for an election, direction and time
    is accepted once at most; an accepted one is signed by who may make it; and one that raises, as one
    that is not so signed does, leaves the whole state as it was. -/
theorem stall_requests_single_use (E : EthLib) (calls : List Call) :
    (∀ before (r : StallRequest) middle (again : StallRequest) after,
      calls = before ++ r.call :: middle ++ again.call :: after →
      (again.electionId, again.stalled, again.issuedAt) = (r.electionId, r.stalled, r.issuedAt) →
      (r.run E (runCalls E {} before)).1 = .ok () →
      ∃ e, (again.run E (runCalls E {} (before ++ r.call :: middle))).1 = .error e) ∧
    ∀ before (r : StallRequest) after, calls = before ++ r.call :: after →
      ((r.run E (runCalls E {} before)).1 = .ok () →
        ∃ st, (runCalls E {} before).elections.get? r.electionId = some st ∧ r.Signed E st.config) ∧
      ∀ e, (r.run E (runCalls E {} before)).1 = .error e →
        (r.run E (runCalls E {} before)).2 = runCalls E {} before ∧
          runCalls E {} (before ++ [r.call]) = runCalls E {} before := by
  refine ⟨?_, ?_⟩
  · intro before r middle again after _ hsame haccepted
    obtain ⟨hid, hdirection, hissued⟩ := by simpa using hsame
    obtain ⟨s', hset, hstate⟩ := StallRequest.run_eq_ok haccepted
    obtain ⟨st, payload, -, -, -, -, -, rfl⟩ := setTallyStalled_eq_ok hset
    rw [StallRequest.run_state] at hstate
    -- the nonce of the accepted request is spent, and no later write gives it back
    have hspent : (r.electionId, stallOp r.stalled, r.issuedAt) ∈
        (runCalls E {} (before ++ r.call :: middle)).usedRequestNonces := by
      rw [runCalls_append]
      show _ ∈ (runCalls E (r.call.apply E (runCalls E {} before)) middle).usedRequestNonces
      apply usedRequestNonces_run
      rw [hstate]
      exact List.mem_cons_self
    cases hagain : (again.run E (runCalls E {} (before ++ r.call :: middle))).1 with
    | error e => exact ⟨e, rfl⟩
    | ok _ =>
      obtain ⟨s'', hset', -⟩ := StallRequest.run_eq_ok hagain
      obtain ⟨-, -, -, -, hunused, -⟩ := setTallyStalled_eq_ok hset'
      rw [hid, hdirection, hissued] at hunused
      exact absurd hspent hunused
  · intro before r after _
    refine ⟨?_, ?_⟩
    · intro haccepted
      obtain ⟨s', hset, -⟩ := StallRequest.run_eq_ok haccepted
      obtain ⟨st, payload, hst, -, -, hpayload, hauthority, -⟩ := setTallyStalled_eq_ok hset
      exact ⟨st, hst, signed_of_requireStallAuthority hpayload hauthority⟩
    · intro e hrejected
      have hsame := StallRequest.run_eq_error hrejected
      refine ⟨hsame, ?_⟩
      rw [runCalls_append]
      rw [StallRequest.run_state] at hsame
      exact hsame

end ElGamalVoting
