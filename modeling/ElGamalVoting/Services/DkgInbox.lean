import ElGamalVoting.Services.KeyperPublish

/- The inbox of a DKG attempt (`services/keyper/keyper_server.py`).

   A dealer's commitments are kept as they first came. So is its share, but for one
   opening: after this keyper's round 2 complained about the dealer, a share that verifies
   against the stored commitments may take its place. `BoxStep` is what one call does to
   an inbox; along an attempt the dealers the server marks as complained about are those
   its round 2 did complain about. -/
namespace ElGamalVoting
open Lib

section
variable {G₁ G₂ : Type} [AddCommGroup G₁] [AddCommGroup G₂] [DecidableEq G₂] (S : Suite G₁ G₂)
  (E : EthLib) (node : KeyperNode) (eid : Bytes)

/-- The server after a list of calls. -/
def serverAfter (s : KeyperServer G₂) (calls : List KeyperCall) : KeyperServer G₂ :=
  calls.foldl (fun s call => (call.handle S E node s).1) s

/-- A call of round 1 for the election. -/
def KeyperCall.StartsAttempt : KeyperCall → Prop
  | .dkgRound1 electionId _ => fromHex electionId = some eid
  | _ => False

/-- The call is a round 2 that, in this state, finds the dealer's share bad. -/
def Complains (s : KeyperServer G₂) (dealer : Int) (call : KeyperCall) : Prop :=
  ∃ electionId st message bad, call = .dkgRound2 electionId ∧ fromHex electionId = some eid ∧
    s.dkgStates.get? (electionKey eid) = some st ∧
    st.round2 S.g2 (s.box (electionKey eid)).commitments (s.box (electionKey eid)).shares =
      .error (.badDealers message bad) ∧ dealer ∈ bad

/-- One of the calls complained about the dealer. -/
def Complained (s : KeyperServer G₂) (calls : List KeyperCall) (dealer : Int) : Prop :=
  ∃ before call after, calls = before ++ call :: after ∧
    Complains S eid (serverAfter S E node s before) dealer call

/-- The committee configuration has as many commitments for each dealer. -/
def QuorumSized (comms : List G₂) : Prop :=
  ∃ config, node.getConfig eid = .ok config ∧ comms.length = config.threshold.t

/-- The share passes this keyper's Feldman check. -/
def VerifiesMine (comms : List G₂) (share : Int) : Prop :=
  ∃ config idx, node.getConfig eid = .ok config ∧ memberIndex config (node.signer.identity E) = some idx ∧
    verifyShare S.g2 comms idx share = true

/-- What a call does to an inbox of the election. -/
structure BoxStep (s : KeyperServer G₂) (call : KeyperCall) (key : PyStr) (box box' : Inbox G₂) : Prop where
  commitments : ∀ dealer comms, box.commitments.get? dealer = some comms →
    box'.commitments.get? dealer = some comms
  sized : ∀ dealer comms, box'.commitments.get? dealer = some comms →
    box.commitments.get? dealer = some comms ∨ QuorumSized node eid comms
  shares : ∀ dealer old, box.shares.get? dealer = some old → box'.shares.get? dealer = some old ∨
    ∃ new comms, box'.shares.get? dealer = some new ∧ dealer ∈ box.complained ∧
      box.commitments.get? dealer = some comms ∧ VerifiesMine S E node eid comms new
  complained : ∀ dealer ∈ box'.complained, dealer ∈ box.complained ∨
    (key = electionKey eid ∧ Complains S eid s dealer call)

variable {S E node eid} {s s' : KeyperServer G₂} {call : KeyperCall} {reply : Handle Reply} {key : PyStr}

theorem BoxStep.refl (box : Inbox G₂) : BoxStep S E node eid s call key box box :=
  ⟨fun _ _ h => h, fun _ _ h => .inl h, fun _ _ h => .inl h, fun _ h => .inl h⟩

theorem mayReplace_eq_true {box : Inbox G₂} {dealer recipient share : Int}
    (h : mayReplace S box dealer recipient share = true) :
    ∃ comms, box.commitments.get? dealer = some comms ∧ dealer ∈ box.complained ∧
      verifyShare S.g2 comms recipient share = true := by
  unfold mayReplace at h
  split at h
  · cases h
  · rename_i comms hcomms
    simp only [Bool.and_eq_true, decide_eq_true_eq] at h
    exact ⟨comms, hcomms, h.1.1, h.2⟩

/-- Every call but a round 1 of the election leaves its inboxes, under whichever text of its id, by
    a `BoxStep`. -/
theorem boxStep_of_effect (h : Effect S E node s call s' reply) (hcall : ¬ call.StartsAttempt eid)
    (hkey : fromHex key = some eid) : BoxStep S E node eid s call key (s.box key) (s'.box key) := by
  cases h with
  | quiet completed states boxes unverified =>
    rw [boxes]
    exact .refl _
  -- a round 1 rewrites the box of its own election only, and this is no round 1 of `eid`
  | @round1 electionId randomScalar eid' config i st _ share parsed known mine fresh completed states boxes =>
    have hother : key ≠ electionKey eid' := by
      intro heq
      rw [heq, fromHex_electionKey] at hkey
      exact hcall (parsed.trans hkey)
    rw [boxes, if_neg hother]
    exact .refl _
  | @commitments body eid' config comms _ parsed known dealer first sized completed states boxes =>
    rw [boxes]
    split
    · rename_i heq
      subst heq
      cases Option.some.inj (parsed.symm.trans hkey)
      refine ⟨?_, ?_, fun _ _ h => .inl h, fun _ h => .inl h⟩
      -- only the first commitments of a dealer are taken, so none that is there changes
      · intro d stored hget
        rw [Dict.get?_set, if_neg]
        · exact hget
        · intro hd
          rw [hd, first] at hget
          cases hget
      · intro d stored hget
        rw [Dict.get?_set] at hget
        split at hget
        · cases hget
          exact .inr ⟨config, known, sized⟩
        · exact .inl hget
    · exact .refl _
  | @share body eid' config _ value parsed known dealer mine allowed completed states boxes =>
    rw [boxes]
    split
    · rename_i heq
      subst heq
      cases Option.some.inj (parsed.symm.trans hkey)
      refine ⟨fun _ _ h => h, fun _ _ h => .inl h, ?_, fun _ h => .inl h⟩
      intro d old hget
      rw [Dict.get?_set]
      split
      · rename_i hd
        subst hd
        -- another share than the one that is there passed `mayReplace`
        by_cases hsame : value = old
        · exact .inl (congrArg some hsame)
        · obtain ⟨comms, hcomms, hcomplained, hverify⟩ := mayReplace_eq_true (allowed old hget hsame)
          exact .inr ⟨value, comms, rfl, hcomplained, hcomms, config, _, known, mine, hverify⟩
      · exact .inl hget
    · exact .refl _
  | @complain electionId eid' st message _ _ bad parsed dealt rejects completed states boxes unverified =>
    rw [boxes]
    split
    · rename_i heq
      subst heq
      rw [fromHex_electionKey] at hkey
      cases hkey
      refine ⟨fun _ _ h => h, fun _ _ h => .inl h, fun _ _ h => .inl h, ?_⟩
      intro d hd
      rcases List.mem_append.mp hd with hd | hd
      · exact .inl hd
      · exact .inr ⟨rfl, electionId, st, message, bad, rfl, parsed, dealt, rejects, hd⟩
    · exact .refl _
  | round2 parsed known dealt combines completed states boxes =>
    rw [boxes]
    exact .refl _
  | published dealt completed states boxes =>
    rw [boxes]
    exact .refl _

/-! ## Every state of a run -/

/-- What holds in every state a process reaches: the stored vectors have the right length, only the
    canonical text of the id has complaints, and only after a round 1 that found this keyper in the
    committee. -/
structure InboxOk (S : Suite G₁ G₂) (E : EthLib) (node : KeyperNode) (eid : Bytes)
    (s : KeyperServer G₂) : Prop where
  sized : ∀ key, fromHex key = some eid → ∀ dealer comms, (s.box key).commitments.get? dealer = some comms →
    QuorumSized node eid comms
  canonical : ∀ key, fromHex key = some eid → (s.box key).complained ≠ [] →
    key = electionKey eid ∧ s.dkgStates.get? (electionKey eid) ≠ none
  member : s.dkgStates.get? (electionKey eid) ≠ none →
    ∃ config idx, node.getConfig eid = .ok config ∧ memberIndex config (node.signer.identity E) = some idx

omit [DecidableEq G₂] in
theorem inboxOk_start (restored : Dict PyStr DkgEntry) :
    InboxOk S E node eid ({ completed := restored } : KeyperServer G₂) :=
  ⟨nofun, fun _ _ h => absurd rfl h, fun h => absurd rfl h⟩

/-- A state that is there stays, and a new one is of a round 1. -/
theorem dkgStates_of_effect (eid : Bytes) (h : Effect S E node s call s' reply) :
    (s.dkgStates.get? (electionKey eid) ≠ none → s'.dkgStates.get? (electionKey eid) ≠ none) ∧
      (s'.dkgStates.get? (electionKey eid) ≠ none → s.dkgStates.get? (electionKey eid) ≠ none ∨
        ∃ config idx, node.getConfig eid = .ok config ∧
          memberIndex config (node.signer.identity E) = some idx) := by
  have hset : ∀ {eid' : Bytes} {st : KeyperDKGState G₂},
      s'.dkgStates = s.dkgStates.set (electionKey eid') st →
      (s.dkgStates.get? (electionKey eid) ≠ none → s'.dkgStates.get? (electionKey eid) ≠ none) ∧
        (s'.dkgStates.get? (electionKey eid) ≠ none →
          s.dkgStates.get? (electionKey eid) ≠ none ∨ eid' = eid) := by
    intro eid' st hstates
    rw [hstates, Dict.get?_set]
    split
    · rename_i heq
      exact ⟨fun _ => Option.some_ne_none _, fun _ => .inr (electionKey_inj heq).symm⟩
    · exact ⟨id, .inl⟩
  cases h with
  | quiet completed states boxes unverified =>
    rw [states]
    exact ⟨id, .inl⟩
  | round1 share parsed known mine fresh completed states boxes =>
    refine ⟨(hset states).1, ?_⟩
    intro h
    rcases (hset states).2 h with h | rfl
    · exact .inl h
    · exact .inr ⟨_, _, known, mine⟩
  | commitments parsed known dealer first sized completed states boxes =>
    rw [states]
    exact ⟨id, .inl⟩
  | share value parsed known dealer mine allowed completed states boxes =>
    rw [states]
    exact ⟨id, .inl⟩
  | complain bad parsed dealt rejects completed states boxes unverified =>
    rw [states]
    exact ⟨id, .inl⟩
  | round2 parsed known dealt combines completed states boxes =>
    refine ⟨(hset states).1, ?_⟩
    intro h
    rcases (hset states).2 h with h | rfl
    · exact .inl h
    · exact .inl (dealt ▸ Option.some_ne_none _)
  | published dealt completed states boxes =>
    refine ⟨(hset states).1, ?_⟩
    intro h
    rcases (hset states).2 h with h | rfl
    · exact .inl h
    · exact .inl (dealt ▸ Option.some_ne_none _)

/-- A round 1 of the election either fails and changes no inbox, or starts with a fresh one. -/
theorem box_of_startsAttempt (h : Effect S E node s call s' reply) (hcall : call.StartsAttempt eid) :
    (∀ k, s'.box k = s.box k) ∨ ∃ config idx share st randomScalar,
      node.getConfig eid = .ok config ∧
      st = KeyperDKGState.round1 S.g2 idx config.threshold.n config.threshold.t randomScalar ∧
      ∀ k, s'.box k = if k = electionKey eid then
        { commitments := (∅ : Dict Int (List G₂)).set idx st.commitments
          shares := (∅ : Dict Int Int).set idx share }
        else s.box k := by
  cases h with
  | quiet completed states boxes unverified => exact .inl boxes
  | round1 share parsed known mine fresh completed states boxes =>
    cases Option.some.inj (parsed.symm.trans hcall)
    exact .inr ⟨_, _, share, _, _, known, fresh, boxes⟩
  | commitments => exact absurd hcall id
  | share => exact absurd hcall id
  | complain => exact absurd hcall id
  | round2 => exact absurd hcall id
  | published => exact absurd hcall id

theorem InboxOk.of_effect (hok : InboxOk S E node eid s) (h : Effect S E node s call s' reply) :
    InboxOk S E node eid s' := by
  obtain ⟨hkept, hnew⟩ := dkgStates_of_effect eid h
  have hmember : s'.dkgStates.get? (electionKey eid) ≠ none → ∃ config idx,
      node.getConfig eid = .ok config ∧ memberIndex config (node.signer.identity E) = some idx := by
    intro hstate
    rcases hnew hstate with hold | hfound
    · exact hok.member hold
    · exact hfound
  by_cases hcall : call.StartsAttempt eid
  -- a new attempt empties the box but for its own commitments, which have the right length
  · rcases box_of_startsAttempt h hcall with hboxes | ⟨config, idx, share, st, _, hknown, hst, hboxes⟩
    · refine ⟨?_, ?_, hmember⟩
      · intro key hkey dealer comms hget
        rw [hboxes] at hget
        exact hok.sized key hkey dealer comms hget
      · intro key hkey hsome
        rw [hboxes] at hsome
        obtain ⟨hcanonical, hstate⟩ := hok.canonical key hkey hsome
        exact ⟨hcanonical, hkept hstate⟩
    · refine ⟨?_, ?_, hmember⟩
      · intro key hkey dealer comms hget
        rw [hboxes] at hget
        split at hget
        · rw [Dict.get?_set] at hget
          split at hget
          · cases hget
            refine ⟨config, hknown, ?_⟩
            rw [hst]
            simp [KeyperDKGState.round1]
          · cases hget
        · exact hok.sized key hkey dealer comms hget
      · intro key hkey hsome
        rw [hboxes] at hsome
        split at hsome
        · exact absurd rfl hsome
        · obtain ⟨hcanonical, hstate⟩ := hok.canonical key hkey hsome
          exact ⟨hcanonical, hkept hstate⟩
  · refine ⟨?_, ?_, hmember⟩
    · intro key hkey dealer comms hget
      rcases (boxStep_of_effect h hcall hkey).sized dealer comms hget with hold | hsized
      · exact hok.sized key hkey dealer comms hold
      · exact hsized
    · intro key hkey hsome
      obtain ⟨dealer, hdealer⟩ := List.exists_mem_of_ne_nil _ hsome
      rcases (boxStep_of_effect h hcall hkey).complained dealer hdealer with hold | ⟨hcanonical, hcomplains⟩
      · obtain ⟨hcanonical, hstate⟩ := hok.canonical key hkey (List.ne_nil_of_mem hold)
        exact ⟨hcanonical, hkept hstate⟩
      · obtain ⟨_, st, _, _, _, _, hdealt, _⟩ := hcomplains
        exact ⟨hcanonical, hkept (hdealt ▸ Option.some_ne_none _)⟩

theorem InboxOk.run (hok : InboxOk S E node eid s) (calls : List KeyperCall) :
    InboxOk S E node eid (serverAfter S E node s calls) :=
  run_invariant (InboxOk S E node eid) (fun _ call h => h.of_effect (handle_effect call)) hok calls

/-! ## An attempt -/

omit [DecidableEq G₂] in
/-- A member's round 1 does not fail. -/
theorem freshDealing_returns {electionId : PyStr} (randomScalar : Nat → Int) {config : ElectionConfig}
    {idx : Int} (hparsed : fromHex electionId = some eid) (hknown : node.getConfig eid = .ok config)
    (hmine : memberIndex config (node.signer.identity E) = some idx) :
    ∃ st share, freshDealing S E node electionId randomScalar = .ok (eid, st, idx, share) := by
  have hidx : idx ∈ keyperIndices config.threshold.n :=
    mem_keyperIndices.mpr ⟨(memberIndex_eq_some hmine).1, (memberIndex_eq_some hmine).2.1⟩
  let st := KeyperDKGState.round1 S.g2 idx config.threshold.n config.threshold.t randomScalar
  obtain ⟨share, hshare⟩ : ∃ share, st.sharesForOthers.get? idx = some share :=
    ⟨_, Dict.get?_ofFn (h := nodup_keyperIndices _) hidx⟩
  have hown : ownShare st idx = .ok share := by rw [ownShare, hshare]
  refine ⟨st, share, ?_⟩
  rw [freshDealing, electionBytes_eq_ok.mpr hparsed, ok_bind, liftPy_eq_ok.mpr hknown, ok_bind,
    myIndex_eq_ok.mpr hmine, ok_bind]
  exact bind_eq_ok.mpr ⟨share, hown, rfl⟩

omit [DecidableEq G₂] in
/-- After a round 1 no dealer is marked. -/
theorem complained_after_round1 (hok : InboxOk S E node eid s) {electionId : PyStr}
    {randomScalar : Nat → Int} (hparsed : fromHex electionId = some eid) (hkey : fromHex key = some eid) :
    ((dkgRound1 S E node s electionId randomScalar).1.box key).complained = [] := by
  unfold dkgRound1
  cases hfresh : freshDealing S E node electionId randomScalar with
  | ok dealing =>
    obtain ⟨eid', st, idx, share⟩ := dealing
    obtain ⟨config, hparsed', -, -, -⟩ := freshDealing_eq_ok hfresh
    cases Option.some.inj (hparsed.symm.trans hparsed')
    by_contra hsome
    simp only [KeyperServer.box, Dict.get?_set] at hsome
    split at hsome
    · exact hsome rfl
    · rename_i hne
      exact hne (hok.canonical key hkey hsome).1
  | error e =>
    -- a marked dealer is one of an earlier attempt, so this round 1 would not have failed
    by_contra hsome
    obtain ⟨config, idx, hknown, hmine⟩ := hok.member (hok.canonical key hkey hsome).2
    obtain ⟨st, share, hreturns⟩ := freshDealing_returns (S := S) randomScalar hparsed hknown hmine
    rw [hreturns] at hfresh
    cases hfresh

/-- The inboxes of an election over the calls of an attempt. `before` is what was called so far, and
    `middle` what is called until the state the inbox is compared with. -/
structure InboxKept (S : Suite G₁ G₂) (E : EthLib) (node : KeyperNode) (eid : Bytes) (s : KeyperServer G₂)
    (calls : List KeyperCall) (key : PyStr) : Prop where
  sized : ∀ before after, calls = before ++ after → ∀ dealer comms,
    ((serverAfter S E node s before).box key).commitments.get? dealer = some comms → QuorumSized node eid comms
  commitments : ∀ before middle after, calls = before ++ middle ++ after → ∀ dealer comms,
    ((serverAfter S E node s before).box key).commitments.get? dealer = some comms →
    ((serverAfter S E node s (before ++ middle)).box key).commitments.get? dealer = some comms
  replaced : ∀ before call after, calls = before ++ call :: after → ∀ dealer old,
    ((serverAfter S E node s before).box key).shares.get? dealer = some old →
    ((serverAfter S E node s (before ++ [call])).box key).shares.get? dealer ≠ some old →
    Complained S E node eid s before dealer ∧
      ∃ new comms, ((serverAfter S E node s (before ++ [call])).box key).shares.get? dealer = some new ∧
        ((serverAfter S E node s before).box key).commitments.get? dealer = some comms ∧
        VerifiesMine S E node eid comms new
  shares : ∀ before middle after, calls = before ++ middle ++ after → ∀ dealer share,
    ((serverAfter S E node s before).box key).shares.get? dealer = some share →
    ¬ Complained S E node eid s (before ++ middle) dealer →
    ((serverAfter S E node s (before ++ middle)).box key).shares.get? dealer = some share

theorem serverAfter_concat (s : KeyperServer G₂) (calls : List KeyperCall) (call : KeyperCall) :
    serverAfter S E node s (calls ++ [call]) = (call.handle S E node (serverAfter S E node s calls)).1 := by
  rw [serverAfter, List.foldl_append]
  rfl

theorem Complained.append {calls : List KeyperCall} {dealer : Int} (h : Complained S E node eid s calls dealer)
    (more : List KeyperCall) : Complained S E node eid s (calls ++ more) dealer := by
  obtain ⟨before, call, after, rfl, hcomplains⟩ := h
  exact ⟨before, call, after ++ more, List.append_assoc _ _ _, hcomplains⟩

theorem boxStep_of_calls {calls before after : List KeyperCall}
    (hcalls : ∀ call ∈ calls, ¬ call.StartsAttempt eid) (hsplit : calls = before ++ call :: after)
    (hkey : fromHex key = some eid) :
    BoxStep S E node eid (serverAfter S E node s before) call key
      ((serverAfter S E node s before).box key) ((serverAfter S E node s (before ++ [call])).box key) := by
  rw [serverAfter_concat]
  refine boxStep_of_effect (handle_effect call) (hcalls call ?_) hkey
  rw [hsplit]
  exact List.mem_append_right _ List.mem_cons_self

/-- Along an attempt that starts with no mark, a marked dealer was complained about. -/
theorem complained_of_marked (hstart : (s.box key).complained = []) (hkey : fromHex key = some eid)
    {calls : List KeyperCall} (hcalls : ∀ call ∈ calls, ¬ call.StartsAttempt eid) {dealer : Int}
    (hmarked : dealer ∈ ((serverAfter S E node s calls).box key).complained) :
    Complained S E node eid s calls dealer := by
  induction calls using List.reverseRec generalizing dealer with
  | nil =>
    have hnil : dealer ∈ (s.box key).complained := hmarked
    rw [hstart] at hnil
    cases hnil
  | append_singleton calls call ih =>
    have hstep : BoxStep S E node eid (serverAfter S E node s calls) call key _ _ :=
      boxStep_of_calls hcalls rfl hkey
    rcases hstep.complained dealer hmarked with hold | ⟨-, hcomplains⟩
    · have hbefore : ∀ c ∈ calls, ¬ c.StartsAttempt eid := fun c hc => hcalls c (List.mem_append_left _ hc)
      exact (ih hbefore hold).append [call]
    · exact ⟨calls, call, [], rfl, hcomplains⟩

/-- What the calls of an attempt keep, when it starts with the stored vectors sized and no mark. -/
theorem inboxKept (hok : InboxOk S E node eid s) (hstart : (s.box key).complained = [])
    (hkey : fromHex key = some eid) {calls : List KeyperCall}
    (hcalls : ∀ call ∈ calls, ¬ call.StartsAttempt eid) : InboxKept S E node eid s calls key := by
  have hreplaced : ∀ before call after, calls = before ++ call :: after → ∀ dealer old,
      ((serverAfter S E node s before).box key).shares.get? dealer = some old →
      ((serverAfter S E node s (before ++ [call])).box key).shares.get? dealer ≠ some old →
      Complained S E node eid s before dealer ∧
        ∃ new comms, ((serverAfter S E node s (before ++ [call])).box key).shares.get? dealer = some new ∧
          ((serverAfter S E node s before).box key).commitments.get? dealer = some comms ∧
          VerifiesMine S E node eid comms new := by
    intro before call after hsplit dealer old hold hchanged
    have hbefore : ∀ c ∈ before, ¬ c.StartsAttempt eid := by
      intro c hc
      exact hcalls c (hsplit ▸ List.mem_append_left _ hc)
    rcases (boxStep_of_calls hcalls hsplit hkey).shares dealer old hold with hsame | hnew
    · exact absurd hsame hchanged
    · obtain ⟨new, comms, hnew, hmarked, hcomms, hverify⟩ := hnew
      exact ⟨complained_of_marked hstart hkey hbefore hmarked, new, comms, hnew, hcomms, hverify⟩
  refine ⟨?_, ?_, hreplaced, ?_⟩
  · intro before after hsplit dealer comms hget
    exact (hok.run before).sized key hkey dealer comms hget
  · intro before middle after hsplit dealer comms hget
    -- one call after the other; each keeps what is stored
    induction middle using List.reverseRec generalizing after with
    | nil => rwa [List.append_nil]
    | append_singleton middle call ih =>
      rw [← List.append_assoc] at hsplit ⊢
      rw [List.append_assoc _ [call], List.singleton_append] at hsplit
      exact (boxStep_of_calls hcalls hsplit hkey).commitments dealer comms (ih _ hsplit)
  · intro before middle after hsplit dealer share hget hnever
    induction middle using List.reverseRec generalizing after with
    | nil => rwa [List.append_nil]
    | append_singleton middle call ih =>
      rw [← List.append_assoc] at hsplit hnever ⊢
      rw [List.append_assoc _ [call], List.singleton_append] at hsplit
      have hnever' : ¬ Complained S E node eid s (before ++ middle) dealer :=
        fun hcomplained => hnever (hcomplained.append [call])
      by_contra hchanged
      exact hnever' (hreplaced _ call after hsplit dealer share (ih _ hsplit hnever') hchanged).1

/-- Whatever a process did before, from a round 1 of the election to the next the commitments stored
    for a dealer have the quorum's length and stay, a stored share changes only after this keyper's
    round 2 complained about its dealer, and only to one that verifies against the stored commitments,
    and a share that is not complained about stays. -/
theorem dkg_inbox_kept (S : Suite G₁ G₂) (E : EthLib) (node : KeyperNode) (eid : Bytes)
    (restored : Dict PyStr DkgEntry) (earlier : List KeyperCall) {electionId : PyStr}
    (hround1 : fromHex electionId = some eid) (randomScalar : Nat → Int) {calls : List KeyperCall}
    (hcalls : ∀ call ∈ calls, ¬ call.StartsAttempt eid) {key : PyStr} (hkey : fromHex key = some eid) :
    InboxKept S E node eid
      (serverAfter S E node { completed := restored } (earlier ++ [.dkgRound1 electionId randomScalar]))
      calls key := by
  have hok : ∀ calls, InboxOk S E node eid (serverAfter S E node ⟨restored, ∅, ∅, fun _ => none⟩ calls) :=
    (inboxOk_start restored).run
  refine inboxKept (hok _) ?_ hkey hcalls
  rw [serverAfter_concat]
  exact complained_after_round1 (hok earlier) hround1 hkey

end
end ElGamalVoting

/-! ## A repaired share -/

namespace ElGamalVoting.KeyperSample
open Lib

/-- The calls of an attempt in which dealer 2 sends a wrong share, is complained about, and sends the
    right one. -/
def repaired : List KeyperCall :=
  [.receiveShare ⟨key, 2, 1, some (shareSealDst ++ beBytes 32 9),
      signed 2 (dkgShareDigest plainEth config.electionId 2 1 9)⟩, round2] ++ receiveFrom 0 2

def sharesAfter (calls : List KeyperCall) : Option Int :=
  ((serverAfter Residue.suite plainEth node { completed := ∅ } (round1 0 :: calls)).box key).shares.get? 2

theorem dkg_inbox_kept_when_repaired : sharesAfter (repaired.take 2) = some 9 ∧ sharesAfter repaired = some 21 ∧
    InboxKept Residue.suite plainEth node config.electionId
      (serverAfter Residue.suite plainEth node { completed := ∅ } ([] ++ [round1 0])) repaired key :=
  ⟨by decide +kernel, by decide +kernel,
    dkg_inbox_kept Residue.suite plainEth node config.electionId ∅ [] key_parsed _
      (by
        intro call hcall
        fin_cases hcall <;> exact id)
      key_parsed⟩

end ElGamalVoting.KeyperSample
