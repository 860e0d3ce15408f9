import ElGamalVoting.Services.KeyperEffects

/- What a keyper publishes, against the share it holds.

   A run of the keyper's service is watched for one election: `summed` are the shares
   the last completed round 2 added up, `accepted` the results the data layer took.
   The handlers do not compare the inbox that publishing reads with the inbox round 2
   read, and round 2 checks only the shares that came. So two things are left to
   whoever drives the ceremony, and `CarefulCall` says which: round 2 waits for every
   dealer's share, and a result is published from the attempt that completed. In a
   careful run what is published matches what is held; without either condition it
   need not. -/
namespace ElGamalVoting
open Lib

structure Watched (G₂ : Type) where
  server : KeyperServer G₂
  /-- The shares added up in the stored combined share. -/
  summed : Option (Dict Int Int) := none
  accepted : List DKGResultSubmission := []

section
variable {G₁ G₂ : Type} [AddCommGroup G₁] [AddCommGroup G₂] [DecidableEq G₂] (S : Suite G₁ G₂)
  (E : EthLib) (node : KeyperNode) (eid : Bytes)

omit [AddCommGroup G₂] [DecidableEq G₂] in
def summedAfter (w : Watched G₂) (call : KeyperCall) (reply : Handle Reply) : Option (Dict Int Int) :=
  match call, reply with
  | .dkgRound2 electionId, .ok .verified =>
    if fromHex electionId = some eid then some (w.server.box (electionKey eid)).shares else w.summed
  | _, _ => w.summed

def acceptedAfter (w : Watched G₂) (call : KeyperCall) : List DKGResultSubmission :=
  match call, (call.handle S E node w.server).2 with
  | .dkgPublish electionId _, .ok _ =>
    if fromHex electionId = some eid then
      (publishedResult S E node w.server electionId).2.toOption.toList ++ w.accepted
    else w.accepted
  | _, _ => w.accepted

def Watched.step (w : Watched G₂) (call : KeyperCall) : Watched G₂ where
  server := (call.handle S E node w.server).1
  summed := summedAfter eid w call (call.handle S E node w.server).2
  accepted := acceptedAfter S E node eid w call

/-- A run from a process's start, with the completed entries it restored. -/
def Watched.run (restored : Dict PyStr DkgEntry) (calls : List KeyperCall) : Watched G₂ :=
  calls.foldl (Watched.step S E node eid) { server := { completed := restored } }

/-! The two properties. -/

/-- A result matches the share held: it has an entry for every keyper, this keyper's is
    the public share of the stored secret, and the key is the joint key of the `n` dealers
    whose shares were added up in it. -/
structure Matches (cfg : ElectionConfig) (idx : Int) (w : Watched G₂) (r : DKGResultSubmission) :
    Prop where
  sized : r.committeePks.length = cfg.threshold.n
  held : ∃ entry, w.server.completed.get? (electionKey eid) = some entry ∧
    r.committeePks[(idx - 1).toNat]? = some (S.g2.toCompressed (mul S.g2.gen entry.combinedShare)) ∧
    ∃ shares : Dict Int Int, ∃ commitments : Dict Int (List G₂), ∃ pk : G₂,
      w.summed = some shares ∧ entry.combinedShare = shares.values.sum % curveOrder ∧
      shares.keys.Perm (keyperIndices cfg.threshold.n) ∧ commitments.keys.Perm shares.keys ∧
      (∀ e ∈ shares.entries, ∃ comms, commitments.get? e.1 = some comms ∧
        verifyShare S.g2 comms idx e.2 = true) ∧
      deriveJointMpk commitments cfg.threshold.t = .ok pk ∧ r.pkElection = S.g2.toCompressed pk

/-- Every entry the data layer accepted from this keyper is the public share of the secret
    it holds. -/
def KeepsPublished (idx : Int) (w : Watched G₂) : Prop :=
  ∀ r ∈ w.accepted, ∀ pk, r.committeePks[(idx - 1).toNat]? = some pk →
    ∃ entry, w.server.completed.get? (electionKey eid) = some entry ∧
      S.g2.toCompressed (mul S.g2.gen entry.combinedShare) = pk

/-! The conditions. -/

/-- Round 2 is called once every dealer's share is in (or it will complain), and
    publishing, where the server does not refuse it, when the current attempt completed
    round 2. -/
def CarefulCall (cfg : ElectionConfig) (w : Watched G₂) : KeyperCall → Prop
  | .dkgRound2 electionId => fromHex electionId = some eid →
    ∀ st, w.server.dkgStates.get? (electionKey eid) = some st →
    st.roundTwoBadDealers S.g2 (w.server.box (electionKey eid)).commitments
      (w.server.box (electionKey eid)).shares = [] →
    ∀ dealer ∈ keyperIndices cfg.threshold.n, dealer ∈ (w.server.box (electionKey eid)).shares.keys
  | .dkgPublish electionId _ => fromHex electionId = some eid →
    w.server.completed.get? (electionKey eid) ≠ none →
    ∃ st, w.server.dkgStates.get? (electionKey eid) = some st ∧ st.combinedShare ≠ none
  | _ => True

/-- After a result was accepted, a round 2 that will not complain is called only on an
    attempt that completed it before. -/
def SettledCall (w : Watched G₂) : KeyperCall → Prop
  | .dkgRound2 electionId => fromHex electionId = some eid → w.accepted ≠ [] →
    ∀ st, w.server.dkgStates.get? (electionKey eid) = some st →
    st.roundTwoBadDealers S.g2 (w.server.box (electionKey eid)).commitments
      (w.server.box (electionKey eid)).shares = [] → st.combinedShare ≠ none
  | _ => True

/-- Every call of a run meets a condition in the state it finds. -/
def EveryCall (P : Watched G₂ → KeyperCall → Prop) (restored : Dict PyStr DkgEntry)
    (calls : List KeyperCall) : Prop :=
  ∀ before call after, calls = before ++ call :: after →
    P (Watched.run S E node eid restored before) call

/-! ## The invariant -/

variable {S E node eid}

/-- A combined share of the current attempt: it is the stored one, and the shares added up
    in it are those of all the dealers, checked against the commitments still in the
    inbox. -/
structure Held (S : Suite G₁ G₂) (eid : Bytes) (cfg : ElectionConfig) (idx : Int) (w : Watched G₂)
    (combined : Int) (shares : Dict Int Int) : Prop where
  stored : ∃ expiresAt, w.server.completed.get? (electionKey eid) = some ⟨combined, expiresAt⟩
  summed : w.summed = some shares
  combines : combined = shares.values.sum % curveOrder
  senders : shares.keys.Perm (keyperIndices cfg.threshold.n)
  verified : ∀ e ∈ shares.entries, ∃ comms,
    (w.server.box (electionKey eid)).commitments.get? e.1 = some comms ∧
      verifyShare S.g2 comms idx e.2 = true

structure Consistent (S : Suite G₁ G₂) (eid : Bytes) (cfg : ElectionConfig) (idx : Int)
    (w : Watched G₂) : Prop where
  dealers : ∀ e ∈ (w.server.box (electionKey eid)).commitments.entries,
    e.1 ∈ keyperIndices cfg.threshold.n ∧ e.2.length = cfg.threshold.t
  senders : ∀ d ∈ (w.server.box (electionKey eid)).shares.keys, d ∈ keyperIndices cfg.threshold.n
  dealt : ∀ st, w.server.dkgStates.get? (electionKey eid) = some st →
    st.keyperId = idx ∧ st.quorum = cfg.threshold.t
  holds : ∀ st, w.server.dkgStates.get? (electionKey eid) = some st →
    ∀ combined, st.combinedShare = some combined → ∃ shares, Held S eid cfg idx w combined shares

theorem consistent_start (cfg : ElectionConfig) (idx : Int) (restored : Dict PyStr DkgEntry) :
    Consistent S eid cfg idx { server := { completed := restored } } where
  dealers := nofun
  senders := nofun
  dealt := nofun
  holds := nofun

/-- What is held depends on the stored entry, the summed shares and the commitments. -/
theorem Held.congr {cfg : ElectionConfig} {idx combined : Int} {shares : Dict Int Int}
    {w w' : Watched G₂} (h : Held S eid cfg idx w combined shares)
    (hcompleted : w'.server.completed.get? (electionKey eid) =
      w.server.completed.get? (electionKey eid))
    (hsummed : w'.summed = w.summed)
    (hcommitments : ∀ d comms, (w.server.box (electionKey eid)).commitments.get? d = some comms →
      (w'.server.box (electionKey eid)).commitments.get? d = some comms) :
    Held S eid cfg idx w' combined shares where
  stored := by rw [hcompleted]; exact h.stored
  summed := hsummed.trans h.summed
  combines := h.combines
  senders := h.senders
  verified := by
    intro e he
    obtain ⟨comms, hget, hverify⟩ := h.verified e he
    exact ⟨comms, hcommitments e.1 comms hget, hverify⟩

/-- A step that keeps the states of the election, its entry and its sum, and at most adds
    commitments and shares of members of the committee. -/
theorem Consistent.grow {cfg : ElectionConfig} {idx : Int} {w w' : Watched G₂}
    (h : Consistent S eid cfg idx w)
    (hcompleted : w'.server.completed.get? (electionKey eid) =
      w.server.completed.get? (electionKey eid))
    (hstates : ∀ st', w'.server.dkgStates.get? (electionKey eid) = some st' →
      ∃ st, w.server.dkgStates.get? (electionKey eid) = some st ∧ st'.keyperId = st.keyperId ∧
        st'.quorum = st.quorum ∧ st'.combinedShare = st.combinedShare)
    (hsummed : w'.summed = w.summed)
    (hcommitments : ∀ d comms, (w.server.box (electionKey eid)).commitments.get? d = some comms →
      (w'.server.box (electionKey eid)).commitments.get? d = some comms)
    (hdealers : ∀ e ∈ (w'.server.box (electionKey eid)).commitments.entries,
      e.1 ∈ keyperIndices cfg.threshold.n ∧ e.2.length = cfg.threshold.t)
    (hsenders : ∀ d ∈ (w'.server.box (electionKey eid)).shares.keys,
      d ∈ keyperIndices cfg.threshold.n) : Consistent S eid cfg idx w' where
  dealers := hdealers
  senders := hsenders
  dealt := by
    intro st' hst'
    obtain ⟨st, hst, hid, hquorum, -⟩ := hstates st' hst'
    rw [hid, hquorum]
    exact h.dealt st hst
  holds := by
    intro st' hst' combined hcombined
    obtain ⟨st, hst, -, -, hshare⟩ := hstates st' hst'
    obtain ⟨shares, hheld⟩ := h.holds st hst combined (hshare ▸ hcombined)
    exact ⟨shares, hheld.congr hcompleted hsummed hcommitments⟩

/-- The same, where nothing of the election changes. -/
theorem Consistent.keep {cfg : ElectionConfig} {idx : Int} {w w' : Watched G₂}
    (h : Consistent S eid cfg idx w)
    (hcompleted : w'.server.completed.get? (electionKey eid) =
      w.server.completed.get? (electionKey eid))
    (hstates : w'.server.dkgStates.get? (electionKey eid) =
      w.server.dkgStates.get? (electionKey eid))
    (hsummed : w'.summed = w.summed)
    (hbox : (w'.server.box (electionKey eid)).commitments =
        (w.server.box (electionKey eid)).commitments ∧
      (w'.server.box (electionKey eid)).shares = (w.server.box (electionKey eid)).shares) :
    Consistent S eid cfg idx w' := by
  refine h.grow hcompleted ?_ hsummed ?_ ?_ ?_
  · intro st hst
    exact ⟨st, hstates ▸ hst, rfl, rfl, rfl⟩
  · intro d comms hget
    rw [hbox.1]
    exact hget
  · rw [hbox.1]
    exact h.dealers
  · rw [hbox.2]
    exact h.senders

/-- The shares of one keyper, however often it adds them up, give one combined share. -/
theorem combined_unique {g : PointGroup g2Bytes G₂} {commitments : Dict Int (List G₂)}
    {shares shares' : Dict Int Int} {idx : Int} (hsenders : shares.keys.Perm commitments.keys)
    (hsenders' : shares'.keys.Perm commitments.keys)
    (hverified : ∀ e ∈ shares.entries, ∃ comms, commitments.get? e.1 = some comms ∧
      verifyShare g comms idx e.2 = true)
    (hverified' : ∀ e ∈ shares'.entries, ∃ comms, commitments.get? e.1 = some comms ∧
      verifyShare g comms idx e.2 = true) :
    shares.values.sum % curveOrder = shares'.values.sum % curveOrder := by
  have hcast := (sum_verified hverified hsenders).trans (sum_verified hverified' hsenders').symm
  have hmod : _ % _ = _ % _ := (ZMod.intCast_eq_intCast_iff _ _ _).mp hcast
  rwa [Int.emod_emod, Int.emod_emod] at hmod

omit [AddCommGroup G₂] [DecidableEq G₂] in
theorem summedAfter_quiet {w : Watched G₂} {call : KeyperCall} {reply : Handle Reply}
    (h : reply ≠ .ok .verified) : summedAfter eid w call reply = w.summed := by
  unfold summedAfter
  split
  · exact absurd rfl h
  · rfl

/-- Keys of two elections are different, so a call for another one is not seen. -/
theorem get?_set_other {V : Type} {d : Dict PyStr V} {eid' : Bytes} {v : V} (h : eid' ≠ eid) :
    (d.set (electionKey eid') v).get? (electionKey eid) = d.get? (electionKey eid) :=
  Dict.get?_set_ne fun hkey => h (electionKey_inj hkey).symm

section Steps
variable {cfg : ElectionConfig} {idx : Int} {w : Watched G₂}

theorem Held.of_round2 {st st' : KeyperDKGState G₂} {combined : Int} {pk : G₂}
    {s' : KeyperServer G₂} {expiresAt : Option Int} (accepted : List DKGResultSubmission)
    (h : Consistent S eid cfg idx w)
    (hdealt : w.server.dkgStates.get? (electionKey eid) = some st)
    (hcombines : st.round2 S.g2 (w.server.box (electionKey eid)).commitments
      (w.server.box (electionKey eid)).shares = .ok (st', combined, pk))
    (hall : ∀ d ∈ keyperIndices cfg.threshold.n,
      d ∈ (w.server.box (electionKey eid)).shares.keys)
    (hcompleted : s'.completed = w.server.completed.set (electionKey eid) ⟨combined, expiresAt⟩)
    (hboxes : ∀ k, s'.box k = w.server.box k) :
    Held S eid cfg idx ⟨s', some (w.server.box (electionKey eid)).shares, accepted⟩ combined
      (w.server.box (electionKey eid)).shares := by
  obtain ⟨hshares, hsum, -, -⟩ := round2_eq_ok S.g2 hcombines
  refine ⟨⟨expiresAt, ?_⟩, rfl, hsum, ?_, ?_⟩
  · show s'.completed.get? (electionKey eid) = _
    rw [hcompleted, Dict.get?_set_self]
  · apply (List.perm_ext_iff_of_nodup (Dict.nodup _) (nodup_keyperIndices _)).mpr
    exact fun d => ⟨h.senders d, hall d⟩
  · intro e he
    obtain ⟨comms, hget, -, hverify⟩ := hshares e he
    rw [(h.dealt st hdealt).1] at hverify
    exact ⟨comms, by rw [hboxes]; exact hget, hverify⟩

/-- Round 1 starts an attempt in which nothing is combined yet. -/
theorem Consistent.of_round1 {st : KeyperDKGState G₂} {share : Int} {randomScalar : Nat → Int}
    {w' : Watched G₂} (hidx : idx ∈ keyperIndices cfg.threshold.n)
    (hst : st = KeyperDKGState.round1 S.g2 idx cfg.threshold.n cfg.threshold.t randomScalar)
    (hdealt : w'.server.dkgStates.get? (electionKey eid) = some st)
    (hbox : w'.server.box (electionKey eid) = {
      commitments := (∅ : Dict Int (List G₂)).set idx st.commitments
      shares := (∅ : Dict Int Int).set idx share }) : Consistent S eid cfg idx w' := by
  have hcommitments : st.commitments.length = cfg.threshold.t := by
    rw [hst]
    simp [KeyperDKGState.round1]
  refine ⟨?_, ?_, ?_, ?_⟩
  · intro e he
    rw [hbox] at he
    obtain rfl : e = (idx, st.commitments) := List.mem_singleton.mp he
    exact ⟨hidx, hcommitments⟩
  · intro d hd
    rw [hbox] at hd
    obtain rfl : d = idx := List.mem_singleton.mp hd
    exact hidx
  · intro st' hst'
    cases hdealt.symm.trans hst'
    rw [hst]
    exact ⟨rfl, rfl⟩
  · intro st' hst' combined hcombined
    cases hdealt.symm.trans hst'
    rw [hst] at hcombined
    cases hcombined

/-- Commitments of a dealer that has sent none. -/
theorem Consistent.of_commitments (h : Consistent S eid cfg idx w) {w' : Watched G₂} {dealer : Int} {comms : List G₂}
    (hdealer : dealer ∈ keyperIndices cfg.threshold.n)
    (hfirst : (w.server.box (electionKey eid)).commitments.get? dealer = none)
    (hsized : comms.length = cfg.threshold.t) (hcompleted : w'.server.completed = w.server.completed)
    (hstates : w'.server.dkgStates = w.server.dkgStates) (hsummed : w'.summed = w.summed)
    (hbox : w'.server.box (electionKey eid) = { w.server.box (electionKey eid) with
      commitments := (w.server.box (electionKey eid)).commitments.set dealer comms }) :
    Consistent S eid cfg idx w' := by
  refine h.grow (by rw [hcompleted]) ?_ hsummed ?_ ?_ ?_
  · intro st hst
    exact ⟨st, hstates ▸ hst, rfl, rfl, rfl⟩
  · intro d stored hget
    rw [hbox, Dict.get?_set, if_neg]
    · exact hget
    · intro hd
      rw [hd, hfirst] at hget
      cases hget
  · intro e he
    rw [hbox, Dict.entries_set_new hfirst] at he
    rcases List.mem_append.mp he with he | he
    · exact h.dealers e he
    · obtain rfl := List.mem_singleton.mp he
      exact ⟨hdealer, hsized⟩
  · rw [hbox]
    exact h.senders

/-- A share of a dealer, be it the first or a correction. -/
theorem Consistent.of_share (h : Consistent S eid cfg idx w) {w' : Watched G₂} {dealer : Int} (share : Int)
    (hdealer : dealer ∈ keyperIndices cfg.threshold.n) (hcompleted : w'.server.completed = w.server.completed)
    (hstates : w'.server.dkgStates = w.server.dkgStates) (hsummed : w'.summed = w.summed)
    (hbox : w'.server.box (electionKey eid) = { w.server.box (electionKey eid) with
      shares := (w.server.box (electionKey eid)).shares.set dealer share }) : Consistent S eid cfg idx w' := by
  refine h.grow (by rw [hcompleted]) ?_ hsummed ?_ ?_ ?_
  · intro st hst
    exact ⟨st, hstates ▸ hst, rfl, rfl, rfl⟩
  · intro d stored hget
    rw [hbox]
    exact hget
  · rw [hbox]
    exact h.dealers
  · intro d hd
    rw [hbox, Dict.mem_keys_set] at hd
    rcases hd with rfl | hd
    · exact hdealer
    · exact h.senders d hd

/-- A round 2 that finds the shares of all dealers: what it adds up is held. -/
theorem Consistent.of_round2 (h : Consistent S eid cfg idx w) {st st' : KeyperDKGState G₂} {combined : Int} {pk : G₂}
    {s' : KeyperServer G₂} {expiresAt : Option Int} {accepted : List DKGResultSubmission}
    (hdealt : w.server.dkgStates.get? (electionKey eid) = some st)
    (hcombines : st.round2 S.g2 (w.server.box (electionKey eid)).commitments
      (w.server.box (electionKey eid)).shares = .ok (st', combined, pk))
    (hall : ∀ d ∈ keyperIndices cfg.threshold.n, d ∈ (w.server.box (electionKey eid)).shares.keys)
    (hcompleted : s'.completed = w.server.completed.set (electionKey eid) ⟨combined, expiresAt⟩)
    (hstates : s'.dkgStates = w.server.dkgStates.set (electionKey eid) st')
    (hboxes : ∀ k, s'.box k = w.server.box k) :
    Consistent S eid cfg idx ⟨s', some (w.server.box (electionKey eid)).shares, accepted⟩ := by
  obtain ⟨-, -, -, hst'⟩ := round2_eq_ok S.g2 hcombines
  have hheld := Held.of_round2 accepted h hdealt hcombines hall hcompleted hboxes
  have hget : s'.dkgStates.get? (electionKey eid) = some st' := by
    rw [hstates, Dict.get?_set_self]
  refine ⟨?_, ?_, ?_, ?_⟩
  · show ∀ e ∈ (s'.box (electionKey eid)).commitments.entries, _
    rw [hboxes]
    exact h.dealers
  · show ∀ d ∈ (s'.box (electionKey eid)).shares.keys, _
    rw [hboxes]
    exact h.senders
  · intro st'' hst''
    cases hget.symm.trans hst''
    rw [hst']
    exact h.dealt st hdealt
  · intro st'' hst'' c hc
    cases hget.symm.trans hst''
    rw [hst'] at hc
    cases hc
    exact ⟨_, hheld⟩

/-- Publishing drops the dealing of an attempt and keeps what was combined. -/
theorem Consistent.of_published (h : Consistent S eid cfg idx w) {w' : Watched G₂} {eid' : Bytes}
    {st : KeyperDKGState G₂} (hdealt : w.server.dkgStates.get? (electionKey eid') = some st)
    (hcompleted : w'.server.completed = w.server.completed)
    (hstates : w'.server.dkgStates = w.server.dkgStates.set (electionKey eid') st.zeroizeDealing)
    (hsummed : w'.summed = w.summed) (hboxes : ∀ k, w'.server.box k = w.server.box k) :
    Consistent S eid cfg idx w' := by
  refine h.grow (by rw [hcompleted]) ?_ hsummed ?_ ?_ ?_
  · intro st' hst'
    by_cases heid : eid' = eid
    · subst heid
      rw [hstates, Dict.get?_set_self] at hst'
      cases hst'
      exact ⟨st, hdealt, rfl, rfl, rfl⟩
    · rw [hstates, get?_set_other heid] at hst'
      exact ⟨st', hst', rfl, rfl, rfl⟩
  · intro d comms hget
    rw [hboxes]
    exact hget
  · rw [hboxes]
    exact h.dealers
  · rw [hboxes]
    exact h.senders

omit [AddCommGroup G₂] [DecidableEq G₂] in
theorem eid_of_key {eid' : Bytes} {electionId : PyStr} (hkey : electionKey eid = electionId)
    (hparsed : fromHex electionId = some eid') : eid' = eid := by
  rw [← hkey, fromHex_electionKey] at hparsed
  exact (Option.some.inj hparsed).symm

theorem consistent_of_effect (hknown : node.getConfig eid = .ok cfg)
    (hmine : memberIndex cfg (node.signer.identity E) = some idx) (h : Consistent S eid cfg idx w)
    {call : KeyperCall} {s' : KeyperServer G₂} {reply : Handle Reply}
    {accepted : List DKGResultSubmission} (heffect : Effect S E node w.server call s' reply)
    (hcareful : CarefulCall S eid cfg w call) :
    Consistent S eid cfg idx ⟨s', summedAfter eid w call reply, accepted⟩ := by
  have hidx : idx ∈ keyperIndices cfg.threshold.n := by
    rw [mem_keyperIndices]
    exact ⟨(memberIndex_eq_some hmine).1, (memberIndex_eq_some hmine).2.1⟩
  -- a call for another election leaves the box and the state of this one alone
  cases heffect with
  | quiet completed states boxes unverified =>
    refine h.keep (by rw [completed]) (by rw [states]) (summedAfter_quiet unverified) ?_
    exact ⟨by rw [boxes], by rw [boxes]⟩
  | @round1 electionId randomScalar eid' config i st _ share parsed known mine fresh completed states boxes =>
    by_cases heid : eid' = eid
    · subst heid
      cases hknown.symm.trans known
      cases hmine.symm.trans mine
      refine Consistent.of_round1 hidx fresh ?_ (by rw [boxes, if_pos rfl])
      rw [states, Dict.get?_set_self]
    · have hkey : electionKey eid ≠ electionKey eid' := fun hkey => heid (electionKey_inj hkey).symm
      refine h.keep (by rw [completed]) (by rw [states, get?_set_other heid]) rfl ?_
      rw [boxes, if_neg hkey]
      exact ⟨rfl, rfl⟩
  | @commitments body eid' config comms _ parsed known dealer first sized completed states boxes =>
    by_cases hkey : electionKey eid = body.electionId
    · obtain rfl := eid_of_key hkey parsed
      cases hknown.symm.trans known
      refine h.of_commitments dealer (by rw [hkey]; exact first) sized completed states rfl ?_
      show s'.box _ = _
      rw [boxes, if_pos hkey, ← hkey]
    · refine h.keep (by rw [completed]) (by rw [states]) rfl ?_
      rw [boxes, if_neg hkey]
      exact ⟨rfl, rfl⟩
  | @share body eid' config _ value parsed known dealer _ _ completed states boxes =>
    by_cases hkey : electionKey eid = body.electionId
    · obtain rfl := eid_of_key hkey parsed
      cases hknown.symm.trans known
      refine h.of_share value dealer completed states rfl ?_
      show s'.box _ = _
      rw [boxes, if_pos hkey, ← hkey]
    · refine h.keep (by rw [completed]) (by rw [states]) rfl ?_
      rw [boxes, if_neg hkey]
      exact ⟨rfl, rfl⟩
  | @complain electionId eid' _ _ _ _ bad parsed _ _ completed states boxes unverified =>
    refine h.keep (by rw [completed]) (by rw [states]) (summedAfter_quiet unverified) ?_
    rw [boxes]
    split
    · rename_i hkey
      rw [hkey]
      exact ⟨rfl, rfl⟩
    · exact ⟨rfl, rfl⟩
  | @round2 electionId eid' config st st' combined pk _ expiresAt parsed known dealt combines completed states boxes =>
    by_cases heid : eid' = eid
    · subst heid
      have hall := hcareful parsed st dealt (roundTwoBadDealers_of_ok S.g2 combines)
      have hsummed : summedAfter eid' w (.dkgRound2 electionId) (.ok .verified) =
          some (w.server.box (electionKey eid')).shares := if_pos parsed
      rw [hsummed]
      exact h.of_round2 dealt combines hall completed states boxes
    · have hother : fromHex electionId ≠ some eid := fun hparsed =>
        heid (Option.some.inj (parsed.symm.trans hparsed))
      exact h.keep (by rw [completed, get?_set_other heid]) (by rw [states, get?_set_other heid])
        (if_neg hother) ⟨by rw [boxes], by rw [boxes]⟩
  | published dealt completed states boxes => exact h.of_published dealt completed states rfl boxes

/-! ## Publishing -/

omit [DecidableEq G₂] in
theorem publishedResult_eq_ok {s : KeyperServer G₂} {electionId : PyStr} {r : DKGResultSubmission}
    (h : (publishedResult S E node s electionId).2 = .ok r) :
    ∃ eid config pk committee, fromHex electionId = some eid ∧ node.getConfig eid = .ok config ∧
      s.completed.get? (electionKey eid) ≠ none ∧
      deriveJointMpk (s.box (electionKey eid)).commitments config.threshold.t = .ok pk ∧
      (sortedKeys (s.box (electionKey eid)).commitments).mapM (fun i : Int =>
        deriveMpkShare i (s.box (electionKey eid)).commitments config.threshold.t) = .ok committee ∧
      r.electionId = eid ∧ r.pkElection = S.g2.toCompressed pk ∧
      r.committeePks = committee.map S.g2.toCompressed := by
  unfold publishedResult at h
  split at h
  · cases h
  · rename_i eid heid
    split at h
    · cases h
    · rename_i hcompleted
      simp only [withInbox_box] at h
      have h := liftPy_eq_ok.mp h
      obtain ⟨config, hconfig, h⟩ := bind_eq_ok.mp h
      obtain ⟨pk, hpk, h⟩ := bind_eq_ok.mp h
      obtain ⟨committee, hcommittee, h⟩ := bind_eq_ok.mp h
      obtain ⟨sig, -, h⟩ := bind_eq_ok.mp h
      cases h
      exact ⟨eid, config, pk, committee, electionBytes_eq_ok.mp heid, hconfig, hcompleted, hpk,
        hcommittee, rfl, rfl, rfl⟩

/-- Commitments are kept for exactly the dealers whose shares are held. -/
theorem Held.dealers {combined : Int} {shares : Dict Int Int} (h : Consistent S eid cfg idx w)
    (hheld : Held S eid cfg idx w combined shares) :
    shares.keys.Perm (w.server.box (electionKey eid)).commitments.keys := by
  apply (List.perm_ext_iff_of_nodup (Dict.nodup _) (Dict.nodup _)).mpr
  intro d
  constructor
  · intro hd
    obtain ⟨share, hshare⟩ := Dict.exists_get?_of_mem_keys hd
    obtain ⟨comms, hget, -⟩ := hheld.verified (d, share) (Dict.get?_eq_some.mp hshare)
    exact Dict.mem_keys_of_get? hget
  · intro hd
    obtain ⟨comms, hcomms⟩ := Dict.exists_get?_of_mem_keys hd
    exact hheld.senders.mem_iff.mpr (h.dealers (d, comms) (Dict.get?_eq_some.mp hcomms)).1

/-- What is published while a combined share of the attempt is held matches it. -/
theorem matches_of_held (hknown : node.getConfig eid = .ok cfg)
    (hmine : memberIndex cfg (node.signer.identity E) = some idx) (h : Consistent S eid cfg idx w)
    {combined : Int} {shares : Dict Int Int} (hheld : Held S eid cfg idx w combined shares)
    {electionId : PyStr} (hparsed : fromHex electionId = some eid) {r : DKGResultSubmission}
    (hresult : (publishedResult S E node w.server electionId).2 = .ok r) : Matches S eid cfg idx w r := by
  obtain ⟨eid', config, pk, committee, hparsed', hconfig, -, hpk, hcommittee, -, hpkElection, hpks⟩ :=
    publishedResult_eq_ok hresult
  cases Option.some.inj (hparsed.symm.trans hparsed')
  cases hknown.symm.trans hconfig
  have hidx : idx ∈ keyperIndices cfg.threshold.n :=
    mem_keyperIndices.mpr ⟨(memberIndex_eq_some hmine).1, (memberIndex_eq_some hmine).2.1⟩
  have hperm := hheld.dealers h
  have hsorted : sortedKeys (w.server.box (electionKey eid)).commitments =
      keyperIndices cfg.threshold.n :=
    ((List.perm_insertionSort _ _).trans (hperm.symm.trans hheld.senders)).eq_of_pairwise'
      (List.pairwise_insertionSort _ _) (sorted_keyperIndices _)
  rw [hsorted] at hcommittee
  have hentries := mapM_eq_ok.mp hcommittee
  -- the entry at this keyper's place is the value of the joint polynomial at its index
  have hplace : (keyperIndices cfg.threshold.n)[(idx - 1).toNat]? = some idx := by
    have hb := mem_keyperIndices.mp hidx
    rw [keyperIndices, List.getElem?_map, List.getElem?_range (by omega), Option.map_some]
    exact congrArg some (by omega)
  obtain ⟨share, hshare, hderived⟩ := forall₂_getElem? hentries hplace
  obtain ⟨share', hderived', hlog⟩ := deriveMpkShare_ok S.g2 idx fun e he => (h.dealers e he).2
  cases hderived.symm.trans hderived'
  have hcombined : S.g2.log share = (combined : ZMod curveOrder) := by
    rw [hlog, hheld.combines, sum_verified hheld.verified hperm]
  obtain ⟨expiresAt, hstored⟩ := hheld.stored
  refine ⟨?_, ⟨combined, expiresAt⟩, hstored, ?_, shares, _, pk, hheld.summed, hheld.combines,
    hheld.senders, hperm.symm, hheld.verified, hpk, hpkElection⟩
  · rw [hpks, List.length_map, ← hentries.length_eq, length_keyperIndices]
  · rw [hpks, List.getElem?_map, hshare, Option.map_some, DkgComplete.eq_mul_of_log hcombined]

end Steps

theorem consistent_run {cfg : ElectionConfig} {idx : Int} (hknown : node.getConfig eid = .ok cfg)
    (hmine : memberIndex cfg (node.signer.identity E) = some idx) {restored : Dict PyStr DkgEntry}
    {calls : List KeyperCall}
    (hcareful : EveryCall S E node eid (CarefulCall S eid cfg) restored calls) :
    Consistent S eid cfg idx (Watched.run S E node eid restored calls) := by
  refine run_invariant_of (Consistent S eid cfg idx) ?_ (consistent_start cfg idx restored) hcareful
  intro w call h hcall
  exact consistent_of_effect hknown hmine h (handle_effect call) hcall

/-- In every careful run, whatever a keyper submits at a call of `dkg_publish` matches the
    share it holds. -/
theorem publish_matches {cfg : ElectionConfig} {idx : Int} (hknown : node.getConfig eid = .ok cfg)
    (hmine : memberIndex cfg (node.signer.identity E) = some idx) {restored : Dict PyStr DkgEntry}
    {calls : List KeyperCall}
    (hcareful : EveryCall S E node eid (CarefulCall S eid cfg) restored calls)
    {before after : List KeyperCall} {electionId : PyStr} {submit : DKGResultSubmission → Py Unit}
    (hcalls : calls = before ++ .dkgPublish electionId submit :: after)
    (hparsed : fromHex electionId = some eid) {r : DKGResultSubmission}
    (hresult : (publishedResult S E node (Watched.run S E node eid restored before).server
      electionId).2 = .ok r) :
    Matches S eid cfg idx (Watched.run S E node eid restored before) r := by
  have hbefore : EveryCall S E node eid (CarefulCall S eid cfg) restored before := by
    intro first call rest hsplit
    refine hcareful first call (rest ++ .dkgPublish electionId submit :: after) ?_
    rw [hcalls, hsplit, List.append_assoc, List.cons_append]
  have h := consistent_run hknown hmine hbefore
  obtain ⟨eid', -, -, -, hparsed', -, hcompleted, -⟩ := publishedResult_eq_ok hresult
  cases Option.some.inj (hparsed.symm.trans hparsed')
  obtain ⟨st, hst, hset⟩ := hcareful before _ after hcalls hparsed hcompleted
  obtain ⟨combined, hcombined⟩ := Option.ne_none_iff_exists'.mp hset
  obtain ⟨shares, hheld⟩ := h.holds st hst combined hcombined
  exact matches_of_held hknown hmine h hheld hparsed hresult

/-! ## What was accepted stays held -/

section Settled
variable {cfg : ElectionConfig} {idx : Int} {w : Watched G₂}

theorem mem_acceptedAfter {call : KeyperCall} {r : DKGResultSubmission}
    (h : r ∈ acceptedAfter S E node eid w call) :
    r ∈ w.accepted ∨ ∃ electionId submit, call = .dkgPublish electionId submit ∧
      fromHex electionId = some eid ∧ (publishedResult S E node w.server electionId).2 = .ok r := by
  unfold acceptedAfter at h
  split at h
  · rename_i electionId submit _ _
    split at h
    · rename_i hparsed
      rcases List.mem_append.mp h with h | h
      · cases hresult : (publishedResult S E node w.server electionId).2 with
        | error e =>
          rw [hresult] at h
          cases h
        | ok r' =>
          rw [hresult] at h
          cases List.mem_singleton.mp h
          exact .inr ⟨electionId, submit, rfl, hparsed, hresult⟩
      · exact .inl h
    · exact .inl h
  · exact .inl h

/-- Publishing and every other call but a verified round 2 keep the stored entry. -/
theorem completed_of_effect (eid : Bytes) {s s' : KeyperServer G₂} {call : KeyperCall} {reply : Handle Reply}
    (h : Effect S E node s call s' reply) :
    s'.completed.get? (electionKey eid) = s.completed.get? (electionKey eid) ∨
      ∃ electionId st st' combined pk expiresAt, call = .dkgRound2 electionId ∧
        fromHex electionId = some eid ∧ s.dkgStates.get? (electionKey eid) = some st ∧
        st.round2 S.g2 (s.box (electionKey eid)).commitments (s.box (electionKey eid)).shares =
          .ok (st', combined, pk) ∧
        s'.completed.get? (electionKey eid) = some ⟨combined, expiresAt⟩ := by
  cases h with
  | quiet completed states boxes unverified => exact .inl (by rw [completed])
  | round1 share parsed known mine fresh completed states boxes => exact .inl (by rw [completed])
  | commitments parsed known dealer first sized completed states boxes =>
    exact .inl (by rw [completed])
  | share value parsed known dealer _ _ completed states boxes => exact .inl (by rw [completed])
  | complain bad parsed _ _ completed states boxes unverified => exact .inl (by rw [completed])
  | @round2 electionId eid' config st st' combined pk _ expiresAt parsed known dealt combines completed states boxes =>
    by_cases heid : eid' = eid
    · subst heid
      exact .inr ⟨electionId, st, st', combined, pk, expiresAt, rfl, parsed, dealt, combines,
        by rw [completed, Dict.get?_set_self]⟩
    · exact .inl (by rw [completed, get?_set_other heid])
  | published dealt completed states boxes => exact .inl (by rw [completed])

/-- Round 2 on an attempt that completed it combines to the share that is held. -/
theorem round2_again (h : Consistent S eid cfg idx w) {st st' : KeyperDKGState G₂}
    {combined again : Int} {pk : G₂} {shares : Dict Int Int}
    (hdealt : w.server.dkgStates.get? (electionKey eid) = some st)
    (hheld : Held S eid cfg idx w combined shares)
    (hcombines : st.round2 S.g2 (w.server.box (electionKey eid)).commitments
      (w.server.box (electionKey eid)).shares = .ok (st', again, pk))
    (hall : ∀ d ∈ keyperIndices cfg.threshold.n,
      d ∈ (w.server.box (electionKey eid)).shares.keys) : again = combined := by
  let s' := { w.server with completed := w.server.completed.set (electionKey eid) ⟨again, none⟩ }
  have hcompleted : s'.completed = w.server.completed.set (electionKey eid) ⟨again, none⟩ := rfl
  have hagain := Held.of_round2 w.accepted h hdealt hcombines hall hcompleted fun _ => rfl
  rw [hagain.combines, hheld.combines]
  have hperm := hheld.dealers h
  refine combined_unique ?_ hperm hagain.verified hheld.verified
  exact (hagain.senders.trans hheld.senders.symm).trans hperm

theorem keepsPublished_step (hknown : node.getConfig eid = .ok cfg)
    (hmine : memberIndex cfg (node.signer.identity E) = some idx) (h : Consistent S eid cfg idx w)
    (hkeeps : KeepsPublished S eid idx w) {call : KeyperCall}
    (hcareful : CarefulCall S eid cfg w call) (hsettled : SettledCall S eid w call) :
    KeepsPublished S eid idx (w.step S E node eid call) := by
  intro r hr pk hpk
  have heffect : Effect S E node w.server call _ _ := handle_effect call
  have hfrom : r ∈ w.accepted ∨ _ := mem_acceptedAfter hr
  rcases completed_of_effect eid heffect with hsame | hround
  · rcases hfrom with hold | hnew
    · obtain ⟨entry, hentry, hshare⟩ := hkeeps r hold pk hpk
      exact ⟨entry, hsame.trans hentry, hshare⟩
    · obtain ⟨electionId, submit, rfl, hparsed, hresult⟩ := hnew
      obtain ⟨eid', -, -, -, hparsed', -, hcompleted, -⟩ := publishedResult_eq_ok hresult
      cases Option.some.inj (hparsed.symm.trans hparsed')
      obtain ⟨st, hst, hset⟩ := hcareful hparsed hcompleted
      obtain ⟨combined, hcombined⟩ := Option.ne_none_iff_exists'.mp hset
      obtain ⟨shares, hheld⟩ := h.holds st hst combined hcombined
      have hmatches := matches_of_held hknown hmine h hheld hparsed hresult
      obtain ⟨entry, hentry, hplace, -⟩ := hmatches.held
      exact ⟨entry, hsame.trans hentry, Option.some.inj (hplace.symm.trans hpk)⟩
  · obtain ⟨electionId, st, st', again, pk', expiresAt, rfl, hparsed, hst, hcombines, hentry⟩ := hround
    have hold : r ∈ w.accepted := by
      rcases hfrom with hold | hnew
      · exact hold
      · obtain ⟨_, _, hcall, -⟩ := hnew
        cases hcall
    have hbad := roundTwoBadDealers_of_ok S.g2 hcombines
    obtain ⟨combined, hcombined⟩ := Option.ne_none_iff_exists'.mp
      (hsettled hparsed (List.ne_nil_of_mem hold) st hst hbad)
    obtain ⟨shares, hheld⟩ := h.holds st hst combined hcombined
    have heq := round2_again h hst hheld hcombines (hcareful hparsed st hst hbad)
    obtain ⟨entry, hstored, hshare⟩ := hkeeps r hold pk hpk
    obtain ⟨expires, hstored'⟩ := hheld.stored
    cases hstored.symm.trans hstored'
    exact ⟨⟨again, expiresAt⟩, hentry, by rw [heq]; exact hshare⟩

end Settled

/-- In every run in which, moreover, no round 2 completes on a new attempt after a result was
    accepted, every accepted entry of this keyper stays the public share of the secret it
    holds. -/
theorem published_share_kept {cfg : ElectionConfig} {idx : Int} (hknown : node.getConfig eid = .ok cfg)
    (hmine : memberIndex cfg (node.signer.identity E) = some idx) {restored : Dict PyStr DkgEntry}
    {calls : List KeyperCall}
    (hcareful : EveryCall S E node eid (CarefulCall S eid cfg) restored calls)
    (hsettled : EveryCall S E node eid (SettledCall S eid) restored calls) :
    KeepsPublished S eid idx (Watched.run S E node eid restored calls) := by
  have hinvariant : Consistent S eid cfg idx (Watched.run S E node eid restored calls) ∧
      KeepsPublished S eid idx (Watched.run S E node eid restored calls) := by
    refine run_invariant_of (Q := fun w call => CarefulCall S eid cfg w call ∧ SettledCall S eid w call)
      (fun w => Consistent S eid cfg idx w ∧ KeepsPublished S eid idx w) ?_
      ⟨consistent_start cfg idx restored, nofun⟩ ?_
    · intro w call h hcall
      exact ⟨consistent_of_effect hknown hmine h.1 (handle_effect call) hcall.1,
        keepsPublished_step hknown hmine h.1 h.2 hcall.1 hcall.2⟩
    · intro before call after hcalls
      exact ⟨hcareful before call after hcalls, hsettled before call after hcalls⟩
  exact hinvariant.2

end
end ElGamalVoting

/-! ## Runs of the first of three keypers -/

namespace ElGamalVoting.KeyperSample
open Lib

/-- The committee of the signers 1, 2 and 3. -/
def config : ElectionConfig :=
  { smallConfig with
    keypers := [⟨beBytes 32 1, []⟩, ⟨beBytes 32 2, []⟩, ⟨beBytes 32 3, []⟩]
    length_keypers := rfl
    nodup_keys := by decide +kernel }

def node : KeyperNode where
  signer := ⟨1⟩
  getConfig eid := if eid = config.electionId then .ok config else .error (.keyError (hex eid))
  x25519Unseal := some
  retention := none

def key : PyStr := electionKey config.electionId

/-- Dealer `d` of one attempt; attempts differ in their draws. -/
def dealing (attempt d : Int) : KeyperDKGState Residue :=
  KeyperDKGState.round1 Residue.suite.g2 d 3 2 fun j => attempt + 5 * d + j

def signed (d : Int) (digest : Py Bytes) : Option Bytes :=
  (digest >>= signDigest plainEth d).toOption

/-- What arrives from another dealer: its commitments and its share for keyper 1. -/
def receiveFrom (attempt d : Int) : List KeyperCall :=
  let commitments := (dealing attempt d).commitments.map Residue.suite.g2.toCompressed
  let share := ((dealing attempt d).sharesForOthers.get? 1).getD 0
  [.receiveCommitments ⟨key, d, commitments,
      signed d (dkgCommitmentsDigest plainEth config.electionId d commitments)⟩,
    .receiveShare ⟨key, d, 1, some (shareSealDst ++ beBytes 32 share.toNat),
      signed d (dkgShareDigest plainEth config.electionId d 1 share)⟩]

def round1 (attempt : Int) : KeyperCall := .dkgRound1 key fun j => attempt + 5 + j

def round2 : KeyperCall := .dkgRound2 key

def publish : KeyperCall := .dkgPublish key fun _ => .ok ()

/-- An attempt in which every dealer's messages arrive before round 2. -/
def attempt (k : Int) : List KeyperCall := round1 k :: receiveFrom k 2 ++ receiveFrom k 3 ++ [round2]

def stateAfter (calls : List KeyperCall) : Watched Residue :=
  Watched.run Residue.suite plainEth node config.electionId ∅ calls

def published (calls : List KeyperCall) : Handle DKGResultSubmission :=
  (publishedResult Residue.suite plainEth node (stateAfter calls).server key).2

/-- Round 2 completes on this keyper's own share alone, and it publishes a committee of
    one. -/
theorem committee_of_one_published : ∃ r, published [round1 0, round2] = .ok r ∧
    ¬ Matches Residue.suite config.electionId config 1 (stateAfter [round1 0, round2]) r := by
  have hlength : (published [round1 0, round2]).toOption.map (fun r => r.committeePks.length) =
      some 1 := by decide +kernel
  cases hr : published [round1 0, round2] with
  | error e =>
    rw [hr] at hlength
    cases hlength
  | ok r =>
    refine ⟨r, rfl, ?_⟩
    intro hmatches
    rw [hr, Except.toOption, Option.map_some, Option.some.injEq, hmatches.sized] at hlength
    cases hlength

/-- The messages of the first attempt, before round 2. -/
def dealt : List KeyperCall := round1 0 :: receiveFrom 0 2 ++ receiveFrom 0 3

/-- The calls of the first attempt and what follows it, evaluated together. -/
theorem dealt_run :
    (∀ d ∈ keyperIndices 3, d ∈ ((stateAfter dealt).server.box key).shares.keys) ∧
    (∀ d ∈ keyperIndices 3, d ∈ ((stateAfter (dealt ++ [round2, publish])).server.box key).shares.keys) ∧
    ((stateAfter (dealt ++ [round2])).server.dkgStates.get? key).bind KeyperDKGState.combinedShare =
      some 63 ∧
    ((stateAfter (dealt ++ [round2, publish])).server.dkgStates.get? key).bind
      KeyperDKGState.combinedShare = some 63 ∧
    (published (dealt ++ [round2])).toOption.isSome ∧
    (stateAfter (dealt ++ [round2, publish, round2])).accepted.length = 1 := by
  decide +kernel

/-- The current attempt of a state completed round 2. -/
def completedRound2 (w : Watched Residue) : Prop :=
  ∃ st, w.server.dkgStates.get? key = some st ∧ st.combinedShare ≠ none

theorem completedRound2_of {w : Watched Residue} {combined : Int}
    (h : (w.server.dkgStates.get? key).bind KeyperDKGState.combinedShare = some combined) :
    completedRound2 w := by
  obtain ⟨st, hst, hcombined⟩ := Option.bind_eq_some_iff.mp h
  refine ⟨st, hst, ?_⟩
  rw [hcombined]
  exact Option.some_ne_none combined

theorem careful : EveryCall Residue.suite plainEth node config.electionId
    (CarefulCall Residue.suite config.electionId config) ∅ (dealt ++ [round2, publish, round2]) :=
  inputs_cons trivial <| inputs_cons trivial <| inputs_cons trivial <| inputs_cons trivial <|
    inputs_cons trivial <| inputs_cons (fun _ _ _ _ => dealt_run.1) <|
    inputs_cons (fun _ _ => completedRound2_of dealt_run.2.2.1) <|
    inputs_cons (fun _ _ _ _ => dealt_run.2.1) inputs_nil

theorem settled : EveryCall Residue.suite plainEth node config.electionId
    (SettledCall Residue.suite config.electionId) ∅ (dealt ++ [round2, publish, round2]) :=
  inputs_cons trivial <| inputs_cons trivial <| inputs_cons trivial <| inputs_cons trivial <|
    inputs_cons trivial <| inputs_cons (fun _ h => absurd rfl h) <| inputs_cons trivial <|
    inputs_cons (fun _ _ st hst _ hnone => by
      obtain ⟨st', hst', hsome⟩ : completedRound2 (stateAfter (dealt ++ [round2, publish])) :=
        completedRound2_of dealt_run.2.2.2.1
      cases hst.symm.trans hst'
      exact hsome hnone) inputs_nil

theorem known : node.getConfig config.electionId = .ok config := by
  simp only [node, if_pos]

theorem mine : memberIndex config (node.signer.identity plainEth) = some 1 := by decide +kernel

theorem key_parsed : fromHex key = some config.electionId := fromHex_electionKey _

/-- After an attempt in which every share arrived, what is published matches. -/
theorem publish_matches_of_three : ∃ r, published (dealt ++ [round2]) = .ok r ∧
    Matches Residue.suite config.electionId config 1 (stateAfter (dealt ++ [round2])) r := by
  obtain ⟨-, -, -, -, hsome, -⟩ := dealt_run
  cases hr : published (dealt ++ [round2]) with
  | error e =>
    rw [hr] at hsome
    cases hsome
  | ok r => exact ⟨r, rfl, publish_matches known mine careful rfl key_parsed hr⟩

/-- The accepted entry stays the held one when round 2 is repeated on its attempt. -/
theorem published_share_kept_of_three :
    (stateAfter (dealt ++ [round2, publish, round2])).accepted.length = 1 ∧
      KeepsPublished Residue.suite config.electionId 1
        (stateAfter (dealt ++ [round2, publish, round2])) :=
  ⟨dealt_run.2.2.2.2.2, published_share_kept known mine careful settled⟩

/-- A second attempt after an accepted result replaces the share that was published. -/
theorem published_share_replaced : ¬ KeepsPublished Residue.suite config.electionId 1
    (stateAfter (attempt 0 ++ publish :: attempt 1)) := by
  intro hkeeps
  obtain ⟨hentry, haccepted⟩ : ((stateAfter (attempt 0 ++ publish :: attempt 1)).server.completed.get?
        key).map DkgEntry.combinedShare = some 69 ∧
      (stateAfter (attempt 0 ++ publish :: attempt 1)).accepted.map (fun r => r.committeePks[(0 : Nat)]?) =
        [some (Residue.suite.g2.toCompressed (mul Residue.suite.g2.gen 63))] := by decide +kernel
  obtain ⟨r, hr, hpk⟩ := List.mem_map.mp (haccepted ▸ List.mem_singleton_self _)
  obtain ⟨entry, hstored, hshare⟩ := hkeeps r hr _ hpk
  rw [show electionKey config.electionId = key from rfl] at hstored
  rw [hstored, Option.map_some, Option.some.injEq] at hentry
  rw [hentry] at hshare
  exact absurd hshare (by decide +kernel)

end ElGamalVoting.KeyperSample
