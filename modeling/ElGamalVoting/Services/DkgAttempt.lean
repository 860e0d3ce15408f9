import Mathlib.Data.List.ReduceOption
import ElGamalVoting.Adapters.MemoryAgreement
import ElGamalVoting.Crypto.ThresholdKey
import ElGamalVoting.Services.DkgCeremony
import ElGamalVoting.Services.KeyperEffects

/- One complete attempt at the DKG by an honest committee.

   `Progress` describes the servers during the exchange: every dealing on record is
   the attempt's own, every message kept is the one its dealer sent, and those that
   were delivered are there. It says nothing of what the servers held before, since
   round 1 starts every inbox afresh. When all messages are delivered round 2
   completes on every server, and each derives the key of the attempt. -/
namespace ElGamalVoting
open Lib

/-- What every keyper of a committee relies on: it signs with its registered key, the library
    recovers that, and its own key opens what was sealed to it. -/
structure HonestCommittee (E : EthLib) (config : ElectionConfig) (member : Int → Member) : Prop where
  registered : ∀ i ∈ keyperIndices config.threshold.n,
    memberIndex config ((member i).signer.identity E) = some i
  signs : ∀ i ∈ keyperIndices config.threshold.n, ∀ digest, ∃ sig,
    signDigest E (member i).signer.privateKey digest = .ok sig ∧
      E.recoverMessage digest sig = some ((member i).signer.identity E)
  opens : ∀ i ∈ keyperIndices config.threshold.n, ∀ k plaintext,
    (member i).x25519Unseal ((member i).x25519Seal k plaintext) = some plaintext

/-- The key of an attempt: its secret is the sum of the dealers' secrets, and each keyper's
    public share is that of the sum of what was dealt to it. -/
def attemptKey {G₂ : Type} [AddCommGroup G₂] (g : PointGroup g2Bytes G₂) (threshold : Threshold)
    (draws : Int → Nat → Int) : FinalizedKey where
  pkElection := g.toCompressed (mul g.gen ((keyperIndices threshold.n).map fun d => draws d 0).sum)
  committeePks := (keyperIndices threshold.n).map fun i =>
    g.toCompressed (mul g.gen (honestOut g threshold.n threshold.t draws i).2.1)

/-! ## What dealers sent -/

/-- A dictionary of what dealers sent: every entry is the right one, and those that arrived
    are there. -/
structure Collects {V : Type} (d : Dict Int V) (sent : Int → V) (dealers : List Int)
    (arrived : Int → Prop) : Prop where
  right : ∀ i v, d.get? i = some v → i ∈ dealers ∧ v = sent i
  present : ∀ i, arrived i → d.get? i = some (sent i)

namespace Collects
variable {V : Type} {d : Dict Int V} {sent : Int → V} {dealers : List Int} {arrived arrived' : Int → Prop}

theorem mono (h : Collects d sent dealers arrived) (hsub : ∀ i, arrived' i → arrived i) :
    Collects d sent dealers arrived' :=
  ⟨h.right, fun i hi => h.present i (hsub i hi)⟩

theorem set (h : Collects d sent dealers arrived) {i : Int} (hi : i ∈ dealers) :
    Collects (d.set i (sent i)) sent dealers fun k => arrived k ∨ k = i := by
  refine ⟨fun k v hk => ?_, fun k hk => ?_⟩
  · rw [Dict.get?_set] at hk
    split at hk
    · rename_i heq
      cases hk
      exact ⟨heq ▸ hi, by rw [heq]⟩
    · exact h.right k v hk
  · rw [Dict.get?_set]
    split
    · rename_i heq
      rw [heq]
    · rename_i hne
      exact h.present k (hk.resolve_right hne)

theorem single (sent : Int → V) {i : Int} (hi : i ∈ dealers) :
    Collects ((∅ : Dict Int V).set i (sent i)) sent dealers (· = i) := by
  have hempty : Collects (∅ : Dict Int V) sent dealers fun _ => False := ⟨by simp, by simp⟩
  exact (hempty.set hi).mono fun _ hk => .inr hk

/-- When all dealers' messages arrived, the senders are the dealers. -/
theorem keys_perm (h : Collects d sent dealers (· ∈ dealers)) (hnodup : dealers.Nodup) :
    d.keys.Perm dealers := by
  apply (List.perm_ext_iff_of_nodup d.nodup hnodup).mpr
  intro k
  constructor
  · intro hk
    obtain ⟨v, hv⟩ := Dict.exists_get?_of_mem_keys hk
    exact (h.right k v hv).1
  · intro hk
    exact Dict.mem_keys_of_get? (h.present k hk)

/-- What arrived from all dealers is the dictionary of what they sent. -/
theorem get?_eq (h : Collects d sent dealers (· ∈ dealers)) (hnodup : dealers.Nodup) (k : Int) :
    d.get? k = (Dict.ofFn dealers hnodup sent).get? k := by
  by_cases hk : k ∈ dealers
  · rw [h.present k hk, Dict.get?_ofFn hk]
  · have hnone : (Dict.ofFn dealers hnodup sent).get? k = none := by
      rw [Dict.get?_eq_none, Dict.keys_ofFn]
      exact hk
    rw [hnone, Dict.get?_eq_none]
    intro hmem
    exact hk ((h.keys_perm hnodup).mem_iff.mp hmem)

end Collects

/-- Two dictionaries with the same lookups have the same keys in order. -/
theorem sortedKeys_congr {V : Type} {d d' : Dict Int V} (h : ∀ k, d.get? k = d'.get? k) :
    sortedKeys d = sortedKeys d' := by
  have hperm : d.keys.Perm d'.keys := by
    apply (List.perm_ext_iff_of_nodup d.nodup d'.nodup).mpr
    intro k
    show k ∈ d.keys ↔ k ∈ d'.keys
    rw [← not_iff_not, ← Dict.get?_eq_none, ← Dict.get?_eq_none, h]
  exact ((List.perm_insertionSort _ _).trans (hperm.trans (List.perm_insertionSort _ _).symm)).eq_of_pairwise'
    (List.pairwise_insertionSort _ _) (List.pairwise_insertionSort _ _)

section
variable {G₂ : Type} {d d' : Dict Int (List G₂)} {quorum : Nat}

theorem checkCommitmentLengths_congr (h : ∀ k, d.get? k = d'.get? k)
    (hlen : ∀ e ∈ d'.entries, e.2.length = quorum) :
    checkCommitmentLengths d quorum = checkCommitmentLengths d' quorum := by
  rw [checkCommitmentLengths_iff.mpr hlen, checkCommitmentLengths_iff]
  rintro ⟨k, comms⟩ he
  have hget := Dict.get?_eq_some.mpr he
  rw [h] at hget
  exact hlen (k, comms) (Dict.get?_eq_some.mp hget)

variable [AddCommGroup G₂]

/-- The derived keys depend on the commitments of each dealer, not on their order. -/
theorem deriveJointMpk_congr (h : ∀ k, d.get? k = d'.get? k)
    (hlen : ∀ e ∈ d'.entries, e.2.length = quorum) :
    deriveJointMpk d quorum = deriveJointMpk d' quorum := by
  have hof : commitmentsOf d = commitmentsOf d' := by
    funext k
    rw [commitmentsOf, commitmentsOf, h]
  rw [deriveJointMpk, deriveJointMpk, checkCommitmentLengths_congr h hlen, sortedKeys_congr h, hof]

theorem deriveMpkShare_congr (h : ∀ k, d.get? k = d'.get? k)
    (hlen : ∀ e ∈ d'.entries, e.2.length = quorum) (target : Int) :
    deriveMpkShare target d quorum = deriveMpkShare target d' quorum := by
  have hof : commitmentsOf d = commitmentsOf d' := by
    funext k
    rw [commitmentsOf, commitmentsOf, h]
  rw [deriveMpkShare, deriveMpkShare, checkCommitmentLengths_congr h hlen, sortedKeys_congr h, hof]

end

/-! ## Requests that are answered -/

section
variable {G₂ : Type} {member : Int → Member} {draws : Int → Nat → Int} {c c' : Ceremony G₂}

theorem request_complete {α : Type} {i : Int} {handler : Run G₂ α} {a : α}
    (h : Yields handler { c with sent := c.sent + 1 } a c') :
    Yields (request (Attempt.complete draws) i handler) c a c' :=
  Yields.withState (Yields.bind rfl (h.bind (Yields.pure a c')))

theorem handleAt_returns {i : Int}
    {handler : KeyperNode → KeyperServer G₂ → KeyperServer G₂ × Handle Reply} {s : KeyperServer G₂}
    {reply : Reply} (h : handler ((member i).node c.dl) (c.servers i) = (s, .ok reply)) :
    Yields (handleAt member i handler) c reply { c with servers := Function.update c.servers i s } := by
  have hset : Yields (Act.setState
      { c with servers := Function.update c.servers i (handler ((member i).node c.dl) (c.servers i)).1 } :
        Run G₂ Unit) c () { c with servers := Function.update c.servers i s } := by
    rw [h]
    rfl
  exact Yields.withState (hset.bind (Yields.ofExcept (by rw [h]) _))

end

/-! ## The exchange -/

section
variable {G₁ G₂ : Type} [AddCommGroup G₁] [AddCommGroup G₂] [DecidableEq G₂] (S : Suite G₁ G₂)
  (eid : Bytes) (config : ElectionConfig) (draws : Int → Nat → Int)

/-- What dealer `d` deals to recipient `r`. -/
def dealtShare (threshold : Threshold) (draws : Int → Nat → Int) (d r : Int) : Int :=
  evalShare ((List.range threshold.t).map (draws d)) r

def dealtCommitments (d : Int) : List G₂ :=
  (honestDealer S.g2 config.threshold.n config.threshold.t draws d).commitments

/-- The server of keyper `j` during the exchange, with the dealers it heard from. -/
structure ServerProgress (j : Int) (heard dealt : Int → Prop) (s : KeyperServer G₂) : Prop where
  dealing : ∃ st, s.dkgStates.get? (electionKey eid) = some st ∧ st.keyperId = j ∧
    st.quorum = config.threshold.t ∧ st.commitments = dealtCommitments S config draws j ∧
    ∀ r ∈ keyperIndices config.threshold.n, st.sharesForOthers.get? r =
      some (dealtShare config.threshold draws j r)
  commitments : Collects (s.box (electionKey eid)).commitments (dealtCommitments S config draws)
    (keyperIndices config.threshold.n) heard
  shares : Collects (s.box (electionKey eid)).shares (fun d => dealtShare config.threshold draws d j)
    (keyperIndices config.threshold.n) dealt

/-- The system during the exchange: the keypers that started, and who heard from whom. -/
structure Progress (dl : InMemoryDataLayer) (started : Int → Prop) (heard dealt : Int → Int → Prop)
    (c : Ceremony G₂) : Prop where
  store : c.dl = dl
  servers : ∀ j, started j →
    ServerProgress S eid config draws j (fun d => heard d j) (fun d => dealt d j) (c.servers j)

variable {S eid config draws}

omit [DecidableEq G₂] in
theorem ServerProgress.mono {j : Int} {heard heard' dealt dealt' : Int → Prop} {s : KeyperServer G₂}
    (h : ServerProgress S eid config draws j heard dealt s) (hheard : ∀ d, heard' d → heard d)
    (hdealt : ∀ d, dealt' d → dealt d) : ServerProgress S eid config draws j heard' dealt' s :=
  ⟨h.dealing, h.commitments.mono hheard, h.shares.mono hdealt⟩

variable {member : Int → Member} {dl : InMemoryDataLayer} {started started' : Int → Prop}
  {heard heard' dealt dealt' : Int → Int → Prop} {c : Ceremony G₂}

omit [DecidableEq G₂] in
theorem Progress.mono (h : Progress S eid config draws dl started heard dealt c)
    (hsub : ∀ j, started' j → started j ∧ (∀ d, heard' d j → heard d j) ∧ ∀ d, dealt' d j → dealt d j) :
    Progress S eid config draws dl started' heard' dealt' c :=
  ⟨h.store, fun j hj => (h.servers j (hsub j hj).1).mono (hsub j hj).2.1 (hsub j hj).2.2⟩

omit [DecidableEq G₂] in
theorem Progress.withSent (h : Progress S eid config draws dl started heard dealt c) (sent : Nat) :
    Progress S eid config draws dl started heard dealt { c with sent := sent } :=
  ⟨h.store, h.servers⟩

omit [DecidableEq G₂] in
/-- One request moves the exchange on at one keyper, and leaves the others as they are. -/
theorem Progress.request (h : Progress S eid config draws dl started heard dealt c) {i : Int}
    (handler : KeyperNode → KeyperServer G₂ → KeyperServer G₂ × Handle Reply) {s : KeyperServer G₂}
    {reply : Reply} (hrun : handler ((member i).node dl) (c.servers i) = (s, .ok reply))
    {more more' : Int → Prop}
    (hs : ServerProgress S eid config draws i (fun d => heard d i ∨ more d) (fun d => dealt d i ∨ more' d) s) :
    ∃ c', Yields (ElGamalVoting.request (Attempt.complete draws) i (handleAt member i handler)) c reply c' ∧
      c'.servers = Function.update c.servers i s ∧
      Progress S eid config draws dl (fun j => started j ∨ j = i)
        (fun d j => (started j ∧ heard d j) ∨ (j = i ∧ (heard d j ∨ more d)))
        (fun d j => (started j ∧ dealt d j) ∨ (j = i ∧ (dealt d j ∨ more' d))) c' := by
  have hstep : Yields (handleAt member i handler) { c with sent := c.sent + 1 } reply
      ⟨Function.update c.servers i s, c.dl, c.sent + 1⟩ :=
    handleAt_returns (c := { c with sent := c.sent + 1 }) (h.store ▸ hrun)
  refine ⟨_, request_complete hstep, rfl, h.store, ?_⟩
  intro j hj
  dsimp only
  by_cases hij : j = i
  · subst hij
    rw [Function.update_self]
    exact hs.mono (fun d hd => hd.elim (fun hd => .inl hd.2) And.right)
      fun d hd => hd.elim (fun hd => .inl hd.2) And.right
  · rw [Function.update_of_ne hij]
    refine (h.servers j (hj.resolve_right hij)).mono ?_ ?_
    · exact fun d hd => hd.elim And.right fun hd => absurd hd.1 hij
    · exact fun d hd => hd.elim And.right fun hd => absurd hd.1 hij

end

/-! ## The handlers -/

section
variable {G₁ G₂ : Type} [AddCommGroup G₁] [AddCommGroup G₂] {S : Suite G₁ G₂} {E : EthLib}
  {member : Int → Member} {eid : Bytes} {config : ElectionConfig} {draws : Int → Nat → Int}
  {dl : InMemoryDataLayer} {i j : Int} {s : KeyperServer G₂} {heard dealt : Int → Prop}

/-- Every keyper reads the configuration of a stored election. -/
theorem node_getConfig {st : Stored} (hdl : dl.Ok E) (hst : dl.elections.get? eid = some st) (m : Member) :
    (m.node dl).getConfig eid = .ok st.config := by
  have hget : getStored dl eid = .ok st := getStored_eq_ok.mpr hst
  show (do let record ← getElection dl eid; pure record.config : Py ElectionConfig) = _
  rw [getElection, hget, ok_bind, getFinalizedKey, hget, ok_bind, finalizedKeyOf_ok (hdl.records _ _ hst)]
  rfl

theorem membersAddr_of_registered {key : Bytes} (h : memberIndex config key = some i) :
    membersAddr config i = some key := by
  obtain ⟨h1, h2, hkey⟩ := memberIndex_eq_some h
  rw [membersAddr, if_pos ⟨h1, by rw [config.length_keypers]; exact h2⟩, hkey]

theorem dealerSigned_of {key digest sig : Bytes} (h : memberIndex config key = some i)
    (hrecover : E.recoverMessage digest sig = some key) :
    dealerSigned E config i (.ok digest) (some sig) = true := by
  simp [dealerSigned, membersAddr_of_registered h, hrecover]

@[simp] theorem node_signer (m : Member) (dl : InMemoryDataLayer) : (m.node dl).signer = m.signer := rfl

theorem myIndex_node (hcommittee : HonestCommittee E config member)
    (hi : i ∈ keyperIndices config.threshold.n) : myIndex E ((member i).node dl) config = .ok i := by
  rw [myIndex_eq_ok, node_signer]
  exact hcommittee.registered i hi

/-- Round 1 starts the exchange at a keyper, whatever it held before. -/
theorem dkgRound1_progress (S : Suite G₁ G₂) (draws : Int → Nat → Int) (s : KeyperServer G₂)
    (hknown : ((member i).node dl).getConfig eid = .ok config)
    (hcommittee : HonestCommittee E config member) (hi : i ∈ keyperIndices config.threshold.n) :
    ∃ s', dkgRound1 S E ((member i).node dl) s (electionKey eid) (draws i) = (s', .ok (.index i)) ∧
      ServerProgress S eid config draws i (· = i) (· = i) s' := by
  have hown : ownShare (honestDealer S.g2 config.threshold.n config.threshold.t draws i) i =
      .ok (dealtShare config.threshold draws i i) := by
    rw [ownShare, honest_share S.g2 config.threshold.n draws i hi]
    rfl
  have hfresh : freshDealing S E ((member i).node dl) (electionKey eid) (draws i) =
      .ok (eid, honestDealer S.g2 config.threshold.n config.threshold.t draws i, i,
        dealtShare config.threshold draws i i) := by
    rw [freshDealing, electionBytes_eq_ok.mpr (fromHex_electionKey eid), ok_bind,
      liftPy_eq_ok.mpr hknown, ok_bind, myIndex_node hcommittee hi, ok_bind]
    change (ownShare (honestDealer S.g2 config.threshold.n config.threshold.t draws i) i >>= fun share =>
      pure (eid, honestDealer S.g2 config.threshold.n config.threshold.t draws i, i, share)) = _
    rw [hown, ok_bind, pure_eq_ok]
  rw [dkgRound1, hfresh]
  refine ⟨_, rfl, ?_, ?_, ?_⟩
  · refine ⟨honestDealer S.g2 config.threshold.n config.threshold.t draws i, Dict.get?_set_self _ _ _,
      rfl, rfl, rfl, ?_⟩
    intro r hr
    exact honest_share S.g2 config.threshold.n draws i hr
  · rw [KeyperServer.box, Dict.get?_set_self, Option.getD_some]
    exact Collects.single (dealtCommitments S config draws) hi
  · rw [KeyperServer.box, Dict.get?_set_self, Option.getD_some]
    exact Collects.single (fun d => dealtShare config.threshold draws d i) hi

/-- What both distributing handlers read of a keyper that has started. -/
theorem dealingOf_progress (hknown : ((member i).node dl).getConfig eid = .ok config)
    (hcommittee : HonestCommittee E config member) (hi : i ∈ keyperIndices config.threshold.n)
    (h : ServerProgress S eid config draws i heard dealt s) :
    ∃ st, dealingOf E ((member i).node dl) s (electionKey eid) = .ok (eid, config, i, st) ∧
      st.commitments = dealtCommitments S config draws i ∧
      ∀ r ∈ keyperIndices config.threshold.n, st.sharesForOthers.get? r =
        some (dealtShare config.threshold draws i r) := by
  obtain ⟨st, hst, -, -, hcomms, hshares⟩ := h.dealing
  refine ⟨st, ?_, hcomms, hshares⟩
  rw [dealingOf, electionBytes_eq_ok.mpr (fromHex_electionKey eid), ok_bind,
    liftPy_eq_ok.mpr hknown, ok_bind, myIndex_node hcommittee hi, ok_bind]
  simp only [hst]
  rfl

theorem length_dealtCommitments (d : Int) :
    (dealtCommitments S config draws d).length = config.threshold.t := by
  simp [dealtCommitments, honestDealer, KeyperDKGState.round1]

/-- A committee whose quorum fits the four bytes of the count is small. -/
theorem index_lt (ht : config.threshold.t < 256 ^ 4) (hi : i ∈ keyperIndices config.threshold.n) :
    0 ≤ i ∧ i < 256 ^ 8 := by
  have hb := mem_keyperIndices.mp hi
  have hmajority := config.threshold.majority
  omega

theorem commitmentsBody_signed (dl : InMemoryDataLayer) (eid : Bytes)
    (hcommittee : HonestCommittee E config member)
    (hi : i ∈ keyperIndices config.threshold.n) (ht : config.threshold.t < 256 ^ 4)
    {st : KeyperDKGState G₂} (hst : st.commitments = dealtCommitments S config draws i) :
    ∃ digest sig, commitmentsBody S E ((member i).node dl) eid i st =
        .ok ⟨electionKey eid, i, (dealtCommitments S config draws i).map S.g2.toCompressed, some sig⟩ ∧
      dkgCommitmentsDigest E eid i ((dealtCommitments S config draws i).map S.g2.toCompressed) =
        .ok digest ∧
      E.recoverMessage digest sig = some ((member i).signer.identity E) := by
  obtain ⟨hlow, hhigh⟩ := index_lt ht hi
  have hdigest : ∃ digest, dkgCommitmentsDigest E eid i
      ((dealtCommitments S config draws i).map S.g2.toCompressed) = .ok digest := by
    rw [dkgCommitmentsDigest, dkgCommitmentsPreimage, toBytes_ok hlow hhigh, ok_bind, List.length_map,
      length_dealtCommitments, toBytes_ok (by omega) (by exact_mod_cast ht), ok_bind]
    exact ⟨_, rfl⟩
  obtain ⟨digest, hdigest⟩ := hdigest
  obtain ⟨sig, hsig, hrecover⟩ := hcommittee.signs i hi digest
  refine ⟨digest, sig, ?_, hdigest, hrecover⟩
  rw [commitmentsBody, hst, liftPy_eq_ok.mpr hdigest, ok_bind]
  have hsigned : signDigest E ((member i).node dl).signer.privateKey digest = .ok sig := hsig
  rw [liftPy_eq_ok.mpr hsigned]
  rfl

/-- The commitments of a dealer are taken, or are there already. -/
theorem receiveCommitments_progress (hknown : ((member j).node dl).getConfig eid = .ok config)
    (hcommittee : HonestCommittee E config member) (hi : i ∈ keyperIndices config.threshold.n)
    (h : ServerProgress S eid config draws j heard dealt s) {digest sig : Bytes}
    (hdigest : dkgCommitmentsDigest E eid i
      ((dealtCommitments S config draws i).map S.g2.toCompressed) = .ok digest)
    (hrecover : E.recoverMessage digest sig = some ((member i).signer.identity E)) :
    ∃ s', receiveCommitments S E ((member j).node dl) s
        ⟨electionKey eid, i, (dealtCommitments S config draws i).map S.g2.toCompressed, some sig⟩ =
          (s', .ok .ok) ∧
      ServerProgress S eid config draws j (fun d => heard d ∨ d = i) dealt s' := by
  have hcheck : checkCommitments E ((member j).node dl)
      ⟨electionKey eid, i, (dealtCommitments S config draws i).map S.g2.toCompressed, some sig⟩ =
        .ok () := by
    rw [checkCommitments, electionBytes_eq_ok.mpr (fromHex_electionKey eid), ok_bind,
      liftPy_eq_ok.mpr hknown, ok_bind, hdigest]
    rw [if_neg (by rw [dealerSigned_of (hcommittee.registered i hi) hrecover]; simp), if_neg]
    · rfl
    · rw [List.length_map, length_dealtCommitments]
      simp
  have hread : ((dealtCommitments S config draws i).map S.g2.toCompressed).mapM (g2FromCompressed S.g2) =
      .ok (dealtCommitments S config draws i) := by
    apply mapM_eq_ok.mpr
    rw [List.forall₂_map_left_iff, List.forall₂_same]
    intro P _
    exact S.g2.decodePoint_toCompressed _ P
  rw [receiveCommitments, hcheck]
  simp only [withInbox_box]
  cases hstored : (s.box (electionKey eid)).commitments.get? i with
  | some stored =>
    have hright := (h.commitments.right i stored hstored).2
    subst hright
    dsimp only
    rw [if_neg (not_not.mpr rfl)]
    refine ⟨s.withInbox (electionKey eid), rfl, ?_, ?_, ?_⟩
    · rw [withInbox_dkgStates]
      exact h.dealing
    · rw [withInbox_box]
      refine ⟨h.commitments.right, fun d hd => ?_⟩
      rcases hd with hd | rfl
      · exact h.commitments.present d hd
      · exact hstored
    · rw [withInbox_box]
      exact h.shares
  | none =>
    rw [hread]
    refine ⟨_, rfl, ?_, ?_, ?_⟩
    · show ∃ st, (s.withInbox (electionKey eid)).dkgStates.get? (electionKey eid) = some st ∧ _
      rw [withInbox_dkgStates]
      exact h.dealing
    · rw [setBox_box, if_pos rfl]
      exact h.commitments.set hi
    · rw [setBox_box, if_pos rfl]
      exact h.shares

theorem dealtShare_bounds (threshold : Threshold) (draws : Int → Nat → Int) (d r : Int) :
    0 ≤ dealtShare threshold draws d r ∧ dealtShare threshold draws d r < curveOrder := by
  have hzero : (0 : Int) ≤ 0 ∧ (0 : Int) < curveOrder := ⟨le_rfl, by decide +kernel⟩
  exact run_invariant (fun acc : Int × Int => 0 ≤ acc.1 ∧ acc.1 < curveOrder)
    (fun acc a _ => emod_curveOrder_bounds (acc.1 + a * acc.2)) (s := (0, 1)) hzero
    ((List.range threshold.t).map (draws d))

omit [AddCommGroup G₂] in
theorem shareBody_signed (dl : InMemoryDataLayer) (eid : Bytes)
    (hcommittee : HonestCommittee E config member)
    (hi : i ∈ keyperIndices config.threshold.n) (hj : j ∈ keyperIndices config.threshold.n)
    (ht : config.threshold.t < 256 ^ 4) {st : KeyperDKGState G₂}
    (hst : ∀ r ∈ keyperIndices config.threshold.n, st.sharesForOthers.get? r =
      some (dealtShare config.threshold draws i r)) (x25519Seal : Bytes → Bytes) :
    ∃ digest sig, shareBody E ((member i).node dl) (electionKey eid) eid i j st x25519Seal =
        .ok ⟨electionKey eid, i, j,
          some (x25519Seal (shareSealDst ++ scalarToBytes (dealtShare config.threshold draws i j))),
          some sig⟩ ∧
      dkgShareDigest E eid i j (dealtShare config.threshold draws i j) = .ok digest ∧
      E.recoverMessage digest sig = some ((member i).signer.identity E) := by
  obtain ⟨hilow, hihigh⟩ := index_lt ht hi
  obtain ⟨hjlow, hjhigh⟩ := index_lt ht hj
  have hdigest : ∃ digest, dkgShareDigest E eid i j (dealtShare config.threshold draws i j) = .ok digest := by
    rw [dkgShareDigest, dealtShareDigest, dealtPreimage, toBytes_ok hilow hihigh, ok_bind, toBytes_ok hjlow hjhigh,
      ok_bind]
    exact ⟨_, rfl⟩
  obtain ⟨digest, hdigest⟩ := hdigest
  obtain ⟨sig, hsig, hrecover⟩ := hcommittee.signs i hi digest
  refine ⟨digest, sig, ?_, hdigest, hrecover⟩
  rw [shareBody, hst j hj]
  dsimp only
  rw [liftPy_eq_ok.mpr hdigest, ok_bind, node_signer, liftPy_eq_ok.mpr hsig, ok_bind]
  rfl

theorem unsealShare_sealed (hcommittee : HonestCommittee E config member)
    (hj : j ∈ keyperIndices config.threshold.n) (k : Nat) {share : Int}
    (hshare : 0 ≤ share ∧ share < curveOrder) :
    unsealShare ((member j).node dl) ((member j).x25519Seal k (shareSealDst ++ scalarToBytes share)) =
      some share := by
  have hopen : ((member j).node dl).x25519Unseal
      ((member j).x25519Seal k (shareSealDst ++ scalarToBytes share)) =
        some (shareSealDst ++ scalarToBytes share) := hcommittee.opens j hj k _
  have hnat : (beNat (scalarToBytes share) : Int) = share := by
    have hlt := toNat_emod_lt share
    have hsmall : share.toNat < 256 ^ scalarBytes := by
      rwa [Int.emod_eq_of_lt hshare.1 hshare.2] at hlt
    rw [scalarToBytes, Int.emod_eq_of_lt hshare.1 hshare.2, beNat_beBytes _ _ hsmall,
      Int.toNat_of_nonneg hshare.1]
  rw [unsealShare, hopen]
  simp only [List.take_left, List.drop_left, ne_eq, not_true_eq_false, if_false, length_scalarToBytes]
  rw [hnat]

/-- The share of a dealer is taken, or is there already. -/
theorem receiveShare_progress [DecidableEq G₂] (hknown : ((member j).node dl).getConfig eid = .ok config)
    (hcommittee : HonestCommittee E config member) (hi : i ∈ keyperIndices config.threshold.n)
    (hj : j ∈ keyperIndices config.threshold.n)
    (h : ServerProgress S eid config draws j heard dealt s) {digest sig : Bytes} (k : Nat)
    (hdigest : dkgShareDigest E eid i j (dealtShare config.threshold draws i j) = .ok digest)
    (hrecover : E.recoverMessage digest sig = some ((member i).signer.identity E)) :
    ∃ s', receiveShare S E ((member j).node dl) s ⟨electionKey eid, i, j,
        some ((member j).x25519Seal k (shareSealDst ++ scalarToBytes (dealtShare config.threshold draws i j))),
        some sig⟩ = (s', .ok .ok) ∧
      ServerProgress S eid config draws j heard (fun d => dealt d ∨ d = i) s' := by
  have hcheck : checkShare E ((member j).node dl) ⟨electionKey eid, i, j,
      some ((member j).x25519Seal k (shareSealDst ++ scalarToBytes (dealtShare config.threshold draws i j))),
      some sig⟩ = .ok (dealtShare config.threshold draws i j) := by
    rw [checkShare, electionBytes_eq_ok.mpr (fromHex_electionKey eid), ok_bind,
      liftPy_eq_ok.mpr hknown, ok_bind]
    dsimp only
    rw [unsealShare_sealed hcommittee hj k (dealtShare_bounds _ _ _ _)]
    dsimp only
    rw [myIndex_node hcommittee hj, ok_bind, if_neg (not_not.mpr rfl), hdigest,
      dealerSigned_of (hcommittee.registered i hi) hrecover]
    rfl
  have hsame : ((s.box (electionKey eid)).shares.get? i).any
      (fun old => old ≠ dealtShare config.threshold draws i j) = false := by
    cases hstored : (s.box (electionKey eid)).shares.get? i with
    | none => rfl
    | some old => simp [(h.shares.right i old hstored).2]
  rw [receiveShare, hcheck]
  simp only [withInbox_box, hsame, Bool.false_and, Bool.false_eq_true, if_false]
  refine ⟨_, rfl, ?_, ?_, ?_⟩
  · show ∃ st, (s.withInbox (electionKey eid)).dkgStates.get? (electionKey eid) = some st ∧ _
    rw [withInbox_dkgStates]
    exact h.dealing
  · rw [setBox_box, if_pos rfl]
    exact h.commitments
  · rw [setBox_box, if_pos rfl]
    exact h.shares.set hi

/-- A round 2 in which every share verifies returns, and keeps the dealing. -/
theorem round2_of_verified [DecidableEq G₂] {st : KeyperDKGState G₂} {allCommitments : Dict Int (List G₂)}
    {receivedShares : Dict Int Int}
    (h : ∀ e ∈ receivedShares.entries, ∃ comms, allCommitments.get? e.1 = some comms ∧
      comms.length = st.quorum ∧ verifyShare S.g2 comms st.keyperId e.2 = true) :
    ∃ combined pk, st.round2 S.g2 allCommitments receivedShares =
      .ok ({ st with combinedShare := some combined, publicKeyShare := some pk }, combined, pk) := by
  have hnone : st.roundTwoBadDealers S.g2 allCommitments receivedShares = [] := by
    rw [KeyperDKGState.roundTwoBadDealers, List.map_eq_nil_iff, List.filter_eq_nil_iff]
    intro e he
    obtain ⟨comms, hget, hlen, hverify⟩ := h e he
    simp [hget, hlen, hverify]
  rw [KeyperDKGState.round2, if_neg (not_not.mpr hnone)]
  exact ⟨_, _, rfl⟩

/-- With every dealer's messages there, round 2 completes. -/
theorem dkgRound2_progress [DecidableEq G₂] (hknown : ((member j).node dl).getConfig eid = .ok config)
    (hcommittee : HonestCommittee E config member) (hj : j ∈ keyperIndices config.threshold.n)
    (h : ServerProgress S eid config draws j (· ∈ keyperIndices config.threshold.n) dealt s) :
    ∃ s', dkgRound2 S E ((member j).node dl) s (electionKey eid) = (s', .ok .verified) ∧
      ServerProgress S eid config draws j (· ∈ keyperIndices config.threshold.n) dealt s' ∧
      s'.completed.get? (electionKey eid) ≠ none := by
  obtain ⟨st, hst, hid, hquorum, hcomms, hshares⟩ := h.dealing
  have hverified : ∀ e ∈ (s.box (electionKey eid)).shares.entries, ∃ comms,
      (s.box (electionKey eid)).commitments.get? e.1 = some comms ∧
      comms.length = st.quorum ∧ verifyShare S.g2 comms st.keyperId e.2 = true := by
    rintro ⟨d, share⟩ he
    obtain ⟨hd, rfl⟩ := h.shares.right d share (Dict.get?_eq_some.mpr he)
    refine ⟨_, h.commitments.present d hd, ?_, ?_⟩
    · rw [hquorum, length_dealtCommitments]
    · rw [hid, verifyShare_iff]
      exact evalShare_eq S.g2 _ j
  obtain ⟨combined, pk, hround⟩ := round2_of_verified (S := S) hverified
  have hparsed : (do
      let eid ← electionBytes (electionKey eid)
      let config ← liftPy (((member j).node dl).getConfig eid)
      pure (eid, config) : Handle (Bytes × ElectionConfig)) = .ok (eid, config) := by
    rw [electionBytes_eq_ok.mpr (fromHex_electionKey eid), ok_bind, liftPy_eq_ok.mpr hknown, ok_bind]
    rfl
  rw [dkgRound2, hparsed]
  dsimp only
  rw [hst]
  simp only [withInbox_box, withInbox_dkgStates, withInbox_completed, myIndex_node hcommittee hj, hround]
  refine ⟨_, rfl, ⟨?_, ?_, ?_⟩, ?_⟩
  · exact ⟨_, Dict.get?_set_self _ _ _, hid, hquorum, hcomms, hshares⟩
  · exact (withInbox_box (s := s) (electionKey eid)).symm ▸ h.commitments
  · exact (withInbox_box (s := s) (electionKey eid)).symm ▸ h.shares
  · rw [Dict.get?_set_self]
    exact Option.some_ne_none _

/-! ## The phases -/

variable {c : Ceremony G₂} {heardBy dealtTo : Int → Int → Prop}

theorem round1_phase (S : Suite G₁ G₂) (draws : Int → Nat → Int)
    (hknown : ∀ m : Member, (m.node dl).getConfig eid = .ok config)
    (hcommittee : HonestCommittee E config member) (hc : c.dl = dl) :
    ∃ c', Yields (phaseAll (Attempt.complete draws) (keyperIndices config.threshold.n) fun i =>
        handleAt member i fun node s => dkgRound1 S E node s (electionKey eid) (draws i)) c ⟨⟩ c' ∧
      Progress S eid config draws dl (· ∈ keyperIndices config.threshold.n) (· = ·) (· = ·) c' := by
  refine Yields.forM (I := fun done c => Progress S eid config draws dl (· ∈ done) (· = ·) (· = ·) c)
    ?_ ⟨hc, by simp⟩
  intro done i rest c hl h
  have hi : i ∈ keyperIndices config.threshold.n := by simp [hl]
  obtain ⟨s', hrun, hs'⟩ := dkgRound1_progress S draws (c.servers i) (hknown (member i)) hcommittee hi
  obtain ⟨c', hyields, -, hprogress⟩ := h.request
    (fun node s => dkgRound1 S E node s (electionKey eid) (draws i)) hrun
    (hs'.mono (fun d hd => hd.elim id False.elim) fun d hd => hd.elim id False.elim)
  refine ⟨c', hyields.bind (Yields.pure _ _), hprogress.mono fun j hj => ⟨by simpa using hj, ?_, ?_⟩⟩
  · intro d hd
    rcases List.mem_append.mp hj with hj | hj
    · exact .inl ⟨hj, hd⟩
    · exact .inr ⟨List.mem_singleton.mp hj, .inl hd⟩
  · intro d hd
    rcases List.mem_append.mp hj with hj | hj
    · exact .inl ⟨hj, hd⟩
    · exact .inr ⟨List.mem_singleton.mp hj, .inl hd⟩

/-- A dealer that started sends its commitments to every other keyper. -/
theorem distributeCommitments_progress (hknown : ∀ m : Member, (m.node dl).getConfig eid = .ok config)
    (hcommittee : HonestCommittee E config member) (ht : config.threshold.t < 256 ^ 4)
    (hi : i ∈ keyperIndices config.threshold.n) (hown : heardBy i i)
    (h : Progress S eid config draws dl (· ∈ keyperIndices config.threshold.n) heardBy dealtTo c) :
    ∃ c', Yields (distributeCommitments S E member eid (Attempt.complete draws) i) c .ok c' ∧
      Progress S eid config draws dl (· ∈ keyperIndices config.threshold.n)
        (fun d j => heardBy d j ∨ d = i) dealtTo c' := by
  obtain ⟨st, hdealing, hcomms, -⟩ :=
    dealingOf_progress (hknown (member i)) hcommittee hi (h.servers i hi)
  obtain ⟨digest, sig, hbody, hdigest, hrecover⟩ := commitmentsBody_signed dl eid hcommittee hi ht hcomms
  have hloop : ∃ c', Yields ((keyperIndices config.threshold.n).forM fun peer =>
      if peer = i then pure PUnit.unit else do
        let _ ← request (Attempt.complete draws) peer (handleAt member peer fun node s =>
          receiveCommitments S E node s ⟨electionKey eid, i,
            (dealtCommitments S config draws i).map S.g2.toCompressed, some sig⟩)
        pure PUnit.unit) c PUnit.unit c' ∧
      Progress S eid config draws dl (· ∈ keyperIndices config.threshold.n)
        (fun d j => heardBy d j ∨ (d = i ∧ j ∈ keyperIndices config.threshold.n)) dealtTo c' := by
    refine Yields.forM_others i
      (Q := fun p c => Progress S eid config draws dl (· ∈ keyperIndices config.threshold.n)
        (fun d j => heardBy d j ∨ (d = i ∧ p j)) dealtTo c) ?_ ?_ ?_ ?_
    · intro p p' c hp h
      exact h.mono fun j hj => ⟨hj, fun d hd => hd.imp_right fun hd => ⟨hd.1, hp j hj hd.2⟩, fun _ hd => hd⟩
    · -- its own commitments are there from round 1
      intro p c h
      refine h.mono fun j hj => ⟨hj, ?_, fun _ hd => hd⟩
      rintro d (hd | ⟨rfl, hd | rfl⟩)
      · exact .inl hd
      · exact .inr ⟨rfl, hd⟩
      · exact .inl hown
    · intro p c peer hpeer hne h
      obtain ⟨s', hrun, hs'⟩ := receiveCommitments_progress (hknown (member peer)) hcommittee hi
        (h.servers peer hpeer) hdigest hrecover
      obtain ⟨c', hyields, -, hprogress⟩ := h.request (fun node s => receiveCommitments S E node s
        ⟨electionKey eid, i, (dealtCommitments S config draws i).map S.g2.toCompressed, some sig⟩) hrun
        (hs'.mono (fun d hd => hd) fun d hd => hd.elim id False.elim)
      refine ⟨c', hyields.bind (Yields.pure _ _), hprogress.mono fun j hj => ⟨.inl hj, ?_, ?_⟩⟩
      · rintro d (hd | ⟨rfl, hd | rfl⟩)
        · exact .inl ⟨hj, .inl hd⟩
        · exact .inl ⟨hj, .inr ⟨rfl, hd⟩⟩
        · exact .inr ⟨rfl, .inr rfl⟩
      · exact fun d hd => .inl ⟨hj, hd⟩
    · exact h.mono fun j hj => ⟨hj, fun d hd => hd.resolve_right fun hd => hd.2, fun _ hd => hd⟩
  obtain ⟨c', hyields, hprogress⟩ := hloop
  refine ⟨c', ?_, hprogress.mono fun j hj =>
    ⟨hj, fun d hd => hd.imp_right fun hd => ⟨hd, hj⟩, fun _ hd => hd⟩⟩
  refine Yields.withState (Yields.bind (Yields.ofExcept (h.store ▸ hdealing) c) ?_)
  refine Yields.bind (Yields.ofExcept (h.store ▸ hbody) c) ?_
  exact hyields.bind (Yields.pure _ _)

/-- A dealer that started sends every other keyper its share. -/
theorem distributeShares_progress [DecidableEq G₂]
    (hknown : ∀ m : Member, (m.node dl).getConfig eid = .ok config)
    (hcommittee : HonestCommittee E config member) (ht : config.threshold.t < 256 ^ 4)
    (hi : i ∈ keyperIndices config.threshold.n) (hown : dealtTo i i)
    (h : Progress S eid config draws dl (· ∈ keyperIndices config.threshold.n) heardBy dealtTo c) :
    ∃ c', Yields (distributeShares S E member eid (Attempt.complete draws) i) c .ok c' ∧
      Progress S eid config draws dl (· ∈ keyperIndices config.threshold.n) heardBy
        (fun d j => dealtTo d j ∨ d = i) c' := by
  obtain ⟨st, hdealing, -, hshares⟩ :=
    dealingOf_progress (hknown (member i)) hcommittee hi (h.servers i hi)
  have hloop : ∃ c', Yields ((keyperIndices config.threshold.n).forM fun recipient =>
      if recipient = i then pure PUnit.unit
      else sealAndSendShare S E member (Attempt.complete draws) i (electionKey eid) eid i recipient st)
        c PUnit.unit c' ∧
      Progress S eid config draws dl (· ∈ keyperIndices config.threshold.n) heardBy
        (fun d j => dealtTo d j ∨ (d = i ∧ j ∈ keyperIndices config.threshold.n)) c' := by
    refine Yields.forM_others i
      (Q := fun p c => Progress S eid config draws dl (· ∈ keyperIndices config.threshold.n) heardBy
        (fun d j => dealtTo d j ∨ (d = i ∧ p j)) c) ?_ ?_ ?_ ?_
    · intro p p' c hp h
      exact h.mono fun j hj => ⟨hj, fun _ hd => hd, fun d hd => hd.imp_right fun hd => ⟨hd.1, hp j hj hd.2⟩⟩
    · -- its own share is there from round 1
      intro p c h
      refine h.mono fun j hj => ⟨hj, fun _ hd => hd, ?_⟩
      rintro d (hd | ⟨rfl, hd | rfl⟩)
      · exact .inl hd
      · exact .inr ⟨rfl, hd⟩
      · exact .inl hown
    · intro p c recipient hrecipient hne h
      obtain ⟨digest, sig, hbody, hdigest, hrecover⟩ := shareBody_signed dl eid hcommittee hi hrecipient ht
        hshares ((member recipient).x25519Seal c.sent)
      obtain ⟨s', hrun, hs'⟩ := receiveShare_progress (hknown (member recipient)) hcommittee hi hrecipient
        (h.servers recipient hrecipient) c.sent hdigest hrecover
      obtain ⟨c', hyields, -, hprogress⟩ := h.request (fun node s => receiveShare S E node s
        ⟨electionKey eid, i, recipient, some ((member recipient).x25519Seal c.sent
          (shareSealDst ++ scalarToBytes (dealtShare config.threshold draws i recipient))), some sig⟩) hrun
        (hs'.mono (fun d hd => hd.elim id False.elim) fun d hd => hd)
      refine ⟨c', ?_, hprogress.mono fun j hj => ⟨.inl hj, ?_, ?_⟩⟩
      · refine Yields.withState (Yields.bind (Yields.ofExcept (h.store ▸ hbody) c) ?_)
        exact hyields.bind (Yields.pure _ _)
      · exact fun d hd => .inl ⟨hj, hd⟩
      · rintro d (hd | ⟨rfl, hd | rfl⟩)
        · exact .inl ⟨hj, .inl hd⟩
        · exact .inl ⟨hj, .inr ⟨rfl, hd⟩⟩
        · exact .inr ⟨rfl, .inr rfl⟩
    · exact h.mono fun j hj => ⟨hj, fun _ hd => hd, fun d hd => hd.resolve_right fun hd => hd.2⟩
  obtain ⟨c', hyields, hprogress⟩ := hloop
  refine ⟨c', ?_, hprogress.mono fun j hj =>
    ⟨hj, fun _ hd => hd, fun d hd => hd.imp_right fun hd => ⟨hd, hj⟩⟩⟩
  refine Yields.withState (Yields.bind (Yields.ofExcept (h.store ▸ hdealing) c) ?_)
  exact hyields.bind (Yields.pure _ _)

/-- Three phases that end with every keyper holding what every dealer sent. -/
theorem exchange_complete [DecidableEq G₂] (S : Suite G₁ G₂) (draws : Int → Nat → Int)
    (hknown : ∀ m : Member, (m.node dl).getConfig eid = .ok config)
    (hcommittee : HonestCommittee E config member) (ht : config.threshold.t < 256 ^ 4) (hc : c.dl = dl) :
    ∃ c₁ c₂ c₃, Yields (phaseAll (Attempt.complete draws) (keyperIndices config.threshold.n) fun i =>
        handleAt member i fun node s => dkgRound1 S E node s (electionKey eid) (draws i)) c ⟨⟩ c₁ ∧
      Yields (phaseAll (Attempt.complete draws) (keyperIndices config.threshold.n)
        (distributeCommitments S E member eid (Attempt.complete draws))) c₁ ⟨⟩ c₂ ∧
      Yields (phaseAll (Attempt.complete draws) (keyperIndices config.threshold.n)
        (distributeShares S E member eid (Attempt.complete draws))) c₂ ⟨⟩ c₃ ∧
      Progress S eid config draws dl (· ∈ keyperIndices config.threshold.n)
        (fun d _ => d ∈ keyperIndices config.threshold.n)
        (fun d _ => d ∈ keyperIndices config.threshold.n) c₃ := by
  obtain ⟨c₁, hround1, h₁⟩ := round1_phase S draws hknown hcommittee hc
  have hcommitments : ∃ c₂, Yields (phaseAll (Attempt.complete draws) (keyperIndices config.threshold.n)
        (distributeCommitments S E member eid (Attempt.complete draws))) c₁ ⟨⟩ c₂ ∧
      Progress S eid config draws dl (· ∈ keyperIndices config.threshold.n)
        (fun d j => d = j ∨ d ∈ keyperIndices config.threshold.n) (· = ·) c₂ := by
    refine Yields.forM (I := fun done c => Progress S eid config draws dl
      (· ∈ keyperIndices config.threshold.n) (fun d j => d = j ∨ d ∈ done) (· = ·) c) ?_
      (h₁.mono fun j hj => ⟨hj, fun d hd => hd.resolve_right (by simp), fun _ hd => hd⟩)
    intro done i rest c hl h
    have hi : i ∈ keyperIndices config.threshold.n := by simp [hl]
    obtain ⟨c', hyields, h'⟩ := distributeCommitments_progress hknown hcommittee ht hi (.inl rfl)
      (h.withSent (c.sent + 1))
    refine ⟨c', (request_complete hyields).bind (Yields.pure _ _), h'.mono fun j hj =>
      ⟨hj, fun d hd => ?_, fun _ hd => hd⟩⟩
    rw [List.mem_append, List.mem_singleton] at hd
    tauto
  obtain ⟨c₂, hcommitments, h₂⟩ := hcommitments
  have hshares : ∃ c₃, Yields (phaseAll (Attempt.complete draws) (keyperIndices config.threshold.n)
        (distributeShares S E member eid (Attempt.complete draws))) c₂ ⟨⟩ c₃ ∧
      Progress S eid config draws dl (· ∈ keyperIndices config.threshold.n)
        (fun d j => d = j ∨ d ∈ keyperIndices config.threshold.n)
        (fun d j => d = j ∨ d ∈ keyperIndices config.threshold.n) c₃ := by
    refine Yields.forM (I := fun done c => Progress S eid config draws dl
      (· ∈ keyperIndices config.threshold.n) (fun d j => d = j ∨ d ∈ keyperIndices config.threshold.n)
      (fun d j => d = j ∨ d ∈ done) c) ?_
      (h₂.mono fun j hj => ⟨hj, fun _ hd => hd, fun d hd => hd.resolve_right (by simp)⟩)
    intro done i rest c hl h
    have hi : i ∈ keyperIndices config.threshold.n := by simp [hl]
    obtain ⟨c', hyields, h'⟩ := distributeShares_progress hknown hcommittee ht hi (.inl rfl)
      (h.withSent (c.sent + 1))
    refine ⟨c', (request_complete hyields).bind (Yields.pure _ _), h'.mono fun j hj =>
      ⟨hj, fun _ hd => hd, fun d hd => ?_⟩⟩
    rw [List.mem_append, List.mem_singleton] at hd
    tauto
  obtain ⟨c₃, hshares, h₃⟩ := hshares
  exact ⟨c₁, c₂, c₃, hround1, hcommitments, hshares, h₃.mono fun j hj =>
    ⟨hj, fun d hd => .inr hd, fun d hd => .inr hd⟩⟩

/-- What a keyper publishes from: a completed round 2 and every dealer's commitments. -/
structure ReadyToPublish (S : Suite G₁ G₂) (eid : Bytes) (config : ElectionConfig)
    (draws : Int → Nat → Int) (s : KeyperServer G₂) : Prop where
  completed : s.completed.get? (electionKey eid) ≠ none
  commitments : Collects (s.box (electionKey eid)).commitments (dealtCommitments S config draws)
    (keyperIndices config.threshold.n) (· ∈ keyperIndices config.threshold.n)

/-- What keyper `i` answers to round 2: its accusations, if it makes any. -/
def roundTwoReply [DecidableEq G₂] (S : Suite G₁ G₂) (E : EthLib) (member : Int → Member) (eid : Bytes)
    (attempt : Attempt G₂) (i : Int) : Run G₂ (Option (Int × List Accusation)) := do
  let reply ← request attempt i (handleAt member i fun node s => dkgRound2 S E node s (electionKey eid))
  match reply with
  | .complaints _ accusations => pure (some (i, accusations))
  | _ => pure none

/-- Round 2 completes everywhere, without a complaint. -/
theorem roundTwo_complete [DecidableEq G₂] (hknown : ∀ m : Member, (m.node dl).getConfig eid = .ok config)
    (hcommittee : HonestCommittee E config member)
    (h : Progress S eid config draws dl (· ∈ keyperIndices config.threshold.n)
      (fun d _ => d ∈ keyperIndices config.threshold.n) dealtTo c) :
    ∃ c', Yields (roundTwoComplaints S E member eid (Attempt.complete draws)
        (keyperIndices config.threshold.n)) c [] c' ∧ c'.dl = dl ∧
      ∀ j ∈ keyperIndices config.threshold.n, ReadyToPublish S eid config draws (c'.servers j) := by
  have hloop : ∃ c', Yields ((keyperIndices config.threshold.n).mapM
        (roundTwoReply S E member eid (Attempt.complete draws))) c
        ((keyperIndices config.threshold.n).map fun _ => none) c' ∧
      (Progress S eid config draws dl (· ∈ keyperIndices config.threshold.n)
        (fun d _ => d ∈ keyperIndices config.threshold.n) dealtTo c' ∧
        ∀ j ∈ keyperIndices config.threshold.n, (c'.servers j).completed.get? (electionKey eid) ≠ none) := by
    refine Yields.mapM (I := fun done c => Progress S eid config draws dl
      (· ∈ keyperIndices config.threshold.n) (fun d _ => d ∈ keyperIndices config.threshold.n) dealtTo c ∧
        ∀ j ∈ done, (c.servers j).completed.get? (electionKey eid) ≠ none) ?_ ⟨h, by simp⟩
    rintro done i rest c hl ⟨h, hdone⟩
    have hi : i ∈ keyperIndices config.threshold.n := by simp [hl]
    obtain ⟨s', hrun, hs', hcompleted⟩ := dkgRound2_progress (hknown (member i)) hcommittee hi
      (h.servers i hi)
    obtain ⟨c', hyields, hservers, hprogress⟩ := h.request
      (fun node s => dkgRound2 S E node s (electionKey eid)) hrun
      (hs'.mono (fun d hd => hd.elim id False.elim) fun d hd => hd.elim id False.elim)
    refine ⟨c', hyields.bind (Yields.pure _ _), hprogress.mono fun j hj => ⟨.inl hj, ?_, ?_⟩, ?_⟩
    · exact fun d hd => .inl ⟨hj, hd⟩
    · exact fun d hd => .inl ⟨hj, hd⟩
    · intro j hj
      rw [hservers]
      by_cases hij : j = i
      · rw [hij, Function.update_self]
        exact hcompleted
      · rw [Function.update_of_ne hij]
        exact hdone j ((List.mem_append.mp hj).resolve_right (by simpa using hij))
  obtain ⟨c', hyields, hprogress, hcompleted⟩ := hloop
  refine ⟨c', hyields.bind ?_, hprogress.store, fun j hj =>
    ⟨hcompleted j hj, (hprogress.servers j hj).commitments⟩⟩
  have hnone : ((keyperIndices config.threshold.n).map fun _ =>
      (none : Option (Int × List Accusation))).reduceOption = [] := by
    rw [List.map_const', List.reduceOption_replicate_none]
  rw [hnone]
  exact Yields.pure _ _

end

/-! ## What every keyper publishes -/

section
variable {G₁ G₂ : Type} [AddCommGroup G₁] [AddCommGroup G₂]

/-- The joint key of honest dealers is that of the sum of their secrets. -/
theorem deriveJointMpk_honest (g : PointGroup g2Bytes G₂) (n : Nat) {t : Nat} (ht : 1 ≤ t)
    (draws : Int → Nat → Int) : deriveJointMpk (honestCommitments g n t draws) t =
      .ok (mul g.gen ((keyperIndices n).map fun d => draws d 0).sum) := by
  have hlen : ∀ e ∈ (honestCommitments g n t draws).entries, e.2.length = t := by
    intro e he
    obtain ⟨d, -, rfl⟩ := List.mem_map.mp he
    simp [honestDealer, KeyperDKGState.round1]
  have hsecret : ∀ d, (dealtPoly g (honestDealer g n t draws d).commitments).eval 0 =
      (draws d 0 : ZMod curveOrder) := by
    intro d
    have hrange : List.range t = 0 :: (List.range (t - 1)).map Nat.succ := by
      obtain ⟨k, rfl⟩ := Nat.exists_eq_succ_of_ne_zero (show t ≠ 0 by omega)
      exact List.range_succ_eq_map
    simp only [honestDealer, KeyperDKGState.round1, hrange, List.map_cons]
    rw [eval_zero_dealtPoly, g.log_mul, g.log_gen, mul_one]
  obtain ⟨mpk, hmpk, hlog⟩ := deriveJointMpk_ok g ht hlen
  rw [hmpk]
  congr 1
  apply DkgComplete.eq_mul_of_log
  rw [hlog, eval_jointPoly, honestCommitments, Dict.values, Dict.ofFn, List.map_map, List.map_map,
    Int.cast_list_sum, List.map_map]
  congr 1
  apply List.map_congr_left
  intro d _
  exact hsecret d

variable {S : Suite G₁ G₂} {E : EthLib} {member : Int → Member} {eid : Bytes} {config : ElectionConfig}
  {draws : Int → Nat → Int} {dl : InMemoryDataLayer} {j : Int} {s : KeyperServer G₂}

/-- A keyper that completed the attempt publishes its key, under its own signature. -/
theorem publishedResult_ready (hknown : ((member j).node dl).getConfig eid = .ok config)
    (hcommittee : HonestCommittee E config member) (hj : j ∈ keyperIndices config.threshold.n)
    (h : ReadyToPublish S eid config draws s) :
    ∃ sig, (publishedResult S E ((member j).node dl) s (electionKey eid)).2 =
        .ok ⟨eid, (attemptKey S.g2 config.threshold draws).pkElection,
          (attemptKey S.g2 config.threshold draws).committeePks, sig⟩ ∧
      E.recoverMessage (dkgResultDigest E eid (attemptKey S.g2 config.threshold draws).pkElection
        (attemptKey S.g2 config.threshold draws).committeePks) sig =
          some ((member j).signer.identity E) := by
  classical
  have hcomplete := honest_dkgComplete S.g2 config.threshold.n config.threshold.t draws
  have hsame : ∀ k, (s.box (electionKey eid)).commitments.get? k =
      (honestCommitments S.g2 config.threshold.n config.threshold.t draws).get? k :=
    h.commitments.get?_eq (nodup_keyperIndices _)
  have hpk : deriveJointMpk (s.box (electionKey eid)).commitments config.threshold.t =
      .ok (mul S.g2.gen ((keyperIndices config.threshold.n).map fun d => draws d 0).sum) := by
    rw [deriveJointMpk_congr hsame hcomplete.lengths]
    exact deriveJointMpk_honest S.g2 _ config.threshold.one_le_t draws
  have hcommitteePks : (sortedKeys (s.box (electionKey eid)).commitments).mapM (fun i : Int =>
      deriveMpkShare i (s.box (electionKey eid)).commitments config.threshold.t) =
        .ok ((keyperIndices config.threshold.n).map fun i => mul S.g2.gen
          (honestOut S.g2 config.threshold.n config.threshold.t draws i).2.1) := by
    have hshare : (fun i : Int => deriveMpkShare i (s.box (electionKey eid)).commitments
        config.threshold.t) = fun i => deriveMpkShare i
          (honestCommitments S.g2 config.threshold.n config.threshold.t draws) config.threshold.t := by
      funext i
      exact deriveMpkShare_congr hsame hcomplete.lengths i
    rw [sortedKeys_congr hsame, hshare]
    exact hcomplete.committee
  obtain ⟨sig, hsig, hrecover⟩ := hcommittee.signs j hj (dkgResultDigest E eid
    (attemptKey S.g2 config.threshold draws).pkElection
    (attemptKey S.g2 config.threshold draws).committeePks)
  refine ⟨sig, ?_, hrecover⟩
  rw [publishedResult, electionBytes_eq_ok.mpr (fromHex_electionKey eid)]
  dsimp only
  rw [if_neg h.completed]
  dsimp only
  rw [withInbox_box, liftPy_eq_ok, hknown, ok_bind, hpk, ok_bind, hcommitteePks, ok_bind, List.map_map,
    node_signer]
  change (signDigest E (member j).signer.privateKey (dkgResultDigest E eid
    (attemptKey S.g2 config.threshold draws).pkElection
    (attemptKey S.g2 config.threshold draws).committeePks) >>= _) = _
  rw [hsig]
  rfl

end
end ElGamalVoting
