import Mathlib.Logic.Relation
import ElGamalVoting.Core.AdmissionReturns
import ElGamalVoting.Core.AdmissionWinners
import ElGamalVoting.Services.Eligibility

/- The latest genuine vote wins, whatever is replayed.

   The system is the issuer with its counters, the voters, who sign at most one
   ballot for each attestation they were issued, and a ballot list to which anyone
   adds signed ballots, again and in any order, while voting is open. A step issues
   an attestation, signs a ballot or stores one (`VotingStep`).

   In every reachable state (`VotingState.Ok`) later attestations of a pseudonym have
   higher nonces and a ballot is known by its attestation. So the ballot with the
   highest nonce is the one with the attestation issued last, all its copies are
   equal, and which of them is admitted does not show in the aggregate. -/
namespace ElGamalVoting
open Lib

structure VotingState (A : NonceAllocator) where
  nonces : A.State
  issued : List Attestation
  signed : List BallotEnvelope
  stored : List StoredBallot

def VotingState.start (A : NonceAllocator) : VotingState A := ⟨A.empty, [], [], []⟩

section
variable {A : NonceAllocator} {G₁ G₂ : Type} [AddCommGroup G₁] [AddCommGroup G₂] (S : Suite G₁ G₂)
  (service : StubEligibilityService G₁) (config : ElectionConfig)

/-- The message a voter signs exists. -/
def BallotEnvelope.Signable (env : BallotEnvelope) : Prop :=
  Returns (canonicalBallotMessage env.electionId env.pseudonym (ciphertextPairs env.ciphertexts)
    env.zkProof env.attestation)

inductive VotingStep : VotingState A → VotingState A → Prop
  /-- A served request: the nonce is spent also when signing raises. -/
  | issue (s : VotingState A) (electionId pseudonym vk : Bytes) (weight k : Int) :
      VotingStep s { s with
        nonces := (A.next s.nonces electionId pseudonym).2
        issued := s.issued ++ (service.issueAttestation S ⟨electionId, pseudonym, vk, weight,
          (A.next s.nonces electionId pseudonym).1⟩ k).toOption.toList }
  /-- A voter signs a ballot for an attestation not used before. -/
  | sign (s : VotingState A) (env : BallotEnvelope) (hissued : env.attestation ∈ s.issued)
      (hunused : ∀ e ∈ s.signed, e.attestation ≠ env.attestation) (hmessage : env.Signable) :
      VotingStep s { s with signed := s.signed ++ [env] }
  /-- Anyone stores a copy of a signed ballot, under the next sequence number. -/
  | store (s : VotingState A) (env : BallotEnvelope) (sequenceNumber : Int) (time : Option Int)
      (hsigned : env ∈ s.signed) (hnext : ∀ sb ∈ s.stored, sb.sequenceNumber < sequenceNumber)
      (hopen : ∀ t, time = some t → isVotingOpen config t = true) :
      VotingStep s { s with stored := s.stored ++ [⟨sequenceNumber, env, time⟩] }

def VotingReachable (s : VotingState A) : Prop :=
  Relation.ReflTransGen (VotingStep S service config) (VotingState.start A) s

/-- What holds in every reachable state. -/
structure VotingState.Ok (config : ElectionConfig) (s : VotingState A) : Prop where
  nonce_le : ∀ a ∈ s.issued, a.nonce ≤ A.last s.nonces a.electionId a.pseudonym
  increasing : s.issued.Pairwise fun a b =>
    a.electionId = b.electionId → a.pseudonym = b.pseudonym → a.nonce < b.nonce
  attested : ∀ env ∈ s.signed, env.attestation ∈ s.issued ∧ env.Signable
  one_ballot : ∀ env ∈ s.signed, ∀ env' ∈ s.signed, env.attestation = env'.attestation → env = env'
  stored_signed : ∀ sb ∈ s.stored, sb.envelope ∈ s.signed
  stored_open : ∀ sb ∈ s.stored, ∀ t, sb.submittedAt = some t → isVotingOpen config t = true
  ordered : s.stored.Pairwise fun sb sb' => sb.sequenceNumber < sb'.sequenceNumber

variable {S service config} {s s' : VotingState A}

theorem VotingState.ok_start : (VotingState.start A).Ok config where
  nonce_le := by simp [VotingState.start]
  increasing := List.Pairwise.nil
  attested := by simp [VotingState.start]
  one_ballot := by simp [VotingState.start]
  stored_signed := by simp [VotingState.start]
  stored_open := by simp [VotingState.start]
  ordered := List.Pairwise.nil

/-- An attestation issued next is above all earlier ones of its key. -/
theorem VotingState.Ok.issue (h : s.Ok config) (electionId pseudonym : Bytes) {att : Option Attestation}
    (hatt : ∀ a, att = some a → a.electionId = electionId ∧ a.pseudonym = pseudonym ∧
      a.nonce = A.last s.nonces electionId pseudonym + 1) :
    ({ s with nonces := (A.next s.nonces electionId pseudonym).2, issued := s.issued ++ att.toList } :
      VotingState A).Ok config := by
  refine ⟨?_, ?_, ?_, h.one_ballot, h.stored_signed, h.stored_open, h.ordered⟩
  · intro a ha
    show a.nonce ≤ A.last (A.next s.nonces electionId pseudonym).2 a.electionId a.pseudonym
    rw [A.last_next]
    rcases List.mem_append.mp ha with ha | ha
    · have hle := h.nonce_le a ha
      split
      · rename_i heq
        rw [Prod.mk.injEq] at heq
        rw [heq.1, heq.2] at hle
        omega
      · exact hle
    · obtain ⟨he, hp, hn⟩ := hatt a (Option.mem_toList.mp ha)
      rw [if_pos (by rw [he, hp]), hn]
  · show (s.issued ++ att.toList).Pairwise _
    rw [List.pairwise_append]
    refine ⟨h.increasing, ?_, ?_⟩
    · cases att with
      | none => exact List.Pairwise.nil
      | some a => exact List.pairwise_singleton _ a
    intro a ha b hb hid hpseud
    obtain ⟨he, hp, hn⟩ := hatt b (Option.mem_toList.mp hb)
    have hle := h.nonce_le a ha
    rw [hid, hpseud, he, hp] at hle
    omega
  · intro env henv
    obtain ⟨hissued, hmessage⟩ := h.attested env henv
    exact ⟨List.mem_append_left _ hissued, hmessage⟩

theorem VotingState.Ok.step (h : s.Ok config) (hstep : VotingStep S service config s s') : s'.Ok config := by
  cases hstep with
  | issue electionId pseudonym vk weight k =>
    refine h.issue electionId pseudonym ?_
    intro a ha
    obtain ⟨he, hp, hn⟩ := StubEligibilityService.issueAttestation_eq_ok (toOption_eq_some.mp ha)
    exact ⟨he, hp, hn.trans (A.next_fst _ _ _)⟩
  | sign env hissued hunused hmessage =>
    refine ⟨h.nonce_le, h.increasing, ?_, ?_, ?_, h.stored_open, h.ordered⟩
    · intro e he
      rcases List.mem_append.mp he with he | he
      · exact h.attested e he
      · cases List.mem_singleton.mp he
        exact ⟨hissued, hmessage⟩
    -- a credential signs one ballot: the new one uses a credential that no other did
    · intro e he e' he' hatt
      rcases List.mem_append.mp he with he | he
      · rcases List.mem_append.mp he' with he' | he'
        · exact h.one_ballot e he e' he' hatt
        · cases List.mem_singleton.mp he'
          exact absurd hatt (hunused e he)
      · cases List.mem_singleton.mp he
        rcases List.mem_append.mp he' with he' | he'
        · exact absurd hatt.symm (hunused e' he')
        · exact (List.mem_singleton.mp he').symm
    · intro sb hsb
      exact List.mem_append_left _ (h.stored_signed sb hsb)
  | store env sequenceNumber time hsigned hnext hopen =>
    refine ⟨h.nonce_le, h.increasing, h.attested, h.one_ballot, ?_, ?_, ?_⟩
    · intro sb hsb
      rcases List.mem_append.mp hsb with hsb | hsb
      · exact h.stored_signed sb hsb
      · cases List.mem_singleton.mp hsb
        exact hsigned
    · intro sb hsb
      rcases List.mem_append.mp hsb with hsb | hsb
      · exact h.stored_open sb hsb
      · cases List.mem_singleton.mp hsb
        exact hopen
    · show (s.stored ++ [_]).Pairwise _
      rw [List.pairwise_append]
      refine ⟨h.ordered, List.pairwise_singleton _ _, ?_⟩
      intro sb hsb sb' hsb'
      cases List.mem_singleton.mp hsb'
      exact hnext sb hsb

theorem VotingReachable.ok (h : VotingReachable S service config s) : s.Ok config := by
  induction h with
  | refl => exact VotingState.ok_start
  | tail _ hstep ih => exact ih.step hstep

/-! ## The winner in a reachable state -/

/-- Of two attestations of one key the one issued later has the higher nonce. -/
theorem VotingState.Ok.nonce_lt (h : s.Ok config) {a b : Attestation} {i j : Nat} (hij : i < j)
    (ha : s.issued[i]? = some a) (hb : s.issued[j]? = some b) (hid : a.electionId = b.electionId)
    (hpseud : a.pseudonym = b.pseudonym) : a.nonce < b.nonce := by
  obtain ⟨hi, rfl⟩ := List.getElem?_eq_some_iff.mp ha
  obtain ⟨hj, rfl⟩ := List.getElem?_eq_some_iff.mp hb
  exact List.pairwise_iff_getElem.mp h.increasing i j hi hj hij hid hpseud

/-- Attestations of one key with one nonce are one. -/
theorem VotingState.Ok.attestation_eq (h : s.Ok config) {a b : Attestation} (ha : a ∈ s.issued)
    (hb : b ∈ s.issued) (hid : a.electionId = b.electionId) (hpseud : a.pseudonym = b.pseudonym)
    (hnonce : a.nonce = b.nonce) : a = b := by
  obtain ⟨i, hi⟩ := List.mem_iff_getElem?.mp ha
  obtain ⟨j, hj⟩ := List.mem_iff_getElem?.mp hb
  rcases lt_trichotomy i j with hij | rfl | hij
  · exact absurd hnonce (h.nonce_lt hij hi hj hid hpseud).ne
  · exact Option.some.inj (hi.symm.trans hj)
  · exact absurd hnonce (h.nonce_lt hij hj hi hid.symm hpseud.symm).ne'

variable [DecidableEq G₁] [DecidableEq G₂] {mpk : G₂}

/-- Valid stored ballots of one pseudonym and nonce have one envelope. -/
theorem VotingState.Ok.envelope_eq (h : s.Ok config) {sb sb' : StoredBallot} (hsb : sb ∈ s.stored)
    (hsb' : sb' ∈ s.stored) (hvalid : validateBallot S sb config mpk = .ok none)
    (hvalid' : validateBallot S sb' config mpk = .ok none)
    (hpseud : sb.envelope.pseudonym = sb'.envelope.pseudonym)
    (hnonce : sb.envelope.attestation.nonce = sb'.envelope.attestation.nonce) :
    sb.envelope = sb'.envelope := by
  obtain ⟨hid, hp, -⟩ := of_validateBallot hvalid
  obtain ⟨hid', hp', -⟩ := of_validateBallot hvalid'
  have hsigned := h.stored_signed sb hsb
  have hsigned' := h.stored_signed sb' hsb'
  apply h.one_ballot _ hsigned _ hsigned'
  exact h.attestation_eq (h.attested _ hsigned).1 (h.attested _ hsigned').1 (hid.trans hid'.symm)
    (hp.trans (hpseud.trans hp'.symm)) hnonce

theorem VotingState.Ok.nodup (h : s.Ok config) {valid : List StoredBallot} (hsub : valid.Sublist s.stored) :
    (valid.map StoredBallot.sequenceNumber).Nodup := by
  have hpair := h.ordered.sublist hsub
  rw [List.Nodup, List.pairwise_map]
  exact hpair.imp fun hlt => hlt.ne

/-- The admitted ballots of a state with last-wins, over its valid ballots. -/
theorem VotingState.Ok.admit (h : s.Ok config) (hpolicy : config.duplicatePolicy = .lastWins)
    {mpkBytes : Bytes} (hkey : g2FromCompressed S.g2 mpkBytes = .ok mpk) :
    ∃ valid : List StoredBallot, (valid.map StoredBallot.sequenceNumber).Nodup ∧
      (∀ sb, sb ∈ valid ↔ sb ∈ s.stored ∧ validateBallot S sb config mpk = .ok none) ∧
      ∃ result, admitBallots S s.stored config mpkBytes = .ok result ∧
        result.admitted = (admittedBallots valid .lastWins).map StoredBallot.admitted ∧
        result.totalAdmittedWeight = (result.admitted.map AdmittedBallot.weight).sum := by
  have hreturns : ∀ sb ∈ s.stored, Returns (validateBallot S sb config mpk) := by
    intro sb hsb
    exact validateBallot_returns_of_message (h.attested _ (h.stored_signed sb hsb)).2
  obtain ⟨valid, hsub, hvalid, result, hresult, hadmitted, hweight⟩ := admitBallots_valid hkey hreturns
  rw [hpolicy] at hadmitted
  exact ⟨valid, h.nodup hsub, hvalid, result, hresult, hadmitted, hweight⟩

/-- The envelopes of the admitted ballots: the valid ones with the highest nonce of their
    pseudonym. -/
theorem VotingState.Ok.mem_envelopes_iff (h : s.Ok config) {valid : List StoredBallot}
    (hnodup : (valid.map StoredBallot.sequenceNumber).Nodup)
    (hvalid : ∀ sb, sb ∈ valid ↔ sb ∈ s.stored ∧ validateBallot S sb config mpk = .ok none)
    {env : BallotEnvelope} :
    env ∈ (admittedBallots valid .lastWins).map StoredBallot.envelope ↔
      (∃ sb ∈ valid, sb.envelope = env) ∧ ∀ sb ∈ valid, sb.envelope.pseudonym = env.pseudonym →
        sb.envelope.attestation.nonce ≤ env.attestation.nonce := by
  rw [List.mem_map]
  constructor
  · intro hmem
    obtain ⟨best, hbest, rfl⟩ := hmem
    rw [mem_admittedBallots_iff hnodup] at hbest
    refine ⟨⟨best, hbest.1, rfl⟩, ?_⟩
    intro sb hsb hp
    have hle := hbest.2 sb hsb hp
    rw [beats, rankLt_iff] at hle
    simp only [ballotRank] at hle
    omega
  · intro hmem
    obtain ⟨⟨sb, hsb, rfl⟩, hmax⟩ := hmem
    obtain ⟨best, hbest, hp⟩ := exists_best .lastWins hsb
    refine ⟨best, (mem_admittedBallots_iff hnodup).mpr hbest, ?_⟩
    have hle := hmax best hbest.1 hp
    have hge := hbest.2 sb hsb hp.symm
    rw [beats, rankLt_iff] at hge
    simp only [ballotRank] at hge
    obtain ⟨hstored, hok⟩ := (hvalid best).mp hbest.1
    obtain ⟨hstored', hok'⟩ := (hvalid sb).mp hsb
    exact h.envelope_eq hstored hstored' hok hok' hp (by omega)

theorem nodup_envelopes {valid : List StoredBallot}
    (hnodup : (valid.map StoredBallot.sequenceNumber).Nodup) :
    ((admittedBallots valid .lastWins).map StoredBallot.envelope).Nodup := by
  have hadmitted : (admittedBallots valid .lastWins).Nodup := hnodup.of_map.filter _
  refine List.Nodup.map_on ?_ hadmitted
  intro sb hsb sb' hsb' henv
  rw [mem_admittedBallots_iff hnodup] at hsb hsb'
  exact hsb.unique hnodup hsb' (congrArg BallotEnvelope.pseudonym henv)

/-- Two states whose valid ballots have the same envelopes admit the same envelopes. -/
theorem VotingState.Ok.perm_envelopes (h : s.Ok config) (h' : s'.Ok config) {valid valid' : List StoredBallot}
    (hnodup : (valid.map StoredBallot.sequenceNumber).Nodup)
    (hnodup' : (valid'.map StoredBallot.sequenceNumber).Nodup)
    (hvalid : ∀ sb, sb ∈ valid ↔ sb ∈ s.stored ∧ validateBallot S sb config mpk = .ok none)
    (hvalid' : ∀ sb, sb ∈ valid' ↔ sb ∈ s'.stored ∧ validateBallot S sb config mpk = .ok none)
    (hsame : ∀ env, (∃ sb ∈ valid, sb.envelope = env) ↔ ∃ sb ∈ valid', sb.envelope = env) :
    ((admittedBallots valid .lastWins).map StoredBallot.envelope).Perm
      ((admittedBallots valid' .lastWins).map StoredBallot.envelope) := by
  have hforall : ∀ P : BallotEnvelope → Prop,
      (∀ sb ∈ valid, P sb.envelope) ↔ ∀ sb ∈ valid', P sb.envelope := by
    intro P
    constructor
    · intro hP sb hsb
      obtain ⟨sb', hsb', henv⟩ := (hsame sb.envelope).mpr ⟨sb, hsb, rfl⟩
      rw [← henv]
      exact hP sb' hsb'
    · intro hP sb hsb
      obtain ⟨sb', hsb', henv⟩ := (hsame sb.envelope).mp ⟨sb, hsb, rfl⟩
      rw [← henv]
      exact hP sb' hsb'
  rw [List.perm_ext_iff_of_nodup (nodup_envelopes hnodup) (nodup_envelopes hnodup')]
  intro env
  rw [h.mem_envelopes_iff hnodup hvalid, h'.mem_envelopes_iff hnodup' hvalid', hsame env,
    hforall fun e => e.pseudonym = env.pseudonym → e.attestation.nonce ≤ env.attestation.nonce]

omit [DecidableEq G₁] [DecidableEq G₂] in
/-- The aggregate of the admitted ballots, from their envelopes: it is built, and its ciphertexts
    and weights do not depend on the order. -/
theorem buildAggregate_perm {result result' : AdmissionResult} {admitted admitted' : List StoredBallot}
    (hresult : result.admitted = admitted.map StoredBallot.admitted)
    (hresult' : result'.admitted = admitted'.map StoredBallot.admitted)
    (hweight : result.totalAdmittedWeight = (result.admitted.map AdmittedBallot.weight).sum)
    (hweight' : result'.totalAdmittedWeight = (result'.admitted.map AdmittedBallot.weight).sum)
    (hdecodes : ∀ sb ∈ admitted, Decodes S config.numCandidates sb.envelope)
    (hdecodes' : ∀ sb ∈ admitted', Decodes S config.numCandidates sb.envelope)
    (hperm : (admitted.map StoredBallot.envelope).Perm (admitted'.map StoredBallot.envelope)) :
    ∃ A A', buildAggregateArtifact S config result = .ok A ∧
      buildAggregateArtifact S config result' = .ok A' ∧ A'.aggregates = A.aggregates ∧
      A'.totalAdmittedWeight = A.totalAdmittedWeight ∧ A'.totalScaledWeight = A.totalScaledWeight := by
  -- points and sums depend on the ballots and their weights only, not on their places
  have hpairs : (result.admitted.map fun ab => (ab.envelope, ab.weight)).Perm
      (result'.admitted.map fun ab => (ab.envelope, ab.weight)) := by
    rw [hresult, hresult', List.map_map, List.map_map]
    have hmap := hperm.map fun env : BallotEnvelope => (env, env.attestation.weight)
    rw [List.map_map, List.map_map] at hmap
    exact hmap
  have hsum : ∀ f : Int → Int, (result'.admitted.map fun ab => f ab.weight).sum =
      (result.admitted.map fun ab => f ab.weight).sum := by
    intro f
    have hmap := (hpairs.map fun ew => f ew.2).sum_eq
    rw [List.map_map, List.map_map] at hmap
    exact hmap.symm
  have hdec : ∀ ab ∈ result.admitted, Decodes S config.numCandidates ab.envelope := by
    rw [hresult]
    intro ab hab
    obtain ⟨sb, hsb, rfl⟩ := List.mem_map.mp hab
    exact hdecodes sb hsb
  have hdec' : ∀ ab ∈ result'.admitted, Decodes S config.numCandidates ab.envelope := by
    rw [hresult']
    intro ab hab
    obtain ⟨sb, hsb, rfl⟩ := List.mem_map.mp hab
    exact hdecodes' sb hsb
  have hpoints : aggregatePoints S result.admitted config.numCandidates config.scale =
      aggregatePoints S result'.admitted config.numCandidates config.scale :=
    aggregatePoints_perm hdec hdec' hpairs
  obtain ⟨points, hok⟩ : Returns (aggregatePoints S result.admitted config.numCandidates config.scale) :=
    ⟨_, aggregatePoints_eq hdec⟩
  have hbuild : ∀ r : AdmissionResult,
      aggregatePoints S r.admitted config.numCandidates config.scale = .ok points →
      buildAggregateArtifact S config r = .ok ⟨config.electionId,
        points.map fun ct => ⟨S.g2.toCompressed ct.1, S.g2.toCompressed ct.2⟩,
        r.admitted.map AdmittedBallot.sequenceNumber, r.exclusions, r.totalAdmittedWeight,
        (r.admitted.map fun a => scaledWeight a.weight config.scale).sum⟩ := by
    intro r hr
    rw [buildAggregateArtifact, hr, ok_bind]
    rfl
  refine ⟨_, _, hbuild result hok, hbuild result' (hpoints ▸ hok), rfl, ?_, ?_⟩
  · show result'.totalAdmittedWeight = result.totalAdmittedWeight
    rw [hweight, hweight']
    exact hsum id
  · exact hsum fun w => scaledWeight w config.scale

/-- In every reachable state, and however it was reached, admission keeps of each pseudonym one
    ballot, the one with the attestation issued last among its valid stored ballots; and more
    copies of stored ballots change neither the ciphertexts of the aggregate nor its weights. -/
theorem latest_vote_wins (A : NonceAllocator) (S : Suite G₁ G₂) (service : StubEligibilityService G₁)
    (config : ElectionConfig) (hpolicy : config.duplicatePolicy = .lastWins) {mpkBytes : Bytes} {mpk : G₂}
    (hkey : g2FromCompressed S.g2 mpkBytes = .ok mpk) (s : VotingState A)
    (hreach : VotingReachable S service config s) :
    ∃ result, admitBallots S s.stored config mpkBytes = .ok result ∧
      (∀ sb ∈ s.stored, validateBallot S sb config mpk = .ok none →
        ∃ ab, result.admitted.filter (fun a => a.envelope.pseudonym = sb.envelope.pseudonym) = [ab] ∧
          (∃ best ∈ s.stored, validateBallot S best config mpk = .ok none ∧ best.envelope = ab.envelope) ∧
          ∃ i : Nat, s.issued[i]? = some ab.envelope.attestation ∧
            ∀ sb' ∈ s.stored, validateBallot S sb' config mpk = .ok none →
              sb'.envelope.pseudonym = sb.envelope.pseudonym →
              ∀ j : Nat, s.issued[j]? = some sb'.envelope.attestation → j ≤ i) ∧
      ∀ copies, VotingReachable S service config { s with stored := s.stored ++ copies } →
        (∀ c ∈ copies, ∃ sb ∈ s.stored, c.envelope = sb.envelope) →
        ∃ result' agg agg', admitBallots S (s.stored ++ copies) config mpkBytes = .ok result' ∧
          buildAggregateArtifact S config result = .ok agg ∧
          buildAggregateArtifact S config result' = .ok agg' ∧ agg'.aggregates = agg.aggregates ∧
          agg'.totalAdmittedWeight = agg.totalAdmittedWeight ∧
          agg'.totalScaledWeight = agg.totalScaledWeight := by
  have hok := hreach.ok
  obtain ⟨valid, hnodup, hvalid, result, hresult, hadmitted, hweight⟩ := hok.admit hpolicy hkey
  refine ⟨result, hresult, ?_, ?_⟩
  · intro sb hsb hsbvalid
    obtain ⟨best, hbest, hp⟩ := exists_best .lastWins ((hvalid sb).mpr ⟨hsb, hsbvalid⟩)
    obtain ⟨hstored, hbestvalid⟩ := (hvalid best).mp hbest.1
    obtain ⟨hid, hattp, -⟩ := of_validateBallot hbestvalid
    obtain ⟨i, hi⟩ := List.mem_iff_getElem?.mp (hok.attested _ (hok.stored_signed best hstored)).1
    refine ⟨best.admitted, ?_, ⟨best, hstored, hbestvalid, rfl⟩, i, hi, ?_⟩
    · rw [hadmitted, ← hp]
      exact admitted_of_pseudonym hnodup hbest
    · intro sb' hsb' hvalid' hp' j hj
      obtain ⟨hid', hattp', -⟩ := of_validateBallot hvalid'
      -- an attestation issued later would have a higher nonce and rank above the winner
      by_contra hlt
      have hnonce := hok.nonce_lt (by omega : i < j) hi hj (hid.trans hid'.symm)
        (hattp.trans ((hp.trans hp'.symm).trans hattp'.symm))
      refine hbest.2 sb' ((hvalid sb').mpr ⟨hsb', hvalid'⟩) (hp'.trans hp.symm) ?_
      rw [beats, rankLt_iff]
      exact .inl hnonce
  · intro copies hreach' hcopies
    have hok' := hreach'.ok
    obtain ⟨valid', hnodup', hvalid', result', hresult', hadmitted', hweight'⟩ := hok'.admit hpolicy hkey
    have hsame : ∀ env, (∃ sb ∈ valid, sb.envelope = env) ↔ ∃ sb ∈ valid', sb.envelope = env := by
      intro env
      constructor
      · intro h
        obtain ⟨sb, hsb, henv⟩ := h
        obtain ⟨hstored, hok⟩ := (hvalid sb).mp hsb
        exact ⟨sb, (hvalid' sb).mpr ⟨List.mem_append_left _ hstored, hok⟩, henv⟩
      · intro h
        obtain ⟨sb, hsb, henv⟩ := h
        obtain ⟨hstored, hsbok⟩ := (hvalid' sb).mp hsb
        rcases List.mem_append.mp hstored with hmem | hcopy
        · exact ⟨sb, (hvalid sb).mpr ⟨hmem, hsbok⟩, henv⟩
        · obtain ⟨orig, horig, hcopyenv⟩ := hcopies sb hcopy
          refine ⟨orig, (hvalid orig).mpr ⟨horig, ?_⟩, hcopyenv.symm.trans henv⟩
          rw [← hsbok]
          exact validateBallot_congr hcopyenv.symm (hok.stored_open orig horig)
            (hok'.stored_open sb hstored)
    have hperm := hok.perm_envelopes hok' hnodup hnodup' hvalid hvalid' hsame
    have hdecodes : ∀ (l : List StoredBallot) (stored : List StoredBallot),
        (∀ sb, sb ∈ l ↔ sb ∈ stored ∧ validateBallot S sb config mpk = .ok none) →
        ∀ sb ∈ admittedBallots l .lastWins, Decodes S config.numCandidates sb.envelope := by
      intro l stored hl sb hsb
      exact (of_validateBallot ((hl sb).mp (List.mem_filter.mp hsb).1).2).2.2
    obtain ⟨agg, agg', hagg, hagg', hcts, htotal, hscaled⟩ := buildAggregate_perm hadmitted hadmitted'
      hweight hweight' (hdecodes valid _ hvalid) (hdecodes valid' _ hvalid') hperm
    exact ⟨result', agg, agg', hresult', hagg, hagg', hcts, htotal, hscaled⟩

end

/-! A voter votes again with a later credential, and the first ballot is replayed. -/

namespace ReplaySample

def service : StubEligibilityService Residue := ⟨11, .ofNat 11, none⟩

/-- The voter's credential under a nonce. -/
@[irreducible]
def attestation (nonce : Int) : Attestation :=
  match service.issueAttestation Residue.suite ⟨(sampleFields 1).electionId, (sampleFields 1).pseudonym,
    (sampleFields 1).vk, 1, nonce⟩ 5 with
  | .ok att => att
  | .error _ => sampleAttestation 1

@[irreducible]
def revoteBuilt : BuiltBallot :=
  match buildBallot Residue.suite (Residue.ofNat 17) (sampleFields 1).electionId
    (sampleFields 1).pseudonym 3 (Residue.ofNat 3) (attestation 2) [1] 1 1
    ⟨[16], [17], [[(18, 19), (20, 22)]], 23, 24⟩ with
  | .ok b => b
  | .error _ => ⟨[], [], [], [], [], [], []⟩

/-- The second ballot. -/
def revote : BallotEnvelope where
  electionId := revoteBuilt.electionId
  pseudonym := revoteBuilt.pseudonym
  vk := revoteBuilt.vk
  ciphertexts := revoteBuilt.ciphertexts.map fun ct => ⟨ct.1, ct.2⟩
  zkProof := revoteBuilt.zkProof
  voterSignature := revoteBuilt.voterSignature
  attestation := attestation 2

/-- The counters after a number of requests of the voter. -/
def nonces : Nat → inMemoryNonceAllocator.State
  | 0 => inMemoryNonceAllocator.empty
  | n + 1 => (inMemoryNonceAllocator.next (nonces n) (sampleFields 1).electionId (sampleFields 1).pseudonym).2

def issued (n : Nat) (attestations : List Attestation) : VotingState inMemoryNonceAllocator where
  nonces := nonces n
  issued := attestations
  signed := []
  stored := []

/-- Both ballots are signed. -/
def voted (stored : List StoredBallot) : VotingState inMemoryNonceAllocator :=
  { issued 2 [attestation 1, attestation 2] with signed := [sampleBallot 1, revote], stored }

/-- The first ballot, the second, and the first again. -/
def stored : List StoredBallot :=
  [⟨0, sampleBallot 1, some 150⟩, ⟨1, revote, some 160⟩, ⟨2, sampleBallot 1, some 170⟩]

/-- The first ballot once more. -/
def replay : StoredBallot := ⟨3, sampleBallot 1, some 180⟩

/-- The next request of the voter is served. -/
theorem issued_step {n : Nat} {attestations : List Attestation}
    (h : VotingReachable Residue.suite service smallConfig (issued n attestations)) {att : Attestation}
    (hissue : service.issueAttestation Residue.suite ⟨(sampleFields 1).electionId, (sampleFields 1).pseudonym,
      (sampleFields 1).vk, 1, (inMemoryNonceAllocator.next (nonces n) (sampleFields 1).electionId
        (sampleFields 1).pseudonym).1⟩ 5 = .ok att) :
    VotingReachable Residue.suite service smallConfig (issued (n + 1) (attestations ++ [att])) := by
  have hstep : VotingStep Residue.suite service smallConfig (issued n attestations) _ :=
    .issue _ (sampleFields 1).electionId (sampleFields 1).pseudonym (sampleFields 1).vk 1 5
  simp only [issued] at hstep
  rw [hissue] at hstep
  exact h.tail hstep

theorem issued_reachable :
    VotingReachable Residue.suite service smallConfig (issued 2 [attestation 1, attestation 2]) := by
  have hstart : VotingReachable Residue.suite service smallConfig (issued 0 []) := .refl
  have hfirst : VotingReachable Residue.suite service smallConfig (issued 1 [attestation 1]) :=
    issued_step hstart (by decide +kernel)
  exact issued_step hfirst (by decide +kernel)

theorem attestation_first : (sampleBallot 1).attestation = attestation 1 := by decide +kernel

theorem attestation_ne : attestation 1 ≠ attestation 2 := by decide +kernel

theorem voted_reachable : VotingReachable Residue.suite service smallConfig (voted []) := by
  have hfirst := issued_reachable.tail (.sign _ (sampleBallot 1)
    (by rw [attestation_first]; exact List.mem_cons_self) (by simp [issued]) (Returns.of_isOk (by decide +kernel)))
  refine hfirst.tail (.sign _ revote (List.mem_cons_of_mem _ List.mem_cons_self) ?_
    (Returns.of_isOk (by decide +kernel)))
  intro e he
  obtain rfl := List.mem_singleton.mp he
  rw [attestation_first]
  exact attestation_ne

/-- A ballot of the voter is stored. -/
theorem store_reachable {stored : List StoredBallot}
    (h : VotingReachable Residue.suite service smallConfig (voted stored)) {sb : StoredBallot} {time : Int}
    (hsigned : sb.envelope ∈ [sampleBallot 1, revote]) (htime : sb.submittedAt = some time)
    (hnext : ∀ sb' ∈ stored, sb'.sequenceNumber < sb.sequenceNumber)
    (hopen : isVotingOpen smallConfig time = true) :
    VotingReachable Residue.suite service smallConfig (voted (stored ++ [sb])) := by
  refine h.tail (.store (voted stored) sb.envelope sb.sequenceNumber sb.submittedAt hsigned hnext ?_)
  intro t ht
  obtain rfl := Option.some.inj (htime.symm.trans ht)
  exact hopen

theorem stored_reachable : VotingReachable Residue.suite service smallConfig (voted stored) := by
  have hfirst : VotingReachable Residue.suite service smallConfig (voted [⟨0, sampleBallot 1, some 150⟩]) :=
    store_reachable voted_reachable List.mem_cons_self rfl (by simp) (by decide)
  have hsecond : VotingReachable Residue.suite service smallConfig
      (voted [⟨0, sampleBallot 1, some 150⟩, ⟨1, revote, some 160⟩]) :=
    store_reachable hfirst (List.mem_cons_of_mem _ List.mem_cons_self) rfl (by simp) (by decide)
  exact store_reachable hsecond List.mem_cons_self rfl (by simp) (by decide)

theorem replay_reachable : VotingReachable Residue.suite service smallConfig (voted (stored ++ [replay])) :=
  store_reachable stored_reachable List.mem_cons_self rfl (by simp [stored, replay]) (by decide)

/-- The credential of the first ballot was issued before the other. -/
theorem first_not_last {i : Nat} (h : 1 ≤ i) :
    [attestation 1, attestation 2][i]? ≠ some (sampleBallot 1).attestation := by
  rw [attestation_first]
  match i, h with
  | 1, _ => exact fun heq => attestation_ne (Option.some.inj heq).symm
  | i + 2, _ => simp

theorem revote_valid :
    validateBallot Residue.suite ⟨1, revote, some 160⟩ smallConfig (.ofNat 17) = .ok none := by
  decide +kernel

end ReplaySample

open ReplaySample in
/-- The second ballot is admitted, though the first is stored again after it; and storing the first once
    more changes nothing in the aggregate. -/
theorem latest_vote_wins_twice :
    ∃ result, admitBallots Residue.suite stored smallConfig (beBytes 96 17) = .ok result ∧
      (∃ ab, result.admitted.filter (fun a => a.envelope.pseudonym = revote.pseudonym) = [ab] ∧
        ab.envelope = revote) ∧
      ∃ result' agg agg', admitBallots Residue.suite (stored ++ [replay]) smallConfig
          (beBytes 96 17) = .ok result' ∧
        buildAggregateArtifact Residue.suite smallConfig result = .ok agg ∧
        buildAggregateArtifact Residue.suite smallConfig result' = .ok agg' ∧
        agg'.aggregates = agg.aggregates := by
  have hkey : g2FromCompressed Residue.suite.g2 (beBytes 96 17) = .ok (.ofNat 17) := by
    decide +kernel
  have hrevote : (⟨1, revote, some 160⟩ : StoredBallot) ∈ stored := List.mem_cons_of_mem _ List.mem_cons_self
  obtain ⟨result, hresult, hone, hcopies⟩ := latest_vote_wins inMemoryNonceAllocator Residue.suite service
    smallConfig rfl hkey (voted stored) stored_reachable
  refine ⟨result, hresult, ?_, ?_⟩
  · obtain ⟨ab, hab, ⟨best, hbest, -, henvelope⟩, i, hi, hlast⟩ := hone _ hrevote revote_valid
    refine ⟨ab, hab, ?_⟩
    have hone_le : 1 ≤ i := hlast _ hrevote revote_valid rfl 1 rfl
    -- the first ballot has the attestation issued first
    rw [← henvelope] at hi ⊢
    simp only [voted, stored, List.mem_cons, List.not_mem_nil, or_false] at hbest
    obtain rfl | rfl | rfl := hbest
    · exact absurd hi (first_not_last hone_le)
    · rfl
    · exact absurd hi (first_not_last hone_le)
  · obtain ⟨result', agg, agg', hresult', hagg, hagg', hcts, -⟩ := hcopies [replay] replay_reachable
      (by
        intro c hc
        cases List.mem_singleton.mp hc
        exact ⟨_, List.mem_cons_self, rfl⟩)
    exact ⟨result', agg, agg', hresult', hagg, hagg', hcts⟩

end ElGamalVoting
