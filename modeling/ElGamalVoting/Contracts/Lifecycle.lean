import ElGamalVoting.Contracts.Deployed

/- What holds of the deployed contract in every state of every run.

   Block times do not decrease along a run (`Ordered`); a state is looked at at a time not before its blocks.
   `Phases` is the invariant that ties the contract's flags to the voting window, `Grows` what no message takes
   back, `Ledger` where the ether is, and `Indexed` what the index by pseudonym points to. Each is kept by one
   change, and so by a run (`run_keeps`). -/
namespace ElGamalVoting.Contract
open Lib Relation

section
variable {E : EvmLib} {el : Election} {selfSubmitFee : Nat}

/-! ## Runs -/

theorem changes_keep {P : Deployed → Prop} {t : Nat} {d d' : Deployed}
    (hchange : ∀ {d d'}, Change el selfSubmitFee t d d' → P d → P d')
    (h : ReflTransGen (Change el selfSubmitFee t) d d') (hd : P d) : P d' := by
  induction h with
  | refl => exact hd
  | tail _ hlast ih => exact hchange hlast ih

theorem step_message_changes (d : Deployed) (t : Nat) (m : Message) :
    ReflTransGen (Change el selfSubmitFee t) d (d.step E el selfSubmitFee (t, .message m)) :=
  performAll_changes (fun m _ => m.changes) d

theorem run_append (d : Deployed) (before after : List (Nat × Input)) :
    d.run E el selfSubmitFee (before ++ after) =
      (d.run E el selfSubmitFee before).run E el selfSubmitFee after :=
  List.foldl_append

/-- What a change, a block's time and ether from outside keep, a run keeps. -/
theorem run_keeps {P : Nat → Deployed → Prop} (hlater : ∀ {t t' d}, t ≤ t' → P t d → P t' d)
    (hchange : ∀ {t d d'}, Change el selfSubmitFee t d d' → P t d → P t d')
    (hforced : ∀ {t : Nat} {d : Deployed} (amount : Nat), P t d →
      P t { d with balance := d.balance + amount, forced := d.forced + amount })
    {now later : Nat} {d : Deployed} {inputs : List (Nat × Input)} (hordered : Ordered now inputs later)
    (hd : P now d) : P later (d.run E el selfSubmitFee inputs) := by
  induction inputs generalizing now d with
  | nil => exact hlater hordered hd
  | cons input inputs ih =>
    obtain ⟨t, input⟩ := input
    have hfirst : P t d := hlater hordered.1 hd
    refine ih hordered.2 ?_
    cases input with
    | message m => exact changes_keep hchange (step_message_changes d t m) hfirst
    | forced amount => exact hforced amount hfirst

/-- The same for what no block's time matters to. -/
theorem run_keeps_always {P : Deployed → Prop}
    (hchange : ∀ {t d d'}, Change el selfSubmitFee t d d' → P d → P d')
    (hforced : ∀ {d : Deployed} (amount : Nat), P d →
      P { d with balance := d.balance + amount, forced := d.forced + amount })
    {d : Deployed} (hd : P d) (inputs : List (Nat × Input)) : P (d.run E el selfSubmitFee inputs) := by
  refine run_invariant P ?_ hd inputs
  intro d input hd
  obtain ⟨t, input⟩ := input
  cases input with
  | message m => exact changes_keep hchange (step_message_changes d t m) hd
  | forced amount => exact hforced amount hd

/-! ## Phases -/

/-- What the contract holds at a time, by the phase the election is in. -/
structure Phases (el : Election) (now : Nat) (d : Deployed) : Prop where
  cancelled : d.votes.cancelled = true → d.ballotRecords = [] ∧ d.votes.aggregatePublished = false ∧
    d.decryptionShares = [] ∧ d.resultFinalized = false ∧ d.tallyStalled = false
  ballots : ∀ r ∈ d.ballotRecords,
    el.votingStart ≤ r.submittedAt ∧ r.submittedAt < el.votingEnd ∧ r.submittedAt ≤ now
  opened : d.ballotRecords ≠ [] → d.votes.dkgFinalized = true ∧ el.votingStart ≤ now
  aggregated : d.votes.aggregatePublished = true → d.votes.dkgFinalized = true ∧ el.votingEnd ≤ now
  shared : d.decryptionShares ≠ [] → d.votes.aggregatePublished = true
  published : d.resultFinalized = true →
    d.votes.dkgFinalized = true ∧ el.votingEnd ≤ now ∧ d.electionResult.tally.length = el.numCandidates
  stalled : d.tallyStalled = true → el.votingEnd ≤ now

theorem Phases.later {now now' : Nat} {d : Deployed} (hle : now ≤ now') (h : Phases el now d) :
    Phases el now' d where
  cancelled := h.cancelled
  ballots r hr := ⟨(h.ballots r hr).1, (h.ballots r hr).2.1, (h.ballots r hr).2.2.trans hle⟩
  opened hne := ⟨(h.opened hne).1, (h.opened hne).2.trans hle⟩
  aggregated ha := ⟨(h.aggregated ha).1, (h.aggregated ha).2.trans hle⟩
  shared := h.shared
  published hp := ⟨(h.published hp).1, (h.published hp).2.1.trans hle, (h.published hp).2.2⟩
  stalled hs := (h.stalled hs).trans hle

/-- Before the voting starts there is nothing that a cancellation would have to take back. -/
theorem Phases.empty_of_early {now : Nat} {d : Deployed} (h : Phases el now d) (hearly : now < el.votingStart) :
    d.ballotRecords = [] ∧ d.votes.aggregatePublished = false ∧ d.decryptionShares = [] ∧
      d.resultFinalized = false ∧ d.tallyStalled = false := by
  have hend := el.start_lt_end
  have hballots : d.ballotRecords = [] := by
    by_contra hne
    have := (h.opened hne).2
    omega
  have haggregate : d.votes.aggregatePublished = false := by
    rw [← Bool.not_eq_true]
    intro ha
    have := (h.aggregated ha).2
    omega
  have hshares : d.decryptionShares = [] := by
    by_contra hne
    rw [h.shared hne] at haggregate
    cases haggregate
  refine ⟨hballots, haggregate, hshares, ?_, ?_⟩
  · rw [← Bool.not_eq_true]
    intro hp
    have := (h.published hp).2.1
    omega
  · rw [← Bool.not_eq_true]
    intro hs
    have := h.stalled hs
    omega

theorem Phases.fresh (now : Nat) : Phases el now {} where
  cancelled h := by cases h
  ballots r hr := by cases hr
  opened h := absurd rfl h
  aggregated h := by cases h
  shared h := absurd rfl h
  published h := by cases h
  stalled h := by cases h

theorem dkgFinalized_of_publishedKey {s s' : Storage} (h : s'.publishedKey = s.publishedKey) :
    s'.dkgFinalized = s.dkgFinalized := by
  unfold Storage.publishedKey at h
  cases hs : s.dkgFinalized <;> cases hs' : s'.dkgFinalized <;> simp_all

theorem Change.phases (hend : el.votingEnd < 2 ^ 64) {t : Nat} {d d' : Deployed}
    (hchange : Change el selfSubmitFee t d d') (h : Phases el t d) : Phases el t d' := by
  cases hchange with
  -- before the key is final nothing that comes after it is there
  | key live unfinished cancelled tally published =>
    have haggregate : d.votes.aggregatePublished ≠ true := fun ha =>
      absurd (h.aggregated ha).1 (by simp [unfinished])
    exact {
      cancelled := fun hc => absurd hc (by simp [cancelled])
      ballots := h.ballots
      opened := fun hne => absurd (h.opened hne).1 (by simp [unfinished])
      aggregated := fun ha => absurd (published.symm.trans ha) haggregate
      shared := fun hne => absurd (h.shared hne) haggregate
      published := fun hp => absurd (h.published hp).1 (by simp [unfinished])
      stalled := h.stalled }
  | aggregate live final closed unfinished cancelled key =>
    have hfinal := (dkgFinalized_of_publishedKey key).trans final
    exact {
      cancelled := fun hc => absurd hc (by simp [cancelled])
      ballots := h.ballots
      opened := fun hne => ⟨hfinal, (h.opened hne).2⟩
      aggregated := fun _ => ⟨hfinal, closed⟩
      shared := fun hne => absurd (h.shared hne) (by simp [unfinished])
      published := fun hp => ⟨hfinal, (h.published hp).2⟩
      stalled := h.stalled }
  | cancel live early =>
    exact { h with cancelled := fun _ => h.empty_of_early early }
  | @ballot sender value ballot live final started open_ fee =>
    -- the time of a ballot is narrowed to 64 bits, which changes nothing before the end
    have htime : t % 2 ^ 64 = t := Nat.mod_eq_of_lt (open_.trans hend)
    exact { h with
      cancelled := fun hc => absurd hc (by simp [live])
      ballots := by
        intro r hr
        rcases List.mem_append.mp hr with hr | hr
        · exact h.ballots r hr
        · rw [List.mem_singleton.mp hr, htime]
          exact ⟨started, open_, le_rfl⟩
      opened := fun _ => ⟨final, started⟩ }
  | share live final closed published stored =>
    exact { h with
      cancelled := fun hc => absurd hc (by simp [live, Deployed.withShares])
      shared := fun _ => published }
  | result live final closed sized =>
    exact { h with
      cancelled := fun hc => absurd hc (by simp [live])
      published := fun _ => ⟨final, closed, sized⟩ }
  | stalled live closed open_ =>
    exact { h with
      cancelled := fun hc => absurd hc (by simp [live])
      stalled := fun _ => closed }
  | cleared live =>
    exact { h with
      cancelled := fun hc => absurd hc (by simp [live])
      stalled := fun hs => by cases hs }
  | paid recipient => exact { h with }

/-- The phases hold in every state of every run. -/
theorem phases_run (hend : el.votingEnd < 2 ^ 64) {inputs : List (Nat × Input)} {now : Nat}
    (hordered : Ordered 0 inputs now) : Phases el now (Deployed.run E el selfSubmitFee {} inputs) :=
  run_keeps (P := Phases el) Phases.later (Change.phases hend) (fun _ h => { h with }) hordered (Phases.fresh 0)

end

/-! A key, a ballot, a withdrawal whose recipient votes while it is paid, and an aggregate. -/

namespace LifecycleSample
open SampleVotes PoisonSample

def voting : List (Nat × Input) :=
  [(10, .message (.committee [1] (.voteDKGResult (key 5).1 (key 5).2))),
    (11, .message (.committee [2] (.voteDKGResult (key 5).1 (key 5).2))),
    (150, .message (.submitVote [7] 3 false ballot)),
    (160, .message (.withdrawFees [5] [8] true [.submitVote [8] 3 false ballot] true))]

def tallying : List (Nat × Input) :=
  [(200, .message (.committee [1] (.submitAggregate (tally 8)))),
    (201, .message (.committee [3] (.submitAggregate (tally 8))))]

theorem voting_ordered : Ordered 0 voting 180 := by simp [Ordered, voting]

theorem tallying_ordered : Ordered 180 tallying 300 := by simp [Ordered, tallying]

end LifecycleSample

open SampleVotes ElGamalVoting.Contract.LifecycleSample in
theorem phases_of_sample :
    (Deployed.run lib election 3 {} voting).ballotRecords.length = 2 ∧
      Phases election 180 (Deployed.run lib election 3 {} voting) :=
  ⟨by decide +kernel, phases_run (by decide) voting_ordered⟩

section
variable {E : EvmLib} {el : Election} {selfSubmitFee : Nat}

/-! ## What is not taken back -/

/-- What every later state still has. -/
structure Grows (d d' : Deployed) : Prop where
  ballots : d.ballotRecords <+: d'.ballotRecords
  shares : d.decryptionShares <+: d'.decryptionShares
  key : ∀ key, d.votes.publishedKey = some key → d'.votes.publishedKey = some key
  aggregate : ∀ tally, d.votes.publishedAggregate = some tally → d'.votes.publishedAggregate = some tally
  cancelled : d.votes.cancelled = true → d'.votes = d.votes
  result : d.resultFinalized = true → d'.resultFinalized = true
  paid : d.paidOut <+: d'.paidOut

theorem Grows.refl (d : Deployed) : Grows d d where
  ballots := List.prefix_refl _
  shares := List.prefix_refl _
  key _ h := h
  aggregate _ h := h
  cancelled _ := rfl
  result h := h
  paid := List.prefix_refl _

theorem Grows.trans {d₁ d₂ d₃ : Deployed} (h₁ : Grows d₁ d₂) (h₂ : Grows d₂ d₃) : Grows d₁ d₃ where
  ballots := h₁.ballots.trans h₂.ballots
  shares := h₁.shares.trans h₂.shares
  key k h := h₂.key k (h₁.key k h)
  aggregate t h := h₂.aggregate t (h₁.aggregate t h)
  cancelled h := by rw [h₂.cancelled (by rwa [h₁.cancelled h]), h₁.cancelled h]
  result h := h₂.result (h₁.result h)
  paid := h₁.paid.trans h₂.paid

theorem Grows.dkgFinalized {d d' : Deployed} (h : Grows d d') (hfinal : d.votes.dkgFinalized = true) :
    d'.votes.dkgFinalized = true := by
  have hpublished := h.key (d.votes.electionPublicKey, d.votes.committeePublicKeys)
    (by rw [Storage.publishedKey, if_pos hfinal])
  by_contra hnot
  rw [Storage.publishedKey, if_neg hnot] at hpublished
  cases hpublished

theorem Change.grows {t : Nat} {d d' : Deployed} (h : Change el selfSubmitFee t d d') : Grows d d' := by
  cases h with
  | key live unfinished cancelled tally published =>
    exact { Grows.refl d with
      key := fun k hk => by simp [Storage.publishedKey, unfinished] at hk
      aggregate := fun agg hagg => by rwa [publishedAggregate_eq, published, tally, ← publishedAggregate_eq]
      cancelled := fun hc => absurd hc (by simp [live]) }
  | aggregate live final closed unfinished cancelled key =>
    exact { Grows.refl d with
      key := fun k hk => key.trans hk
      aggregate := fun agg hagg => by simp [publishedAggregate_eq, unfinished] at hagg
      cancelled := fun hc => absurd hc (by simp [live]) }
  | cancel live early =>
    exact { Grows.refl d with cancelled := fun hc => absurd hc (by simp [live]) }
  | ballot live final started open_ fee => exact { Grows.refl d with ballots := List.prefix_append _ _ }
  | share live final closed published stored =>
    refine { Grows.refl d with shares := ?_ }
    rw [stored.after]
    exact List.prefix_append _ _
  | result live final closed sized => exact { Grows.refl d with result := fun _ => rfl }
  | stalled live closed open_ => exact { Grows.refl d with }
  | cleared live => exact { Grows.refl d with }
  | paid recipient => exact { Grows.refl d with paid := List.prefix_append _ _ }

theorem grows_run (d : Deployed) (inputs : List (Nat × Input)) : Grows d (d.run E el selfSubmitFee inputs) :=
  run_keeps_always (P := fun d' => Grows d d') (fun hchange h => h.trans hchange.grows)
    (fun _ h => h.trans { Grows.refl _ with }) (Grows.refl d) inputs

/-- From the end of the voting on, the list of ballots is closed. -/
theorem ballots_closed_run {d : Deployed} {now later : Nat} {inputs : List (Nat × Input)}
    (hclosed : el.votingEnd ≤ now) (hordered : Ordered now inputs later) :
    (d.run E el selfSubmitFee inputs).ballotRecords = d.ballotRecords := by
  refine (run_keeps (P := fun t d' => el.votingEnd ≤ t ∧ d'.ballotRecords = d.ballotRecords)
    (fun hle h => ⟨h.1.trans hle, h.2⟩) ?_ (fun _ h => h) hordered ⟨hclosed, rfl⟩).2
  intro t d' d'' hchange h
  cases hchange with
  | ballot live final started open_ fee => exact absurd h.1 (by omega)
  | _ => exact h

theorem aggregatePublished_of_some {s : Storage} {tally : EncryptedTally}
    (h : s.publishedAggregate = some tally) : s.aggregatePublished = true := by
  by_contra hnot
  rw [publishedAggregate_eq, if_neg hnot] at h
  cases h

/-- Once the committee has agreed on an aggregate, the election can neither be cancelled nor get another
    ballot, key or aggregate: what was agreed on is about all the ballots there will be. -/
theorem aggregate_covers_all_ballots (hend : el.votingEnd < 2 ^ 64) {before after : List (Nat × Input)}
    {now : Nat} (hordered : Ordered 0 (before ++ after) now) {tally : EncryptedTally}
    (htally : (Deployed.run E el selfSubmitFee {} before).votes.publishedAggregate = some tally) :
    (Deployed.run E el selfSubmitFee {} (before ++ after)).votes.publishedAggregate = some tally ∧
      (Deployed.run E el selfSubmitFee {} (before ++ after)).votes.publishedKey =
        (Deployed.run E el selfSubmitFee {} before).votes.publishedKey ∧
      (Deployed.run E el selfSubmitFee {} (before ++ after)).ballotRecords =
        (Deployed.run E el selfSubmitFee {} before).ballotRecords ∧
      (Deployed.run E el selfSubmitFee {} (before ++ after)).votes.cancelled = false := by
  have hend' : Phases el now (Deployed.run E el selfSubmitFee {} (before ++ after)) := phases_run hend hordered
  obtain ⟨between, hbefore, hafter⟩ := ordered_append.mp hordered
  have hphases : Phases el between (Deployed.run E el selfSubmitFee {} before) := phases_run hend hbefore
  rw [run_append] at hend' ⊢
  generalize Deployed.run E el selfSubmitFee {} before = d at htally hphases hend' ⊢
  have hgrows : Grows d (d.run E el selfSubmitFee after) := grows_run d after
  have hpublished := aggregatePublished_of_some htally
  obtain ⟨hfinal, hclosed⟩ := hphases.aggregated hpublished
  have hkey : d.votes.publishedKey = some (d.votes.electionPublicKey, d.votes.committeePublicKeys) := by
    rw [Storage.publishedKey, if_pos hfinal]
  refine ⟨hgrows.aggregate tally htally, ?_, ballots_closed_run hclosed hafter, ?_⟩
  · exact (hgrows.key _ hkey).trans hkey.symm
  · rw [← Bool.not_eq_true]
    intro hcancelled
    have hpublished' := aggregatePublished_of_some (hgrows.aggregate tally htally)
    rw [(hend'.cancelled hcancelled).2.1] at hpublished'
    cases hpublished'

end

open SampleVotes ElGamalVoting.Contract.LifecycleSample in
theorem aggregate_covers_sample :
    (Deployed.run lib election 3 {} (voting ++ tallying)).votes.publishedAggregate = some (tally 8) ∧
      ∀ after now, Ordered 300 after now →
        (Deployed.run lib election 3 {} ((voting ++ tallying) ++ after)).ballotRecords =
          (Deployed.run lib election 3 {} (voting ++ tallying)).ballotRecords := by
  have htally : (Deployed.run lib election 3 {} (voting ++ tallying)).votes.publishedAggregate =
      some (tally 8) := by decide +kernel
  refine ⟨htally, ?_⟩
  intro after now hafter
  have hordered : Ordered 0 ((voting ++ tallying) ++ after) now :=
    ordered_append.mpr ⟨300, ordered_append.mpr ⟨180, voting_ordered, tallying_ordered⟩, hafter⟩
  exact (aggregate_covers_all_ballots (by decide) hordered htally).2.2.1

section
variable {E : EvmLib} {el : Election} {selfSubmitFee : Nat}

/-! ## Ether -/

/-- Every ballot came with nothing or with the fee, and what came in is still there or was paid out. -/
structure Ledger (selfSubmitFee : Nat) (d : Deployed) : Prop where
  counted : d.fees.length = d.ballotRecords.length
  fee : ∀ value ∈ d.fees, value = 0 ∨ value = selfSubmitFee
  conserved : d.balance + (d.paidOut.map Prod.snd).sum = d.fees.sum + d.forced

theorem Change.ledger {t : Nat} {d d' : Deployed} (hchange : Change el selfSubmitFee t d d')
    (h : Ledger selfSubmitFee d) : Ledger selfSubmitFee d' := by
  cases hchange with
  | @ballot sender value ballot live final started open_ fee =>
    have hconserved := h.conserved
    refine ⟨?_, ?_, ?_⟩
    · rw [List.length_append, List.length_append, h.counted]
      rfl
    · intro v hv
      rcases List.mem_append.mp hv with hv | hv
      · exact h.fee v hv
      · rw [List.mem_singleton.mp hv]
        exact fee
    · show d.balance + value + (d.paidOut.map Prod.snd).sum = (d.fees ++ [value]).sum + d.forced
      rw [List.sum_append, List.sum_singleton]
      omega
  | paid recipient =>
    have hconserved := h.conserved
    refine { h with conserved := ?_ }
    show 0 + ((d.paidOut ++ [(recipient, d.balance)]).map Prod.snd).sum = d.fees.sum + d.forced
    rw [List.map_append, List.sum_append, List.map_singleton, List.sum_singleton]
    omega
  | _ => exact { h with }

/-- No ether is made or lost, whoever withdraws and whatever the recipient sends back meanwhile. -/
theorem ether_conserved_run (inputs : List (Nat × Input)) :
    Ledger selfSubmitFee (Deployed.run E el selfSubmitFee {} inputs) := by
  refine run_keeps_always (P := Ledger selfSubmitFee) Change.ledger ?_ ⟨rfl, by simp, rfl⟩ inputs
  intro d amount h
  have hconserved := h.conserved
  refine { h with conserved := ?_ }
  show d.balance + amount + (d.paidOut.map Prod.snd).sum = d.fees.sum + (d.forced + amount)
  omega

/-! ## The index by pseudonym -/

/-- The ballots under a pseudonym, in the order they came. -/
def Deployed.ballotsOf (d : Deployed) (pseudonym : Bytes) : List BallotRecord :=
  d.ballotRecords.filter fun r => r.ballot.pseudonym = pseudonym

/-- The index of a pseudonym is zero without a ballot, and else one more than the place of the last. -/
def Indexed (d : Deployed) : Prop :=
  ∀ pseudonym, (d.ballotIndexPlusOneByPseudonym pseudonym = 0 ∧ d.ballotsOf pseudonym = []) ∨
    ∃ k r, d.ballotIndexPlusOneByPseudonym pseudonym = k + 1 ∧ d.ballotRecords[k]? = some r ∧
      (d.ballotsOf pseudonym).getLast? = some r

theorem Change.indexed {t : Nat} {d d' : Deployed} (hchange : Change el selfSubmitFee t d d')
    (h : Indexed d) : Indexed d' := by
  cases hchange with
  | @ballot sender value ballot live final started open_ fee =>
    intro pseudonym
    by_cases hsame : ballot.pseudonym = pseudonym
    · refine .inr ⟨d.ballotRecords.length, ⟨ballot, t % 2 ^ 64, sender⟩, ?_, ?_, ?_⟩
      · rw [← hsame]
        exact Function.update_self _ _ _
      · exact List.getElem?_concat_length
      · simp [Deployed.ballotsOf, List.filter_append, hsame]
    · have hballots : ∀ d' : Deployed, d'.ballotRecords = d.ballotRecords ++ [⟨ballot, t % 2 ^ 64, sender⟩] →
          d'.ballotsOf pseudonym = d.ballotsOf pseudonym := by
        intro d' hd'
        simp [Deployed.ballotsOf, hd', List.filter_append, hsame]
      rcases h pseudonym with ⟨hindex, hnone⟩ | ⟨k, r, hindex, hr, hlast⟩
      · refine .inl ⟨?_, (hballots _ rfl).trans hnone⟩
        exact (Function.update_of_ne (Ne.symm hsame) _ _).trans hindex
      · refine .inr ⟨k, r, (Function.update_of_ne (Ne.symm hsame) _ _).trans hindex, ?_, ?_⟩
        · obtain ⟨hk, -⟩ := List.getElem?_eq_some_iff.mp hr
          exact (List.getElem?_append_left hk).trans hr
        · rw [hballots _ rfl]
          exact hlast
  | _ => exact h

/-- `getBallot` returns the latest ballot under a pseudonym, and reverts exactly when there is none. -/
theorem getBallot_latest (inputs : List (Nat × Input)) (pseudonym : Bytes) :
    ((Deployed.run E el selfSubmitFee {} inputs).getBallot pseudonym = .error (.ballotNotFound pseudonym) ∧
      (Deployed.run E el selfSubmitFee {} inputs).ballotsOf pseudonym = []) ∨
    ∃ r, (Deployed.run E el selfSubmitFee {} inputs).getBallot pseudonym = .ok r ∧
      ((Deployed.run E el selfSubmitFee {} inputs).ballotsOf pseudonym).getLast? = some r := by
  have h : Indexed (Deployed.run E el selfSubmitFee {} inputs) :=
    run_keeps_always (P := Indexed) Change.indexed (fun _ h => h) (fun _ => .inl ⟨rfl, rfl⟩) inputs
  rcases h pseudonym with ⟨hindex, hnone⟩ | ⟨k, r, hindex, hr, hlast⟩
  · exact .inl ⟨by rw [Deployed.getBallot, if_pos hindex], hnone⟩
  · refine .inr ⟨r, ?_, hlast⟩
    rw [Deployed.getBallot, if_neg (by omega), hindex, Nat.add_sub_cancel, hr]

/-! ## The derived state -/

/-- What the services read of the contract to derive the election's state. -/
def Deployed.facts (d : Deployed) : StateFacts where
  cancelled := d.votes.cancelled
  keyFinalized := d.votes.dkgFinalized
  resultPublished := d.resultFinalized
  tallyStalled := d.tallyStalled

end

end ElGamalVoting.Contract
