import ElGamalVoting.Services.Coordinator

/- The attempt budget of the tally loop.

   The coordinator counts the failed attempts of each phase in memory, and the data
   layer keeps the stall flag. A pass that finds its counters used up takes that for
   an admin's retry and starts from zero: right if the stall it marked was persisted
   and cleared since, wrong if the mark was lost. A stall marked for the deadline
   leaves counters that are not used up, and the deadline stays passed. So the
   budget is what an admin's retry resets, and nothing else, in the runs where the
   mark of a used-up budget is accepted and no attempt fails after the deadline
   (`budget_kept`). -/
namespace ElGamalVoting
open Lib

/-- A scan's reading of the clock, and what the scan meets at the election. -/
structure Poll where
  now : Int
  dkg : DkgAnswer
  tally : TallyAnswers

/-- The call marks a stall of the election. -/
def Call.marksStall (call : Call) (electionId : Bytes) : Bool :=
  match call.write with
  | .tallyStalled electionId' stalled _ _ => electionId' = electionId ∧ stalled
  | _ => false

def ScanOutcome.isAbandoned : ScanOutcome → Bool
  | .tallyAbandoned _ _ _ => true
  | _ => false

/-- A poll of the coordinator, or a write of another party. Only the coordinator marks
    stalls: it alone holds the result publisher's key. -/
inductive TallyEvent (electionId : Bytes) where
  | poll (w : Poll)
  | write (call : Call) (hcall : call.marksStall electionId = false)

structure Driven where
  coordinator : AutoDKG := {}
  dl : InMemoryDataLayer

section
variable (E : EthLib) (P : CoordinatorSettings) (electionId : Bytes)

/-- What `scan_once` does for one election. -/
def scanElection (x : Driven) (w : Poll) : Pass :=
  if electionId ∈ x.coordinator.done then ⟨x.coordinator, x.dl, .complete⟩
  else if electionId ∈ x.coordinator.failed then ⟨x.coordinator, x.dl, .alreadyFailed⟩
  else match getElection x.dl electionId, getResult x.dl electionId with
    | .ok record, .ok result =>
      process E P x.coordinator x.dl electionId record result.isSome w.now w.dkg w.tally
    | _, _ => ⟨x.coordinator, x.dl, .error⟩

def TallyEvent.apply (x : Driven) : TallyEvent electionId → Driven
  | .poll w => ⟨(scanElection E P electionId x w).coordinator, (scanElection E P electionId x w).dl⟩
  | .write call _ => { x with dl := call.apply E x.dl }

def runEvents (x : Driven) (events : List (TallyEvent electionId)) : Driven :=
  events.foldl (TallyEvent.apply E P electionId) x

/-! ## Attempts and stalls -/

/-- The persisted flag. -/
def stalledIn (dl : InMemoryDataLayer) (electionId : Bytes) : Bool :=
  match dl.elections.get? electionId with
  | some st => st.tallyStalled
  | none => false

/-- The record with which a poll enters the tally loop, if it does. -/
def entersWith (x : Driven) (w : Poll) : Option ElectionRecord :=
  if electionId ∈ x.coordinator.done ∨ electionId ∈ x.coordinator.failed then none
  else match getElection x.dl electionId, getResult x.dl electionId with
    | .ok record, .ok result =>
      if scannedState record result.isSome w.now = .tallying ∧ missingUrls P record.config = false ∧
        w.tally.tokens = true then some record else none
    | _, _ => none

/-- The phase in which the loop finds the attempt failed. While a keyper is computing, the
    attempt has not failed, unless the deadline has passed. -/
def failedPhase (dl : InMemoryDataLayer) (config : ElectionConfig) (w : TallyAnswers) :
    Option TallyPhase :=
  let decrypt := if (w.finalized.run E dl electionId).2 = .ok false then some .decrypt else none
  match w.aggregate, w.aggregateAfter with
  | .ok true, _ => decrypt
  | .ok false, .ok true => decrypt
  | .ok false, .ok false =>
    if pastTallyDeadline P config w.clock ∨ w.statuses.any KeyperStatus.computing = false
    then some .aggregate else none
  | _, _ => none

/-- The phase in which the attempt of a poll fails. -/
def failsIn (x : Driven) (w : Poll) : Option TallyPhase :=
  (entersWith P electionId x w).bind fun record =>
    failedPhase E P electionId x.dl record.config w.tally

/-- The polls of a run whose attempt fails in the phase. -/
def failedPolls (phase : TallyPhase) : Driven → List (TallyEvent electionId) → Nat
  | _, [] => 0
  | x, .poll w :: events =>
    (if failsIn E P electionId x w = some phase then 1 else 0) +
      failedPolls phase (TallyEvent.apply E P electionId x (.poll w)) events
  | x, .write call hcall :: events =>
    failedPolls phase (TallyEvent.apply E P electionId x (.write call hcall)) events

/-- A poll that gives the tally up, and so tries to mark the stall. -/
def abandons (x : Driven) (w : Poll) : Bool :=
  (scanElection E P electionId x w).outcome.isAbandoned

/-- The write turns the persisted flag off. -/
def clears (x : Driven) (call : Call) : Bool :=
  stalledIn x.dl electionId ∧ stalledIn (call.apply E x.dl) electionId = false

def TallyAttempts.count (att : TallyAttempts) : TallyPhase → Nat
  | .aggregate => att.agg
  | .decrypt => att.dec

/-- After the clear of a persisted stall, a phase has its full number of failed polls before
    the stall is marked again. -/
def FreshBudget (x : Driven) (events : List (TallyEvent electionId)) : Prop :=
  ∀ before call hcall between w after,
    events = before ++ .write call hcall :: (between ++ .poll w :: after) →
    clears E electionId (runEvents E P electionId x before) call = true →
    abandons E P electionId
      (runEvents E P electionId x (before ++ .write call hcall :: between)) w = true →
    ∃ phase, P.maxTallyAttempts ≤ failedPolls E P electionId phase
      (runEvents E P electionId x (before ++ [.write call hcall])) (between ++ [.poll w])

/-- Once an attempt has used up the budget of its phase, and until a clear, every poll finds
    the stall persisted or marks it, and keeps the counters. -/
def NoSecondBudget (x : Driven) (events : List (TallyEvent electionId)) : Prop :=
  ∀ before w between w' after,
    events = before ++ .poll w :: (between ++ .poll w' :: after) →
    failsIn E P electionId (runEvents E P electionId x before) w ≠ none →
    ((runEvents E P electionId x (before ++ [.poll w])).coordinator.attemptsOf electionId).exhausted P
      = true →
    (∀ first call hcall rest, between = first ++ .write call hcall :: rest →
      clears E electionId (runEvents E P electionId x (before ++ .poll w :: first)) call = false) →
    let y := runEvents E P electionId x (before ++ .poll w :: between)
    (stalledIn y.dl electionId = true ∨ abandons E P electionId y w' = true) ∧
      (scanElection E P electionId y w').coordinator.attemptsOf electionId =
        y.coordinator.attemptsOf electionId

/-- The attempt fails when the deadline has passed. -/
def failsLate (x : Driven) (w : Poll) : Bool :=
  match entersWith P electionId x w with
  | some record => failsIn E P electionId x w ≠ none ∧ pastTallyDeadline P record.config w.tally.clock
  | none => false

/-- The attempt fails, and it is the last of its phase. -/
def failsLast (x : Driven) (w : Poll) : Bool :=
  match failsIn E P electionId x w with
  | some phase =>
    P.maxTallyAttempts ≤ ((x.coordinator.attemptsOf electionId).resumed P).count phase + 1
  | none => false

/-- What a poll needs: its attempt does not fail after the deadline, and if it fails as the
    last of its phase, the data layer accepts the mark. -/
def PollKept (x : Driven) : TallyEvent electionId → Prop
  | .poll w => failsLate E P electionId x w = false ∧ (failsLast E P electionId x w = true →
      stalledIn (markTallyStalled E x.dl electionId w.tally.mark) electionId = true)
  | .write _ _ => True

end

variable {E : EthLib} {P : CoordinatorSettings} {electionId : Bytes} {x : Driven} {w : Poll}
  {dl : InMemoryDataLayer} {call : Call} {record : ElectionRecord}

/-! ## The flag -/

/-- No write but a mark turns the flag on. -/
theorem stalledIn_of_apply (hcall : call.marksStall electionId = false)
    (h : stalledIn (call.apply E dl) electionId = true) : stalledIn dl electionId = true := by
  rw [Call.apply] at h
  split at h
  · rename_i dl' hperform
    rcases Call.perform_cases hperform with ⟨config, -, -, -, -, -, rfl⟩ | hchange
    · rw [stalledIn, putStored] at h
      simp only [Dict.get?_set] at h
      by_cases hid : electionId = config.electionId
      · simp [hid] at h
      · rwa [if_neg hid] at h
    · rcases hchange with ⟨id, st, st', hst, hstep, rfl⟩ | rfl
      · rw [stalledIn, putStored] at h
        simp only [Dict.get?_set] at h
        by_cases hid : electionId = id
        · subst hid
          rw [if_pos rfl] at h
          have hkept : st.tallyStalled = true := by
            cases hstep with
            | tallyStalled stalled sig payload issuedAt hwrite =>
              obtain rfl : stalled = true := h
              simp [Call.marksStall, hwrite] at hcall
            | _ => exact h
          simpa [stalledIn, hst] using hkept
        · rwa [if_neg hid] at h
      · exact h
  · exact h

/-- Nothing `finalize` does turns the flag on. -/
theorem stalledIn_of_run (answer : FinalizeAnswer)
    (h : stalledIn (answer.run E dl electionId).1 electionId = true) :
    stalledIn dl electionId = true := by
  cases answer with
  | raised e => exact h
  | tooFew => exact h
  | publish result sig =>
    let call : Call := ⟨0, 0, .result electionId result sig⟩
    have hcall : stalledIn (call.apply E dl) electionId = true := by
      simp only [FinalizeAnswer.run] at h
      rw [Call.apply, Call.perform]
      split at h <;> rename_i hpublish <;> simpa [call, hpublish] using h
    exact stalledIn_of_apply rfl hcall
  | existing =>
    simp only [FinalizeAnswer.run] at h
    split at h <;> exact h

/-! ## One poll -/

@[simp] theorem attemptsOf_pass (c : AutoDKG) (att : TallyAttempts) (outcome : ScanOutcome) :
    (c.pass electionId att dl outcome).coordinator.attemptsOf electionId = att := by
  simp [AutoDKG.pass, AutoDKG.attemptsOf, Dict.get?_set_self]

def TallyAttempts.bump (att : TallyAttempts) : TallyPhase → TallyAttempts
  | .aggregate => { att with agg := att.agg + 1 }
  | .decrypt => { att with dec := att.dec + 1 }

/-- Everything the loop can do, from the counters it starts with. -/
inductive LoopEffect (E : EthLib) (P : CoordinatorSettings) (electionId : Bytes)
    (dl : InMemoryDataLayer) (config : ElectionConfig) (att : TallyAttempts) (w : TallyAnswers)
    (y : Pass) : Prop
  | waiting (hfails : failedPhase E P electionId dl config w = none)
      (hatt : y.coordinator.attemptsOf electionId = att)
      (hflag : stalledIn y.dl electionId = true → stalledIn dl electionId = true)
      (hout : y.outcome.isAbandoned = false)
  | late (phase : TallyPhase) (hfails : failedPhase E P electionId dl config w = some phase)
      (hlate : pastTallyDeadline P config w.clock = true)
      (hatt : y.coordinator.attemptsOf electionId = att)
      (hdl : y.dl = markTallyStalled E dl electionId w.mark)
      (hout : y.outcome.isAbandoned = true)
  | counted (phase : TallyPhase) (hfails : failedPhase E P electionId dl config w = some phase)
      (hlate : pastTallyDeadline P config w.clock = false)
      (hatt : y.coordinator.attemptsOf electionId = att.bump phase)
      (hroom : att.count phase + 1 < P.maxTallyAttempts)
      (hdl : y.dl = dl)
      (hout : y.outcome.isAbandoned = false)
  | last (phase : TallyPhase) (hfails : failedPhase E P electionId dl config w = some phase)
      (hlate : pastTallyDeadline P config w.clock = false)
      (hatt : y.coordinator.attemptsOf electionId = att.bump phase)
      (hlast : P.maxTallyAttempts ≤ att.count phase + 1)
      (hdl : y.dl = markTallyStalled E dl electionId w.mark)
      (hout : y.outcome.isAbandoned = true)

section
variable {c : AutoDKG} {config : ElectionConfig} {att : TallyAttempts} {w : TallyAnswers}

theorem decryptPhase_effect
    (hphase : failedPhase E P electionId dl config w =
      if (w.finalized.run E dl electionId).2 = .ok false then some .decrypt else none) :
    LoopEffect E P electionId dl config att w (decryptPhase E P c dl electionId config att w) := by
  rw [decryptPhase]
  split
  · rename_i dl' e hrun
    have hfails : failedPhase E P electionId dl config w = none := by rw [hphase, hrun]; rfl
    refine .waiting hfails (attemptsOf_pass _ _ _) ?_ rfl
    intro hflag
    exact stalledIn_of_run w.finalized (by rw [hrun]; exact hflag)
  · rename_i dl' hrun
    have hfails : failedPhase E P electionId dl config w = none := by rw [hphase, hrun]; rfl
    refine .waiting hfails (attemptsOf_pass _ _ _) ?_ rfl
    intro hflag
    exact stalledIn_of_run w.finalized (by rw [hrun]; exact hflag)
  · rename_i dl' hrun
    have hfails : failedPhase E P electionId dl config w = some .decrypt := by
      rw [hphase, hrun]
      rfl
    obtain rfl := store_of_too_few hrun
    split
    · rename_i hlate
      exact .late .decrypt hfails hlate (attemptsOf_pass _ _ _) rfl rfl
    · rename_i hlate
      dsimp only
      split
      · rename_i hlast
        exact .last .decrypt hfails (by simpa using hlate) (attemptsOf_pass _ _ _) hlast rfl rfl
      · rename_i hroom
        exact .counted .decrypt hfails (by simpa using hlate) (attemptsOf_pass _ _ _)
          (Nat.lt_of_not_le hroom) rfl rfl

theorem withoutAggregate_effect
    (hphase : failedPhase E P electionId dl config w =
      if pastTallyDeadline P config w.clock ∨ w.statuses.any KeyperStatus.computing = false
      then some .aggregate else none) :
    LoopEffect E P electionId dl config att w
      (withoutAggregate E P c dl electionId config att w) := by
  rw [withoutAggregate]
  split
  · rename_i hlate
    have hfails : failedPhase E P electionId dl config w = some .aggregate := by
      rw [hphase, if_pos (.inl hlate)]
    exact .late .aggregate hfails hlate (attemptsOf_pass _ _ _) rfl rfl
  · rename_i hlate
    split
    · rename_i hcomputing
      have hfails : failedPhase E P electionId dl config w = none := by
        rw [hphase, if_neg (by simp [hlate, hcomputing])]
      exact .waiting hfails (attemptsOf_pass _ _ _) (fun h => h) rfl
    · rename_i hcomputing
      have hfails : failedPhase E P electionId dl config w = some .aggregate := by
        rw [hphase, if_pos (.inr (by simpa using hcomputing))]
      -- divergent and unreachable keypers are counted alike
      split <;> dsimp only <;> split
      · rename_i hlast
        exact .last .aggregate hfails (by simpa using hlate) (attemptsOf_pass _ _ _) hlast rfl rfl
      · rename_i hroom
        exact .counted .aggregate hfails (by simpa using hlate) (attemptsOf_pass _ _ _)
          (Nat.lt_of_not_le hroom) rfl rfl
      · rename_i hlast
        exact .last .aggregate hfails (by simpa using hlate) (attemptsOf_pass _ _ _) hlast rfl rfl
      · rename_i hroom
        exact .counted .aggregate hfails (by simpa using hlate) (attemptsOf_pass _ _ _)
          (Nat.lt_of_not_le hroom) rfl rfl

theorem driveTally_effect (hurls : missingUrls P config = false) (htokens : w.tokens = true) :
    LoopEffect E P electionId dl config ((c.attemptsOf electionId).resumed P) w
      (driveTally E P c dl electionId config w) := by
  rw [driveTally, if_neg (by simp [hurls]), if_neg (by simp [htokens])]
  simp only
  split
  · rename_i e hagg
    have hfails : failedPhase E P electionId dl config w = none := by simp [failedPhase, hagg]
    exact .waiting hfails (attemptsOf_pass _ _ _) (fun h => h) rfl
  · rename_i hagg
    exact decryptPhase_effect (by simp [failedPhase, hagg])
  · rename_i hagg
    split
    · rename_i e hafter
      have hfails : failedPhase E P electionId dl config w = none := by
        simp [failedPhase, hagg, hafter]
      exact .waiting hfails (attemptsOf_pass _ _ _) (fun h => h) rfl
    · rename_i hafter
      exact decryptPhase_effect (by simp [failedPhase, hagg, hafter])
    · rename_i hafter
      exact withoutAggregate_effect (by simp [failedPhase, hagg, hafter])

end

theorem stalledIn_of_tallying {resultPublished : Bool} {now : Int}
    (hrecord : getElection dl electionId = .ok record)
    (h : scannedState record resultPublished now = .tallying) : stalledIn dl electionId = false := by
  obtain ⟨st, hst, hrecord⟩ := bind_eq_ok.mp hrecord
  obtain ⟨key, -, hrecord⟩ := bind_eq_ok.mp hrecord
  cases hrecord
  rw [stalledIn, getStored_eq_ok.mp hst]
  by_contra hstalled
  have hstalled : st.tallyStalled = true := by simpa using hstalled
  rw [scannedState, deriveState] at h
  simp only [hstalled] at h
  split_ifs at h

/-- Outside the loop, `_process` leaves the counters and the store. -/
theorem process_outside {c : AutoDKG} {resultPublished : Bool} {now : Int} {dkg : DkgAnswer}
    {tally : TallyAnswers} (h : ¬ (scannedState record resultPublished now = .tallying ∧
      missingUrls P record.config = false ∧ tally.tokens = true)) :
    (process E P c dl electionId record resultPublished now dkg tally).coordinator.attemptsOf
        electionId = c.attemptsOf electionId ∧
      (process E P c dl electionId record resultPublished now dkg tally).dl = dl ∧
      (process E P c dl electionId record resultPublished now dkg tally).outcome.isAbandoned
        = false := by
  rw [process]
  split
  · exact ⟨rfl, rfl, rfl⟩
  · exact ⟨rfl, rfl, rfl⟩
  · rw [driveDkg]
    dsimp only
    split
    · exact ⟨rfl, rfl, rfl⟩
    split
    · exact ⟨rfl, rfl, rfl⟩
    split <;> exact ⟨rfl, rfl, rfl⟩
  · rename_i hstate
    rw [driveTally]
    split
    · exact ⟨rfl, rfl, rfl⟩
    · rename_i hurls
      rw [if_pos fun htokens => h ⟨hstate, by simpa using hurls, htokens⟩]
      exact ⟨rfl, rfl, rfl⟩
  · exact ⟨rfl, rfl, rfl⟩
  · exact ⟨rfl, rfl, rfl⟩

/-- A poll stays out of the loop, or enters it with the flag off. -/
theorem scan_effect (E : EthLib) (P : CoordinatorSettings) (electionId : Bytes) (x : Driven) (w : Poll) :
    (entersWith P electionId x w = none ∧
      (scanElection E P electionId x w).coordinator.attemptsOf electionId =
        x.coordinator.attemptsOf electionId ∧
      (scanElection E P electionId x w).dl = x.dl ∧ abandons E P electionId x w = false) ∨
    ∃ record, entersWith P electionId x w = some record ∧ stalledIn x.dl electionId = false ∧
      LoopEffect E P electionId x.dl record.config
        ((x.coordinator.attemptsOf electionId).resumed P) w.tally (scanElection E P electionId x w) := by
  rw [abandons, scanElection, entersWith]
  by_cases hdone : electionId ∈ x.coordinator.done
  · exact .inl ⟨if_pos (.inl hdone), by simp [hdone, ScanOutcome.isAbandoned]⟩
  by_cases hfailed : electionId ∈ x.coordinator.failed
  · exact .inl ⟨if_pos (.inr hfailed), by simp [hdone, hfailed, ScanOutcome.isAbandoned]⟩
  rw [if_neg hdone, if_neg hfailed, if_neg (by tauto)]
  split
  · rename_i record result hrecord hresult
    by_cases henter : scannedState record result.isSome w.now = .tallying ∧
      missingUrls P record.config = false ∧ w.tally.tokens = true
    · refine .inr ⟨record, if_pos henter, ?_, ?_⟩
      · exact stalledIn_of_tallying hrecord henter.1
      · rw [process, henter.1]
        exact driveTally_effect henter.2.1 henter.2.2
    · refine .inl ⟨if_neg henter, ?_⟩
      exact process_outside henter
  · exact .inl ⟨rfl, rfl, rfl, rfl⟩

/-! ## Runs -/

theorem resumed_empty : TallyAttempts.resumed P {} = {} := by
  rw [TallyAttempts.resumed]
  split <;> rfl

theorem resumed_count_le (att : TallyAttempts) (phase : TallyPhase) :
    (att.resumed P).count phase ≤ att.count phase := by
  rw [TallyAttempts.resumed]
  split
  · cases phase <;> exact Nat.zero_le _
  · exact le_rfl

theorem bump_count (att : TallyAttempts) (phase phase' : TallyPhase) :
    (att.bump phase).count phase' = att.count phase' + if phase = phase' then 1 else 0 := by
  cases phase <;> cases phase' <;> rfl

theorem exhausted_of_count {att : TallyAttempts} {phase : TallyPhase}
    (h : P.maxTallyAttempts ≤ att.count phase) : att.exhausted P = true := by
  cases phase with
  | aggregate => exact decide_eq_true (.inl h)
  | decrypt => exact decide_eq_true (.inr h)

/-- Counting one more attempt than the last leaves nothing to resume from. -/
theorem resumed_bump {att : TallyAttempts} {phase : TallyPhase}
    (h : P.maxTallyAttempts ≤ att.count phase + 1) : (att.bump phase).resumed P = {} := by
  have hcount : P.maxTallyAttempts ≤ (att.bump phase).count phase := by
    rwa [bump_count, if_pos rfl]
  rw [TallyAttempts.resumed, exhausted_of_count hcount]
  rfl

theorem not_exhausted_bump {att : TallyAttempts} {phase : TallyPhase}
    (h : (att.resumed P).count phase + 1 < P.maxTallyAttempts) :
    ((att.resumed P).bump phase).exhausted P = false := by
  have hpos : 0 < P.maxTallyAttempts := by omega
  have hresumed : (att.resumed P).agg < P.maxTallyAttempts ∧
      (att.resumed P).dec < P.maxTallyAttempts := by
    rw [TallyAttempts.resumed]
    split
    · exact ⟨hpos, hpos⟩
    · rename_i hexhausted
      simpa [TallyAttempts.exhausted] using hexhausted
  have hnot : ¬ (P.maxTallyAttempts ≤ ((att.resumed P).bump phase).agg ∨
      P.maxTallyAttempts ≤ ((att.resumed P).bump phase).dec) := by
    cases phase with
    | aggregate =>
      have hagg : ((att.resumed P).bump .aggregate).agg = (att.resumed P).count .aggregate + 1 := rfl
      have hdec : ((att.resumed P).bump .aggregate).dec = (att.resumed P).dec := rfl
      omega
    | decrypt =>
      have hagg : ((att.resumed P).bump .decrypt).agg = (att.resumed P).agg := rfl
      have hdec : ((att.resumed P).bump .decrypt).dec = (att.resumed P).count .decrypt + 1 := rfl
      omega
  exact decide_eq_false hnot

/-- Where the flag is set, the next pass of the loop starts from zero. -/
def Settled (P : CoordinatorSettings) (electionId : Bytes) (x : Driven) : Prop :=
  stalledIn x.dl electionId = true → (x.coordinator.attemptsOf electionId).resumed P = {}

theorem failsIn_eq (hrecord : entersWith P electionId x w = some record) :
    failsIn E P electionId x w = failedPhase E P electionId x.dl record.config w.tally := by
  rw [failsIn, hrecord]
  rfl

theorem not_late (hrecord : entersWith P electionId x w = some record) {phase : TallyPhase}
    (hfails : failedPhase E P electionId x.dl record.config w.tally = some phase)
    (hkept : failsLate E P electionId x w = false) :
    pastTallyDeadline P record.config w.tally.clock = false := by
  rw [failsLate, hrecord] at hkept
  simpa [failsIn_eq hrecord, hfails] using hkept

theorem settled_apply (h : Settled P electionId x) (event : TallyEvent electionId)
    (hkept : PollKept E P electionId x event) :
    Settled P electionId (event.apply E P electionId x) := by
  cases event with
  | write call hcall => exact fun hflag => h (stalledIn_of_apply hcall hflag)
  | poll w =>
    intro hflag
    simp only [TallyEvent.apply] at hflag ⊢
    rcases scan_effect E P electionId x w with
      ⟨-, hatt, hdl, -⟩ | ⟨record, hrecord, hoff, heffect⟩
    · rw [hatt]
      exact h (hdl ▸ hflag)
    · cases heffect with
      | waiting _ _ hkeeps =>
        rw [hkeeps hflag] at hoff
        cases hoff
      | late phase hfails hlate =>
        rw [not_late hrecord hfails hkept.1] at hlate
        cases hlate
      | counted _ _ _ _ _ hdl =>
        rw [hdl, hoff] at hflag
        cases hflag
      | last phase _ _ hatt hlast =>
        rw [hatt]
        exact resumed_bump hlast

/-- A poll adds to the count of a phase only where its attempt fails in it. -/
theorem resumed_count_poll (x : Driven) (w : Poll) (phase : TallyPhase) :
    (((scanElection E P electionId x w).coordinator.attemptsOf electionId).resumed P).count phase ≤
      ((x.coordinator.attemptsOf electionId).resumed P).count phase +
        if failsIn E P electionId x w = some phase then 1 else 0 := by
  rcases scan_effect E P electionId x w with
    ⟨-, hatt, -, -⟩ | ⟨record, hrecord, -, heffect⟩
  · rw [hatt]
    exact Nat.le_add_right _ _
  · refine le_trans (resumed_count_le _ _) ?_
    rw [failsIn_eq hrecord]
    cases heffect with
    | waiting _ hatt => exact hatt ▸ Nat.le_add_right _ _
    | late _ _ _ hatt => exact hatt ▸ Nat.le_add_right _ _
    | counted phase' hfails _ hatt => simp [hatt, bump_count, hfails]
    | last phase' hfails _ hatt => simp [hatt, bump_count, hfails]

/-- A tally is given up only after the attempts of a phase: those counted before, and those
    that failed since. -/
theorem failedPolls_of_abandons {events : List (TallyEvent electionId)}
    (hlate : failsLate E P electionId (runEvents E P electionId x events) w = false)
    (habandons : abandons E P electionId (runEvents E P electionId x events) w = true) :
    ∃ phase, P.maxTallyAttempts ≤ ((x.coordinator.attemptsOf electionId).resumed P).count phase +
      failedPolls E P electionId phase x (events ++ [.poll w]) := by
  induction events generalizing x with
  | nil =>
    rcases scan_effect E P electionId x w with
      ⟨-, -, -, hout⟩ | ⟨record, hrecord, -, heffect⟩
    · cases habandons.symm.trans hout
    · cases heffect with
      | waiting _ _ _ hout => cases habandons.symm.trans hout
      | late phase hfails hpast => cases (not_late hrecord hfails hlate).symm.trans hpast
      | counted _ _ _ _ _ _ hout => cases habandons.symm.trans hout
      | last phase hfails _ _ hlast =>
        refine ⟨phase, ?_⟩
        rw [List.nil_append, failedPolls, if_pos ((failsIn_eq hrecord).trans hfails), failedPolls]
        exact hlast
  | cons event events ih =>
    obtain ⟨phase, hphase⟩ := ih hlate habandons
    refine ⟨phase, le_trans hphase ?_⟩
    cases event with
    | write call hcall => exact le_rfl
    | poll w' =>
      rw [List.cons_append, failedPolls, ← Nat.add_assoc]
      exact Nat.add_le_add_right (resumed_count_poll x w' phase) _

/-- While the flag is set and not cleared, nothing of the loop moves. -/
theorem stalled_run (hflag : stalledIn x.dl electionId = true)
    (events : List (TallyEvent electionId))
    (hclears : ∀ first call hcall rest, events = first ++ .write call hcall :: rest →
      clears E electionId (runEvents E P electionId x first) call = false) :
    stalledIn (runEvents E P electionId x events).dl electionId = true := by
  induction events generalizing x with
  | nil => exact hflag
  | cons event events ih =>
    have hnext : stalledIn (event.apply E P electionId x).dl electionId = true := by
      cases event with
      | write call hcall =>
        have h : clears E electionId x call = false := hclears [] call hcall events rfl
        show stalledIn (call.apply E x.dl) electionId = true
        simpa [clears, hflag] using h
      | poll w =>
        rcases scan_effect E P electionId x w with
          ⟨-, -, hdl, -⟩ | ⟨record, -, hoff, -⟩
        · show stalledIn (scanElection E P electionId x w).dl electionId = true
          rwa [hdl]
        · cases hflag.symm.trans hoff
    refine ih hnext fun first call hcall rest hsplit => ?_
    exact hclears (event :: first) call hcall rest (by rw [hsplit, List.cons_append])

/-- An attempt that uses up the budget of its phase leaves the stall persisted. -/
theorem stalled_of_exhausted (hkept : PollKept E P electionId x (.poll w))
    (hfails : failsIn E P electionId x w ≠ none)
    (hexhausted : ((scanElection E P electionId x w).coordinator.attemptsOf electionId).exhausted P
      = true) :
    stalledIn (scanElection E P electionId x w).dl electionId = true := by
  rcases scan_effect E P electionId x w with
    ⟨hnone, -⟩ | ⟨record, hrecord, -, heffect⟩
  · rw [failsIn, hnone] at hfails
    exact absurd rfl hfails
  · cases heffect with
    | waiting hnone => exact absurd ((failsIn_eq hrecord).trans hnone) hfails
    | late phase hphase hlate => cases (not_late hrecord hphase hkept.1).symm.trans hlate
    | counted phase _ _ hatt hroom =>
      rw [hatt, not_exhausted_bump hroom] at hexhausted
      cases hexhausted
    | last phase hphase _ _ hlast hdl =>
      have hfailsLast : failsLast E P electionId x w = true := by
        rw [failsLast, (failsIn_eq hrecord).trans hphase]
        exact decide_eq_true hlast
      rw [hdl]
      exact hkept.2 hfailsLast

/-- The budget of the tally loop is reset by an admin's retry and by nothing else, in every
    run whose failing polls are in time and whose last attempts have their mark accepted. -/
theorem budget_kept (E : EthLib) (P : CoordinatorSettings) (electionId : Bytes)
    (dl : InMemoryDataLayer) (events : List (TallyEvent electionId))
    (hkept : ∀ before event after, events = before ++ event :: after →
      PollKept E P electionId (runEvents E P electionId { dl := dl } before) event) :
    FreshBudget E P electionId { dl := dl } events ∧
      NoSecondBudget E P electionId { dl := dl } events := by
  have hsplit : ∀ x first rest, runEvents E P electionId x (first ++ rest) =
      runEvents E P electionId (runEvents E P electionId x first) rest :=
    fun x first rest => List.foldl_append
  refine ⟨?_, ?_⟩
  · intro before call hcall between w after hevents hclears habandons
    -- at the clear the flag is set, so the counters are used up or unused
    have hsettled : Settled P electionId (runEvents E P electionId { dl := dl } before) := by
      refine run_invariant_of (Settled P electionId) (Q := PollKept E P electionId)
        (fun x event h hq => settled_apply h event hq) (fun _ => resumed_empty) ?_
      intro first event rest hbefore
      refine hkept first event (rest ++ .write call hcall :: (between ++ .poll w :: after)) ?_
      rw [hevents, hbefore, List.append_assoc, List.cons_append]
    have hzero := hsettled (by simpa using (of_decide_eq_true hclears).1)
    have hlate := (hkept (before ++ .write call hcall :: between) (.poll w) after
      (by rw [hevents, List.append_assoc, List.cons_append])).1
    have happend : before ++ .write call hcall :: between =
        (before ++ [.write call hcall]) ++ between := by simp
    rw [happend, hsplit] at habandons hlate
    obtain ⟨phase, hphase⟩ := failedPolls_of_abandons hlate habandons
    refine ⟨phase, le_trans hphase ?_⟩
    have hcounters : (runEvents E P electionId { dl := dl } (before ++ [.write call hcall])).coordinator
        = (runEvents E P electionId { dl := dl } before).coordinator := by
      rw [hsplit]
      rfl
    rw [hcounters, hzero]
    cases phase <;> exact (Nat.zero_add _).le
  · intro before w between w' after hevents hfails hexhausted hclears
    have hpoll := hkept before (.poll w) (between ++ .poll w' :: after) hevents
    have happend : ∀ rest, runEvents E P electionId { dl := dl } (before ++ .poll w :: rest) =
        runEvents E P electionId (TallyEvent.apply E P electionId
          (runEvents E P electionId { dl := dl } before) (.poll w)) rest := by
      intro rest
      rw [hsplit]
      rfl
    rw [happend] at hexhausted
    have hstalled := stalled_of_exhausted hpoll hfails hexhausted
    have hrun := stalled_run hstalled between
      fun first call hcall rest hbetween => happend first ▸ hclears first call hcall rest hbetween
    intro y
    have hy : stalledIn y.dl electionId = true := by
      show stalledIn (runEvents E P electionId { dl := dl } (before ++ .poll w :: between)).dl _ = true
      rwa [happend]
    refine ⟨.inl hy, ?_⟩
    rcases scan_effect E P electionId y w' with
      ⟨-, hatt, -, -⟩ | ⟨record, -, hoff, -⟩
    · exact hatt
    · cases hy.symm.trans hoff

namespace TallyBudgetSample
open CoordinatorSample

/-- The election with the key of two keypers, which is its quorum. -/
def keyed : InMemoryDataLayer where
  elections := (∅ : Dict Bytes Stored).set config.electionId {
    config
    dkgByKeyper := ((∅ : Dict Int DKGResultSubmission).set 1 ⟨config.electionId, [7], [], []⟩).set 2
      ⟨config.electionId, [7], [], []⟩ }
  nextId := 1

def mark (delivered : Bool) (now : Int) : MarkRequest :=
  ⟨delivered, now, now,
    LifecycleSample.signedRequest [4] "tally_stall" (requestNoncePayload now), now⟩

/-- No keyper is reachable. -/
def unreachable (delivered : Bool) (now : Int) : TallyEvent config.electionId :=
  .poll ⟨now, .raised, ⟨true, .ok false, [.failed, .failed, .failed], .ok false, .tooFew, now,
    mark delivered now⟩⟩

def retry (now : Int) : TallyEvent config.electionId :=
  .write ⟨now, now, .tallyStalled config.electionId false
    (LifecycleSample.signedRequest [5] "tally_resume" (requestNoncePayload now)) now⟩ rfl

/-- Two attempts a phase: stalled, retried by the admin and stalled again. -/
theorem budget_kept_retry :
    FreshBudget plainEth { maxTallyAttempts := 2 } config.electionId { dl := keyed }
        [unreachable true 300, unreachable true 310, retry 320, unreachable true 330,
          unreachable true 340] ∧
      NoSecondBudget plainEth { maxTallyAttempts := 2 } config.electionId { dl := keyed }
        [unreachable true 300, unreachable true 310, retry 320, unreachable true 330,
          unreachable true 340] := by
  refine budget_kept plainEth { maxTallyAttempts := 2 } config.electionId keyed _ ?_
  refine inputs_cons ?_ <| inputs_cons ?_ <| inputs_cons trivial <| inputs_cons ?_ <|
    inputs_cons ?_ inputs_nil
  all_goals
    show _ = false ∧ (_ = true → _ = true)
    decide +kernel

/-- The mark of the fifth attempt is lost, and the sixth poll starts a new budget. After the
    deadline a retry has a single attempt. -/
theorem budget_not_kept :
    ¬ NoSecondBudget plainEth {} config.electionId { dl := keyed }
        [unreachable true 300, unreachable true 310, unreachable true 320, unreachable true 330,
          unreachable false 340, unreachable true 350] ∧
      ¬ FreshBudget plainEth {} config.electionId { dl := keyed }
        [unreachable true 30000, retry 30010, unreachable true 30020] := by
  refine ⟨?_, ?_⟩
  · intro h
    have hlost := h [unreachable true 300, unreachable true 310, unreachable true 320,
      unreachable true 330] _ [] _ [] rfl (by decide +kernel) (by decide +kernel)
      (fun first call hcall rest hnil => absurd hnil.symm
        (List.append_ne_nil_of_right_ne_nil _ (List.cons_ne_nil _ _)))
    exact absurd hlost (by decide +kernel)
  · intro h
    obtain ⟨phase, hphase⟩ := h [unreachable true 30000] _ _ [] _ [] rfl (by decide +kernel)
      (by decide +kernel)
    cases phase with
    | aggregate => exact absurd hphase (by decide +kernel)
    | decrypt => exact absurd hphase (by decide +kernel)

end TallyBudgetSample
end ElGamalVoting
