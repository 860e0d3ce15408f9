import ElGamalVoting.Services.Coordinator

/- What the coordinator's memory says about the data layer.

   `scan_once` reads the clock, then the records, and works on them one by one while
   keypers, voters and the admin go on writing. It skips for good what it once found
   complete or failed. Both stay so in the data layer: a result and a cancellation
   are never taken back, and an election that reached its voting start without a key
   gets none any more, as long as no DKG result for it is accepted then. Only a ceremony
   halted by a complaint is skipped whatever the data layer says
   (`skipped_is_closed`). -/
namespace ElGamalVoting
open Lib

/-- The coordinator between two of its accesses to the data layer: the scan's reading of the
    clock, the records it has read, and the election it works on with what `get_result` said. -/
structure ScanState where
  dl : InMemoryDataLayer := {}
  clock : Int
  coordinator : AutoDKG := {}
  now : Int
  pending : List (Bytes × ElectionRecord) := []
  current : Option (Bytes × ElectionRecord × Bool) := none
  /-- The elections whose ceremony ended in a complaint. -/
  halted : List Bytes := []

inductive ScanEvent where
  | write (call : Call)
  | tick (now : Int)
  /-- `scan_once` starts; what an earlier one had in hand is dropped. -/
  | scan
  | read (electionId : Bytes)
  | take (electionId : Bytes)
  | finish (dkg : DkgAnswer) (tally : TallyAnswers)

section
variable (E : EthLib) (P : CoordinatorSettings)

def ScanState.start (t : Int) : ScanState := { clock := t, now := t }

def ScanState.finish (s : ScanState) (electionId : Bytes) (record : ElectionRecord)
    (resultPublished : Bool) (dkg : DkgAnswer) (tally : TallyAnswers) : ScanState :=
  let y := process E P s.coordinator s.dl electionId record resultPublished s.now dkg tally
  { s with
    dl := y.dl
    coordinator := y.coordinator
    current := none
    halted := if y.outcome = .dkgComplaint then electionId :: s.halted else s.halted }

def ScanEvent.apply (s : ScanState) : ScanEvent → ScanState
  | .write call => { s with dl := call.apply E s.dl, clock := call.later }
  | .tick now => { s with clock := now }
  | .scan => { s with now := s.clock, pending := [], current := none }
  | .read electionId =>
    if electionId ∈ s.coordinator.done ∨ electionId ∈ s.coordinator.failed then s
    else match getElection s.dl electionId with
      | .ok record => { s with pending := s.pending ++ [(electionId, record)] }
      | .error _ => s
  | .take electionId =>
    match s.pending.find? fun p => p.1 = electionId with
    | none => s
    | some p =>
      match getResult s.dl p.1 with
      | .ok result => { s with
          pending := s.pending.filter fun q => q.1 ≠ p.1
          current := some (p.1, p.2, result.isSome) }
      | .error _ => { s with pending := s.pending.filter fun q => q.1 ≠ p.1 }
  | .finish dkg tally =>
    match s.current with
    | none => s
    | some (electionId, record, resultPublished) =>
      s.finish E P electionId record resultPublished dkg tally

def runScan (s : ScanState) (events : List ScanEvent) : ScanState :=
  events.foldl (ScanEvent.apply E P) s

/-- The clock does not go back. -/
def ScanEvent.Timely (s : ScanState) : ScanEvent → Prop
  | .write call => s.clock ≤ call.now ∧ call.now ≤ call.later
  | .tick now => s.clock ≤ now
  | _ => True

/-- No DKG result of the election is accepted once its DKG has failed. -/
def ScanEvent.Gated (electionId : Bytes) (s : ScanState) : ScanEvent → Prop
  | .write call => Returns (call.perform E s.dl) → ∀ pkElection committeePks keyperSig,
      call.write = .dkgResult electionId pkElection committeePks keyperSig →
      electionState (s.dl.reads E) electionId call.now ≠ .ok .dkgFailed
  | _ => True

/-- The states the coordinator leaves an election in for good. -/
def ElectionState.closed (state : ElectionState) : Bool :=
  state ∈ [.dkgFailed, .cancelled, .complete]

end

/-! ## Closed elections stay closed -/

variable {E : EthLib} {P : CoordinatorSettings} {dl : InMemoryDataLayer} {electionId : Bytes}
  {t t' : Int} {call : Call} {s : ScanState}

/-- Cancelled, with a result, or without a key at its voting start. -/
def Stored.Closed (st : Stored) (t : Int) : Prop :=
  st.cancelled = true ∨ st.result.isSome = true ∨
    finalizedKeyOf st = .ok none ∧ st.config.votingStart ≤ t

def ClosedIn (dl : InMemoryDataLayer) (electionId : Bytes) (t : Int) : Prop :=
  ∃ st, dl.elections.get? electionId = some st ∧ st.Closed t

theorem ClosedIn.later (h : ClosedIn dl electionId t) (hle : t ≤ t') : ClosedIn dl electionId t' := by
  obtain ⟨st, hst, hcancelled | hresult | ⟨hkey, hstart⟩⟩ := h
  · exact ⟨st, hst, .inl hcancelled⟩
  · exact ⟨st, hst, .inr (.inl hresult)⟩
  · exact ⟨st, hst, .inr (.inr ⟨hkey, by omega⟩)⟩

/-- What is closed has a closed state. -/
theorem ClosedIn.state (h : ClosedIn dl electionId t) (hok : dl.Ok E) :
    ∃ state, electionState (dl.reads E) electionId t = .ok state ∧ state.closed = true := by
  obtain ⟨st, hst, hclosed⟩ := h
  have hkey := finalizedKeyOf_ok (hok.records _ _ hst)
  refine ⟨_, electionState_eq hst hkey t, ?_⟩
  rw [deriveState]
  by_cases hcancelled : st.cancelled = true
  · simp [factsOf, hcancelled, ElectionState.closed]
  by_cases hresult : st.result.isSome = true
  · simp [factsOf, hcancelled, hresult, ElectionState.closed]
  obtain ⟨hnone, hstart⟩ := (hclosed.resolve_left hcancelled).resolve_left hresult
  rw [Except.ok.inj (hkey.symm.trans hnone)]
  simp [factsOf, hcancelled, hresult, hstart, ElectionState.closed]

/-- A call leaves a closed election closed, unless it is a DKG result that finds the DKG failed. -/
theorem ClosedIn.apply (h : ClosedIn dl electionId t) (hok : dl.Ok E)
    (hgate : Returns (call.perform E dl) → ∀ pkElection committeePks keyperSig,
      call.write = .dkgResult electionId pkElection committeePks keyperSig →
      electionState (dl.reads E) electionId t ≠ .ok .dkgFailed) :
    ClosedIn (call.apply E dl) electionId t := by
  obtain ⟨st, hst, hclosed⟩ := h
  obtain ⟨st', hst', rfl | hstep⟩ := hok.record hst call
  · exact ⟨_, hst', hclosed⟩
  · refine ⟨st', hst', ?_⟩
    cases hperform : call.perform E dl with
    | error e =>
      rw [Call.apply, hperform] at hst'
      cases hst.symm.trans hst'
      exact hclosed
    | ok dl' =>
      cases hstep with
      | cancel => exact .inl rfl
      | result => exact .inr (.inl rfl)
      | dkgResult pkElection committeePks keyperSig idx hwrite =>
        by_cases hcancelled : st.cancelled = true
        · exact .inl hcancelled
        by_cases hresult : st.result.isSome = true
        · exact .inr (.inl hresult)
        -- without a key at the voting start, the state is the one the gate excludes
        obtain ⟨hnone, hstart⟩ := (hclosed.resolve_left hcancelled).resolve_left hresult
        refine absurd ?_ (hgate ⟨dl', hperform⟩ pkElection committeePks keyperSig hwrite)
        rw [electionState_eq hst hnone, deriveState]
        simp [factsOf, hcancelled, hresult, hstart]
      | ballot => exact hclosed
      | aggregate => exact hclosed
      | decryptionShare => exact hclosed
      | tallyStalled => exact hclosed

/-! ## What a pass adds to the memory -/

/-- The pass changes the store by no write, or by one that is no DKG result. -/
def OwnWrite (E : EthLib) (dl dl' : InMemoryDataLayer) : Prop :=
  dl' = dl ∨ ∃ call : Call, dl' = call.apply E dl ∧
    ∀ electionId pkElection committeePks keyperSig,
      call.write ≠ .dkgResult electionId pkElection committeePks keyperSig

theorem OwnWrite.mark (mark : MarkRequest) :
    OwnWrite E dl (markTallyStalled E dl electionId mark) := by
  rw [markTallyStalled]
  split
  · exact .inr ⟨_, rfl, fun _ _ _ _ h => by cases h⟩
  · exact .inl rfl

theorem OwnWrite.run (E : EthLib) (dl : InMemoryDataLayer) (electionId : Bytes)
    (answer : FinalizeAnswer) : OwnWrite E dl (answer.run E dl electionId).1 := by
  cases answer with
  | raised e => exact .inl rfl
  | tooFew => exact .inl rfl
  | publish result sig =>
    refine .inr ⟨⟨0, 0, .result electionId result sig⟩, ?_, fun _ _ _ _ h => by cases h⟩
    simp only [FinalizeAnswer.run, Call.apply, Call.perform]
    cases publishResult E dl electionId result sig with
    | error e => rfl
    | ok dl' => rfl
  | existing =>
    simp only [FinalizeAnswer.run]
    split <;> exact .inl rfl

/-- `finalize` returns a result only when the store has it. -/
theorem result_of_run {answer : FinalizeAnswer} {dl' : InMemoryDataLayer}
    (h : answer.run E dl electionId = (dl', .ok true)) :
    ∃ st, dl'.elections.get? electionId = some st ∧ st.result.isSome = true := by
  cases answer with
  | raised e => cases h
  | tooFew => cases h
  | publish result sig =>
    simp only [FinalizeAnswer.run] at h
    split at h
    · rename_i dl'' hpublish
      cases h
      rw [publishResult] at hpublish
      obtain ⟨st, hst, hpublish⟩ := bind_eq_ok.mp hpublish
      obtain ⟨payload, -, hpublish⟩ := bind_eq_ok.mp hpublish
      split at hpublish
      · cases hpublish
      split at hpublish
      · rename_i existing hexisting
        split at hpublish
        · cases hpublish
        · cases hpublish
          exact ⟨st, getStored_eq_ok.mp hst, by rw [hexisting]; rfl⟩
      · cases hpublish
        exact ⟨_, Dict.get?_set_self _ _ _, rfl⟩
    · cases h
  | existing =>
    simp only [FinalizeAnswer.run] at h
    split at h
    · rename_i result hresult
      obtain ⟨rfl, hsome⟩ := Prod.mk.inj h
      obtain ⟨st, hst, hresult⟩ := bind_eq_ok.mp hresult
      cases hresult
      exact ⟨st, getStored_eq_ok.mp hst, Except.ok.inj hsome⟩
    · cases h

/-- Everything a pass can do to the two sets and the store. -/
inductive PassEffect (E : EthLib) (c : AutoDKG) (dl : InMemoryDataLayer) (electionId : Bytes)
    (y : Pass) : Prop
  | kept (hdl : OwnWrite E dl y.dl) (hdone : y.coordinator.done = c.done)
      (hfailed : y.coordinator.failed = c.failed) (hout : y.outcome ≠ .dkgComplaint)
  | tallied (hdl : OwnWrite E dl y.dl) (hdone : y.coordinator.done = electionId :: c.done)
      (hfailed : y.coordinator.failed = c.failed) (hout : y.outcome ≠ .dkgComplaint)
      (hresult : ∃ st, y.dl.elections.get? electionId = some st ∧ st.result.isSome = true)

section
variable {c : AutoDKG} {config : ElectionConfig} {att : TallyAttempts} {w : TallyAnswers}

theorem abandon_effect {mark : MarkRequest} {phase : TallyPhase} {attempts : Nat}
    {reason : StallReason} :
    PassEffect E c dl electionId (abandon E c electionId att dl mark phase attempts reason) :=
  .kept (.mark mark) rfl rfl (by simp [abandon, AutoDKG.pass])

theorem decryptPhase_memory :
    PassEffect E c dl electionId (decryptPhase E P c dl electionId config att w) := by
  have hown := OwnWrite.run E dl electionId w.finalized
  rw [decryptPhase]
  split
  · rename_i dl' e hrun
    rw [hrun] at hown
    exact .kept hown rfl rfl (by simp [AutoDKG.pass])
  · rename_i dl' hrun
    rw [hrun] at hown
    exact .tallied hown rfl rfl (by simp [AutoDKG.pass]) (result_of_run hrun)
  · rename_i dl' hrun
    obtain rfl := store_of_too_few hrun
    dsimp only
    split
    · exact abandon_effect
    split
    · exact abandon_effect
    · exact .kept (.inl rfl) rfl rfl (by simp [AutoDKG.pass])

theorem driveTally_memory :
    PassEffect E c dl electionId (driveTally E P c dl electionId config w) := by
  have hkept : ∀ (att : TallyAttempts) (outcome : ScanOutcome), outcome ≠ .dkgComplaint →
      PassEffect E c dl electionId (c.pass electionId att dl outcome) :=
    fun att outcome hout => .kept (.inl rfl) rfl rfl hout
  rw [driveTally]
  split
  · exact .kept (.inl rfl) rfl rfl (by simp)
  split
  · exact .kept (.inl rfl) rfl rfl (by simp)
  dsimp only
  split
  · exact hkept _ _ (by simp)
  · exact decryptPhase_memory
  split
  · exact hkept _ _ (by simp)
  · exact decryptPhase_memory
  rw [withoutAggregate]
  dsimp only
  split
  · exact abandon_effect
  split
  · exact hkept _ _ (by simp)
  split <;> split <;> first | exact abandon_effect | exact hkept _ _ (by simp)

end

/-! ## Runs -/

/-- A record without a key, read after the clock had passed the voting start, was right: the
    election is closed. -/
def Seen (dl : InMemoryDataLayer) (clock now : Int) (electionId : Bytes) (record : ElectionRecord) :
    Prop :=
  record.finalizedKey = none → record.config.votingStart ≤ now → ClosedIn dl electionId clock

/-- What the coordinator has in memory of an election is so in the data layer. -/
structure ScanState.Sound (E : EthLib) (electionId : Bytes) (s : ScanState) : Prop where
  ok : s.dl.Ok E
  now_le : s.now ≤ s.clock
  pending : ∀ p ∈ s.pending, p.1 = electionId → Seen s.dl s.clock s.now electionId p.2
  current : ∀ record resultPublished, s.current = some (electionId, record, resultPublished) →
    Seen s.dl s.clock s.now electionId record ∧ (resultPublished = true → ClosedIn s.dl electionId s.clock)
  done : electionId ∈ s.coordinator.done → ClosedIn s.dl electionId s.clock
  failed : electionId ∈ s.coordinator.failed → ClosedIn s.dl electionId s.clock ∨ electionId ∈ s.halted

/-- A later store in which the election is closed if it was. -/
theorem ScanState.Sound.move (h : s.Sound E electionId) {dl' : InMemoryDataLayer} {clock' : Int}
    (hok : dl'.Ok E) (hclock : s.clock ≤ clock')
    (hclosed : ClosedIn s.dl electionId s.clock → ClosedIn dl' electionId clock') :
    ScanState.Sound E electionId { s with dl := dl', clock := clock' } where
  ok := hok
  now_le := le_trans h.now_le hclock
  pending := fun p hp hid hkey hstart => hclosed (h.pending p hp hid hkey hstart)
  current := by
    intro record resultPublished hcurrent
    obtain ⟨hseen, hresult⟩ := h.current record resultPublished hcurrent
    exact ⟨fun hkey hstart => hclosed (hseen hkey hstart), fun hpublished => hclosed (hresult hpublished)⟩
  done := fun hmem => hclosed (h.done hmem)
  failed := fun hmem => (h.failed hmem).imp_left hclosed

theorem OwnWrite.ok {dl' : InMemoryDataLayer} (h : OwnWrite E dl dl') (hok : dl.Ok E) : dl'.Ok E := by
  rcases h with rfl | ⟨call, rfl, -⟩
  · exact hok
  · exact hok.apply call

theorem OwnWrite.closed {dl' : InMemoryDataLayer} (h : OwnWrite E dl dl') (hok : dl.Ok E)
    (hclosed : ClosedIn dl electionId t) : ClosedIn dl' electionId t := by
  rcases h with rfl | ⟨call, rfl, hcall⟩
  · exact hclosed
  · refine hclosed.apply hok ?_
    intro _ pkElection committeePks keyperSig hwrite
    exact absurd hwrite (hcall _ _ _ _)

/-- What an access to the data layer finds is so while it is looked at. -/
theorem seen_of_getElection {record : ElectionRecord} {clock now : Int} (hle : now ≤ clock)
    (h : getElection dl electionId = .ok record) : Seen dl clock now electionId record := by
  intro hkey hstart
  obtain ⟨st, hst, h⟩ := bind_eq_ok.mp h
  obtain ⟨key, hread, h⟩ := bind_eq_ok.mp h
  cases h
  obtain ⟨st', hst', hread⟩ := bind_eq_ok.mp hread
  cases hst.symm.trans hst'
  obtain rfl : key = none := hkey
  exact ⟨st, getStored_eq_ok.mp hst, .inr (.inr ⟨hread, le_trans hstart hle⟩)⟩

theorem closed_of_getResult {result : Option ResultArtifact}
    (h : getResult dl electionId = .ok result) (hsome : result.isSome = true) :
    ClosedIn dl electionId t := by
  obtain ⟨st, hst, h⟩ := bind_eq_ok.mp h
  cases h
  exact ⟨st, getStored_eq_ok.mp hst, .inr (.inl hsome)⟩

theorem scannedState_complete {record : ElectionRecord} {resultPublished : Bool} {now : Int}
    (h : scannedState record resultPublished now = .complete) : resultPublished = true := by
  cases resultPublished with
  | true => rfl
  | false =>
    rw [scannedState, deriveState] at h
    split_ifs at h with _ hfalse
    exact hfalse.elim

theorem scannedState_dkgFailed {record : ElectionRecord} {resultPublished : Bool} {now : Int}
    (h : scannedState record resultPublished now = .dkgFailed) :
    record.finalizedKey = none ∧ record.config.votingStart ≤ now := by
  rw [scannedState, deriveState] at h
  split_ifs at h with _ _ hfailed
  exact ⟨by simpa using hfailed.2, hfailed.1⟩

/-- What a pass adds to the sets is its election, and, where the pass had seen it right (`known`), this is
    closed or was halted by a complaint. -/
structure PassSound (E : EthLib) (known : Prop) (c : AutoDKG) (dl : InMemoryDataLayer) (electionId : Bytes)
    (clock : Int) (y : Pass) : Prop where
  own : OwnWrite E dl y.dl
  done : ∀ id ∈ y.coordinator.done, id ∈ c.done ∨ id = electionId ∧ (known → ClosedIn y.dl id clock)
  failed : ∀ id ∈ y.coordinator.failed, id ∈ c.failed ∨
    id = electionId ∧ ((known → ClosedIn y.dl id clock) ∨ y.outcome = .dkgComplaint)

section
variable {c : AutoDKG} {record : ElectionRecord} {resultPublished : Bool} {clock now : Int}
  {dkg : DkgAnswer} {tally : TallyAnswers} {known : Prop}

theorem PassEffect.sound {y : Pass} (h : PassEffect E c dl electionId y) :
    PassSound E known c dl electionId clock y := by
  cases h with
  | kept hdl hdone hfailed hout =>
    exact ⟨hdl, fun id hmem => .inl (hdone ▸ hmem), fun id hmem => .inl (hfailed ▸ hmem)⟩
  | tallied hdl hdone hfailed hout hresult =>
    refine ⟨hdl, fun id hmem => ?_, fun id hmem => .inl (hfailed ▸ hmem)⟩
    rw [hdone] at hmem
    rcases List.mem_cons.mp hmem with rfl | hmem
    · obtain ⟨st, hst, hsome⟩ := hresult
      exact .inr ⟨rfl, fun _ => ⟨st, hst, .inr (.inl hsome)⟩⟩
    · exact .inl hmem

theorem driveDkg_sound {config : ElectionConfig} :
    PassSound E known c dl electionId clock (driveDkg P c dl electionId config now dkg) := by
  have hsame : ∀ y : Pass, y.dl = dl → y.coordinator.done = c.done →
      y.coordinator.failed = c.failed → PassSound E known c dl electionId clock y :=
    fun y hdl hdone hfailed =>
      ⟨.inl hdl, fun id hmem => .inl (hdone ▸ hmem), fun id hmem => .inl (hfailed ▸ hmem)⟩
  rw [driveDkg]
  dsimp only
  split
  · exact hsame _ rfl rfl rfl
  split
  · exact hsame _ rfl rfl rfl
  split
  · exact hsame _ rfl rfl rfl
  · refine ⟨.inl rfl, fun id hmem => .inl hmem, fun id hmem => ?_⟩
    rcases List.mem_cons.mp hmem with rfl | hmem
    · exact .inr ⟨rfl, .inr rfl⟩
    · exact .inl hmem
  · exact hsame _ rfl rfl rfl
  · exact hsame _ rfl rfl rfl

theorem process_sound (hseen : known → Seen dl clock now electionId record)
    (hpublished : known → resultPublished = true → ClosedIn dl electionId clock) :
    PassSound E known c dl electionId clock
      (process E P c dl electionId record resultPublished now dkg tally) := by
  have hsame : ∀ outcome, PassSound E known c dl electionId clock ⟨c, dl, outcome⟩ :=
    fun outcome => ⟨.inl rfl, fun id hmem => .inl hmem, fun id hmem => .inl hmem⟩
  rw [process]
  split
  · rename_i hstate
    refine ⟨.inl rfl, fun id hmem => ?_, fun id hmem => .inl hmem⟩
    rcases List.mem_cons.mp hmem with rfl | hmem
    · exact .inr ⟨rfl, fun hknown => hpublished hknown (scannedState_complete hstate)⟩
    · exact .inl hmem
  · rename_i hstate
    obtain ⟨hkey, hstart⟩ := scannedState_dkgFailed hstate
    refine ⟨.inl rfl, fun id hmem => .inl hmem, fun id hmem => ?_⟩
    rcases List.mem_cons.mp hmem with rfl | hmem
    · exact .inr ⟨rfl, .inl fun hknown => hseen hknown hkey hstart⟩
    · exact .inl hmem
  · exact driveDkg_sound
  · exact driveTally_memory.sound
  · exact hsame _
  · exact hsame _

theorem ScanState.Sound.finish (h : s.Sound E electionId) {current : Bytes}
    (hcurrent : s.current = some (current, record, resultPublished)) :
    (s.finish E P current record resultPublished dkg tally).Sound E electionId := by
  have hpass : PassSound E (current = electionId) s.coordinator s.dl current s.clock
      (process E P s.coordinator s.dl current record resultPublished s.now dkg tally) := by
    refine process_sound ?_ ?_
    · rintro rfl
      exact (h.current _ _ hcurrent).1
    · rintro rfl
      exact (h.current _ _ hcurrent).2
  have hmoved := h.move (hpass.own.ok h.ok) le_rfl (hpass.own.closed h.ok)
  refine ⟨hmoved.ok, hmoved.now_le, hmoved.pending, ?_, fun hmem => ?_, fun hmem => ?_⟩
  · intro _ _ hnone
    cases hnone
  · rcases hpass.done _ hmem with hmem | ⟨hid, hclosed⟩
    · exact hmoved.done hmem
    · exact hclosed hid.symm
  · show _ ∨ electionId ∈ ite _ _ _
    rcases hpass.failed _ hmem with hmem | ⟨rfl, hclosed | hcomplaint⟩
    · rcases hmoved.failed hmem with hclosed | hhalted
      · exact .inl hclosed
      · right
        split
        · exact List.mem_cons_of_mem _ hhalted
        · exact hhalted
    · exact .inl (hclosed rfl)
    · rw [if_pos hcomplaint]
      exact .inr List.mem_cons_self

end

theorem ScanState.Sound.apply (h : s.Sound E electionId) {event : ScanEvent} (htimely : event.Timely s)
    (hgated : event.Gated E electionId s) : (event.apply E P s).Sound E electionId := by
  cases event with
  -- a write between two accesses: closed elections stay closed, as no late result makes a key final
  | write call =>
    obtain ⟨hnow, hlater⟩ := htimely
    refine h.move (h.ok.apply call) (le_trans hnow hlater) ?_
    intro hclosed
    exact ((hclosed.later hnow).apply h.ok hgated).later hlater
  | tick now => exact h.move h.ok htimely fun hclosed => hclosed.later htimely
  | scan => exact ⟨h.ok, le_rfl, by simp [ScanEvent.apply], by simp [ScanEvent.apply], h.done, h.failed⟩
  | read id =>
    simp only [ScanEvent.apply]
    split
    · exact h
    split
    · rename_i record hrecord
      refine ⟨h.ok, h.now_le, ?_, h.current, h.done, h.failed⟩
      intro p hp hid
      rcases List.mem_append.mp hp with hp | hp
      · exact h.pending p hp hid
      · obtain rfl := List.mem_singleton.mp hp
        obtain rfl : id = electionId := hid
        exact seen_of_getElection h.now_le hrecord
    · exact h
  -- an election is skipped on the result the store answers, which closes it
  | take id =>
    simp only [ScanEvent.apply]
    split
    · exact h
    · rename_i p hfind
      have hrest : ∀ q ∈ s.pending.filter fun q => q.1 ≠ p.1, q.1 = electionId →
          Seen s.dl s.clock s.now electionId q.2 :=
        fun q hq => h.pending q (List.mem_filter.mp hq).1
      split
      · rename_i result hresult
        refine ⟨h.ok, h.now_le, hrest, ?_, h.done, h.failed⟩
        intro record resultPublished hcurrent
        obtain ⟨hid, hpair⟩ := Prod.mk.inj (Option.some.inj hcurrent)
        obtain ⟨rfl, rfl⟩ := Prod.mk.inj hpair
        exact ⟨h.pending p (List.mem_of_find?_eq_some hfind) hid, closed_of_getResult (hid ▸ hresult)⟩
      · exact ⟨h.ok, h.now_le, hrest, h.current, h.done, h.failed⟩
  | finish dkg tally =>
    simp only [ScanEvent.apply]
    split
    · exact h
    · rename_i hcurrent
      exact h.finish hcurrent

/-- In every run of the coordinator among the writes of the others, under a clock that does
    not go back: an election it skips is closed, or its ceremony was halted by a complaint, unless a DKG
    result of the election was accepted after its DKG had failed. -/
theorem skipped_is_closed (E : EthLib) (P : CoordinatorSettings) (t : Int) (events : List ScanEvent)
    (htimely : ∀ before event after, events = before ++ event :: after →
      event.Timely (runScan E P (.start t) before)) (electionId : Bytes)
    (hgated : ∀ before event after, events = before ++ event :: after →
      event.Gated E electionId (runScan E P (.start t) before))
    (hskipped : electionId ∈ (runScan E P (.start t) events).coordinator.done ∨
      electionId ∈ (runScan E P (.start t) events).coordinator.failed) :
    (∃ state, electionState ((runScan E P (.start t) events).dl.reads E) electionId
      (runScan E P (.start t) events).clock = .ok state ∧ state.closed = true) ∨
    electionId ∈ (runScan E P (.start t) events).halted := by
  have hstart : (ScanState.start t).Sound E electionId :=
    ⟨ok_empty, le_rfl, by simp [ScanState.start], by simp [ScanState.start],
      by simp [ScanState.start], by simp [ScanState.start]⟩
  have hsound : (runScan E P (.start t) events).Sound E electionId := by
    refine run_invariant_of (ScanState.Sound E electionId)
      (Q := fun s event => event.Timely s ∧ event.Gated E electionId s)
      (fun s event h hq => h.apply hq.1 hq.2) hstart ?_
    intro before event after hevents
    exact ⟨htimely before event after hevents, hgated before event after hevents⟩
  rcases hskipped with hdone | hfailed
  · exact .inl ((hsound.done hdone).state hsound.ok)
  · rcases hsound.failed hfailed with hclosed | hhalted
    · exact .inl (hclosed.state hsound.ok)
    · exact .inr hhalted

namespace ScanSample
open CoordinatorSample

def register : ScanEvent :=
  .write ⟨0, 0, .register config (plainEth.signMessage [5] (registerDigest plainEth config))⟩

/-- A scan of the one election: the answers of a ceremony, and of a tally that is not reached. -/
def pass (dkg : DkgAnswer) : List ScanEvent :=
  [.scan, .read config.electionId, .take config.electionId,
    .finish dkg ⟨false, .ok false, [], .ok false, .tooFew, 0, ⟨false, 0, 0, [], 0⟩⟩]

/-- The coordinator once the election is registered. -/
def registered : ScanState :=
  { ScanState.start 0 with dl := {
      elections := (∅ : Dict Bytes Stored).set config.electionId { config }
      nextId := 1 } }

theorem apply_register : register.apply plainEth {} (.start 0) = registered := by
  have hregister : registerElection plainEth {} config
      (plainEth.signMessage [5] (registerDigest plainEth config)) = .ok registered.dl :=
    registerElection_first rfl (by rfl) (plainEth_recoverMessage (by decide))
  simp only [register, ScanEvent.apply, ScanState.start, Call.apply, Call.perform]
  rw [hregister]
  rfl

theorem runScan_register (events : List ScanEvent) :
    runScan plainEth {} (.start 0) (register :: events) = runScan plainEth {} registered events := by
  rw [runScan, List.foldl_cons, apply_register]
  rfl

/-- The run of the examples: registered, then a scan at time `now`. -/
def scanAt (now : Int) (dkg : DkgAnswer) : List ScanEvent := register :: .tick now :: pass dkg

theorem timely_scanAt {now : Int} (hnow : 0 ≤ now) (dkg : DkgAnswer) :
    ∀ before event after, scanAt now dkg = before ++ event :: after →
      event.Timely (runScan plainEth {} (.start 0) before) := by
  refine inputs_cons ⟨le_rfl, le_rfl⟩ <| inputs_cons ?_ <| inputs_cons trivial <|
    inputs_cons trivial <| inputs_cons trivial <| inputs_cons trivial inputs_nil
  rw [apply_register]
  exact hnow

/-- Scanned after its voting start, an election without a key is given up, and closed. -/
theorem skipped_is_closed_late :
    config.electionId ∈ (runScan plainEth {} (.start 0) (scanAt 150 .raised)).coordinator.failed ∧
      ((∃ state, electionState ((runScan plainEth {} (.start 0) (scanAt 150 .raised)).dl.reads plainEth)
        config.electionId (runScan plainEth {} (.start 0) (scanAt 150 .raised)).clock = .ok state ∧
          state.closed = true) ∨
        config.electionId ∈ (runScan plainEth {} (.start 0) (scanAt 150 .raised)).halted) := by
  have hfailed : config.electionId ∈
      (runScan plainEth {} (.start 0) (scanAt 150 .raised)).coordinator.failed := by
    rw [scanAt, runScan_register]
    decide +kernel
  refine ⟨hfailed, skipped_is_closed plainEth {} 0 (scanAt 150 .raised)
    (timely_scanAt (by decide) _) config.electionId ?_ (.inr hfailed)⟩
  -- the one write of the run registers the election
  refine inputs_cons ?_ <| inputs_cons trivial <| inputs_cons trivial <| inputs_cons trivial <|
    inputs_cons trivial <| inputs_cons trivial inputs_nil
  intro _ _ _ _ hwrite
  cases hwrite

/-- A complaint in the ceremony of a registered election: it is skipped from then on. -/
theorem complaint_skips_registered :
    ¬ ∀ events : List ScanEvent, (∀ before event after, events = before ++ event :: after →
        event.Timely (runScan plainEth {} (.start 0) before)) →
      ∀ electionId, electionId ∈ (runScan plainEth {} (.start 0) events).coordinator.failed →
        ∃ state, electionState ((runScan plainEth {} (.start 0) events).dl.reads plainEth) electionId
          (runScan plainEth {} (.start 0) events).clock = .ok state ∧ state.closed = true := by
  intro h
  have hlive : config.electionId ∈
        (runScan plainEth {} (.start 0) (scanAt 10 .complaint)).coordinator.failed ∧
      electionState ((runScan plainEth {} (.start 0) (scanAt 10 .complaint)).dl.reads plainEth)
        config.electionId (runScan plainEth {} (.start 0) (scanAt 10 .complaint)).clock =
          .ok .registered := by
    rw [scanAt, runScan_register]
    decide +kernel
  obtain ⟨state, hstate, hclosed⟩ :=
    h (scanAt 10 .complaint) (timely_scanAt (by decide) _) _ hlive.1
  cases hlive.2.symm.trans hstate
  exact absurd hclosed (by decide)

end ScanSample
end ElGamalVoting
