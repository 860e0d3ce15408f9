import ElGamalVoting.Adapters.MemoryHistory
import ElGamalVoting.Core.AdmissionReturns
import ElGamalVoting.Core.AdmissionWinners
import ElGamalVoting.Ports.DataLayer

/- Ballot ingest (`services/gateway/gateway.py`) and what the tally makes of it.

   The gateway validates a ballot by itself at its own reading of the clock, against
   the key of the record it read, and then writes it; the store stamps its own time;
   admission looks at the stored ballot much later. Each access of the gateway to
   the data layer may see another state of it, so the accesses are numbered and
   `dl i` answers the `i`-th. -/
namespace ElGamalVoting
open Lib

def nonceScanPage : Int := 200
def nonceScanLimit : Int := 1000

/-- The highest nonce of the pseudonym in a page, at least `best`. -/
def pageNonce (pseudonym : Bytes) (best : Int) (page : List StoredBallot) : Int :=
  page.foldl (fun best sb =>
    if sb.envelope.pseudonym = pseudonym ∧ best < sb.envelope.attestation.nonce
    then sb.envelope.attestation.nonce else best) best

/-- The pages from `off` back to `floor`. -/
def scanNonces (dl : Nat → DataLayer) (electionId pseudonym : Bytes) (total floor : Int) (i : Nat)
    (off best : Int) : Py Int := do
  if off < floor then pure best
  else
    let page ← (dl i).listBallots electionId off (min nonceScanPage (total - off))
    let best := pageNonce pseudonym best page
    if off = floor then pure best
    else scanNonces dl electionId pseudonym total floor (i + 1) (max floor (off - nonceScanPage)) best
termination_by (off - floor).toNat
decreasing_by
  rw [nonceScanPage]
  omega

/-- The highest nonce stored for a pseudonym among the latest ballots, from access `i` on. -/
def maxStoredNonce (dl : Nat → DataLayer) (i : Nat) (electionId pseudonym : Bytes) : Py Int := do
  let total ← (dl i).countBallots electionId
  let floor := max 0 (total - nonceScanLimit)
  let off := max floor ((total - 1) / nonceScanPage * nonceScanPage)
  if total = 0 then pure 0
  else scanNonces dl electionId pseudonym total floor (i + 1) off 0

section
variable {G₁ G₂ : Type} [AddCommGroup G₁] [AddCommGroup G₂] [DecidableEq G₁] [DecidableEq G₂]
  (S : Suite G₁ G₂) (E : EthLib)

/-- The admission filter, with the key of the record the gateway read. -/
def filterBallot (dl : Nat → DataLayer) (electionId : Bytes) (ballot : BallotEnvelope)
    (record : ElectionRecord) (now : Int) : Py Unit :=
  match record.finalizedKey with
  | none => .error (.gatewayRejection "no finalized key")
  | some key => do
    let mpk ← g2FromCompressed S.g2 key.pkElection
    match ← validateBallot S ⟨-1, ballot, some now⟩ record.config mpk with
    | some reason => .error (.gatewayRejection reason.value)
    | none =>
      match ballot.attestation.scheme with
      | .v1 =>
        if ballot.attestation.nonce ≤ (← maxStoredNonce dl 2 electionId ballot.pseudonym) then
          .error (.gatewayRejection "STALE_OR_REPLAYED")
        else pure ()

/-- Everything before the write. -/
def checkBallot (dl : Nat → DataLayer) (electionId : Bytes) (ballot : BallotEnvelope) (now : Int)
    (filterOn : Bool) : Py Unit := do
  let record ← (dl 0).getElection electionId
  let result ← (dl 1).getResult electionId
  let facts : StateFacts := {
    cancelled := record.cancelled
    keyFinalized := record.finalizedKey.isSome
    resultPublished := result.isSome }
  if deriveState record.config facts now ≠ .voting then
    .error (.gatewayRejection "voting is not open")
  else if filterOn then filterBallot S dl electionId ballot record now
  else pure ()

/-- The gateway's key signs the write where it has one. -/
def signBallot (gatewaySigner : Option Bytes) (electionId : Bytes) (ballot : BallotEnvelope) : Bytes :=
  match gatewaySigner with
  | some privateKey => E.signMessage privateKey (ballotDigest E electionId ballot)
  | none => []

/-- `submit_ballot` of the gateway: the sequence number the store assigns, and the store after
    the write. -/
def gatewaySubmitBallot (dl : Nat → DataLayer) (store : InMemoryDataLayer) (electionId : Bytes)
    (ballot : BallotEnvelope) (now storeNow : Int) (filterOn : Bool) (gatewaySigner : Option Bytes) :
    Py (Int × InMemoryDataLayer) := do
  checkBallot S dl electionId ballot now filterOn
  let sequenceNumber ← countBallots store electionId
  let store' ← submitBallot E store storeNow electionId ballot
    (signBallot E gatewaySigner electionId ballot)
  pure (sequenceNumber, store')

end

/-! ## From the gateway to admission -/

variable {E : EthLib} {s s' : InMemoryDataLayer} {call : Call} {electionId : Bytes} {st st' : Stored}

/-- An accepted ballot is stored with the next number, inside the window. -/
theorem submitBallot_eq_ok {now : Int} {ballot : BallotEnvelope} {sig : Bytes} {count : Int}
    (hst : s.elections.get? electionId = some st) (hcount : countBallots s electionId = .ok count)
    (h : submitBallot E s now electionId ballot sig = .ok s') :
    count = st.ballots.length ∧ isVotingOpen st.config now = true ∧
      s'.elections.get? electionId = some { st with
        ballots := st.ballots ++ [⟨st.ballots.length, ballot, some now⟩] } := by
  have hget := getStored_eq_ok.mpr hst
  rw [countBallots, hget, ok_bind] at hcount
  rw [submitBallot, hget, ok_bind] at h
  obtain ⟨⟨⟩, -, h⟩ := bind_eq_ok.mp h
  obtain ⟨⟨⟩, hopen, h⟩ := bind_eq_ok.mp h
  cases hcount
  cases h
  exact ⟨rfl, isVotingOpen_of_requireVotingOpen hopen, Dict.get?_set_self _ _ _⟩

theorem RecordStep.ballots_kept (hstep : RecordStep E s call electionId st st') {sb : StoredBallot}
    (h : sb ∈ st.ballots) : sb ∈ st'.ballots := by
  cases hstep with
  | ballot => exact List.mem_append_left _ h
  | _ => exact h

section
variable {G₁ G₂ : Type} [AddCommGroup G₁] [AddCommGroup G₂] [DecidableEq G₁] [DecidableEq G₂]
  {S : Suite G₁ G₂}

/-- What the filter has seen of a ballot it lets through. -/
theorem checkBallot_eq_ok {dl : Nat → DataLayer} {ballot : BallotEnvelope} {now : Int}
    (h : checkBallot S dl electionId ballot now true = .ok ()) :
    ∃ record key mpk, (dl 0).getElection electionId = .ok record ∧
      record.finalizedKey = some key ∧ g2FromCompressed S.g2 key.pkElection = .ok mpk ∧
      isVotingOpen record.config now = true ∧
      validateBallot S ⟨-1, ballot, some now⟩ record.config mpk = .ok none := by
  rw [checkBallot] at h
  obtain ⟨record, hrecord, h⟩ := bind_eq_ok.mp h
  obtain ⟨result, -, h⟩ := bind_eq_ok.mp h
  dsimp only at h
  split at h
  · cases h
  · rename_i hvoting
    have hopen := (voting_of_deriveState (not_not.mp hvoting)).2
    rw [if_pos rfl, filterBallot] at h
    split at h
    · cases h
    · rename_i key hkey
      obtain ⟨mpk, hmpk, h⟩ := bind_eq_ok.mp h
      obtain ⟨reason, hreason, h⟩ := bind_eq_ok.mp h
      cases reason with
      | some reason => cases h
      | none => exact ⟨record, key, mpk, hrecord, hkey, hmpk, hopen, hreason⟩

/-- Where the ballots have distinct numbers, a valid one is admitted or excluded as a
    duplicate, and for no other reason. -/
theorem admission_of_valid {config : ElectionConfig} {mpk : G₂} {mpkBytes : Bytes}
    {ballots : List StoredBallot} {result : AdmissionResult}
    (hunique : ∀ sb ∈ ballots, ∀ sb' ∈ ballots, sb.sequenceNumber = sb'.sequenceNumber → sb = sb')
    (hadmission : admitBallots S ballots config mpkBytes = .ok result)
    (hmpk : g2FromCompressed S.g2 mpkBytes = .ok mpk) {sb : StoredBallot} (hsb : sb ∈ ballots)
    (hvalid : validateBallot S sb config mpk = .ok none) :
    (sb.admitted ∈ result.admitted ∨ ⟨sb.sequenceNumber, .duplicatePseudonym⟩ ∈ result.exclusions) ∧
      ∀ x ∈ result.exclusions, x.sequenceNumber = sb.sequenceNumber →
        x.reason = .duplicatePseudonym := by
  obtain ⟨mpk', hmpk', reasons, hreasons, rfl⟩ := admitBallots_eq_ok hadmission
  cases hmpk.symm.trans hmpk'
  have hpair : ∀ sr ∈ reasons, sr.1 ∈ ballots ∧ validateBallot S sr.1 config mpk = .ok sr.2 := by
    intro sr hsr
    obtain ⟨sb', hsb', h⟩ := mapM_ok_mem_right hreasons hsr
    obtain ⟨reason, hreason, h⟩ := bind_eq_ok.mp h
    cases h
    exact ⟨hsb', hreason⟩
  have hmem : (sb, none) ∈ reasons := by
    obtain ⟨sr, hsr, h⟩ := mapM_ok_mem hreasons hsb
    obtain ⟨reason, hreason, h⟩ := bind_eq_ok.mp h
    cases h
    cases hvalid.symm.trans hreason
    exact hsr
  have hin : sb ∈ (reasons.filter fun sr => sr.2.isNone).map Prod.fst :=
    List.mem_map.mpr ⟨_, List.mem_filter.mpr ⟨hmem, rfl⟩, rfl⟩
  have hsorted : ∀ {x : Exclusion} {xs : List Exclusion},
      x ∈ xs.insertionSort (fun x y => x.sequenceNumber ≤ y.sequenceNumber) ↔ x ∈ xs :=
    (List.perm_insertionSort _ _).mem_iff
  refine ⟨?_, ?_⟩
  -- a valid ballot is kept or loses to another under its pseudonym
  · by_cases hlose : sb.sequenceNumber ∈ duplicateLosers
        ((reasons.filter fun sr => sr.2.isNone).map Prod.fst) config.duplicatePolicy
    · refine .inr (hsorted.mpr (List.mem_append_right _ ?_))
      exact List.mem_map.mpr ⟨sb, List.mem_filter.mpr ⟨hin, by simpa using hlose⟩, rfl⟩
    · refine .inl (List.mem_map.mpr ⟨sb, List.mem_filter.mpr ⟨hin, by simpa using hlose⟩, rfl⟩)
  · intro x hx hseq
    rcases List.mem_append.mp (hsorted.mp hx) with hx | hx
    · -- an invalid ballot of the same number would be this one
      obtain ⟨sr, hsr, hx⟩ := List.mem_filterMap.mp hx
      obtain ⟨reason, hreason, rfl⟩ := Option.map_eq_some_iff.mp hx
      obtain ⟨hstored, hinvalid⟩ := hpair sr hsr
      rw [hunique _ hstored _ hsb hseq, hvalid, hreason] at hinvalid
      cases hinvalid
    · obtain ⟨sb', -, rfl⟩ := List.mem_map.mp hx
      rfl

/-- A ballot the gateway accepts is counted, or loses to another of its pseudonym: in every
    run, whatever is written between the gateway's reads and its write, and after it. -/
theorem gateway_ballot_counts (S : Suite G₁ G₂) (E : EthLib) (before between after : List Call)
    {dl : Nat → DataLayer} (hread : dl 0 = (runCalls E {} before).reads E) (electionId : Bytes)
    (ballot : BallotEnvelope) (now storeNow : Int) (gatewaySigner : Option Bytes)
    {sequenceNumber : Int} {store : InMemoryDataLayer}
    (haccept : gatewaySubmitBallot S E dl (runCalls E {} (before ++ between)) electionId ballot now
      storeNow true gatewaySigner = .ok (sequenceNumber, store))
    {st : Stored} (hst : (runCalls E store after).elections.get? electionId = some st)
    {key : FinalizedKey} (hkey : finalizedKeyOf st = .ok (some key)) {result : AdmissionResult}
    (hadmission : admitBallots S st.ballots st.config key.pkElection = .ok result) :
    (⟨sequenceNumber, ballot, ballot.attestation.weight⟩ ∈ result.admitted ∨
      ⟨sequenceNumber, .duplicatePseudonym⟩ ∈ result.exclusions) ∧
    ∀ x ∈ result.exclusions, x.sequenceNumber = sequenceNumber → x.reason = .duplicatePseudonym := by
  rw [gatewaySubmitBallot] at haccept
  obtain ⟨⟨⟩, hcheck, haccept⟩ := bind_eq_ok.mp haccept
  obtain ⟨count, hcount, haccept⟩ := bind_eq_ok.mp haccept
  obtain ⟨store', hsubmit, haccept⟩ := bind_eq_ok.mp haccept
  cases haccept
  -- what the gateway read is still so when the store writes
  obtain ⟨record, key₁, mpk, hrecord, hkey₁, hmpk, hopen, hvalid⟩ := checkBallot_eq_ok hcheck
  rw [hread] at hrecord
  obtain ⟨st₁, hst₁, hfinal, hconfig⟩ := getElection_eq_ok hrecord
  rw [hkey₁] at hfinal
  rw [hconfig] at hopen hvalid
  have hkept : ∀ s call (st st' : Stored), s.Ok E → s.elections.get? electionId = some st →
      RecordStep E s call electionId st st' →
      st.config = st₁.config ∧ finalizedKeyOf st = .ok (some key₁) →
      st'.config = st₁.config ∧ finalizedKeyOf st' = .ok (some key₁) :=
    fun s call st st' hok hst hstep h =>
      ⟨hstep.config_eq.trans h.1, hstep.finalizedKeyOf_kept (hok.records _ _ hst) h.2⟩
  have hok : ∀ calls, (runCalls E {} calls).Ok E := fun calls => ok_empty.run calls
  obtain ⟨st₂, hst₂, hconfig₂, hfinal₂⟩ :=
    (hok before).run_record hkept hst₁ ⟨rfl, hfinal⟩ between
  rw [← runCalls_append] at hst₂
  obtain ⟨hnumber, hwindow, hstore⟩ := submitBallot_eq_ok hst₂ hcount hsubmit
  -- the write is one more call of the run
  let call : Call := ⟨storeNow, storeNow, .ballot electionId ballot
    (signBallot E gatewaySigner electionId ballot)⟩
  have hcall : store = runCalls E {} (before ++ between ++ [call]) := by
    have hperform : call.perform E (runCalls E {} (before ++ between)) = .ok store := hsubmit
    rw [runCalls_append, runCalls, List.foldl_cons, List.foldl_nil, Call.apply, hperform]
  rw [hcall, ← runCalls_append] at hst
  have hnumbered := numbered_run E _ electionId st hst
  rw [runCalls_append, ← hcall] at hst
  obtain ⟨st₃, hst₃, hin, hconfig₃, hfinal₃⟩ := InMemoryDataLayer.Ok.run_record
    (P := fun st => ⟨sequenceNumber, ballot, some storeNow⟩ ∈ st.ballots ∧
      st.config = st₁.config ∧ finalizedKeyOf st = .ok (some key₁))
    (hcall ▸ hok _) (fun s call st st' hok hst hstep h =>
      ⟨hstep.ballots_kept h.1, hkept s call st st' hok hst hstep h.2⟩)
    hstore ⟨hnumber ▸ List.mem_append_right _ List.mem_cons_self, hconfig₂, hfinal₂⟩ after
  cases hst.symm.trans hst₃
  cases hkey.symm.trans hfinal₃
  rw [hconfig₃] at hadmission
  rw [hconfig₂] at hwindow
  refine admission_of_valid (fun sb h sb' h' => hnumbered.unique h h') hadmission hmpk hin ?_
  rw [← hvalid]
  refine validateBallot_congr rfl (fun time htime => ?_) (fun time htime => ?_)
  · cases htime
    exact hwindow
  · cases htime
    exact hopen

end
namespace GatewaySample

def calls : List Call := [SampleRun.dkgResult [1] (beBytes 96 17), SampleRun.dkgResult [2] (beBytes 96 17)]

/-- The election with its key, before the voting. -/
def keyed : InMemoryDataLayer := runCalls plainEth LifecycleSample.registered calls

theorem runCalls_keyed : runCalls plainEth {} (LifecycleSample.register :: calls) = keyed :=
  LifecycleSample.runCalls_register calls

def direct (now : Int) (ballot : BallotEnvelope) : Call := ⟨now, now, .ballot smallConfig.electionId ballot []⟩

/-- Between the gateway's reads and its write a ballot is stored under a pseudonym that its credential does
    not name. -/
def between : List Call := [direct 150 { sampleBallot 1 with pseudonym := beBytes 32 9 }]

/-- After the gateway's write its ballot is stored again. -/
def after : List Call := [direct 160 (sampleBallot 1)]

def submitted : Py (Int × InMemoryDataLayer) :=
  gatewaySubmitBallot Residue.suite plainEth (fun _ => keyed.reads plainEth) (runCalls plainEth keyed between)
    smallConfig.electionId (sampleBallot 1) 150 151 true none

/-- The store after the gateway's write. -/
def store : InMemoryDataLayer := (submitted.map Prod.snd).toOption.getD {}

/-- The record in the end. -/
def stored : Stored :=
  ((runCalls plainEth store after).elections.get? smallConfig.electionId).getD { config := smallConfig }

def admission : AdmissionResult :=
  ⟨[⟨2, sampleBallot 1, 1⟩], [⟨0, .invalidAttestation⟩, ⟨1, .duplicatePseudonym⟩], 1⟩

/-- A ballot through the gateway loses only to its own copy. -/
theorem gateway_ballot_counts_first :
    submitted = .ok (1, store) ∧
      admitBallots Residue.suite stored.ballots stored.config (beBytes 96 17) = .ok admission ∧
      ((⟨1, sampleBallot 1, (sampleBallot 1).attestation.weight⟩ ∈ admission.admitted ∨
        ⟨1, .duplicatePseudonym⟩ ∈ admission.exclusions) ∧
      ∀ x ∈ admission.exclusions, x.sequenceNumber = 1 → x.reason = .duplicatePseudonym) := by
  obtain ⟨hnumber, hsome, hkey, hadmission⟩ : submitted.map Prod.fst = .ok 1 ∧
      ((runCalls plainEth store after).elections.get? smallConfig.electionId).isSome = true ∧
      finalizedKeyOf stored = .ok (some ⟨beBytes 96 17, []⟩) ∧
      admitBallots Residue.suite stored.ballots stored.config (beBytes 96 17) = .ok admission := by decide +kernel
  have hsubmitted : submitted = .ok (1, store) := by
    rw [store]
    cases h : submitted with
    | error e =>
      rw [h] at hnumber
      cases hnumber
    | ok p =>
      rw [h] at hnumber
      exact congrArg Except.ok (Prod.ext (Except.ok.inj hnumber) rfl)
  have hst : (runCalls plainEth store after).elections.get? smallConfig.electionId = some stored := by
    rw [stored]
    cases h : (runCalls plainEth store after).elections.get? smallConfig.electionId with
    | none =>
      rw [h] at hsome
      cases hsome
    | some st => rfl
  have hwritten : runCalls plainEth {} (LifecycleSample.register :: calls ++ between) =
      runCalls plainEth keyed between := by
    rw [runCalls_append, runCalls_keyed]
  have haccept : gatewaySubmitBallot Residue.suite plainEth (fun _ => keyed.reads plainEth)
      (runCalls plainEth {} (LifecycleSample.register :: calls ++ between)) smallConfig.electionId
      (sampleBallot 1) 150 151 true none = .ok (1, store) := by
    rw [hwritten]
    exact hsubmitted
  refine ⟨hsubmitted, hadmission, ?_⟩
  exact gateway_ballot_counts Residue.suite plainEth (LifecycleSample.register :: calls) between after
    (by rw [runCalls_keyed]) smallConfig.electionId (sampleBallot 1) 150 151 none haccept hst hkey hadmission

end GatewaySample
end ElGamalVoting
