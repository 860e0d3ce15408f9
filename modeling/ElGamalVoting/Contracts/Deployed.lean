import Mathlib.Logic.Relation
import ElGamalVoting.Adapters.ChainWrites
import ElGamalVoting.Contracts.Decryption

/- The deployed election contract as a whole (`contracts/src/Election.sol` with the abstract contracts of
   `contracts/src/election/`): every entry point over one storage, the ether it holds, and what was paid out.

   A message is a call of one entry point. `withdrawFees` hands control to the recipient while it pays, so it
   carries the messages the recipient sends back before the transfer returns (`inner`): they run in the same
   block, after the balance has left, and count only when the transfer succeeds. Roles are granted and taken by
   the access-control library; which roles a sender holds is part of the message. Ether can also reach the
   contract without a call to it (`forced`).

   `Message.perform` is what the code does; `Change` is one write of it. A message is a sequence of changes
   (`Message.changes`), and what every change keeps, every run keeps. Events are left out. -/
namespace ElGamalVoting.Contract
open Lib Relation

/-! ## The contract -/

structure Deployed where
  votes : Storage := {}
  ballotRecords : List BallotRecord := []
  ballotIndexPlusOneByPseudonym : Bytes → Nat := fun _ => 0
  hasSubmittedDecryptionShare : Bytes → Bool := fun _ => false
  decryptionShares : List DecryptionShare := []
  resultFinalized : Bool := false
  electionResult : ElectionResult := ⟨[], []⟩
  tallyStalled : Bool := false
  balance : Nat := 0
  /-- What came with each ballot, and what was paid to whom: not storage, but the chain's record of it. -/
  fees : List Nat := []
  forced : Nat := 0
  paidOut : List (Bytes × Nat) := []

/-- Why a message has no effect. -/
inductive Halt where
  | revert (e : Revert)
  | etherTransferFailed
  | directETHUnsupported
  | ballotNotFound (pseudonym : Bytes)

inductive Message where
  | committee (sender : Bytes) (entry : EntryPoint)
  | submitVote (sender : Bytes) (value : Nat) (voteProxy : Bool) (ballot : Ballot)
  | submitDecryptionShare (sender : Bytes) (shares : List Bytes) (proofs : List (Nat × Nat))
  | submitDecryptionShareSigned (shares : List Bytes) (proofs : List (Nat × Nat)) (keyperSig : Bytes)
  | publishResult (sender : Bytes) (hasPublisherRole : Bool) (totals keyperIndices : List Nat)
  | markTallyStalled (sender : Bytes) (hasPublisherRole : Bool)
  | clearTallyStalled (sender : Bytes) (hasAdminRole : Bool)
  | withdrawFees (sender recipient : Bytes) (hasAdminRole : Bool) (inner : List Message) (succeeds : Bool)
  /-- Ether without a call of the above: `receive` and `fallback`. -/
  | other (sender : Bytes) (value : Nat)

def Deployed.board (d : Deployed) : Board := ⟨d.votes, d.ballotRecords⟩

def Deployed.shareBoard (d : Deployed) : ShareBoard :=
  ⟨d.votes, d.hasSubmittedDecryptionShare, d.decryptionShares⟩

/-- An entry point whose revert is one of `Revert`. -/
def entered {α : Type} (x : Except Revert α) : Except Halt α := x.mapError .revert

section
variable (E : EvmLib) (el : Election) (selfSubmitFee : Nat) (timestamp : Nat)

omit E in
def Deployed.storeVote (d : Deployed) (tx : VoteTx) : Except Revert Deployed := do
  let board ← submitVote el selfSubmitFee d.board tx
  pure { d with
    ballotRecords := board.ballotRecords
    ballotIndexPlusOneByPseudonym :=
      Function.update d.ballotIndexPlusOneByPseudonym tx.ballot.pseudonym board.ballotRecords.length
    balance := d.balance + tx.value
    fees := d.fees ++ [tx.value] }

omit E el in
def Deployed.withShares (d : Deployed) (s : ShareBoard) : Deployed :=
  { d with
    hasSubmittedDecryptionShare := s.hasSubmittedDecryptionShare
    decryptionShares := s.decryptionShares }

omit E in
def Deployed.markTallyStalled (d : Deployed) (sender : Bytes) (hasPublisherRole : Bool) :
    Except Revert Deployed := do
  require (hasPublisherRole = true) (.unauthorizedAccount sender)
  require (d.votes.cancelled = false) .alreadyCancelled
  require (el.votingEnd ≤ timestamp) (.votingStillOpen timestamp)
  require (d.resultFinalized = false) .alreadyFinalized
  pure { d with tallyStalled := true }

omit E el in
def Deployed.clearTallyStalled (d : Deployed) (sender : Bytes) (hasAdminRole : Bool) :
    Except Revert Deployed := do
  require (hasAdminRole = true) (.unauthorizedAccount sender)
  require (d.votes.cancelled = false) .alreadyCancelled
  pure { d with tallyStalled := false }

omit E el in
/-- The checks of `withdrawFees`, and the transfer of everything there is. -/
def Deployed.payOut (d : Deployed) (sender recipient : Bytes) (hasAdminRole : Bool) : Except Revert Deployed := do
  require (hasAdminRole = true) (.unauthorizedAccount sender)
  require (recipient ≠ zeroAddress) .invalidConfig
  pure { d with balance := 0, paidOut := d.paidOut ++ [(recipient, d.balance)] }

mutual

/-- The contract after a message that is not reverted. -/
def Message.perform : Message → Deployed → Except Halt Deployed
  | .committee sender entry, d => entered do
    let votes ← Tx.perform E el ⟨timestamp, sender, entry⟩ d.votes
    pure { d with votes }
  | .submitVote sender value voteProxy ballot, d =>
    entered (d.storeVote el selfSubmitFee ⟨timestamp, sender, value, voteProxy, ballot⟩)
  | .submitDecryptionShare sender shares proofs, d => entered do
    let s ← Contract.submitDecryptionShare el d.shareBoard timestamp sender shares proofs
    pure (d.withShares s)
  | .submitDecryptionShareSigned shares proofs keyperSig, d => entered do
    let s ← Contract.submitDecryptionShareSigned E el d.shareBoard timestamp shares proofs keyperSig
    pure (d.withShares s)
  | .publishResult sender hasPublisherRole totals keyperIndices, d => entered do
    let result ← Contract.publishResult el d.votes timestamp sender hasPublisherRole totals keyperIndices
    pure { d with resultFinalized := true, electionResult := result }
  | .markTallyStalled sender hasPublisherRole, d =>
    entered (d.markTallyStalled el timestamp sender hasPublisherRole)
  | .clearTallyStalled sender hasAdminRole, d => entered (d.clearTallyStalled sender hasAdminRole)
  | .withdrawFees sender recipient hasAdminRole inner succeeds, d => do
    let paid ← entered (d.payOut sender recipient hasAdminRole)
    let after := Message.performAll inner paid
    if succeeds then pure after else .error .etherTransferFailed
  | .other _ _, _ => .error .directETHUnsupported
termination_by structural m => m

/-- The contract after messages, each reverted or not. -/
def Message.performAll : List Message → Deployed → Deployed
  | [], d => d
  | m :: rest, d => Message.performAll rest ((Message.perform m d).toOption.getD d)
termination_by structural messages => messages

end

end

/-! Reads. -/

def Deployed.getBallot (d : Deployed) (pseudonym : Bytes) : Except Halt BallotRecord :=
  if d.ballotIndexPlusOneByPseudonym pseudonym = 0 then .error (.ballotNotFound pseudonym)
  else match d.ballotRecords[d.ballotIndexPlusOneByPseudonym pseudonym - 1]? with
    | some record => .ok record
    | none => .error (.revert (.panic 0x32))

/-! Runs. -/

/-- What happens to the contract in a block. -/
inductive Input where
  | message (m : Message)
  | forced (amount : Nat)

section
variable (E : EvmLib) (el : Election) (selfSubmitFee : Nat)

def Deployed.step (d : Deployed) (input : Nat × Input) : Deployed :=
  match input.2 with
  | .message m => Message.performAll E el selfSubmitFee input.1 [m] d
  | .forced amount => { d with balance := d.balance + amount, forced := d.forced + amount }

def Deployed.run (d : Deployed) (inputs : List (Nat × Input)) : Deployed :=
  inputs.foldl (Deployed.step E el selfSubmitFee) d

end

/-- The blocks of a run in order of their time, none before `now` and none after `later`. -/
def Ordered : Nat → List (Nat × Input) → Nat → Prop
  | now, [], later => now ≤ later
  | now, input :: inputs, later => now ≤ input.1 ∧ Ordered input.1 inputs later

theorem ordered_append {now later : Nat} {before after : List (Nat × Input)} :
    Ordered now (before ++ after) later ↔ ∃ between, Ordered now before between ∧ Ordered between after later := by
  induction before generalizing now with
  | nil =>
    constructor
    · intro h
      exact ⟨now, le_refl now, h⟩
    · rintro ⟨between, hle, h⟩
      cases after with
      | nil => exact hle.trans h
      | cons input after => exact ⟨hle.trans h.1, h.2⟩
  | cons input before ih =>
    constructor
    · intro h
      obtain ⟨between, hbefore, hafter⟩ := ih.mp h.2
      exact ⟨between, ⟨h.1, hbefore⟩, hafter⟩
    · rintro ⟨between, hbefore, hafter⟩
      exact ⟨hbefore.1, ih.mpr ⟨between, hbefore.2, hafter⟩⟩

/-! ## What a message changes -/

section
variable (E : EvmLib) (el : Election) (selfSubmitFee : Nat) (timestamp : Nat)

/-- One write of the contract at a block time, with what was checked before it. -/
inductive Change (d : Deployed) : Deployed → Prop
  | key {votes : Storage} (live : d.votes.cancelled = false) (unfinished : d.votes.dkgFinalized = false)
      (cancelled : votes.cancelled = false) (tally : votes.encryptedTally = d.votes.encryptedTally)
      (published : votes.aggregatePublished = d.votes.aggregatePublished) : Change d { d with votes }
  | aggregate {votes : Storage} (live : d.votes.cancelled = false) (final : d.votes.dkgFinalized = true)
      (closed : el.votingEnd ≤ timestamp) (unfinished : d.votes.aggregatePublished = false)
      (cancelled : votes.cancelled = false) (key : votes.publishedKey = d.votes.publishedKey) :
      Change d { d with votes }
  | cancel (live : d.votes.cancelled = false) (early : timestamp < el.votingStart) :
      Change d { d with votes := { d.votes with cancelled := true } }
  | ballot {sender : Bytes} {value : Nat} {ballot : Ballot} (live : d.votes.cancelled = false)
      (final : d.votes.dkgFinalized = true) (started : el.votingStart ≤ timestamp)
      (open_ : timestamp < el.votingEnd) (fee : value = 0 ∨ value = selfSubmitFee) : Change d { d with
        ballotRecords := d.ballotRecords ++ [⟨ballot, timestamp % 2 ^ 64, sender⟩]
        ballotIndexPlusOneByPseudonym := Function.update d.ballotIndexPlusOneByPseudonym ballot.pseudonym
          (d.ballotRecords.length + 1)
        balance := d.balance + value
        fees := d.fees ++ [value] }
  | share {s : ShareBoard} {voter : Bytes} {shares : List Bytes} {proofs : List (Nat × Nat)}
      (live : d.votes.cancelled = false) (final : d.votes.dkgFinalized = true)
      (closed : el.votingEnd ≤ timestamp) (published : d.votes.aggregatePublished = true)
      (stored : ShareStored el d.shareBoard timestamp voter shares proofs s) : Change d (d.withShares s)
  | result {electionResult : ElectionResult} (live : d.votes.cancelled = false)
      (final : d.votes.dkgFinalized = true) (closed : el.votingEnd ≤ timestamp)
      (sized : electionResult.tally.length = el.numCandidates) :
      Change d { d with resultFinalized := true, electionResult }
  | stalled (live : d.votes.cancelled = false) (closed : el.votingEnd ≤ timestamp)
      (open_ : d.resultFinalized = false) : Change d { d with tallyStalled := true }
  | cleared (live : d.votes.cancelled = false) : Change d { d with tallyStalled := false }
  | paid (recipient : Bytes) :
      Change d { d with balance := 0, paidOut := d.paidOut ++ [(recipient, d.balance)] }

end

section
variable {E : EvmLib} {el : Election} {selfSubmitFee timestamp : Nat} {d d' : Deployed}

theorem entered_eq_ok {α : Type} {x : Except Revert α} {a : α} (h : entered x = .ok a) : x = .ok a := by
  cases x with
  | error e => cases h
  | ok b => exact congrArg Except.ok (Except.ok.inj h)

theorem VoteStep.publishedKey {s s' : Storage} {voter : Bytes} {tally : EncryptedTally} {time : Nat}
    (h : VoteStep E el s (.aggregate voter tally time) s') :
    s'.cancelled = s.cancelled ∧ s'.publishedKey = s.publishedKey := by
  cases h with
  | resend member closed unfinished same => exact ⟨rfl, rfl⟩
  | aggregate member closed unfinished changed dropped counted => exact ⟨rfl, rfl⟩

theorem VoteStep.tally {s s' : Storage} {voter pkElection : Bytes} {committeePKs : List Bytes}
    (h : VoteStep E el s (.dkg voter pkElection committeePKs) s') :
    s'.cancelled = s.cancelled ∧ s'.encryptedTally = s.encryptedTally ∧
      s'.aggregatePublished = s.aggregatePublished := by
  cases h with
  | dkg member first unfinished counted => exact ⟨rfl, rfl, rfl⟩

theorem change_of_dkgVote {voter pkElection : Bytes} {committeePKs : List Bytes} {votes : Storage}
    (live : d.votes.cancelled = false) (unfinished : d.votes.dkgFinalized = false)
    (h : registerDKGVote E el d.votes voter pkElection committeePKs = .ok votes) :
    Change el selfSubmitFee timestamp d { d with votes } := by
  obtain ⟨hcancelled, htally, hpublished⟩ := (registerDKGVote_eq_ok unfinished h).tally
  exact .key live unfinished (hcancelled.trans live) htally hpublished

theorem change_of_aggregate {voter : Bytes} {tally : EncryptedTally} {votes : Storage}
    (h : registerAggregate el d.votes timestamp voter (aggregateDigest E el tally) tally = .ok votes) :
    Change el selfSubmitFee timestamp d { d with votes } := by
  obtain ⟨hcancelled, hkey⟩ := (registerAggregate_eq_ok h).publishedKey
  rw [registerAggregate] at h
  obtain ⟨live, h⟩ := require_bind_eq_ok.mp h
  obtain ⟨final, h⟩ := require_bind_eq_ok.mp h
  obtain ⟨closed, h⟩ := require_bind_eq_ok.mp h
  obtain ⟨unfinished, -⟩ := require_bind_eq_ok.mp h
  exact .aggregate live final closed unfinished (hcancelled.trans live) hkey

theorem change_of_committee {sender : Bytes} {entry : EntryPoint} {votes : Storage}
    (h : Tx.perform E el ⟨timestamp, sender, entry⟩ d.votes = .ok votes) :
    Change el selfSubmitFee timestamp d { d with votes } := by
  cases entry with
  | voteDKGResult pkElection committeePKs =>
    obtain ⟨live, h⟩ := require_bind_eq_ok.mp h
    obtain ⟨unfinished, h⟩ := require_bind_eq_ok.mp h
    exact change_of_dkgVote live unfinished h
  | voteDKGResultSigned pkElection committeePKs keyperSig =>
    obtain ⟨live, h⟩ := require_bind_eq_ok.mp h
    obtain ⟨unfinished, h⟩ := require_bind_eq_ok.mp h
    obtain ⟨signer, -, h⟩ := bind_eq_ok.mp h
    exact change_of_dkgVote live unfinished h
  | submitAggregate aggregate => exact change_of_aggregate h
  | submitAggregateSigned aggregate keyperSig =>
    obtain ⟨signer, -, h⟩ := bind_eq_ok.mp h
    exact change_of_aggregate h
  | cancelElection hasAdminRole =>
    obtain ⟨-, h⟩ := require_bind_eq_ok.mp h
    obtain ⟨live, h⟩ := require_bind_eq_ok.mp h
    obtain ⟨early, h⟩ := require_bind_eq_ok.mp h
    cases h
    exact .cancel live early

theorem change_of_vote {tx : VoteTx} (htime : tx.timestamp = timestamp)
    (h : d.storeVote el selfSubmitFee tx = .ok d') : Change el selfSubmitFee timestamp d d' := by
  subst htime
  rw [Deployed.storeVote] at h
  obtain ⟨board, hboard, h⟩ := bind_eq_ok.mp h
  have hstored := submitVote_eq_ok hboard
  rw [submitVote] at hboard
  obtain ⟨live, hboard⟩ := require_bind_eq_ok.mp hboard
  obtain ⟨final, hboard⟩ := require_bind_eq_ok.mp hboard
  obtain ⟨started, hboard⟩ := require_bind_eq_ok.mp hboard
  obtain ⟨open_, hboard⟩ := require_bind_eq_ok.mp hboard
  obtain ⟨-, hboard⟩ := require_bind_eq_ok.mp hboard
  obtain ⟨-, hboard⟩ := require_bind_eq_ok.mp hboard
  obtain ⟨hfee, -⟩ := require_bind_eq_ok.mp hboard
  have fee : tx.value = 0 ∨ tx.value = selfSubmitFee := by
    by_cases hproxy : tx.voteProxy = true
    · rw [if_pos hproxy] at hfee
      exact .inl hfee
    · rw [if_neg hproxy] at hfee
      exact .inr hfee
  cases h
  have hlength : board.ballotRecords.length = d.ballotRecords.length + 1 := by
    rw [hstored, List.length_append]
    rfl
  rw [hlength, hstored]
  exact .ballot live final started open_ fee

theorem change_of_share {s : ShareBoard} {voter : Bytes} {shares : List Bytes} {proofs : List (Nat × Nat)}
    (hphase : requireDecryptionPhase el d.shareBoard timestamp = .ok ())
    (h : registerDecryptionShare el d.shareBoard timestamp voter shares proofs = .ok s) :
    Change el selfSubmitFee timestamp d (d.withShares s) := by
  have stored := registerDecryptionShare_eq_ok h
  rw [registerDecryptionShare] at h
  obtain ⟨published, -⟩ := require_bind_eq_ok.mp h
  rw [requireDecryptionPhase] at hphase
  obtain ⟨live, hphase⟩ := require_bind_eq_ok.mp hphase
  obtain ⟨final, hphase⟩ := require_bind_eq_ok.mp hphase
  rw [require] at hphase
  by_cases closed : el.votingEnd ≤ timestamp
  · exact .share live final closed published stored
  · rw [if_neg closed] at hphase
    cases hphase

theorem change_of_result {sender : Bytes} {hasPublisherRole : Bool} {totals keyperIndices : List Nat}
    {result : ElectionResult}
    (h : Contract.publishResult el d.votes timestamp sender hasPublisherRole totals keyperIndices = .ok result) :
    Change el selfSubmitFee timestamp d { d with resultFinalized := true, electionResult := result } := by
  rw [Contract.publishResult] at h
  obtain ⟨-, h⟩ := require_bind_eq_ok.mp h
  obtain ⟨live, h⟩ := require_bind_eq_ok.mp h
  obtain ⟨final, h⟩ := require_bind_eq_ok.mp h
  obtain ⟨closed, h⟩ := require_bind_eq_ok.mp h
  obtain ⟨hsized, h⟩ := require_bind_eq_ok.mp h
  cases h
  exact .result live final closed hsized.1

theorem change_of_stalled {sender : Bytes} {hasPublisherRole : Bool}
    (h : d.markTallyStalled el timestamp sender hasPublisherRole = .ok d') :
    Change el selfSubmitFee timestamp d d' := by
  rw [Deployed.markTallyStalled] at h
  obtain ⟨-, h⟩ := require_bind_eq_ok.mp h
  obtain ⟨live, h⟩ := require_bind_eq_ok.mp h
  obtain ⟨closed, h⟩ := require_bind_eq_ok.mp h
  obtain ⟨open_, h⟩ := require_bind_eq_ok.mp h
  cases h
  exact .stalled live closed open_

theorem change_of_cleared {sender : Bytes} {hasAdminRole : Bool}
    (h : d.clearTallyStalled sender hasAdminRole = .ok d') : Change el selfSubmitFee timestamp d d' := by
  rw [Deployed.clearTallyStalled] at h
  obtain ⟨-, h⟩ := require_bind_eq_ok.mp h
  obtain ⟨live, h⟩ := require_bind_eq_ok.mp h
  cases h
  exact .cleared live

theorem change_of_payOut {sender recipient : Bytes} {hasAdminRole : Bool}
    (h : d.payOut sender recipient hasAdminRole = .ok d') : Change el selfSubmitFee timestamp d d' := by
  rw [Deployed.payOut] at h
  obtain ⟨-, h⟩ := require_bind_eq_ok.mp h
  obtain ⟨-, h⟩ := require_bind_eq_ok.mp h
  cases h
  exact .paid recipient

/-- The messages sent back while a message is executed. -/
def Message.inner : Message → List Message
  | .withdrawFees _ _ _ inner _ => inner
  | _ => []

/-- Induction over the messages, those sent back first. -/
theorem Message.inner_induction {P : Message → Prop} (h : ∀ m, (∀ m' ∈ m.inner, P m') → P m) (m : Message) : P m :=
  h m fun m' _hm' => Message.inner_induction h m'
termination_by m
decreasing_by
  cases m with
  | withdrawFees sender recipient hasAdminRole inner succeeds =>
    have hlt := List.sizeOf_lt_of_mem _hm'
    simp only [Message.inner] at hlt
    simp only [Message.withdrawFees.sizeOf_spec]
    omega
  | _ => cases _hm'

/-- Messages that are sequences of changes one by one are one in a row. -/
theorem performAll_changes {rest : List Message} (h : ∀ m ∈ rest, ∀ d d',
      Message.perform E el selfSubmitFee timestamp m d = .ok d' →
        ReflTransGen (Change el selfSubmitFee timestamp) d d') (d : Deployed) :
    ReflTransGen (Change el selfSubmitFee timestamp) d
      (Message.performAll E el selfSubmitFee timestamp rest d) := by
  induction rest generalizing d with
  | nil => exact .refl
  | cons m rest ih =>
    rw [Message.performAll]
    refine ReflTransGen.trans ?_ (ih (fun m hm => h m (List.mem_cons_of_mem _ hm)) _)
    cases hm : Message.perform E el selfSubmitFee timestamp m d with
    | error e => exact .refl
    | ok d' => exact h m List.mem_cons_self d d' hm

/-- What a message does, whatever its recipient sends back, is a sequence of changes. -/
theorem Message.changes (m : Message) : ∀ d d' : Deployed,
    Message.perform E el selfSubmitFee timestamp m d = .ok d' →
      ReflTransGen (Change el selfSubmitFee timestamp) d d' := by
  induction m using Message.inner_induction with
  | h m ih =>
    intro d d' h
    cases m with
    | committee sender entry =>
      obtain ⟨votes, hvotes, h⟩ := bind_eq_ok.mp (entered_eq_ok h)
      cases h
      exact .single (change_of_committee hvotes)
    | submitVote sender value voteProxy ballot => exact .single (change_of_vote rfl (entered_eq_ok h))
    | submitDecryptionShare sender shares proofs =>
      obtain ⟨s, hs, h⟩ := bind_eq_ok.mp (entered_eq_ok h)
      cases h
      obtain ⟨_, hphase, hs⟩ := bind_eq_ok.mp hs
      exact .single (change_of_share hphase hs)
    | submitDecryptionShareSigned shares proofs keyperSig =>
      obtain ⟨s, hs, h⟩ := bind_eq_ok.mp (entered_eq_ok h)
      cases h
      obtain ⟨_, hphase, hs⟩ := bind_eq_ok.mp hs
      obtain ⟨signer, -, hs⟩ := bind_eq_ok.mp hs
      exact .single (change_of_share hphase hs)
    | publishResult sender hasPublisherRole totals keyperIndices =>
      obtain ⟨result, hresult, h⟩ := bind_eq_ok.mp (entered_eq_ok h)
      cases h
      exact .single (change_of_result hresult)
    | markTallyStalled sender hasPublisherRole => exact .single (change_of_stalled (entered_eq_ok h))
    | clearTallyStalled sender hasAdminRole => exact .single (change_of_cleared (entered_eq_ok h))
    | withdrawFees sender recipient hasAdminRole inner succeeds =>
      rw [Message.perform] at h
      obtain ⟨paid, hpaid, h⟩ := bind_eq_ok.mp h
      cases succeeds with
      | false => cases h
      | true =>
        cases h
        exact .head (change_of_payOut (entered_eq_ok hpaid)) (performAll_changes ih paid)
    | other sender value => cases h

end
end ElGamalVoting.Contract
