import ElGamalVoting.Lib.Bytes

/- Election configuration (`core/config.py`).

   The checks of the two `__post_init__` methods are fields of the structures,
   so every value of the types has passed them: a threshold is a strict majority
   of its committee, and a configuration has a committee of exactly that size
   with distinct signing keys. The election id is opaque bytes whose length no
   check constrains. -/
namespace ElGamalVoting
open Lib

/-- A Python string, by its code points. -/
abbrev PyStr := List Nat

def pyStr (s : String) : PyStr := s.toList.map Char.toNat

inductive Mode where
  | exact
  | atMost
  deriving DecidableEq, Repr

inductive Variant where
  | A
  | B
  deriving DecidableEq, Repr

inductive DuplicatePolicy where
  | firstWins
  | lastWins
  deriving DecidableEq, Repr

/-- `t` of `n` keypers decrypt, and agree: `t` is the quorum. -/
structure Threshold where
  t : Nat
  n : Nat
  one_le_t : 1 ≤ t
  t_le_n : t ≤ n
  majority : n < t * 2
  deriving DecidableEq

structure KeyperIdentity where
  signingKey : Bytes
  url : PyStr
  deriving DecidableEq

def maxNumCandidates : Nat := 0xFFFF
def maxBudget : Nat := 0xFFFE
def maxProofBranches : Nat := 2500

structure ElectionConfig where
  electionId : Bytes
  numCandidates : Nat
  budget : Nat
  mode : Mode
  variant : Variant
  weighted : Bool
  duplicatePolicy : DuplicatePolicy
  votingStart : Int
  votingEnd : Int
  threshold : Threshold
  keypers : List KeyperIdentity
  eligibilityKey : Bytes
  resultPublisherKey : Bytes
  gatewayKeys : List Bytes
  adminKey : Bytes
  protocolVersion : PyStr
  scale : Nat
  selfSubmitFeeWei : Nat
  one_le_numCandidates : 1 ≤ numCandidates
  one_le_budget : 1 ≤ budget
  one_le_scale : 1 ≤ scale
  numCandidates_le : numCandidates ≤ maxNumCandidates
  budget_le : budget ≤ maxBudget
  branches_le : numCandidates * (budget + 1) ≤ maxProofBranches
  start_lt_end : votingStart < votingEnd
  length_keypers : keypers.length = threshold.n
  nodup_keys : (keypers.map KeyperIdentity.signingKey).Nodup
  deriving DecidableEq

/-- One candidate, a budget of one and a committee of two of three, over which
    statements are evaluated. -/
def smallConfig : ElectionConfig where
  electionId := beBytes 32 1
  numCandidates := 1
  budget := 1
  mode := .exact
  variant := .A
  weighted := true
  duplicatePolicy := .lastWins
  votingStart := 100
  votingEnd := 200
  threshold := ⟨2, 3, by decide, by decide, by decide⟩
  keypers := [⟨[1], []⟩, ⟨[2], []⟩, ⟨[3], []⟩]
  eligibilityKey := beBytes 48 11
  resultPublisherKey := [4]
  gatewayKeys := []
  adminKey := [5]
  protocolVersion := []
  scale := 1
  selfSubmitFeeWei := 0
  one_le_numCandidates := by decide
  one_le_budget := by decide
  one_le_scale := by decide
  numCandidates_le := by decide
  budget_le := by decide
  branches_le := by decide
  start_lt_end := by decide
  length_keypers := rfl
  nodup_keys := by decide

/-! Derived lifecycle state (`core/state.py`). -/

inductive ElectionState where
  | cancelled
  | complete
  | dkgFailed
  | registered
  | keyReady
  | voting
  | tallying
  | tallyStalled
  deriving DecidableEq, Repr

/-- The text of a state, as messages quote it. -/
def ElectionState.value : ElectionState → String
  | cancelled => "Cancelled"
  | complete => "Complete"
  | dkgFailed => "DKGFailed"
  | registered => "Registered"
  | keyReady => "KeyReady"
  | voting => "Voting"
  | tallying => "Tallying"
  | tallyStalled => "TallyStalled"

structure StateFacts where
  cancelled : Bool
  keyFinalized : Bool
  resultPublished : Bool
  tallyStalled : Bool := false

/-- Terminal outcomes are resolved before live states. -/
def deriveState (config : ElectionConfig) (facts : StateFacts) (now : Int) : ElectionState :=
  if facts.cancelled then .cancelled
  else if facts.resultPublished then .complete
  else if config.votingStart ≤ now ∧ ¬ facts.keyFinalized then .dkgFailed
  else if ¬ facts.keyFinalized then .registered
  else if now < config.votingStart then .keyReady
  else if now < config.votingEnd then .voting
  else if facts.tallyStalled then .tallyStalled
  else .tallying

/-- The half-open voting window. -/
def isVotingOpen (config : ElectionConfig) (now : Int) : Bool :=
  config.votingStart ≤ now ∧ now < config.votingEnd

end ElGamalVoting
