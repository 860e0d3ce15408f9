import ElGamalVoting.Adapters.ChainShares
import ElGamalVoting.Adapters.MemorySteps

/- What the chain adapter refuses to write twice (`submit_dkg_result` and `publish_result` of
   `adapters/chain/client.py`).

   The port's writes are append-only: a resend of the same content is silent, another content is an
   `ImmutabilityError`. The adapter decides between the two before it sends anything, from what the
   contract shows: the key of a vote without its committee, the key of the final result, and the totals of
   the published result. `ChainElection.after` ranges over every history of the contract, of which the
   transactions the adapter has sent are a part. -/
namespace ElGamalVoting
open Lib Contract

/-- `publishResult` of the contract. A result that is there already is overwritten. -/
def Contract.publishResult (el : Election) (s : Storage) (timestamp : Nat) (sender : Bytes)
    (hasPublisherRole : Bool) (totals keyperIndices : List Nat) : Except Revert ElectionResult := do
  require (hasPublisherRole = true) (.unauthorizedAccount sender)
  require (s.cancelled = false) .alreadyCancelled
  require (s.dkgFinalized = true) .dkgNotFinalized
  require (el.votingEnd ≤ timestamp) (.votingStillOpen timestamp)
  require (totals.length = el.numCandidates ∧ keyperIndices ≠ []) .invalidResultPayload
  pure ⟨totals, keyperIndices⟩

section
variable (E : EvmLib) (el : Election)

/-- The storage after the transaction, or nothing where the call returns without one. -/
def submitDkgResultOnChain (c : ChainElection) (pkElection : Bytes) (committeePks : List Bytes) (keyperSig : Bytes) :
    Py (Option Storage) := do
  let keyperAddr ← recoverDigest E.toEthLib (dkgResultDigest E.toEthLib el.id pkElection committeePks) keyperSig
  if c.storage.dkgFinalized then
    if c.storage.electionPublicKey = pkElection then pure none
    else .error (.immutability "DKG already finalized with a different key")
  else
    match (c.dkgVotes.filter fun ev => ev.keyper = keyperAddr).getLast? with
    | some ev =>
      if ev.pkElection = pkElection then pure none
      else .error (.immutability "keyper already submitted a different DKG result")
    | none => do
      let s' ← send (voteDKGResultSigned E el c.storage pkElection committeePks keyperSig)
      pure (some s')

omit E in
/-- The result after the transaction, or nothing where the call returns without one. -/
def publishResultOnChain (c : ChainElection) (timestamp : Nat) (sender : Bytes) (hasPublisherRole : Bool)
    (result : ResultArtifact) : Py (Option ElectionResult) :=
  match c.result with
  | some _ => do
    let existing ← c.getResult el.id
    match existing with
    | some existing =>
      if existing.totals ≠ result.totals then .error (.immutability "result already published (append-only)")
      else pure none
    | none => pure none
  | none => do
    let totals ← result.totals.mapM (abiUint 256)
    let keyperIndices ← result.keyperIndices.mapM (abiUint 8)
    let r ← send (Contract.publishResult el c.storage timestamp sender hasPublisherRole totals keyperIndices)
    pure (some r)

/-! ## Content on record -/

omit E el in
/-- What a vote submits, if it is a keyper's vote for a key. -/
def Contract.Vote.dkgContentOf (keyper : Bytes) : Vote → Option (Bytes × List Bytes)
  | .dkg voter pkElection committeePKs => if voter = keyper then some (pkElection, committeePKs) else none
  | .aggregate _ _ _ => none

/-- What a keyper has submitted in a history of the contract. -/
def submittedBefore (txs : List BoardTx) (keyper : Bytes) : Option (Bytes × List Bytes) :=
  ((acceptedVotes E el {} (txs.filterMap BoardTx.committeeTx)).filterMap (Vote.dkgContentOf keyper)).getLast?

end

/-- The rule for one write: it is silent only for content that is on record, and content that is not is
    refused where any is. -/
structure AppendOnly {α β : Type} (call : Py (Option β)) (content : α) (onRecord : List α) : Prop where
  silent : call = .ok none → content ∈ onRecord
  refused : onRecord ≠ [] → content ∉ onRecord → ∃ text, call = .error (.immutability text)

section
variable {E : EvmLib} {el : Election} {fixed : Fixed} {txs : List BoardTx}
  {shares : List Contract.DecryptionShare} {result : Option ElectionResult}

/-- The last log of a keyper is the key of what it has submitted. -/
theorem getLast?_dkgLog (votes : List Vote) (keyper : Bytes) :
    ((votes.filterMap Vote.dkgLog).filter fun ev => ev.keyper = keyper).getLast?.map DKGVoteLog.pkElection =
      (votes.filterMap (Vote.dkgContentOf keyper)).getLast?.map Prod.fst := by
  rw [← List.getLast?_map, ← List.getLast?_map]
  congr 1
  induction votes with
  | nil => rfl
  | cons vote votes ih =>
    cases vote with
    | dkg voter pkElection committeePKs =>
      by_cases hvoter : voter = keyper
      · simpa [Vote.dkgLog, Vote.dkgContentOf, hvoter] using ih
      · simpa [Vote.dkgLog, Vote.dkgContentOf, hvoter] using ih
    | aggregate voter aggregate timestamp => exact ih

/-- The contents a keyper's call is compared with. -/
def dkgOnRecord (E : EvmLib) (el : Election) (txs : List BoardTx) (c : ChainElection) (keyper : Bytes) :
    List (Bytes × List Bytes) :=
  (submittedBefore E el txs keyper).toList ++ c.storage.publishedKey.toList

/-- The content of which the adapter sees the key: the final one, and the keyper's own before that. -/
def dkgSeen (E : EvmLib) (el : Election) (txs : List BoardTx) (c : ChainElection) (keyper : Bytes) :
    Option (Bytes × List Bytes) :=
  match c.storage.publishedKey with
  | some key => some key
  | none => submittedBefore E el txs keyper

theorem mem_dkgOnRecord {c : ChainElection} {keyper : Bytes} {content : Bytes × List Bytes} :
    content ∈ dkgOnRecord E el txs c keyper ↔
      submittedBefore E el txs keyper = some content ∨ c.storage.publishedKey = some content := by
  rw [dkgOnRecord, List.mem_append, Option.mem_toList, Option.mem_toList]

/-- The call by what the adapter sees: silent for the same key, refused for another. -/
theorem submitDkgResultOnChain_eq {pkElection keyperSig keyper : Bytes} {committeePks : List Bytes}
    (hkeyper : E.recoverMessage (dkgResultDigest E.toEthLib el.id pkElection committeePks) keyperSig = some keyper) :
    match dkgSeen E el txs (ChainElection.after E el fixed txs shares result) keyper with
    | some seen =>
      if seen.1 = pkElection then
        submitDkgResultOnChain E el (ChainElection.after E el fixed txs shares result) pkElection committeePks
          keyperSig = .ok none
      else ∃ text, submitDkgResultOnChain E el (ChainElection.after E el fixed txs shares result) pkElection
        committeePks keyperSig = .error (.immutability text)
    | none =>
      submittedBefore E el txs keyper = none ∧
      submitDkgResultOnChain E el (ChainElection.after E el fixed txs shares result) pkElection committeePks
        keyperSig ≠ .ok none := by
  set c := ChainElection.after E el fixed txs shares result with hc
  have haddr : recoverDigest E.toEthLib (dkgResultDigest E.toEthLib el.id pkElection committeePks) keyperSig =
      .ok keyper := by
    rw [recoverDigest, hkeyper]
  have hlast : (c.dkgVotes.filter fun ev => ev.keyper = keyper).getLast?.map DKGVoteLog.pkElection =
      (submittedBefore E el txs keyper).map Prod.fst := getLast?_dkgLog _ keyper
  rw [submitDkgResultOnChain, haddr, ok_bind, dkgSeen, Storage.publishedKey]
  cases c.storage.dkgFinalized with
  | true =>
    simp only [if_true]
    by_cases hkey : c.storage.electionPublicKey = pkElection
    · rw [if_pos hkey, if_pos hkey]
      rfl
    · rw [if_neg hkey, if_neg hkey]
      exact ⟨_, rfl⟩
  | false =>
    simp only [Bool.false_eq_true, if_false]
    cases hbefore : submittedBefore E el txs keyper with
    | none =>
      rw [hbefore, Option.map_none, Option.map_eq_none_iff] at hlast
      rw [hlast]
      refine ⟨rfl, fun hsilent => ?_⟩
      obtain ⟨s', -, hsilent⟩ := bind_eq_ok.mp hsilent
      cases hsilent
    | some seen =>
      rw [hbefore, Option.map_some, Option.map_eq_some_iff] at hlast
      obtain ⟨ev, hev, hkeys⟩ := hlast
      rw [hev]
      simp only [hkeys]
      by_cases hkey : seen.1 = pkElection
      · rw [if_pos hkey, if_pos hkey]
        rfl
      · rw [if_neg hkey, if_neg hkey]
        exact ⟨_, rfl⟩

theorem submitDkgResultOnChain_silent {pkElection keyperSig keyper : Bytes} {committeePks : List Bytes}
    {seen : Bytes × List Bytes}
    (hkeyper : E.recoverMessage (dkgResultDigest E.toEthLib el.id pkElection committeePks) keyperSig = some keyper)
    (hseen : dkgSeen E el txs (ChainElection.after E el fixed txs shares result) keyper = some seen)
    (hkey : seen.1 = pkElection) :
    submitDkgResultOnChain E el (ChainElection.after E el fixed txs shares result) pkElection committeePks keyperSig =
      .ok none := by
  have hcall := @submitDkgResultOnChain_eq E el fixed txs shares result _ _ _ _ hkeyper
  rw [hseen] at hcall
  simpa only [hkey, if_true] using hcall

/-- A vote for a key is append-only unless it repeats the key the adapter sees with another committee. -/
theorem submitDkgResultOnChain_appendOnly_iff {pkElection keyperSig keyper : Bytes} {committeePks : List Bytes}
    (hkeyper : E.recoverMessage (dkgResultDigest E.toEthLib el.id pkElection committeePks) keyperSig = some keyper) :
    AppendOnly (submitDkgResultOnChain E el (ChainElection.after E el fixed txs shares result) pkElection committeePks
        keyperSig) (pkElection, committeePks)
        (dkgOnRecord E el txs (ChainElection.after E el fixed txs shares result) keyper) ↔
      ∀ seen, dkgSeen E el txs (ChainElection.after E el fixed txs shares result) keyper = some seen →
        seen.1 = pkElection → seen.2 = committeePks ∨
          submittedBefore E el txs keyper = some (pkElection, committeePks) := by
  have hcall := @submitDkgResultOnChain_eq E el fixed txs shares result _ _ _ _ hkeyper
  set c := ChainElection.after E el fixed txs shares result with hc
  cases hseen : dkgSeen E el txs c keyper with
  | none =>
    rw [hseen] at hcall
    have hpublished : c.storage.publishedKey = none := by
      rw [dkgSeen] at hseen
      split at hseen
      · cases hseen
      · assumption
    have hempty : dkgOnRecord E el txs c keyper = [] := by
      rw [dkgOnRecord, hcall.1, hpublished]
      rfl
    exact ⟨fun _ seen h => (nomatch h), fun _ => ⟨fun hsilent => absurd hsilent hcall.2, fun h => absurd hempty h⟩⟩
  | some seen =>
    rw [hseen] at hcall
    -- what is seen is on record
    have hrecord : seen.1 = pkElection → ((pkElection, committeePks) ∈ dkgOnRecord E el txs c keyper ↔
        seen.2 = committeePks ∨ submittedBefore E el txs keyper = some (pkElection, committeePks)) := by
      intro hkey
      have hpair : seen = (pkElection, committeePks) ↔ seen.2 = committeePks := by
        rw [Prod.ext_iff]
        exact ⟨fun h => h.2, fun h => ⟨hkey, h⟩⟩
      rw [mem_dkgOnRecord, ← hpair, or_comm]
      rw [dkgSeen] at hseen
      split at hseen
      · rename_i key hpublished
        cases hseen
        rw [hpublished, Option.some.injEq]
      · rename_i hpublished
        rw [hpublished, hseen, Option.some.injEq]
        simp
    by_cases hkey : seen.1 = pkElection
    · simp only [hkey, if_true] at hcall
      constructor
      · rintro h _ ⟨⟩ -
        exact (hrecord hkey).mp (h.silent hcall)
      · intro h
        have hmem := (hrecord hkey).mpr (h seen rfl hkey)
        exact ⟨fun _ => hmem, fun _ hnot => absurd hmem hnot⟩
    · simp only [hkey, if_false] at hcall
      obtain ⟨text, htext⟩ := hcall
      refine ⟨?_, fun _ => ⟨fun hsilent => ?_, fun _ _ => ⟨text, htext⟩⟩⟩
      · rintro - _ ⟨⟩ hsame
        exact absurd hsame hkey
      · rw [htext] at hsilent
        cases hsilent

/-! ## The result -/

/-- The fields of a result that are on chain. -/
def Contract.ElectionResult.content (r : ElectionResult) : List Int × List Int :=
  (r.tally.map Int.ofNat, r.keyperIndices.map Int.ofNat)

/-- A published aggregate that cannot be read raises `KeyError`. -/
theorem readAggregate_raisesOnly (c : ChainElection) (electionId : Bytes) :
    RaisesOnly (fun e => ∃ text, e = .keyError text) (c.readAggregate electionId) := by
  unfold ChainElection.readAggregate
  split
  · exact .ok _
  · refine .bind (.bind (.mapM (fun x => .bind ?_ fun _ => .ok _) _) fun _ => .ok _) fun _ => .ok _
    unfold fromU8
    split
    · exact .ok _
    · exact .error ⟨_, rfl⟩

/-- A result is append-only unless it repeats the totals on record with other indices, or the aggregate
    the bound is derived from cannot be read. -/
theorem publishResultOnChain_appendOnly_iff {c : ChainElection} {timestamp : Nat} {sender : Bytes} {role : Bool}
    {published : ResultArtifact} :
    AppendOnly (publishResultOnChain el c timestamp sender role published)
        (published.totals, published.keyperIndices) (c.result.map ElectionResult.content).toList ↔
      ∀ r, c.result = some r → (published.totals, published.keyperIndices) ≠ r.content →
        r.content.1 ≠ published.totals ∧ Returns (c.readAggregate el.id) := by
  rw [publishResultOnChain]
  cases hresult : c.result with
  | none =>
    refine ⟨fun _ r h => (nomatch h), fun _ => ⟨fun hsilent => ?_, fun h => absurd rfl h⟩⟩
    obtain ⟨totals, -, hsilent⟩ := bind_eq_ok.mp hsilent
    obtain ⟨indices, -, hsilent⟩ := bind_eq_ok.mp hsilent
    obtain ⟨r, -, hsilent⟩ := bind_eq_ok.mp hsilent
    cases hsilent
  | some r =>
    rw [ChainElection.getResult, hresult]
    cases hread : c.readAggregate el.id with
    | error e =>
      obtain ⟨text, rfl⟩ := readAggregate_raisesOnly c el.id e hread
      constructor
      · rintro h _ ⟨⟩ hne
        obtain ⟨text', htext⟩ := h.refused (by simp) (by simpa using hne)
        cases htext
      · intro h
        refine ⟨fun hsilent => (nomatch hsilent), fun _ hne => ?_⟩
        obtain ⟨-, agg, hagg⟩ := h r rfl (by simpa using hne)
        cases hagg
    | ok agg =>
      show AppendOnly (if r.content.1 ≠ published.totals then
          .error (.immutability "result already published (append-only)") else .ok none : Py (Option ElectionResult))
        _ [r.content] ↔ _
      by_cases htotals : r.content.1 ≠ published.totals
      · rw [if_pos htotals]
        refine ⟨?_, fun _ => ⟨fun hsilent => (nomatch hsilent), fun _ _ => ⟨_, rfl⟩⟩⟩
        rintro - _ ⟨⟩ -
        exact ⟨htotals, agg, rfl⟩
      · rw [if_neg htotals]
        constructor
        · rintro h _ ⟨⟩ hne
          exact absurd (List.mem_singleton.mp (h.silent rfl)) hne
        · intro h
          have hsame : (published.totals, published.keyperIndices) = r.content := by
            by_contra hne
            exact htotals (h r rfl hne).1
          rw [hsame]
          exact ⟨fun _ => List.mem_singleton_self _, fun _ hnot => absurd (List.mem_singleton_self _) hnot⟩

/-! ## Sequences of calls -/

/-- A call of the adapter, or any other transaction on the election. -/
inductive ChainCall where
  | dkgResult (pkElection : Bytes) (committeePks : List Bytes) (keyperSig : Bytes)
  | result (timestamp : Nat) (sender : Bytes) (hasPublisherRole : Bool) (result : ResultArtifact)
  | other (tx : BoardTx)

/-- What has happened on the election: its transactions, and the result as it was last published. -/
structure ChainHistory where
  txs : List BoardTx := []
  result : Option ElectionResult := none

def ChainHistory.election (E : EvmLib) (el : Election) (fixed : Fixed) (h : ChainHistory) : ChainElection :=
  ChainElection.after E el fixed h.txs [] h.result

/-- A call adds the transaction it sends, if it sends one. -/
def ChainCall.apply (E : EvmLib) (el : Election) (fixed : Fixed) (h : ChainHistory) : ChainCall → ChainHistory
  | .dkgResult pkElection committeePks keyperSig =>
    match submitDkgResultOnChain E el (h.election E el fixed) pkElection committeePks keyperSig with
    | .ok (some _) => { h with
        txs := h.txs ++ [.other ⟨0, [], .voteDKGResultSigned pkElection committeePks keyperSig⟩] }
    | _ => h
  | .result timestamp sender hasPublisherRole result =>
    match publishResultOnChain el (h.election E el fixed) timestamp sender hasPublisherRole result with
    | .ok (some r) => { h with result := some r }
    | _ => h
  | .other tx => { h with txs := h.txs ++ [tx] }

def runChainCalls (E : EvmLib) (el : Election) (fixed : Fixed) (calls : List ChainCall) : ChainHistory :=
  calls.foldl (ChainCall.apply E el fixed) {}

/-- The in-memory store compares the whole content of a submission with the keyper's own. -/
theorem submitDkgResult_existing {E : EthLib} {s : InMemoryDataLayer} {st : Stored}
    {electionId pkElection keyperSig : Bytes} {committeePks : List Bytes} {idx : Int} {existing : DKGResultSubmission}
    (hst : getStored s electionId = .ok st)
    (hidx : keyperIndexByRecovery E st.config (dkgResultDigest E electionId pkElection committeePks) keyperSig = .ok idx)
    (hexisting : st.dkgByKeyper.get? idx = some existing) :
    if (existing.pkElection, existing.committeePks) = (pkElection, committeePks) then
      submitDkgResult E s electionId pkElection committeePks keyperSig = .ok s
    else ∃ text, submitDkgResult E s electionId pkElection committeePks keyperSig = .error (.immutability text) := by
  rw [submitDkgResult, hst, ok_bind, hidx, ok_bind, hexisting]
  by_cases hsame : (existing.pkElection, existing.committeePks) = (pkElection, committeePks)
  · rw [if_pos hsame]
    exact if_neg (not_not.mpr hsame)
  · rw [if_neg hsame]
    exact ⟨_, if_pos hsame⟩

/-- So it does with a result. -/
theorem publishResult_existing {E : EthLib} {s : InMemoryDataLayer} {st : Stored} {electionId payload sig : Bytes}
    {result existing : ResultArtifact} (hst : getStored s electionId = .ok st)
    (hpayload : resultDigest E electionId result = .ok payload)
    (hsigned : verifyRequest E st.config.resultPublisherKey sig "result" electionId payload = true)
    (hexisting : st.result = some existing) :
    if existing = result then publishResult E s electionId result sig = .ok s
    else ∃ text, publishResult E s electionId result sig = .error (.immutability text) := by
  rw [publishResult, hst, ok_bind, hpayload, ok_bind, if_neg (not_not.mpr hsigned), hexisting]
  by_cases hsame : existing = result
  · rw [if_pos hsame]
    exact if_neg (not_not.mpr hsame)
  · rw [if_neg hsame]
    exact ⟨_, if_pos hsame⟩

/-- After every sequence of calls, a vote for a key is append-only in all its fields if and only if it
    does not repeat the key that is on record with another committee, and a result if and only if it does not
    repeat the totals with other indices; the in-memory store compares the whole content. -/
theorem chain_append_only_iff (E : EvmLib) (el : Election) (fixed : Fixed) (calls : List ChainCall) :
    (∀ pkElection committeePks keyperSig keyper,
      E.recoverMessage (dkgResultDigest E.toEthLib el.id pkElection committeePks) keyperSig = some keyper →
      (AppendOnly (submitDkgResultOnChain E el ((runChainCalls E el fixed calls).election E el fixed) pkElection
          committeePks keyperSig) (pkElection, committeePks)
          (dkgOnRecord E el (runChainCalls E el fixed calls).txs ((runChainCalls E el fixed calls).election E el fixed)
            keyper) ↔
        ∀ seen, dkgSeen E el (runChainCalls E el fixed calls).txs
            ((runChainCalls E el fixed calls).election E el fixed) keyper = some seen →
          seen.1 = pkElection → seen.2 = committeePks ∨
            submittedBefore E el (runChainCalls E el fixed calls).txs keyper = some (pkElection, committeePks))) ∧
    (∀ timestamp sender role (published : ResultArtifact),
      AppendOnly (publishResultOnChain el ((runChainCalls E el fixed calls).election E el fixed) timestamp sender role
          published) (published.totals, published.keyperIndices)
          ((runChainCalls E el fixed calls).result.map ElectionResult.content).toList ↔
        ∀ r, (runChainCalls E el fixed calls).result = some r →
          (published.totals, published.keyperIndices) ≠ r.content →
          r.content.1 ≠ published.totals ∧
            Returns (((runChainCalls E el fixed calls).election E el fixed).readAggregate el.id)) ∧
    (∀ (s : InMemoryDataLayer) (st : Stored) (electionId pkElection keyperSig : Bytes) (committeePks : List Bytes)
      (idx : Int) (existing : DKGResultSubmission), getStored s electionId = .ok st →
      keyperIndexByRecovery E.toEthLib st.config (dkgResultDigest E.toEthLib electionId pkElection committeePks)
        keyperSig = .ok idx →
      st.dkgByKeyper.get? idx = some existing →
      if (existing.pkElection, existing.committeePks) = (pkElection, committeePks) then
        submitDkgResult E.toEthLib s electionId pkElection committeePks keyperSig = .ok s
      else ∃ text,
        submitDkgResult E.toEthLib s electionId pkElection committeePks keyperSig = .error (.immutability text)) ∧
    ∀ (s : InMemoryDataLayer) (st : Stored) (electionId payload sig : Bytes) (result existing : ResultArtifact),
      getStored s electionId = .ok st → resultDigest E.toEthLib electionId result = .ok payload →
      verifyRequest E.toEthLib st.config.resultPublisherKey sig "result" electionId payload = true →
      st.result = some existing →
      if existing = result then publishResult E.toEthLib s electionId result sig = .ok s
      else ∃ text, publishResult E.toEthLib s electionId result sig = .error (.immutability text) := by
  refine ⟨?_, ?_, ?_, ?_⟩
  · intro pkElection committeePks keyperSig keyper hkeyper
    exact submitDkgResultOnChain_appendOnly_iff hkeyper
  · intro timestamp sender role published
    exact publishResultOnChain_appendOnly_iff
  · intro s st electionId pkElection keyperSig committeePks idx existing hst hidx hexisting
    exact submitDkgResult_existing hst hidx hexisting
  · intro s st electionId payload sig result existing hst hpayload hsigned hexisting
    exact publishResult_existing hst hpayload hsigned hexisting

end

/-! A keyper that votes for a key, and again for the same key with another committee. -/

namespace ResendSample
open SampleVotes

def params : ElectionParams where
  votingStart := 100
  votingEnd := 200
  selfSubmitFee := 0
  numCandidates := 1
  budget := 1
  mode := 0
  variant := 0
  weighted := true
  scale := 1
  duplicatePolicy := 1
  protocolVersion := ""
  pkWR := []
  resultPublisher := [4]
  voteProxy := [6]

def fixed : Fixed where
  electionId := 1
  keyperSet := { election.keyperSet with urls := ["", "", ""], length_urls := rfl }
  adminAddr := [5]
  params

/-- The first keyper's signature of a key with a committee. -/
def signature (pkElection : Bytes) (committeePks : List Bytes) : Bytes :=
  plainEth.signMessage [1] (dkgResultDigest plainEth election.id pkElection committeePks)

def calls : List ChainCall := [.dkgResult (key 5).1 (key 5).2 (signature (key 5).1 (key 5).2)]

def resent : List Bytes := (key 6).2

theorem recovers (committeePks : List Bytes) :
    lib.recoverMessage (dkgResultDigest lib.toEthLib election.id (key 5).1 committeePks)
      (signature (key 5).1 committeePks) = some [1] :=
  plainEth_recoverMessage (by decide) _

theorem before : submittedBefore lib election (runChainCalls lib election fixed calls).txs [1] = some (key 5) := by
  decide +kernel

theorem unfinished : ((runChainCalls lib election fixed calls).election lib election fixed).storage.publishedKey =
    none := by
  decide +kernel

theorem seen : dkgSeen lib election (runChainCalls lib election fixed calls).txs
    ((runChainCalls lib election fixed calls).election lib election fixed) [1] = some (key 5) := by
  rw [dkgSeen, unfinished]
  exact before

end ResendSample

open SampleVotes ResendSample in
/-- The second vote returns without a transaction although nothing like it is on record; so does a result
    with the totals of the published one and other indices. -/
theorem chain_resend_not_compared :
    (submitDkgResultOnChain lib election ((runChainCalls lib election fixed calls).election lib election fixed)
        (key 5).1 resent (signature (key 5).1 resent) = .ok none ∧
      (((key 5).1, resent) : Bytes × List Bytes) ∉ dkgOnRecord lib election (runChainCalls lib election fixed calls).txs
        ((runChainCalls lib election fixed calls).election lib election fixed) [1]) ∧
    (publishResultOnChain election (ChainElection.after lib election fixed [] [] (some ⟨[3], [1, 2]⟩)) 300 [4] true
        ⟨election.id, [3], [1, 3], 3⟩ = .ok none ∧
      (([3], [1, 3]) : List Int × List Int) ∉ [ElectionResult.content ⟨[3], [1, 2]⟩]) := by
  refine ⟨⟨submitDkgResultOnChain_silent (recovers resent) seen rfl, ?_⟩, rfl, by decide⟩
  rw [mem_dkgOnRecord, before, unfinished]
  decide +kernel

open SampleVotes ResendSample in
/-- The same vote again is on record. -/
theorem chain_resend_of_same :
    AppendOnly (submitDkgResultOnChain lib election ((runChainCalls lib election fixed calls).election lib election fixed)
      (key 5).1 (key 5).2 (signature (key 5).1 (key 5).2)) ((key 5).1, (key 5).2)
      (dkgOnRecord lib election (runChainCalls lib election fixed calls).txs
        ((runChainCalls lib election fixed calls).election lib election fixed) [1]) :=
  ((chain_append_only_iff lib election fixed calls).1 _ _ _ [1] (recovers (key 5).2)).mpr
    fun _ _ _ => .inr before

end ElGamalVoting
