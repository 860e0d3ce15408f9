import ElGamalVoting.Adapters.ChainReads

/- Decryption shares through the chain adapter (`submit_decryption_share` and
   `list_decryption_shares` of `adapters/chain/client.py`, `share_to_contract` and
   `share_from_contract` of `adapters/chain/codec.py`).

   The proofs go through the contract as pairs of integers and come back as they were. The author is
   known to the adapter by its position in the committee and to the readers by the index the contract
   has stored, of which it keeps eight bits: `narrowed` is what is read back of an envelope. -/
namespace ElGamalVoting
open Lib Contract

def shareToContract (share : DecryptionShareEnvelope) : List Bytes × List (Int × Int) :=
  (share.entries.map DecryptionShareEntry.sigma, share.entries.map fun entry => proofPair entry.proof)

/-- The proofs as the library encodes them for a call. -/
def abiProofPairs (proofs : List (Int × Int)) : Py (List (Nat × Nat)) :=
  proofs.mapM fun p => do
    let e ← abiUint 256 p.1
    let z ← abiUint 256 p.2
    pure (e, z)

/-- `recover_digest`; what is raised for a bad signature is the library's. -/
def recoverDigest (E : EthLib) (digest sig : Bytes) : Py Bytes :=
  match E.recoverMessage digest sig with
  | none => .error (.valueError "bad signature")
  | some address => .ok address

def listSharesOnChain (el : Election) (s : ShareBoard) : Py (List DecryptionShareEnvelope) :=
  s.decryptionShares.mapM fun share => shareFromContract share el.id

section
variable (E : EvmLib) (el : Election)

/-- The board after the call, with the envelope where a transaction has stored it; nothing is sent for
    a share that is there already. -/
def submitShareOnChain (s : ShareBoard) (timestamp : Nat) (share : DecryptionShareEnvelope) (keyperSig : Bytes) :
    Py (ShareBoard × Option DecryptionShareEnvelope) := do
  let (shares, proofs) := shareToContract share
  let digest ← decryptionShareDigest E.toEthLib el.id shares proofs
  let keyperAddr ← recoverDigest E.toEthLib digest keyperSig
  match el.keyperSet.getMemberIndex keyperAddr with
  | .error _ =>
    .error (.writeAuthorization "submit_decryption_share: signer is not a registered keyper")
  | .ok idx0 =>
    if share.keyperIndex ≠ idx0 + 1 then
      .error (.writeAuthorization
        s!"share keyper_index {share.keyperIndex} does not match signer index {idx0 + 1}")
    else do
      let existing ← listSharesOnChain el s
      -- of two stored shares with one index the dictionary keeps the later
      match existing.reverse.find? fun e => e.keyperIndex = share.keyperIndex with
      | some stored =>
        if stored ≠ share then
          .error (.immutability s!"keyper {share.keyperIndex} already submitted different shares")
        else pure (s, none)
      | none => do
        let encoded ← abiProofPairs proofs
        let s' ← send (submitDecryptionShareSigned E el s timestamp shares encoded keyperSig)
        pure (s', some share)

/-! Runs. -/

/-- What happens to the shares: the committee's other transactions, a member's own transaction with its
    entries, and the adapter's relay. -/
inductive ShareCall where
  | committee (tx : Tx)
  | direct (timestamp : Nat) (sender : Bytes) (entries : List DecryptionShareEntry)
  | relay (timestamp : Nat) (share : DecryptionShareEnvelope) (keyperSig : Bytes)

def ShareCall.entries : ShareCall → List DecryptionShareEntry
  | .committee _ => []
  | .direct _ _ entries => entries
  | .relay _ share _ => share.entries

/-- A member's own transaction; its envelope is the one it stands for. -/
def directShare (s : ShareBoard) (timestamp : Nat) (sender : Bytes) (entries : List DecryptionShareEntry) :
    Py (ShareBoard × Option DecryptionShareEnvelope) := do
  let share : DecryptionShareEnvelope := ⟨el.id, el.keyperSet.members.idxOf sender + 1, entries⟩
  let (shares, proofs) := shareToContract share
  let encoded ← abiProofPairs proofs
  let s' ← send (Contract.submitDecryptionShare el s timestamp sender shares encoded)
  pure (s', some share)

def ShareCall.perform (s : ShareBoard) : ShareCall → Py (ShareBoard × Option DecryptionShareEnvelope)
  | .committee tx => .ok ({ s with votes := tx.apply E el s.votes }, none)
  | .direct timestamp sender entries => directShare el s timestamp sender entries
  | .relay timestamp share keyperSig => submitShareOnChain E el s timestamp share keyperSig

/-- The board and the envelopes stored so far, after a call. -/
def ShareCall.apply (st : ShareBoard × List DecryptionShareEnvelope) (call : ShareCall) :
    ShareBoard × List DecryptionShareEnvelope :=
  match call.perform E el st.1 with
  | .ok (s', stored) => (s', st.2 ++ stored.toList)
  | .error _ => st

/-- A run from a state of the votes in which nobody has submitted a share yet. -/
def runShares (votes : Storage) (calls : List ShareCall) : ShareBoard × List DecryptionShareEnvelope :=
  calls.foldl (ShareCall.apply E el) ({ votes }, [])

end

/-! ## What is read back -/

/-- What the readers make of a stored envelope. -/
def narrowed (el : Election) (share : DecryptionShareEnvelope) : DecryptionShareEnvelope :=
  { share with
    electionId := el.id
    keyperIndex := (share.keyperIndex - 1) % 2 ^ 8 + 1 }

/-- Proofs of two scalars. -/
def WellSized (entries : List DecryptionShareEntry) : Prop := ∀ entry ∈ entries, entry.proof.length = 64

theorem beBytes_beNat {b : Bytes} {w : Nat} (h : b.length = w) : beBytes w (beNat b) = b := by
  subst h
  refine beNat_inj (length_beBytes _ _) ?_
  rw [beNat_beBytes _ _ (beNat_lt b)]

/-- The two halves of a proof, joined again. -/
theorem proofPair_join {proof : Bytes} (h : proof.length = 64) :
    beBytes 32 (proofPair proof).1.toNat ++ beBytes 32 (proofPair proof).2.toNat = proof := by
  have hfirst : (proof.take 32).length = 32 := by
    rw [List.length_take]
    omega
  have hsecond : (proof.drop 32).length = 32 := by
    rw [List.length_drop]
    omega
  rw [proofPair, Int.toNat_natCast, Int.toNat_natCast, beBytes_beNat hfirst, beBytes_beNat hsecond,
    List.take_append_drop]

theorem recoverDigest_eq_ok {E : EthLib} {digest sig address : Bytes} (h : recoverDigest E digest sig = .ok address) :
    E.recoverMessage digest sig = some address := by
  unfold recoverDigest at h
  split at h
  · cases h
  · rename_i found hfound
    cases h
    exact hfound

/-- The digest the adapter takes is the one over the encoded proofs. -/
theorem decryptionShareDigest_eq {E : EthLib} {electionId : Bytes} {shares : List Bytes}
    {proofs : List (Int × Int)} {encoded : List (Nat × Nat)} (h : abiProofPairs proofs = .ok encoded) :
    decryptionShareDigest E electionId shares proofs =
      .ok (E.keccak (decryptShareDst ++ electionId ++ E.abiBytesArray shares ++ E.abiProofs encoded)) := by
  rw [decryptionShareDigest, decryptionSharePreimage, show (proofs.mapM fun p => do
    let e ← abiUint 256 p.1
    let z ← abiUint 256 p.2
    pure (e, z)) = abiProofPairs proofs from rfl, h, ok_bind]
  rfl

theorem abiProofPairs_eq_ok {proofs : List (Int × Int)} {encoded : List (Nat × Nat)}
    (h : abiProofPairs proofs = .ok encoded) :
    List.Forall₂ (fun p q => p = ((q.1 : Int), (q.2 : Int)) ∧ q.1 < 2 ^ 256 ∧ q.2 < 2 ^ 256) proofs encoded := by
  refine (mapM_eq_ok.mp h).imp ?_
  intro p q hpq
  obtain ⟨e, he, hpq⟩ := bind_eq_ok.mp hpq
  obtain ⟨z, hz, hpq⟩ := bind_eq_ok.mp hpq
  cases hpq
  exact ⟨Prod.ext (abiUint_eq_ok he) (abiUint_eq_ok hz), abiUint_lt he, abiUint_lt hz⟩

/-- The entries come back as they were. -/
theorem entries_read_back {entries : List DecryptionShareEntry} {encoded : List (Nat × Nat)}
    (hsized : WellSized entries)
    (h : abiProofPairs (entries.map fun entry => proofPair entry.proof) = .ok encoded) :
    (((entries.map DecryptionShareEntry.sigma).zip encoded).mapM fun x => do
      let e ← toBytes (x.2.1 : Int) 32
      let z ← toBytes (x.2.2 : Int) 32
      pure (⟨x.1, e ++ z⟩ : DecryptionShareEntry) : Py (List DecryptionShareEntry)) = .ok entries := by
  have hpairs := abiProofPairs_eq_ok h
  rw [List.forall₂_map_left_iff] at hpairs
  rw [mapM_eq_ok]
  clear h
  induction hpairs with
  | nil => exact .nil
  | @cons entry pair entries encoded hpair _ ih =>
    obtain ⟨heq, he, hz⟩ := hpair
    refine .cons ?_ (ih fun e he => hsized e (List.mem_cons_of_mem _ he))
    have hjoin := proofPair_join (hsized entry List.mem_cons_self)
    rw [heq, Int.toNat_natCast, Int.toNat_natCast] at hjoin
    rw [toBytes_ok (by omega) (by exact_mod_cast he), ok_bind, toBytes_ok (by omega) (by exact_mod_cast hz),
      ok_bind, Int.toNat_natCast, Int.toNat_natCast, hjoin]
    rfl

/-- A stored share is read as the envelope it came from, with the index cut to eight bits. -/
theorem shareFromContract_stored {el : Election} {share : DecryptionShareEnvelope} {encoded : List (Nat × Nat)}
    {index timestamp : Nat} (hsized : WellSized share.entries) (hindex : share.keyperIndex = index + 1)
    (h : abiProofPairs (shareToContract share).2 = .ok encoded) :
    shareFromContract ⟨index % 2 ^ 8, timestamp % 2 ^ 64, (shareToContract share).1, encoded⟩ el.id =
      .ok (narrowed el share) := by
  have hcut : ((index % 2 ^ 8 : Nat) : Int) + 1 = (share.keyperIndex - 1) % 2 ^ 8 + 1 := by
    rw [hindex]
    omega
  rw [shareFromContract]
  simp only [shareToContract] at h ⊢
  rw [entries_read_back hsized h, ok_bind, hcut]
  rfl

/-! ## Runs -/

/-- The stored shares and their authors, in the order of the submissions. -/
structure Authored (el : Election) (s : ShareBoard) (stored : List DecryptionShareEnvelope) (authors : List Bytes) :
    Prop where
  nodup : authors.Nodup
  members : ∀ a ∈ authors, a ∈ el.keyperSet.members
  flagged : ∀ a, s.hasSubmittedDecryptionShare a = true ↔ a ∈ authors
  indices : stored.map DecryptionShareEnvelope.keyperIndex =
    authors.map fun a => (el.keyperSet.members.idxOf a : Int) + 1
  readBack : List.Forall₂ (fun share raw => shareFromContract raw el.id = .ok (narrowed el share)) stored
    s.decryptionShares

section
variable {E : EvmLib} {el : Election} {s s' : ShareBoard} {stored : List DecryptionShareEnvelope} {authors : List Bytes}

/-- One more share, of a member that had none. -/
theorem Authored.add (h : Authored el s stored authors) {timestamp : Nat} {voter : Bytes}
    {share : DecryptionShareEnvelope} {encoded : List (Nat × Nat)}
    (hstep : ShareStored el s timestamp voter (shareToContract share).1 encoded s')
    (hsized : WellSized share.entries) (hindex : share.keyperIndex = el.keyperSet.members.idxOf voter + 1)
    (hencoded : abiProofPairs (shareToContract share).2 = .ok encoded) :
    Authored el s' (stored ++ [share]) (authors ++ [voter]) := by
  have hnew : voter ∉ authors := fun hmem => by
    have hflag := (h.flagged voter).mpr hmem
    rw [hstep.first] at hflag
    cases hflag
  rw [hstep.after]
  refine ⟨?_, ?_, ?_, ?_, ?_⟩
  · rw [List.nodup_append]
    refine ⟨h.nodup, List.nodup_singleton _, fun a ha b hb hab => ?_⟩
    rw [List.mem_singleton] at hb
    exact hnew (hb ▸ hab ▸ ha)
  · intro a ha
    rcases List.mem_append.mp ha with ha | ha
    · exact h.members a ha
    · rw [List.mem_singleton.mp ha]
      exact hstep.member
  · intro a
    simp only [List.mem_append, List.mem_singleton, Function.update_apply]
    by_cases ha : a = voter
    · simp [ha]
    · simp [ha, h.flagged a]
  · rw [List.map_append, List.map_append, h.indices]
    simp [hindex]
  · exact List.rel_append h.readBack (.cons (shareFromContract_stored hsized hindex hencoded) .nil)

/-- The committee's votes are none of the shares' business. -/
theorem Authored.committee (h : Authored el s stored authors) (votes : Storage) :
    Authored el { s with votes } stored authors :=
  ⟨h.nodup, h.members, h.flagged, h.indices, h.readBack⟩

/-- What a call that returned has done. -/
theorem ShareCall.perform_cases {call : ShareCall} {new : Option DecryptionShareEnvelope}
    (h : call.perform E el s = .ok (s', new)) :
    (∃ votes, s' = { s with votes } ∧ new = none) ∨
      ∃ timestamp voter share encoded, new = some share ∧ share.entries = call.entries ∧
        share.keyperIndex = el.keyperSet.members.idxOf voter + 1 ∧
        abiProofPairs (shareToContract share).2 = .ok encoded ∧
        ShareStored el s timestamp voter (shareToContract share).1 encoded s' := by
  cases call with
  | committee tx =>
    cases h
    exact .inl ⟨_, rfl, rfl⟩
  | direct timestamp sender entries =>
    obtain ⟨encoded, hencoded, h⟩ := bind_eq_ok.mp h
    obtain ⟨after, hafter, h⟩ := bind_eq_ok.mp h
    cases h
    exact .inr ⟨timestamp, sender, _, encoded, rfl, rfl, rfl, hencoded,
      submitDecryptionShare_eq_ok (send_eq_ok hafter)⟩
  | relay timestamp share keyperSig =>
    obtain ⟨digest, hdigest, h⟩ := bind_eq_ok.mp h
    obtain ⟨keyperAddr, haddr, h⟩ := bind_eq_ok.mp h
    split at h
    · cases h
    · rename_i idx0 hidx
      split at h
      · cases h
      · rename_i hown
        obtain ⟨existing, -, h⟩ := bind_eq_ok.mp h
        split at h
        · split at h
          · cases h
          · cases h
            exact .inl ⟨s.votes, rfl, rfl⟩
        · obtain ⟨encoded, hencoded, h⟩ := bind_eq_ok.mp h
          obtain ⟨after, hafter, h⟩ := bind_eq_ok.mp h
          cases h
          obtain ⟨signer, hsigner, hstep⟩ := submitDecryptionShareSigned_eq_ok (send_eq_ok hafter)
          -- the contract recovers whom the adapter has recovered
          have hsame : signer = keyperAddr := by
            rw [decryptionShareDigest_eq hencoded] at hdigest
            cases hdigest
            rw [decryptionShareHash] at hsigner
            rw [recoverDigest_eq_ok haddr] at hsigner
            exact (Option.some.inj hsigner).symm
          refine .inr ⟨timestamp, signer, share, encoded, rfl, rfl, ?_, hencoded, hstep⟩
          rw [not_not.mp hown, hsame]
          rw [KeyperSet.getMemberIndex] at hidx
          split at hidx
          · cases hidx
            rfl
          · cases hidx

/-- Every call keeps the authors of the shares. -/
theorem authored_apply {call : ShareCall} (hsized : WellSized call.entries) (h : Authored el s stored authors) :
    ∃ authors', Authored el (call.apply E el (s, stored)).1 (call.apply E el (s, stored)).2 authors' := by
  rw [ShareCall.apply]
  cases hperform : call.perform E el s with
  | error e => exact ⟨authors, h⟩
  | ok result =>
    obtain ⟨s', new⟩ := result
    rcases ShareCall.perform_cases hperform with ⟨votes, rfl, rfl⟩ |
      ⟨timestamp, voter, share, encoded, rfl, hentries, hindex, hencoded, hstep⟩
    · refine ⟨authors, ?_⟩
      show Authored el { s with votes } (stored ++ []) authors
      rw [List.append_nil]
      exact h.committee votes
    · rw [← hentries] at hsized
      exact ⟨authors ++ [voter], h.add hstep hsized hindex hencoded⟩

theorem authored_run (votes : Storage) {calls : List ShareCall} (hsized : ∀ call ∈ calls, WellSized call.entries) :
    ∃ authors, Authored el (runShares E el votes calls).1 (runShares E el votes calls).2 authors := by
  have hloop : ∀ (calls : List ShareCall) (st : ShareBoard × List DecryptionShareEnvelope),
      (∀ call ∈ calls, WellSized call.entries) → (∃ authors, Authored el st.1 st.2 authors) →
      ∃ authors, Authored el (calls.foldl (ShareCall.apply E el) st).1
        (calls.foldl (ShareCall.apply E el) st).2 authors := by
    intro calls
    induction calls with
    | nil => exact fun st _ h => h
    | cons call calls ih =>
      rintro st hsized ⟨authors, h⟩
      refine ih _ (fun c hc => hsized c (List.mem_cons_of_mem _ hc)) ?_
      exact authored_apply (hsized call List.mem_cons_self) h
  refine hloop calls _ hsized ⟨[], List.nodup_nil, ?_, ?_, rfl, .nil⟩
  · intro a ha
    exact absurd ha List.not_mem_nil
  · intro a
    simp

theorem Authored.one_le (h : Authored el s stored authors) :
    ∀ share ∈ stored, 1 ≤ share.keyperIndex ∧ share.keyperIndex ≤ el.keyperSet.members.length := by
  intro share hshare
  have hmem := List.mem_map_of_mem hshare (f := DecryptionShareEnvelope.keyperIndex)
  rw [h.indices] at hmem
  obtain ⟨a, ha, hindex⟩ := List.mem_map.mp hmem
  have hlt := List.idxOf_lt_length_of_mem (h.members a ha)
  omega

/-- Different authors have different indices. -/
theorem Authored.nodup_indices (h : Authored el s stored authors) :
    (stored.map DecryptionShareEnvelope.keyperIndex).Nodup := by
  rw [h.indices]
  refine (List.nodup_map_iff_inj_on h.nodup).mpr fun a ha b hb hab => ?_
  exact (List.idxOf_inj (h.members a ha)).mp (by omega)

theorem narrowed_eq_self_iff {share : DecryptionShareEnvelope} (h : 1 ≤ share.keyperIndex) :
    narrowed el share = share ↔ share.electionId = el.id ∧ share.keyperIndex ≤ 256 := by
  obtain ⟨electionId, keyperIndex, entries⟩ := share
  simp only [narrowed, DecryptionShareEnvelope.mk.injEq, and_true] at h ⊢
  constructor
  · rintro ⟨rfl, hindex⟩
    exact ⟨rfl, by omega⟩
  · rintro ⟨rfl, hle⟩
    exact ⟨rfl, by omega⟩

end

/-- In every run of a committee of any size, the shares are read back as they were submitted, with a
    different index each, if and only if every stored envelope names this election and its author is
    among the first 256 members; so always in committees of that size. -/
theorem shares_keep_author_iff (E : EvmLib) (el : Election) (votes : Storage) (calls : List ShareCall)
    (hsized : ∀ call ∈ calls, WellSized call.entries) :
    ∃ shares, listSharesOnChain el (runShares E el votes calls).1 = .ok shares ∧
      ((shares = (runShares E el votes calls).2 ∧ (shares.map DecryptionShareEnvelope.keyperIndex).Nodup) ↔
        ∀ share ∈ (runShares E el votes calls).2, share.electionId = el.id ∧ share.keyperIndex ≤ 256) ∧
      (el.keyperSet.members.length ≤ 256 → ∀ share ∈ (runShares E el votes calls).2, share.keyperIndex ≤ 256) := by
  obtain ⟨authors, h⟩ := @authored_run E el votes calls hsized
  have hlist : listSharesOnChain el (runShares E el votes calls).1 =
      .ok ((runShares E el votes calls).2.map (narrowed el)) := by
    rw [listSharesOnChain, mapM_eq_ok, List.forall₂_map_right_iff]
    exact h.readBack.flip
  refine ⟨_, hlist, ?_, ?_⟩
  · have hself : (runShares E el votes calls).2.map (narrowed el) = (runShares E el votes calls).2 ↔
        ∀ share ∈ (runShares E el votes calls).2, share.electionId = el.id ∧ share.keyperIndex ≤ 256 := by
      have hid := List.map_eq_map_iff (f := narrowed el) (g := id) (l := (runShares E el votes calls).2)
      rw [List.map_id] at hid
      rw [hid]
      exact forall₂_congr fun share hshare => narrowed_eq_self_iff (h.one_le share hshare).1
    rw [← hself]
    refine ⟨fun hboth => hboth.1, fun hsame => ⟨hsame, ?_⟩⟩
    rw [hsame]
    exact h.nodup_indices
  · intro hsize share hshare
    have hle := (h.one_le share hshare).2
    omega

/-! A committee of 257, in which the first and the last member share an index. -/

namespace LargeCommittee

def member (i : Nat) : Bytes := beBytes 20 (i + 1)

def keyperSet : KeyperSet where
  members := (List.range 257).map member
  threshold := 129
  nodup := by
    refine (List.nodup_map_iff_inj_on List.nodup_range).mpr fun i hi j hj hij => ?_
    rw [List.mem_range] at hi hj
    have heq : i + 1 = j + 1 := beBytes_inj (by omega) (by omega) hij
    omega
  one_le_threshold := by decide
  threshold_le := by simp
  majority := by simp
  length_lt := by simp

def election : Election where
  electionId := 1
  keyperSet
  votingStart := 100
  votingEnd := 200
  numCandidates := 1
  start_lt_end := SampleVotes.election.start_lt_end
  one_le_numCandidates := Nat.one_pos

def entry (n : Nat) : DecryptionShareEntry := ⟨beBytes 96 n, beBytes 64 n⟩

def votes : Storage := { dkgFinalized := true, aggregatePublished := true }

def calls : List ShareCall := [.direct 200 (member 256) [entry 7], .direct 201 (member 0) [entry 8]]

end LargeCommittee

open LargeCommittee in
/-- Both are stored, and both are read back as the first member's. -/
theorem shares_of_first_and_last :
    (∀ call ∈ calls, WellSized call.entries) ∧
    (runShares SampleVotes.lib election votes calls).2 =
      [⟨election.id, 257, [entry 7]⟩, ⟨election.id, 1, [entry 8]⟩] ∧
    listSharesOnChain election (runShares SampleVotes.lib election votes calls).1 =
      .ok [⟨election.id, 1, [entry 7]⟩, ⟨election.id, 1, [entry 8]⟩] := by
  refine ⟨?_, by decide +kernel, by decide +kernel⟩
  unfold WellSized
  decide +kernel

open SampleVotes LargeCommittee in
/-- In a committee of three, a relayed share and a member's own are read back. -/
theorem shares_keep_author_of_three : ∃ shares,
    listSharesOnChain SampleVotes.election (runShares lib SampleVotes.election votes
      [.relay 200 ⟨SampleVotes.election.id, 2, [entry 7]⟩ (plainEth.signMessage [2]
        (decryptionShareHash lib SampleVotes.election [beBytes 96 7] [(0, 7)])),
       .direct 201 [1] [entry 8]]).1 = .ok shares ∧
      shares = [⟨SampleVotes.election.id, 2, [entry 7]⟩, ⟨SampleVotes.election.id, 1, [entry 8]⟩] := by
  have hsized : ∀ call ∈ [ShareCall.relay 200 ⟨SampleVotes.election.id, 2, [entry 7]⟩ (plainEth.signMessage [2]
      (decryptionShareHash lib SampleVotes.election [beBytes 96 7] [(0, 7)])), .direct 201 [1] [entry 8]],
      WellSized call.entries := by
    unfold WellSized
    decide +kernel
  obtain ⟨shares, hshares, hiff, -⟩ := shares_keep_author_iff lib SampleVotes.election votes _ hsized
  refine ⟨shares, hshares, (hiff.mpr (by decide +kernel)).1.trans (by decide +kernel)⟩

end ElGamalVoting
