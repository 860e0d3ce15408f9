import ElGamalVoting.Contracts.Election
import ElGamalVoting.Lib.Quorum
import ElGamalVoting.Lib.Run

/- The contract's running counters against the votes they stand for.

   `VoteBook` is the votes themselves: what each keyper's current vote is, in the
   order the keypers first voted. The contract keeps none of it but a flag, a
   digest and the counters; `Refines` says how its storage follows from the
   book. Every accepted vote keeps the relation (`Refines.vote`), every other
   transaction changes neither side, and under the relation no counter leaves its
   type (`Refines.no_panic`).

   Digests are hashes. What is assumed of them is only about the contents `K`
   and `T` that are voted for: no two collide, and a tally's digest is not the
   zero that stands for no vote. -/
namespace ElGamalVoting.Contract
open Lib

/-! ## Votes and their book -/

inductive Vote where
  | dkg (voter pkElection : Bytes) (committeePKs : List Bytes)
  | aggregate (voter : Bytes) (aggregate : EncryptedTally) (timestamp : Nat)
  deriving DecidableEq

section
variable (E : EvmLib) (el : Election)

/-- The vote a transaction casts, with the keyper it is attributed to. -/
def Tx.vote (tx : Tx) : Option Vote :=
  match tx.entry with
  | .voteDKGResult pkElection committeePKs => some (.dkg tx.sender pkElection committeePKs)
  | .voteDKGResultSigned pkElection committeePKs keyperSig =>
    (E.recoverMessage (dkgResultDigest E.toEthLib el.id pkElection committeePKs) keyperSig).map
      fun signer => .dkg signer pkElection committeePKs
  | .submitAggregate aggregate => some (.aggregate tx.sender aggregate tx.timestamp)
  | .submitAggregateSigned aggregate keyperSig =>
    (E.recoverMessage (aggregateDigest E el aggregate) keyperSig).map
      fun signer => .aggregate signer aggregate tx.timestamp
  | .cancelElection _ => none

/-- The votes of the transactions of a run that were not reverted. -/
def acceptedVotes : Storage → List Tx → List Vote
  | _, [] => []
  | s, tx :: txs =>
    match tx.perform E el s with
    | .ok s' => (tx.vote E el).toList ++ acceptedVotes s' txs
    | .error _ => acceptedVotes s txs

structure VoteBook where
  dkg : Dict Bytes (Bytes × List Bytes) := ∅
  aggregate : Dict Bytes EncryptedTally := ∅

omit E el in
def VoteBook.add (book : VoteBook) : Vote → VoteBook
  | .dkg voter pkElection committeePKs => { book with dkg := book.dkg.set voter (pkElection, committeePKs) }
  | .aggregate voter aggregate _ => { book with aggregate := book.aggregate.set voter aggregate }

omit E el in
/-- The DKG votes of the book, by content. -/
def VoteBook.dkgVotes (book : VoteBook) :
    List (Bytes × (Bytes × List Bytes) × (Bytes × List Bytes)) :=
  book.dkg.entries.map fun e => (e.1, e.2, e.2)

/-- The aggregate votes of the book, by digest. -/
def VoteBook.aggregateVotes (book : VoteBook) : List (Bytes × Bytes × EncryptedTally) :=
  book.aggregate.entries.map fun e => (e.1, aggregateDigest E el e.2, e.2)

/-! ## What an accepted transaction does -/

/-- The storage after an accepted vote, with the conditions it was accepted under. -/
inductive VoteStep (s : Storage) : Vote → Storage → Prop
  | dkg {voter pkElection : Bytes} {committeePKs : List Bytes} {count : Nat}
      (member : voter ∈ el.keyperSet.members) (first : s.hasVotedForDKG voter = false)
      (unfinished : s.dkgFinalized = false)
      (counted : checkedAdd (s.dkgVoteCountByResult (dkgResultHash E pkElection committeePKs)) 1 =
        .ok count) :
      VoteStep s (.dkg voter pkElection committeePKs) { s with
        hasVotedForDKG := Function.update s.hasVotedForDKG voter true
        dkgVoteCountByResult :=
          Function.update s.dkgVoteCountByResult (dkgResultHash E pkElection committeePKs) count
        electionPublicKey :=
          if el.keyperSet.threshold ≤ count then pkElection else s.electionPublicKey
        committeePublicKeys :=
          if el.keyperSet.threshold ≤ count then committeePKs else s.committeePublicKeys
        dkgFinalized := decide (el.keyperSet.threshold ≤ count) }
  | resend {voter : Bytes} {aggregate : EncryptedTally} {timestamp : Nat}
      (member : voter ∈ el.keyperSet.members) (closed : el.votingEnd ≤ timestamp)
      (unfinished : s.aggregatePublished = false)
      (same : s.aggregateVoteDigestOf voter = aggregateDigest E el aggregate) :
      VoteStep s (.aggregate voter aggregate timestamp) s
  | aggregate {voter : Bytes} {aggregate : EncryptedTally} {timestamp : Nat} {counts : Bytes → Nat}
      {count : Nat} (member : voter ∈ el.keyperSet.members) (closed : el.votingEnd ≤ timestamp)
      (unfinished : s.aggregatePublished = false)
      (changed : s.aggregateVoteDigestOf voter ≠ aggregateDigest E el aggregate)
      (dropped : dropVote s.aggregateVoteCountByResult (s.aggregateVoteDigestOf voter) = .ok counts)
      (counted : checkedAdd (counts (aggregateDigest E el aggregate)) 1 = .ok count) :
      VoteStep s (.aggregate voter aggregate timestamp) { s with
        aggregateVoteDigestOf :=
          Function.update s.aggregateVoteDigestOf voter (aggregateDigest E el aggregate)
        aggregateVoteCountByResult := Function.update counts (aggregateDigest E el aggregate) count
        encryptedTally := if el.keyperSet.threshold ≤ count then aggregate else s.encryptedTally
        aggregatePublished := decide (el.keyperSet.threshold ≤ count) }

end

section
variable {E : EvmLib} {el : Election} {s s' : Storage}

theorem registerDKGVote_eq_ok {voter pkElection : Bytes} {committeePKs : List Bytes}
    (hopen : s.dkgFinalized = false)
    (h : registerDKGVote E el s voter pkElection committeePKs = .ok s') :
    VoteStep E el s (.dkg voter pkElection committeePKs) s' := by
  rw [registerDKGVote] at h
  obtain ⟨hmember, h⟩ := require_bind_eq_ok.mp h
  obtain ⟨hfirst, h⟩ := require_bind_eq_ok.mp h
  obtain ⟨_, -, h⟩ := bind_eq_ok.mp h
  obtain ⟨-, h⟩ := require_bind_eq_ok.mp h
  obtain ⟨_, -, h⟩ := bind_eq_ok.mp h
  obtain ⟨count, hcount, h⟩ := bind_eq_ok.mp h
  rw [pure_eq_ok, Except.ok.injEq] at h
  have hstep := VoteStep.dkg hmember hfirst hopen hcount
  by_cases hquorum : el.keyperSet.threshold ≤ count
  · rw [if_pos hquorum] at h
    simp only [hquorum, if_true, decide_true] at hstep
    exact h ▸ hstep
  · rw [if_neg hquorum] at h
    simp only [hquorum, if_false, decide_false, ← hopen] at hstep
    exact h ▸ hstep

theorem registerAggregate_eq_ok {timestamp : Nat} {voter : Bytes} {aggregate : EncryptedTally}
    (h : registerAggregate el s timestamp voter (aggregateDigest E el aggregate) aggregate = .ok s') :
    VoteStep E el s (.aggregate voter aggregate timestamp) s' := by
  rw [registerAggregate] at h
  obtain ⟨-, h⟩ := require_bind_eq_ok.mp h
  obtain ⟨-, h⟩ := require_bind_eq_ok.mp h
  obtain ⟨hclosed, h⟩ := require_bind_eq_ok.mp h
  obtain ⟨hopen, h⟩ := require_bind_eq_ok.mp h
  obtain ⟨hmember, h⟩ := require_bind_eq_ok.mp h
  obtain ⟨-, h⟩ := require_bind_eq_ok.mp h
  by_cases hsame : s.aggregateVoteDigestOf voter = aggregateDigest E el aggregate
  · rw [if_pos hsame] at h
    cases h
    exact .resend hmember hclosed hopen hsame
  · rw [if_neg hsame] at h
    obtain ⟨counts, hcounts, h⟩ := bind_eq_ok.mp h
    obtain ⟨count, hcount, h⟩ := bind_eq_ok.mp h
    rw [pure_eq_ok, Except.ok.injEq] at h
    have hstep := VoteStep.aggregate hmember hclosed hopen hsame hcounts hcount
    by_cases hquorum : el.keyperSet.threshold ≤ count
    · rw [if_pos hquorum] at h
      simp only [hquorum, if_true, decide_true] at hstep
      exact h ▸ hstep
    · rw [if_neg hquorum] at h
      simp only [hquorum, if_false, decide_false, ← hopen] at hstep
      exact h ▸ hstep

theorem recover_eq_ok {digest sig signer : Bytes} (h : recover E digest sig = .ok signer) :
    E.recoverMessage digest sig = some signer := by
  unfold recover at h
  split at h
  · cases h
  · cases h
    assumption

/-- An accepted transaction casts a vote, or cancels. -/
theorem Tx.perform_cases {tx : Tx} (h : tx.perform E el s = .ok s') :
    (∃ vote, tx.vote E el = some vote ∧ VoteStep E el s vote s') ∨
      (tx.vote E el = none ∧ s' = { s with cancelled := true }) := by
  obtain ⟨timestamp, sender, entry⟩ := tx
  cases entry with
  | voteDKGResult pkElection committeePKs =>
    obtain ⟨-, h⟩ := require_bind_eq_ok.mp h
    obtain ⟨hopen, h⟩ := require_bind_eq_ok.mp h
    exact .inl ⟨_, rfl, registerDKGVote_eq_ok hopen h⟩
  | voteDKGResultSigned pkElection committeePKs keyperSig =>
    obtain ⟨-, h⟩ := require_bind_eq_ok.mp h
    obtain ⟨hopen, h⟩ := require_bind_eq_ok.mp h
    obtain ⟨signer, hsigner, h⟩ := bind_eq_ok.mp h
    exact .inl ⟨_, congrArg (Option.map fun voter => Vote.dkg voter pkElection committeePKs)
      (recover_eq_ok hsigner), registerDKGVote_eq_ok hopen h⟩
  | submitAggregate aggregate => exact .inl ⟨_, rfl, registerAggregate_eq_ok h⟩
  | submitAggregateSigned aggregate keyperSig =>
    obtain ⟨signer, hsigner, h⟩ := bind_eq_ok.mp h
    exact .inl ⟨_, congrArg (Option.map fun voter => Vote.aggregate voter aggregate timestamp)
      (recover_eq_ok hsigner), registerAggregate_eq_ok h⟩
  | cancelElection hasAdminRole =>
    obtain ⟨-, h⟩ := require_bind_eq_ok.mp h
    obtain ⟨-, h⟩ := require_bind_eq_ok.mp h
    obtain ⟨-, h⟩ := require_bind_eq_ok.mp h
    cases h
    exact .inr ⟨rfl, rfl⟩

/-! ## The relation -/

/-- A vote for one of the contents `K` and `T`. -/
def Vote.In (K : Set (Bytes × List Bytes)) (T : Set EncryptedTally) : Vote → Prop
  | .dkg _ pkElection committeePKs => (pkElection, committeePKs) ∈ K
  | .aggregate _ tally _ => tally ∈ T

/-- Hashes of the contents voted for do not collide, and are not zero. -/
structure Hashes (E : EvmLib) (el : Election) (K : Set (Bytes × List Bytes)) (T : Set EncryptedTally) :
    Prop where
  dkg : Set.InjOn (fun c : Bytes × List Bytes => dkgResultHash E c.1 c.2) K
  aggregate : Set.InjOn (aggregateDigest E el) T
  nonzero : ∀ t ∈ T, aggregateDigest E el t ≠ zeroDigest

/-- The number of book votes whose content has the hash `d`. -/
def VoteBook.dkgCount (E : EvmLib) (book : VoteBook) (d : Bytes) : Nat :=
  book.dkg.count fun c => dkgResultHash E c.1 c.2 = d

def VoteBook.aggregateCount (E : EvmLib) (el : Election) (book : VoteBook) (d : Bytes) : Nat :=
  book.aggregate.count fun t => aggregateDigest E el t = d

/-- The storage is the flags, counters and contents that follow from the book. -/
structure Refines (E : EvmLib) (el : Election) (K : Set (Bytes × List Bytes)) (T : Set EncryptedTally)
    (s : Storage) (book : VoteBook) : Prop where
  dkgMembers : ∀ a ∈ book.dkg.keys, a ∈ el.keyperSet.members
  dkgContents : ∀ e ∈ book.dkg.entries, e.2 ∈ K
  dkgVoted : ∀ a, s.hasVotedForDKG a = true ↔ a ∈ book.dkg.keys
  dkgCounts : ∀ d, s.dkgVoteCountByResult d = book.dkgCount E d
  dkgPublished : s.publishedKey = Quorum.winner el.keyperSet.threshold book.dkgVotes
  aggregateMembers : ∀ a ∈ book.aggregate.keys, a ∈ el.keyperSet.members
  aggregateContents : ∀ e ∈ book.aggregate.entries, e.2 ∈ T
  aggregateDigests : ∀ a, s.aggregateVoteDigestOf a =
    ((book.aggregate.get? a).map (aggregateDigest E el)).getD zeroDigest
  aggregateCounts : ∀ d, s.aggregateVoteCountByResult d = book.aggregateCount E el d
  aggregatePublished : s.publishedAggregate =
    Quorum.winner el.keyperSet.threshold (book.aggregateVotes E el)

variable {K : Set (Bytes × List Bytes)} {T : Set EncryptedTally} {book : VoteBook}

theorem refines_empty : Refines E el K T {} {} where
  dkgMembers := by simp
  dkgContents := by simp
  dkgVoted := by simp
  dkgCounts := fun _ => rfl
  dkgPublished := rfl
  aggregateMembers := by simp
  aggregateContents := by simp
  aggregateDigests := fun _ => rfl
  aggregateCounts := fun _ => rfl
  aggregatePublished := rfl

/-- One vote a member, so no more votes than members. -/
theorem length_entries_le {V : Type} {votes : Dict Bytes V}
    (h : ∀ a ∈ votes.keys, a ∈ el.keyperSet.members) :
    votes.entries.length ≤ el.keyperSet.members.length := by
  have hle := (List.Nodup.subperm votes.nodup h).length_le
  rwa [List.length_map] at hle

theorem mem_members_set {V : Type} {votes : Dict Bytes V}
    (h : ∀ a ∈ votes.keys, a ∈ el.keyperSet.members) {voter : Bytes}
    (hvoter : voter ∈ el.keyperSet.members) (v : V) :
    ∀ a ∈ (votes.set voter v).keys, a ∈ el.keyperSet.members := by
  intro a ha
  rcases Dict.mem_keys_set.mp ha with rfl | ha
  · exact hvoter
  · exact h a ha

theorem mem_contents_set {V : Type} {votes : Dict Bytes V} {X : Set V}
    (h : ∀ e ∈ votes.entries, e.2 ∈ X) {v : V} (hv : v ∈ X) (voter : Bytes) :
    ∀ e ∈ (votes.set voter v).entries, e.2 ∈ X := by
  intro e he
  have hget := Dict.get?_eq_some.mpr he
  rw [Dict.get?_set] at hget
  split at hget
  · cases hget
    exact hv
  · exact h e (Dict.get?_eq_some.mp hget)

/-! ## A DKG vote -/

theorem dkgCount_set {voter : Bytes} (hnew : book.dkg.get? voter = none) (c : Bytes × List Bytes)
    (d : Bytes) :
    ({ book with dkg := book.dkg.set voter c } : VoteBook).dkgCount E d =
      book.dkgCount E d + (if dkgResultHash E c.1 c.2 = d then 1 else 0) := by
  have h := Dict.count_set book.dkg voter c fun c => decide (dkgResultHash E c.1 c.2 = d)
  rw [hnew] at h
  rw [VoteBook.dkgCount, VoteBook.dkgCount]
  simpa using h

/-- Without collisions a content's support is the counter of its hash. -/
theorem support_dkgVotes (hashes : Hashes E el K T) (hK : ∀ e ∈ book.dkg.entries, e.2 ∈ K)
    {c : Bytes × List Bytes} (hc : c ∈ K) :
    Quorum.support book.dkgVotes c = book.dkgCount E (dkgResultHash E c.1 c.2) := by
  rw [Quorum.support, VoteBook.dkgVotes, List.countP_map]
  apply List.countP_congr
  intro e he
  simp only [Function.comp_apply, decide_eq_true_eq]
  exact ⟨fun h => by rw [h], fun h => hashes.dkg (hK e he) hc h⟩

/-- Support does not grow for any other content. -/
theorem support_dkgVotes_ne {voter : Bytes} (hnew : book.dkg.get? voter = none)
    {c c' : Bytes × List Bytes} (hne : c' ≠ c) :
    Quorum.support ({ book with dkg := book.dkg.set voter c } : VoteBook).dkgVotes c' ≤
      Quorum.support book.dkgVotes c' := by
  rw [VoteBook.dkgVotes, Dict.entries_set_new hnew, List.map_append, Quorum.support_append]
  simp [Quorum.support, VoteBook.dkgVotes, Ne.symm hne]

theorem dkgVotes_value {e : Bytes × (Bytes × List Bytes) × (Bytes × List Bytes)}
    (he : e ∈ book.dkgVotes) : e.2.2 = e.2.1 := by
  obtain ⟨_, -, rfl⟩ := List.mem_map.mp he
  rfl

/-! ## An aggregate vote -/

theorem aggregateDigestOf_eq (hashes : Hashes E el K T) (h : Refines E el K T s book) (a d : Bytes) :
    (book.aggregate.get? a).any (fun t => aggregateDigest E el t = d) = true ↔
      s.aggregateVoteDigestOf a = d ∧ s.aggregateVoteDigestOf a ≠ zeroDigest := by
  rw [h.aggregateDigests]
  cases hget : book.aggregate.get? a with
  | none => simp
  | some t =>
    have hne := hashes.nonzero t (h.aggregateContents _ (Dict.get?_eq_some.mp hget))
    simp [hne]

theorem dropVote_eq_ok {counts counts' : Bytes → Nat} {prev : Bytes}
    (h : dropVote counts prev = .ok counts') (d : Bytes) :
    counts' d + (if prev = d ∧ prev ≠ zeroDigest then 1 else 0) = counts d := by
  rw [dropVote] at h
  split at h
  · rename_i hzero
    cases h
    simp [hzero]
  · rename_i hzero
    obtain ⟨count, hcount, h⟩ := bind_eq_ok.mp h
    cases h
    rw [checkedSub] at hcount
    split at hcount
    · cases hcount
      by_cases hd : d = prev
      · subst hd
        rw [Function.update_self, if_pos ⟨rfl, hzero⟩]
        omega
      · rw [Function.update_of_ne hd, if_neg fun h => hd h.1.symm]
        rfl
    · cases hcount

/-- The counters after the old vote was taken off, against the book with the new one in. -/
theorem aggregateCount_set (hashes : Hashes E el K T) (h : Refines E el K T s book) {voter : Bytes}
    {t : EncryptedTally} {counts : Bytes → Nat}
    (hdrop : dropVote s.aggregateVoteCountByResult (s.aggregateVoteDigestOf voter) = .ok counts)
    (d : Bytes) :
    ({ book with aggregate := book.aggregate.set voter t } : VoteBook).aggregateCount E el d =
      counts d + (if aggregateDigest E el t = d then 1 else 0) := by
  have hset := Dict.count_set book.aggregate voter t fun t => decide (aggregateDigest E el t = d)
  have hdropped := dropVote_eq_ok hdrop d
  have hcount := h.aggregateCounts d
  simp only [aggregateDigestOf_eq hashes h, decide_eq_true_eq] at hset
  rw [VoteBook.aggregateCount] at hcount ⊢
  dsimp only at hset ⊢
  omega

theorem support_aggregateVotes (d : Bytes) :
    Quorum.support (book.aggregateVotes E el) d = book.aggregateCount E el d := by
  rw [Quorum.support, VoteBook.aggregateVotes, List.countP_map]
  rfl

theorem aggregateVotes_value (hashes : Hashes E el K T) (hT : ∀ e ∈ book.aggregate.entries, e.2 ∈ T)
    {t : EncryptedTally} (ht : t ∈ T) {e : Bytes × Bytes × EncryptedTally}
    (he : e ∈ book.aggregateVotes E el) (hd : e.2.1 = aggregateDigest E el t) : e.2.2 = t := by
  obtain ⟨entry, hentry, rfl⟩ := List.mem_map.mp he
  exact hashes.aggregate (hT entry hentry) ht hd

/-! ## The relation is kept -/

theorem checkedAdd_eq_ok {a b c : Nat} (h : checkedAdd a b = .ok c) : c = a + b := by
  rw [checkedAdd] at h
  split at h
  · cases h
    rfl
  · cases h

theorem publishedKey_eq_none (h : s.dkgFinalized = false) : s.publishedKey = none := by
  rw [Storage.publishedKey, if_neg (by simp [h])]

theorem publishedAggregate_eq (s : Storage) :
    s.publishedAggregate = if s.aggregatePublished then some s.encryptedTally else none := by
  rw [Storage.publishedAggregate, getAggregate, require]
  split <;> rfl

theorem Refines.dkgVote (hashes : Hashes E el K T) (h : Refines E el K T s book)
    {voter pkElection : Bytes} {committeePKs : List Bytes} (hin : (pkElection, committeePKs) ∈ K)
    (hstep : VoteStep E el s (.dkg voter pkElection committeePKs) s') :
    Refines E el K T s' (book.add (.dkg voter pkElection committeePKs)) := by
  cases hstep with
  | @dkg _ _ _ count member first unfinished counted =>
  have hcount := checkedAdd_eq_ok counted
  have hnew : book.dkg.get? voter = none := by
    rw [Dict.get?_eq_none, ← h.dkgVoted, first]
    exact Bool.false_ne_true
  have hmembers := mem_members_set h.dkgMembers member (pkElection, committeePKs)
  have hcontents := mem_contents_set h.dkgContents hin voter
  have hcounts := dkgCount_set (E := E) hnew (pkElection, committeePKs)
  constructor
  · exact hmembers
  · exact hcontents
  · intro a
    rw [VoteBook.add, Dict.mem_keys_set, ← h.dkgVoted]
    by_cases ha : a = voter
    · simp [ha]
    · simp [ha]
  · intro d
    rw [VoteBook.add, hcounts d, ← h.dkgCounts d]
    by_cases hd : d = dkgResultHash E pkElection committeePKs
    · rw [hd, if_pos rfl, ← hcount]
      exact Function.update_self ..
    · rw [if_neg (Ne.symm hd)]
      exact Function.update_of_ne hd ..
  · -- the content voted for is the only one that gained, and its counter is its support
    have hnone : Quorum.winner el.keyperSet.threshold book.dkgVotes = none := by
      rw [← h.dkgPublished, publishedKey_eq_none unfinished]
    have hlen : (book.add (.dkg voter pkElection committeePKs)).dkgVotes.length <
        el.keyperSet.threshold * 2 := by
      rw [VoteBook.dkgVotes, List.length_map]
      exact lt_of_le_of_lt (length_entries_le hmembers) el.keyperSet.majority
    have hsupport : Quorum.support (book.add (.dkg voter pkElection committeePKs)).dkgVotes
        (pkElection, committeePKs) = count := by
      rw [support_dkgVotes hashes hcontents hin, VoteBook.add, hcounts, if_pos rfl, ← h.dkgCounts,
        hcount]
    rw [Quorum.winner_step el.keyperSet.one_le_threshold hnone hlen
      (fun c hc => support_dkgVotes_ne hnew hc) fun e he hk => (dkgVotes_value he).trans hk, hsupport]
    by_cases hquorum : el.keyperSet.threshold ≤ count
    · simp [Storage.publishedKey, hquorum]
    · simp [Storage.publishedKey, hquorum]
  · exact h.aggregateMembers
  · exact h.aggregateContents
  · exact h.aggregateDigests
  · exact h.aggregateCounts
  · exact h.aggregatePublished

/-- The book is as it was after a keyper's current vote again. -/
theorem Refines.add_resend (hashes : Hashes E el K T) (h : Refines E el K T s book) {voter : Bytes}
    {t : EncryptedTally} (ht : t ∈ T) (hsame : s.aggregateVoteDigestOf voter = aggregateDigest E el t)
    (timestamp : Nat) : book.add (.aggregate voter t timestamp) = book := by
  have hnonzero : s.aggregateVoteDigestOf voter ≠ zeroDigest := hsame ▸ hashes.nonzero t ht
  obtain ⟨t', hget, hdigest⟩ := (Option.any_eq_true _ _).mp
    ((aggregateDigestOf_eq hashes h voter (aggregateDigest E el t)).mpr ⟨hsame, hnonzero⟩)
  have htally : t' = t := hashes.aggregate (h.aggregateContents _ (Dict.get?_eq_some.mp hget)) ht
    (of_decide_eq_true hdigest)
  subst htally
  rw [VoteBook.add, Dict.set_of_get? hget]

theorem Refines.aggregateVote (hashes : Hashes E el K T) (h : Refines E el K T s book) {voter : Bytes}
    {t : EncryptedTally} {timestamp : Nat} (ht : t ∈ T)
    (hstep : VoteStep E el s (.aggregate voter t timestamp) s') :
    Refines E el K T s' (book.add (.aggregate voter t timestamp)) := by
  -- the same tally again changes nothing; another one moves the vote and counts up its digest
  cases hstep with
  | resend member closed unfinished same =>
    rw [h.add_resend hashes ht same timestamp]
    exact h
  | @aggregate _ _ _ counts count member closed unfinished changed dropped counted =>
  have hcount := checkedAdd_eq_ok counted
  have hmembers := mem_members_set h.aggregateMembers member t
  have hcontents := mem_contents_set h.aggregateContents ht voter
  have hcounts := aggregateCount_set (t := t) hashes h dropped
  constructor
  · exact h.dkgMembers
  · exact h.dkgContents
  · exact h.dkgVoted
  · exact h.dkgCounts
  · exact h.dkgPublished
  · exact hmembers
  · exact hcontents
  · intro a
    rw [VoteBook.add, Dict.get?_set]
    by_cases ha : a = voter
    · subst ha
      rw [if_pos rfl]
      exact Function.update_self ..
    · rw [if_neg ha, ← h.aggregateDigests a]
      exact Function.update_of_ne ha ..
  · intro d
    rw [VoteBook.add, hcounts d]
    by_cases hd : d = aggregateDigest E el t
    · rw [hd, if_pos rfl, ← hcount]
      exact Function.update_self ..
    · rw [if_neg (Ne.symm hd)]
      exact Function.update_of_ne hd ..
  -- the quorum is reached by this vote or not at all: no other digest gains one
  · have hnone : Quorum.winner el.keyperSet.threshold (book.aggregateVotes E el) = none := by
      rw [← h.aggregatePublished, publishedAggregate_eq, unfinished]
      rfl
    have hlen : ((book.add (.aggregate voter t timestamp)).aggregateVotes E el).length <
        el.keyperSet.threshold * 2 := by
      rw [VoteBook.aggregateVotes, List.length_map]
      exact lt_of_le_of_lt (length_entries_le hmembers) el.keyperSet.majority
    have hothers : ∀ d, d ≠ aggregateDigest E el t →
        Quorum.support ((book.add (.aggregate voter t timestamp)).aggregateVotes E el) d ≤
          Quorum.support (book.aggregateVotes E el) d := by
      intro d hd
      rw [support_aggregateVotes, support_aggregateVotes, VoteBook.add, hcounts, if_neg (Ne.symm hd),
        ← h.aggregateCounts d, ← dropVote_eq_ok dropped d]
      exact Nat.le_add_right _ _
    rw [Quorum.winner_step el.keyperSet.one_le_threshold hnone hlen hothers
      fun e he hd => aggregateVotes_value hashes hcontents ht he hd, support_aggregateVotes,
      VoteBook.add, hcounts, if_pos rfl, ← hcount, publishedAggregate_eq]
    by_cases hquorum : el.keyperSet.threshold ≤ count
    · simp [hquorum]
    · simp [hquorum]

theorem Refines.vote (hashes : Hashes E el K T) (h : Refines E el K T s book) {vote : Vote}
    (hin : vote.In K T) (hstep : VoteStep E el s vote s') : Refines E el K T s' (book.add vote) := by
  cases vote with
  | dkg voter pkElection committeePKs => exact h.dkgVote hashes hin hstep
  | aggregate voter t timestamp => exact h.aggregateVote hashes hin hstep

theorem Refines.cancel (h : Refines E el K T s book) :
    Refines E el K T { s with cancelled := true } book :=
  ⟨h.dkgMembers, h.dkgContents, h.dkgVoted, h.dkgCounts, h.dkgPublished, h.aggregateMembers,
    h.aggregateContents, h.aggregateDigests, h.aggregateCounts, h.aggregatePublished⟩

/-- Over a run the storage stays the one of the book of the accepted votes. -/
theorem Refines.run (hashes : Hashes E el K T) (h : Refines E el K T s book) {txs : List Tx}
    (hin : ∀ tx ∈ txs, ∀ vote, tx.vote E el = some vote → vote.In K T) :
    Refines E el K T (runTxs E el s txs) ((acceptedVotes E el s txs).foldl VoteBook.add book) := by
  induction txs generalizing s book with
  | nil => exact h
  | cons tx txs ih =>
    have hrest : ∀ tx ∈ txs, ∀ vote, tx.vote E el = some vote → vote.In K T :=
      fun tx htx => hin tx (List.mem_cons_of_mem _ htx)
    rw [runTxs, List.foldl_cons, Tx.apply, acceptedVotes]
    cases hperform : tx.perform E el s with
    | error e => exact ih h hrest
    | ok s' =>
      rcases Tx.perform_cases hperform with ⟨vote, hvote, hstep⟩ | ⟨hvote, rfl⟩
      · rw [hvote]
        exact ih (h.vote hashes (hin tx List.mem_cons_self vote hvote) hstep) hrest
      · rw [hvote]
        exact ih h.cancel hrest

/-! ## What follows from the relation -/

/-- The counter of a digest is the number of members whose current vote it is. -/
theorem Refines.aggregateVoteCount (hashes : Hashes E el K T) (h : Refines E el K T s book) {d : Bytes}
    (hd : d ≠ zeroDigest) :
    s.aggregateVoteCountByResult d =
      el.keyperSet.members.countP fun a => s.aggregateVoteDigestOf a = d := by
  rw [h.aggregateCounts, VoteBook.aggregateCount,
    Dict.count_eq_countP el.keyperSet.nodup h.aggregateMembers]
  apply List.countP_congr
  intro a _
  rw [aggregateDigestOf_eq hashes h, decide_eq_true_eq]
  exact ⟨fun ha => ha.1, fun ha => ⟨ha, ha ▸ hd⟩⟩

/-- The counter of a hash is the number of members that voted for a content with it. -/
theorem Refines.dkgVoteCount (h : Refines E el K T s book) (d : Bytes) :
    s.dkgVoteCountByResult d =
      el.keyperSet.members.countP fun a =>
        (book.dkg.get? a).any fun c => dkgResultHash E c.1 c.2 = d := by
  rw [h.dkgCounts, VoteBook.dkgCount, Dict.count_eq_countP el.keyperSet.nodup h.dkgMembers]

/-- Reverting for a reason other than arithmetic. -/
def NoPanic {α : Type} (x : Except Revert α) : Prop := ∀ code, x ≠ .error (.panic code)

theorem NoPanic.ok {α : Type} (a : α) : NoPanic (.ok a : Except Revert α) := by
  intro code h
  cases h

theorem NoPanic.bind {α β : Type} {x : Except Revert α} {f : α → Except Revert β} (hx : NoPanic x)
    (hf : ∀ a, x = .ok a → NoPanic (f a)) : NoPanic (x >>= f) := by
  intro code h
  rcases bind_eq_error.mp h with herror | ⟨a, ha, herror⟩
  · exact hx code herror
  · exact hf a ha code herror

theorem NoPanic.require {α : Type} {c : Prop} [Decidable c] {e : Revert} {f : Unit → Except Revert α}
    (he : ∀ code, e ≠ .panic code) (hf : c → NoPanic (f ())) : NoPanic (Contract.require c e >>= f) := by
  apply NoPanic.bind
  · intro code h
    rw [Contract.require] at h
    split at h
    · cases h
    · exact he code (Except.error.inj h)
  · intro _ hc
    rw [Contract.require] at hc
    split at hc
    · exact hf ‹c›
    · cases hc

theorem NoPanic.recover (digest sig : Bytes) : NoPanic (recover E digest sig) := by
  intro code h
  unfold Contract.recover at h
  split at h
  · cases h
  · cases h

theorem NoPanic.forM_requireG2Point (points : List Bytes) : NoPanic (points.forM requireG2Point) := by
  induction points with
  | nil => exact .ok _
  | cons point points ih =>
    show NoPanic (requireG2Point point >>= fun _ => points.forM requireG2Point)
    exact .require (fun _ h => nomatch h) fun _ => ih

theorem NoPanic.checkedAdd {a b : Nat} (h : a + b < 2 ^ 64) : NoPanic (checkedAdd a b) := by
  rw [Contract.checkedAdd, if_pos h]
  exact .ok _

theorem Refines.registerDKGVote_no_panic (h : Refines E el K T s book) (voter pkElection : Bytes)
    (committeePKs : List Bytes) : NoPanic (registerDKGVote E el s voter pkElection committeePKs) := by
  refine .require (fun _ h => nomatch h) fun hmember => ?_
  refine .require (fun _ h => nomatch h) fun hfirst => ?_
  refine .require (fun _ h => nomatch h) fun _ => ?_
  refine .require (fun _ h => nomatch h) fun _ => ?_
  refine .bind (.forM_requireG2Point committeePKs) fun _ _ => ?_
  refine .bind (.checkedAdd ?_) fun _ _ => .ok _
  -- with this vote the counter is still a number of members
  have hnew : book.dkg.get? voter = none := by
    rw [Dict.get?_eq_none, ← h.dkgVoted, hfirst]
    exact Bool.false_ne_true
  have hset := dkgCount_set (E := E) hnew (pkElection, committeePKs) (dkgResultHash E pkElection committeePKs)
  rw [if_pos rfl, ← h.dkgCounts] at hset
  have hle := Dict.count_le_length (book.dkg.set voter (pkElection, committeePKs)) fun c =>
    decide (dkgResultHash E c.1 c.2 = dkgResultHash E pkElection committeePKs)
  have hmembers := length_entries_le (mem_members_set h.dkgMembers hmember (pkElection, committeePKs))
  have hlt := el.keyperSet.length_lt
  rw [VoteBook.dkgCount] at hset
  dsimp only at hset
  omega

theorem Refines.registerAggregate_no_panic (hashes : Hashes E el K T) (h : Refines E el K T s book)
    (timestamp : Nat) (voter : Bytes) (t : EncryptedTally) :
    NoPanic (registerAggregate el s timestamp voter (aggregateDigest E el t) t) := by
  refine .require (fun _ h => nomatch h) fun _ => ?_
  refine .require (fun _ h => nomatch h) fun _ => ?_
  refine .require (fun _ h => nomatch h) fun _ => ?_
  refine .require (fun _ h => nomatch h) fun _ => ?_
  refine .require (fun _ h => nomatch h) fun hmember => ?_
  refine .require (fun _ h => nomatch h) fun _ => ?_
  split
  · exact .ok _
  · refine .bind ?_ fun counts hcounts => .bind (.checkedAdd ?_) fun _ _ => .ok _
    · -- a previous vote is in the book, so its counter is positive
      rw [dropVote]
      split
      · exact .ok _
      · rename_i hnonzero
        obtain ⟨t', hget, hdigest⟩ := (Option.any_eq_true _ _).mp
          ((aggregateDigestOf_eq hashes h voter _).mpr ⟨rfl, hnonzero⟩)
        have hpos : 0 < book.aggregate.count
            (fun t => decide (aggregateDigest E el t = s.aggregateVoteDigestOf voter)) :=
          Dict.count_pos_of_get? hget hdigest
        have hcount := h.aggregateCounts (s.aggregateVoteDigestOf voter)
        rw [VoteBook.aggregateCount] at hcount
        rw [checkedSub, if_pos (by omega)]
        exact .ok _
    · have hset := aggregateCount_set (t := t) hashes h hcounts (aggregateDigest E el t)
      rw [if_pos rfl] at hset
      have hle := Dict.count_le_length (book.aggregate.set voter t) fun t' =>
        decide (aggregateDigest E el t' = aggregateDigest E el t)
      have hmembers := length_entries_le (mem_members_set h.aggregateMembers hmember t)
      have hlt := el.keyperSet.length_lt
      rw [VoteBook.aggregateCount] at hset
      dsimp only at hset
      omega

/-- No counter leaves its type: a decrement never underflows, an increment never overflows. -/
theorem Refines.no_panic (hashes : Hashes E el K T) (h : Refines E el K T s book) (tx : Tx) :
    NoPanic (tx.perform E el s) := by
  obtain ⟨timestamp, sender, entry⟩ := tx
  cases entry with
  | voteDKGResult pkElection committeePKs =>
    refine .require (fun _ h => nomatch h) fun _ => .require (fun _ h => nomatch h) fun _ => ?_
    exact h.registerDKGVote_no_panic sender pkElection committeePKs
  | voteDKGResultSigned pkElection committeePKs keyperSig =>
    refine .require (fun _ h => nomatch h) fun _ => .require (fun _ h => nomatch h) fun _ => ?_
    exact .bind (.recover _ _) fun signer _ => h.registerDKGVote_no_panic signer pkElection committeePKs
  | submitAggregate t => exact h.registerAggregate_no_panic hashes timestamp sender t
  | submitAggregateSigned t keyperSig =>
    exact .bind (.recover _ _) fun signer _ => h.registerAggregate_no_panic hashes timestamp signer t
  | cancelElection hasAdminRole =>
    refine .require (fun _ h => nomatch h) fun _ => .require (fun _ h => nomatch h) fun _ => ?_
    exact .require (fun _ h => nomatch h) fun _ => .ok _

/-! ## Permanence -/

theorem VoteStep.kept {vote : Vote} (hstep : VoteStep E el s vote s') :
    (s.dkgFinalized = true → s'.publishedKey = s.publishedKey) ∧
      (s.aggregatePublished = true → s'.publishedAggregate = s.publishedAggregate) := by
  cases hstep with
  | dkg member first unfinished counted =>
    refine ⟨fun h => ?_, fun _ => rfl⟩
    rw [unfinished] at h
    cases h
  | resend member closed unfinished same => exact ⟨fun _ => rfl, fun _ => rfl⟩
  | aggregate member closed unfinished changed dropped counted =>
    refine ⟨fun _ => rfl, fun h => ?_⟩
    rw [unfinished] at h
    cases h

theorem publishedKey_kept {key : Bytes × List Bytes} (h : s.publishedKey = some key) (txs : List Tx) :
    (runTxs E el s txs).publishedKey = some key := by
  refine run_invariant (fun s : Storage => s.publishedKey = some key) (fun s tx h => ?_) h txs
  rw [Tx.apply]
  cases hperform : tx.perform E el s with
  | error e => exact h
  | ok s' =>
    rcases Tx.perform_cases hperform with ⟨vote, -, hstep⟩ | ⟨-, rfl⟩
    · refine (hstep.kept.1 ?_).trans h
      by_contra hopen
      rw [publishedKey_eq_none (Bool.eq_false_iff.mpr hopen)] at h
      cases h
    · exact h

theorem publishedAggregate_kept {t : EncryptedTally} (h : s.publishedAggregate = some t)
    (txs : List Tx) : (runTxs E el s txs).publishedAggregate = some t := by
  refine run_invariant (fun s : Storage => s.publishedAggregate = some t) (fun s tx h => ?_) h txs
  rw [Tx.apply]
  cases hperform : tx.perform E el s with
  | error e => exact h
  | ok s' =>
    rcases Tx.perform_cases hperform with ⟨vote, -, hstep⟩ | ⟨-, rfl⟩
    · refine (hstep.kept.2 ?_).trans h
      by_contra hopen
      rw [publishedAggregate_eq, if_neg hopen] at h
      cases h
    · exact h

end
end ElGamalVoting.Contract
