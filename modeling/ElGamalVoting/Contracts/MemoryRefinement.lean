import ElGamalVoting.Adapters.MemoryAgreement
import ElGamalVoting.Contracts.VoteCounters

/- The contract against the in-memory data layer.

   The two stores take the same votes in different shapes: the contract attributes a
   vote to an address, the in-memory layer to the keyper's index; a tally on chain is
   a tuple (`aggregate_to_tuple` of `adapters/chain/codec.py`). `Feeds` says when
   a call of the in-memory layer is the write of a contract vote. The in-memory record
   is then the vote book, keyper by keyper (`Mirrors`), and what its reads resolve from
   all current votes is what the contract's counters published. -/
namespace ElGamalVoting.Contract
open Lib

/-- The tuple of an artifact, when its integers are of the ABI's types. -/
def aggregateToTuple (agg : AggregateArtifact) : Py EncryptedTally := do
  let admitted ← agg.admitted.mapM (abiUint 256)
  let exclusions ← agg.exclusions.mapM fun x => do
    let seq ← abiUint 256 x.sequenceNumber
    pure (seq, exclusionCode x.reason)
  let total ← abiUint 256 agg.totalAdmittedWeight
  let scaled ← abiUint 256 agg.totalScaledWeight
  pure ⟨agg.aggregates.map fun ct => (ct.c1, ct.c2), admitted, exclusions, total, scaled⟩

/-- The off-chain configuration of the election the contract holds. -/
structure SameElection (el : Election) (config : ElectionConfig) : Prop where
  id : config.electionId = el.id
  members : config.keypers.map KeyperIdentity.signingKey = el.keyperSet.members
  threshold : config.threshold.t = el.keyperSet.threshold
  votingEnd : config.votingEnd = el.votingEnd

/-- The call is the in-memory write of the vote: the same content, at the same time,
    with a signature of the same keyper. -/
def Feeds (E : EvmLib) (el : Election) (vote : Vote) (call : Call) : Prop :=
  match vote with
  | .dkg voter pkElection committeePKs => ∃ sig,
    call.write = .dkgResult el.id pkElection committeePKs sig ∧
      E.recoverMessage (dkgResultDigest E.toEthLib el.id pkElection committeePKs) sig = some voter
  | .aggregate voter tally timestamp => ∃ agg sig,
    call.now = timestamp ∧ call.write = .aggregate el.id agg sig ∧ aggregateToTuple agg = .ok tally ∧
      E.recoverMessage (aggregateDigest E el tally) sig = some voter

/-- The record holds the votes of the book, in the same order. -/
structure Mirrors (book : VoteBook) (st : Stored) : Prop where
  dkg : List.Forall₂ (fun e f => memberIndex st.config e.1 = some f.1 ∧
    e.2 = (f.2.pkElection, f.2.committeePks)) book.dkg.entries st.dkgByKeyper.entries
  aggregate : List.Forall₂ (fun e f => memberIndex st.config e.1 = some f.1 ∧
    aggregateToTuple f.2 = .ok e.2) book.aggregate.entries st.aggregateByKeyper.entries

variable {E : EvmLib} {el : Election} {st : Stored} {book : VoteBook}

/-- The two sides sign and group an aggregate under one digest. -/
theorem aggregateDigestOf_tuple {agg : AggregateArtifact} {t : EncryptedTally}
    (h : aggregateToTuple agg = .ok t) :
    aggregateDigestOf E.toEthLib el.id agg = .ok (aggregateDigest E el t) := by
  rw [aggregateToTuple] at h
  obtain ⟨admitted, hadmitted, h⟩ := bind_eq_ok.mp h
  obtain ⟨exclusions, hexclusions, h⟩ := bind_eq_ok.mp h
  obtain ⟨total, htotal, h⟩ := bind_eq_ok.mp h
  obtain ⟨scaled, hscaled, h⟩ := bind_eq_ok.mp h
  cases h
  rw [aggregateDigestOf, aggregatePreimage, hadmitted, ok_bind, hexclusions, ok_bind, htotal, ok_bind, hscaled, ok_bind]
  rfl

/-! ## Indices -/

theorem exists_memberIndex {config : ElectionConfig} (hsame : SameElection el config) {a : Bytes}
    (ha : a ∈ el.keyperSet.members) : ∃ i, memberIndex config a = some i := by
  rw [← hsame.members] at ha
  obtain ⟨k, hk, rfl⟩ := List.mem_map.mp ha
  rw [memberIndex]
  cases hfind : config.keypers.findIdx? fun k' => k'.signingKey == k.signingKey with
  | none => exact absurd (List.findIdx?_eq_none_iff.mp hfind k hk) (by simp)
  | some i => exact ⟨_, rfl⟩

theorem memberIndex_inj {config : ElectionConfig} {a b : Bytes} {i : Int}
    (ha : memberIndex config a = some i) (hb : memberIndex config b = some i) : a = b := by
  have h := (memberIndex_eq_some ha).2.2
  rw [(memberIndex_eq_some hb).2.2] at h
  exact (Option.some.inj h).symm

theorem memberIndex_eq_iff {config : ElectionConfig} {a b : Bytes} {i j : Int}
    (ha : memberIndex config a = some i) (hb : memberIndex config b = some j) : a = b ↔ i = j := by
  constructor
  · intro hab
    exact Option.some.inj (ha.symm.trans (hab ▸ hb))
  · intro hij
    exact memberIndex_inj ha (hij ▸ hb)

theorem keyperIndexByRecovery_ok {config : ElectionConfig} {digest sig a : Bytes} {i : Int}
    (hrecover : E.recoverMessage digest sig = some a) (hi : memberIndex config a = some i) :
    keyperIndexByRecovery E.toEthLib config digest sig = .ok i := by
  simp only [keyperIndexByRecovery, hrecover, hi]

/-! ## The reads of a mirroring record -/

theorem Mirrors.ok (hsame : SameElection el st.config) (h : Mirrors book st) :
    st.Ok E.toEthLib el.id := by
  have hindex : ∀ {a i}, memberIndex st.config a = some i → i ∈ keyperIndices st.config.threshold.n :=
    fun hi => mem_keyperIndices.mpr ⟨(memberIndex_eq_some hi).1, (memberIndex_eq_some hi).2.1⟩
  refine ⟨hsame.id, fun i hi => ?_, fun i hi => ?_, fun f hf => ?_⟩
  · obtain ⟨f, hf, rfl⟩ := List.mem_map.mp hi
    obtain ⟨e, -, hef⟩ := forall₂_exists_left h.dkg hf
    exact hindex hef.1
  · obtain ⟨f, hf, rfl⟩ := List.mem_map.mp hi
    obtain ⟨e, -, hef⟩ := forall₂_exists_left h.aggregate hf
    exact hindex hef.1
  · obtain ⟨e, -, hef⟩ := forall₂_exists_left h.aggregate hf
    exact ⟨_, aggregateDigestOf_tuple hef.2⟩

theorem Mirrors.finalizedKey (E : EvmLib) (hsame : SameElection el st.config) (h : Mirrors book st) :
    finalizedKeyOf st = .ok ((Quorum.winner el.keyperSet.threshold book.dkgVotes).map fun c =>
      ⟨c.1, c.2⟩) := by
  have hvotes : List.Forall₂ (fun e f => e.2 = f.2) book.dkgVotes (dkgVotes st) := by
    rw [VoteBook.dkgVotes, dkgVotes, List.forall₂_map_left_iff, List.forall₂_map_right_iff]
    exact h.dkg.imp fun e f hef => by rw [hef.2]
  rw [finalizedKeyOf_ok (h.ok (E := E) hsame), hsame.threshold, Quorum.winner_congr hvotes]

theorem Mirrors.aggregateOf (hsame : SameElection el st.config) (h : Mirrors book st) :
    ∃ found, aggregateOf E.toEthLib el.id st = .ok found ∧
      Option.Rel (fun t agg => aggregateToTuple agg = .ok t)
        (Quorum.winner el.keyperSet.threshold (book.aggregateVotes E el)) found := by
  obtain ⟨votes, hvotes, hwinner⟩ := aggregateOf_ok (h.ok (E := E) hsame)
  refine ⟨_, hwinner, ?_⟩
  rw [hsame.threshold]
  apply Quorum.winner_rel
  rw [VoteBook.aggregateVotes, List.forall₂_map_left_iff]
  refine forall₂_trans h.aggregate (mapM_eq_ok.mp hvotes) fun e f vote hef hvote => ?_
  obtain ⟨digest, hdigest, hvote⟩ := bind_eq_ok.mp hvote
  cases hvote
  rw [aggregateDigestOf_tuple hef.2, Except.ok.injEq] at hdigest
  exact ⟨hdigest, hef.2⟩

/-! ## Feeding one vote -/

variable {s s' : Storage} {K : Set (Bytes × List Bytes)} {T : Set EncryptedTally}
  {mem : InMemoryDataLayer} {call : Call}

/-- The in-memory side of a run: the election is stored under its id, with the votes of
    the book. -/
structure MemoryHolds (el : Election) (book : VoteBook) (mem : InMemoryDataLayer) : Prop where
  stored : ∃ st, mem.elections.get? el.id = some st ∧ SameElection el st.config ∧ Mirrors book st

theorem Mirrors.put (h : Mirrors book st) (hsame : SameElection el st.config)
    (mem : InMemoryDataLayer) : MemoryHolds el book (putStored mem el.id st) :=
  ⟨st, Dict.get?_set_self _ _ _, hsame, h⟩

theorem MemoryHolds.feedDkg (h : MemoryHolds el book mem) (hrefines : Refines E el K T s book)
    {voter pkElection : Bytes} {committeePKs : List Bytes}
    (hstep : VoteStep E el s (.dkg voter pkElection committeePKs) s')
    (hfeeds : Feeds E el (.dkg voter pkElection committeePKs) call) :
    MemoryHolds el (book.add (.dkg voter pkElection committeePKs)) (call.apply E.toEthLib mem) := by
  obtain ⟨st, hst, hsame, hmirrors⟩ := h
  obtain ⟨sig, hwrite, hrecover⟩ := hfeeds
  cases hstep with
  | dkg member first unfinished counted =>
  obtain ⟨i, hi⟩ := exists_memberIndex hsame member
  have hnew : book.dkg.get? voter = none := by
    rw [Dict.get?_eq_none, ← hrefines.dkgVoted, first]
    exact Bool.false_ne_true
  have hnone : st.dkgByKeyper.get? i = none := by
    rw [Dict.get?_eq_none]
    intro hmem
    obtain ⟨f, hf, rfl⟩ := List.mem_map.mp hmem
    obtain ⟨e, he, hef⟩ := forall₂_exists_left hmirrors.dkg hf
    obtain rfl := memberIndex_inj hef.1 hi
    exact Dict.get?_eq_none.mp hnew (List.mem_map.mpr ⟨e, he, rfl⟩)
  have hperform : call.perform E.toEthLib mem = .ok (putStored mem el.id { st with
      dkgByKeyper := st.dkgByKeyper.set i ⟨el.id, pkElection, committeePKs, sig⟩ }) := by
    simp only [Call.perform, hwrite, submitDkgResult, getStored_eq_ok.mpr hst, ok_bind,
      keyperIndexByRecovery_ok hrecover hi, hnone, pure_eq_ok]
  have hmirrors' : Mirrors (book.add (.dkg voter pkElection committeePKs)) { st with
      dkgByKeyper := st.dkgByKeyper.set i ⟨el.id, pkElection, committeePKs, sig⟩ } := by
    refine ⟨?_, hmirrors.aggregate⟩
    exact Dict.forall₂_set hmirrors.dkg (fun e f hef => memberIndex_eq_iff hef.1 hi) ⟨hi, rfl⟩
  rw [Call.apply, hperform]
  exact hmirrors'.put hsame mem

/-- While the contract has published nothing, the in-memory layer has not finalized. -/
theorem Mirrors.aggregateFinalized (hsame : SameElection el st.config) (h : Mirrors book st)
    (hrefines : Refines E el K T s book) (hst : mem.elections.get? el.id = some st)
    (hopen : s.aggregatePublished = false) :
    aggregateFinalized E.toEthLib mem st = .ok false := by
  obtain ⟨found, hfound, hrel⟩ := h.aggregateOf (E := E) hsame
  rw [← hrefines.aggregatePublished, publishedAggregate_eq, hopen] at hrel
  cases hrel
  rw [ElGamalVoting.aggregateFinalized, hsame.id, ElGamalVoting.getAggregate,
    getStored_eq_ok.mpr hst, ok_bind, hfound]
  rfl

theorem MemoryHolds.feedAggregate (h : MemoryHolds el book mem) (hrefines : Refines E el K T s book)
    {voter : Bytes} {t : EncryptedTally} {timestamp : Nat} (hmember : voter ∈ el.keyperSet.members)
    (hclosed : el.votingEnd ≤ timestamp) (hopen : s.aggregatePublished = false)
    (hfeeds : Feeds E el (.aggregate voter t timestamp) call) :
    MemoryHolds el (book.add (.aggregate voter t timestamp)) (call.apply E.toEthLib mem) := by
  obtain ⟨st, hst, hsame, hmirrors⟩ := h
  obtain ⟨agg, sig, hnow, hwrite, htuple, hrecover⟩ := hfeeds
  obtain ⟨i, hi⟩ := exists_memberIndex hsame hmember
  have hlate : ¬ call.now < st.config.votingEnd := by
    rw [hnow, hsame.votingEnd]
    omega
  have hset : List.Forall₂ (fun e f => memberIndex st.config e.1 = some f.1 ∧
      aggregateToTuple f.2 = .ok e.2) (book.aggregate.set voter t).entries
      (st.aggregateByKeyper.set i agg).entries :=
    Dict.forall₂_set hmirrors.aggregate (fun e f hef => memberIndex_eq_iff hef.1 hi) ⟨hi, htuple⟩
  have hperform : call.perform E.toEthLib mem =
      if st.aggregateByKeyper.get? i = some agg then .ok mem
      else .ok (putStored mem el.id { st with
        aggregateByKeyper := st.aggregateByKeyper.set i agg }) := by
    simp only [Call.perform, hwrite, ElGamalVoting.submitAggregate, getStored_eq_ok.mpr hst, ok_bind, if_neg hlate,
      aggregateDigestOf_tuple htuple, keyperIndexByRecovery_ok hrecover hi,
      hmirrors.aggregateFinalized hsame hrefines hst hopen, pure_eq_ok, Bool.false_eq_true, if_false]
  rw [Call.apply, hperform]
  by_cases hresend : st.aggregateByKeyper.get? i = some agg
  · rw [if_pos hresend]
    rw [Dict.set_of_get? hresend] at hset
    exact ⟨st, hst, hsame, hmirrors.dkg, hset⟩
  · rw [if_neg hresend]
    have hmirrors' : Mirrors (book.add (.aggregate voter t timestamp)) { st with
        aggregateByKeyper := st.aggregateByKeyper.set i agg } := ⟨hmirrors.dkg, hset⟩
    exact hmirrors'.put hsame mem

theorem MemoryHolds.feed (h : MemoryHolds el book mem) (hrefines : Refines E el K T s book) {vote : Vote}
    (hstep : VoteStep E el s vote s') (hfeeds : Feeds E el vote call) :
    MemoryHolds el (book.add vote) (call.apply E.toEthLib mem) := by
  cases vote with
  | dkg voter pkElection committeePKs => exact h.feedDkg hrefines hstep hfeeds
  | aggregate voter t timestamp =>
    cases hstep with
    | resend member closed unfinished same =>
      exact h.feedAggregate hrefines member closed unfinished hfeeds
    | aggregate member closed unfinished changed dropped counted =>
      exact h.feedAggregate hrefines member closed unfinished hfeeds

/-! ## Feeding a run -/

/-- Fed the accepted votes of a run, the in-memory layer holds the book of that run. -/
theorem MemoryHolds.run (hashes : Hashes E el K T) (h : MemoryHolds el book mem)
    (hrefines : Refines E el K T s book) {txs : List Tx}
    (hin : ∀ tx ∈ txs, ∀ vote, tx.vote E el = some vote → vote.In K T) {calls : List Call}
    (hcalls : List.Forall₂ (Feeds E el) (acceptedVotes E el s txs) calls) :
    MemoryHolds el ((acceptedVotes E el s txs).foldl VoteBook.add book)
      (runCalls E.toEthLib mem calls) := by
  induction txs generalizing s book mem calls with
  | nil =>
    cases hcalls
    exact h
  | cons tx txs ih =>
    have hrest : ∀ tx ∈ txs, ∀ vote, tx.vote E el = some vote → vote.In K T :=
      fun tx htx => hin tx (List.mem_cons_of_mem _ htx)
    rw [acceptedVotes] at hcalls ⊢
    cases hperform : tx.perform E el s with
    | error e =>
      simp only [hperform] at hcalls ⊢
      exact ih h hrefines hrest hcalls
    | ok s' =>
      simp only [hperform] at hcalls ⊢
      rcases Tx.perform_cases hperform with ⟨vote, hvote, hstep⟩ | ⟨hvote, rfl⟩
      · rw [hvote, Option.toList_some, List.singleton_append] at hcalls ⊢
        obtain ⟨call, calls, hfeeds, hrestCalls, rfl⟩ := List.forall₂_cons_left_iff.mp hcalls
        have hin' := hin tx List.mem_cons_self vote hvote
        exact ih (h.feed hrefines hstep hfeeds) (hrefines.vote hashes hin' hstep) hrest hrestCalls
      · rw [hvote, Option.toList_none, List.nil_append] at hcalls ⊢
        exact ih h hrefines.cancel hrest hcalls

/-- The election is stored, without votes. -/
def Registered (el : Election) (mem : InMemoryDataLayer) : Prop :=
  ∃ st, mem.elections.get? el.id = some st ∧ SameElection el st.config ∧ st.dkgByKeyper = ∅ ∧
    st.aggregateByKeyper = ∅

theorem Registered.holds (h : Registered el mem) : MemoryHolds el {} mem := by
  obtain ⟨st, hst, hsame, hdkg, hagg⟩ := h
  refine ⟨st, hst, hsame, ?_, ?_⟩
  · rw [hdkg]
    exact .nil
  · rw [hagg]
    exact .nil

theorem MemoryHolds.getFinalizedKey (h : MemoryHolds el book mem)
    (hrefines : Refines E el K T s book) :
    getFinalizedKey mem el.id = .ok (s.publishedKey.map fun c => ⟨c.1, c.2⟩) := by
  obtain ⟨st, hst, hsame, hmirrors⟩ := h
  rw [ElGamalVoting.getFinalizedKey, getStored_eq_ok.mpr hst, ok_bind, hmirrors.finalizedKey E hsame,
    hrefines.dkgPublished]

theorem MemoryHolds.getAggregate (h : MemoryHolds el book mem) (hrefines : Refines E el K T s book) :
    (ElGamalVoting.getAggregate E.toEthLib mem el.id >>= Option.mapM aggregateToTuple) =
      .ok s.publishedAggregate := by
  obtain ⟨st, hst, hsame, hmirrors⟩ := h
  obtain ⟨found, hfound, hrel⟩ := hmirrors.aggregateOf (E := E) hsame
  rw [← hrefines.aggregatePublished] at hrel
  rw [ElGamalVoting.getAggregate, getStored_eq_ok.mpr hst, ok_bind, hfound, ok_bind]
  generalize s.publishedAggregate = published at hrel
  cases hrel with
  | none => rfl
  | some htuple =>
    rw [Option.mapM_some, htuple]
    rfl

/-! ## Resolution from the book alone -/

/-- A member's 1-based position. -/
def Election.keyperIndex (el : Election) (a : Bytes) : Int := el.keyperSet.members.idxOf a + 1

/-- Resolving the votes of a book, whatever their contents, picks its winner. -/
theorem resolve_book {V C : Type} [DecidableEq C] {votes : Dict Bytes V} (content : V → C)
    (hmembers : ∀ a ∈ votes.keys, a ∈ el.keyperSet.members) (artifact : String) :
    resolveUnique (Quorum.groupVotes
        (votes.entries.map fun e => (el.keyperIndex e.1, content e.2, e.2))).values
      el.keyperSet.threshold artifact el.id =
      .ok (Quorum.winner el.keyperSet.threshold (votes.entries.map fun e => (e.1, content e.2, e.2))) := by
  rw [resolveUnique_groupVotes el.keyperSet.one_le_threshold]
  · congr 1
    apply Quorum.winner_congr
    rw [List.forall₂_map_left_iff, List.forall₂_map_right_iff]
    exact List.forall₂_same.mpr fun _ _ => rfl
  · rw [List.map_map]
    refine List.Nodup.map_on ?_ votes.nodup.of_map
    intro e he f hf hindex
    have hidx : el.keyperSet.members.idxOf e.1 = el.keyperSet.members.idxOf f.1 := by
      have hindex : (el.keyperSet.members.idxOf e.1 : Int) + 1 = el.keyperSet.members.idxOf f.1 + 1 :=
        hindex
      omega
    have hkey : e.1 = f.1 :=
      List.idxOf_inj (hmembers e.1 (List.mem_map.mpr ⟨e, he, rfl⟩)) |>.mp hidx
    exact List.inj_on_of_nodup_map votes.nodup he hf hkey
  · rw [List.length_map]
    exact lt_of_le_of_lt (length_entries_le hmembers) el.keyperSet.majority

/-! ## The counters and the published contents, over every run -/

/-- The DKG contents that the transactions vote for. -/
def dkgContents (E : EvmLib) (el : Election) (txs : List Tx) : List (Bytes × List Bytes) :=
  txs.filterMap fun tx => match tx.vote E el with
    | some (.dkg _ pkElection committeePKs) => some (pkElection, committeePKs)
    | _ => none

/-- The tallies that the transactions vote for. -/
def talliesVoted (E : EvmLib) (el : Election) (txs : List Tx) : List EncryptedTally :=
  txs.filterMap fun tx => match tx.vote E el with
    | some (.aggregate _ tally _) => some tally
    | _ => none

theorem vote_in {txs : List Tx} : ∀ tx ∈ txs, ∀ vote, tx.vote E el = some vote →
    vote.In {c | c ∈ dkgContents E el txs} {t | t ∈ talliesVoted E el txs} := by
  intro tx htx vote hvote
  cases vote with
  | dkg voter pkElection committeePKs => exact List.mem_filterMap.mpr ⟨tx, htx, by rw [hvote]⟩
  | aggregate voter tally timestamp => exact List.mem_filterMap.mpr ⟨tx, htx, by rw [hvote]⟩

/-- The book of the votes a run accepted. -/
def bookOf (E : EvmLib) (el : Election) (txs : List Tx) : VoteBook :=
  (acceptedVotes E el {} txs).foldl VoteBook.add {}

/-- The incremental counters refine the recomputed quorum: after any transactions the
    counters are the numbers of current votes and no transaction can make them leave
    their type; what is published is what the resolution of all current votes picks, in
    particular what the in-memory layer answers when it is fed the accepted votes; and what
    is published stays. -/
theorem counters_refine_quorum (E : EvmLib) (el : Election) (txs : List Tx)
    (hashes : Hashes E el {c | c ∈ dkgContents E el txs} {t | t ∈ talliesVoted E el txs}) :
    (∀ d, d ≠ zeroDigest → (runTxs E el {} txs).aggregateVoteCountByResult d =
      el.keyperSet.members.countP fun a => (runTxs E el {} txs).aggregateVoteDigestOf a = d) ∧
    (∀ d, (runTxs E el {} txs).dkgVoteCountByResult d = el.keyperSet.members.countP fun a =>
      ((bookOf E el txs).dkg.get? a).any fun c => dkgResultHash E c.1 c.2 = d) ∧
    (∀ tx code, Tx.perform E el tx (runTxs E el {} txs) ≠ .error (.panic code)) ∧
    (resolveUnique (Quorum.groupVotes ((bookOf E el txs).dkg.entries.map fun e =>
        (el.keyperIndex e.1, e.2, e.2))).values el.keyperSet.threshold "dkg result" el.id =
      .ok (runTxs E el {} txs).publishedKey ∧
    resolveUnique (Quorum.groupVotes ((bookOf E el txs).aggregate.entries.map fun e =>
        (el.keyperIndex e.1, aggregateDigest E el e.2, e.2))).values el.keyperSet.threshold
        "aggregate" el.id = .ok (runTxs E el {} txs).publishedAggregate) ∧
    (∀ mem calls, Registered el mem → List.Forall₂ (Feeds E el) (acceptedVotes E el {} txs) calls →
      getFinalizedKey (runCalls E.toEthLib mem calls) el.id =
        .ok ((runTxs E el {} txs).publishedKey.map fun c => ⟨c.1, c.2⟩) ∧
      (ElGamalVoting.getAggregate E.toEthLib (runCalls E.toEthLib mem calls) el.id >>=
        Option.mapM aggregateToTuple) = .ok (runTxs E el {} txs).publishedAggregate) ∧
    (∀ key more, (runTxs E el {} txs).publishedKey = some key →
      (runTxs E el (runTxs E el {} txs) more).publishedKey = some key) ∧
    ∀ tally more, (runTxs E el {} txs).publishedAggregate = some tally →
      (runTxs E el (runTxs E el {} txs) more).publishedAggregate = some tally := by
  have hrefines : Refines E el _ _ (runTxs E el {} txs) (bookOf E el txs) :=
    refines_empty.run hashes vote_in
  refine ⟨fun d hd => hrefines.aggregateVoteCount hashes hd, hrefines.dkgVoteCount,
    fun tx code => hrefines.no_panic hashes tx code, ⟨?_, ?_⟩, fun mem calls hmem hcalls => ?_,
    fun key more hkey => publishedKey_kept hkey more,
    fun tally more htally => publishedAggregate_kept htally more⟩
  · rw [hrefines.dkgPublished]
    exact resolve_book id hrefines.dkgMembers "dkg result"
  · rw [hrefines.aggregatePublished]
    exact resolve_book (aggregateDigest E el) hrefines.aggregateMembers "aggregate"
  · have hholds := hmem.holds.run hashes refines_empty vote_in hcalls
    exact ⟨hholds.getFinalizedKey hrefines, hholds.getAggregate hrefines⟩

/-! A committee of three that agrees on a key, disagrees on the aggregate, and comes to agree
    when the first keyper changes its vote. -/

namespace SampleVotes

def lib : EvmLib where
  toEthLib := plainEth
  abiKey pkElection committeePKs := beBytes 4 pkElection.length ++ pkElection ++
    plainEth.abiBytesArray committeePKs

def election : Election where
  electionId := 1
  keyperSet := ⟨[[1], [2], [3]], 2, by decide, Nat.two_pos, by decide, by decide, by decide⟩
  votingStart := 100
  votingEnd := 200
  numCandidates := 1
  start_lt_end := by decide
  one_le_numCandidates := Nat.one_pos

def key (n : Nat) : Bytes × List Bytes :=
  (beBytes 96 n, [beBytes 96 n, beBytes 96 (n + 1), beBytes 96 (n + 2)])

def artifact (weight : Int) : AggregateArtifact :=
  ⟨election.id, [⟨beBytes 96 1, beBytes 96 2⟩], [], [], weight, weight⟩

def tally (weight : Nat) : EncryptedTally :=
  ⟨[(beBytes 96 1, beBytes 96 2)], [], [], weight, weight⟩

def txs : List Tx :=
  [⟨10, [1], .voteDKGResult (key 5).1 (key 5).2⟩, ⟨11, [2], .voteDKGResult (key 6).1 (key 6).2⟩,
    ⟨12, [1], .voteDKGResult (key 6).1 (key 6).2⟩, ⟨13, [3], .voteDKGResult (key 5).1 (key 5).2⟩,
    ⟨200, [1], .submitAggregate (tally 7)⟩,
    ⟨201, [9], .submitAggregateSigned (tally 8)
      (plainEth.signMessage [2] (aggregateDigest lib election (tally 8)))⟩,
    ⟨202, [1], .submitAggregate (tally 7)⟩, ⟨203, [1], .submitAggregate (tally 8)⟩,
    ⟨204, [3], .submitAggregate (tally 7)⟩]

def dkgCall (n : Nat) (keyper : Bytes) : Call :=
  ⟨0, 0, .dkgResult election.id (key n).1 (key n).2
    (plainEth.signMessage keyper (dkgResultDigest plainEth election.id (key n).1 (key n).2))⟩

def aggregateCall (now : Int) (weight : Nat) (keyper : Bytes) : Call :=
  ⟨now, now, .aggregate election.id (artifact weight)
    (plainEth.signMessage keyper (aggregateDigest lib election (tally weight)))⟩

/-- The accepted votes as writes; the two reverted transactions are missing. -/
def calls : List Call :=
  [dkgCall 5 [1], dkgCall 6 [2], dkgCall 5 [3], aggregateCall 200 7 [1], aggregateCall 201 8 [2],
    aggregateCall 202 7 [1], aggregateCall 203 8 [1]]

def memory : InMemoryDataLayer :=
  { elections := (∅ : Dict Bytes Stored).set election.id { config := smallConfig }, nextId := 1 }

def votes : List Vote :=
  [.dkg [1] (key 5).1 (key 5).2, .dkg [2] (key 6).1 (key 6).2, .dkg [3] (key 5).1 (key 5).2,
    .aggregate [1] (tally 7) 200, .aggregate [2] (tally 8) 201, .aggregate [1] (tally 7) 202,
    .aggregate [1] (tally 8) 203]

theorem accepted : acceptedVotes lib election {} txs = votes := by decide +kernel

theorem feedsDkg {n : Nat} {keyper : Bytes}
    (h : plainEth.recoverMessage (dkgResultDigest plainEth election.id (key n).1 (key n).2)
      (plainEth.signMessage keyper (dkgResultDigest plainEth election.id (key n).1 (key n).2)) =
        some keyper) : Feeds lib election (.dkg keyper (key n).1 (key n).2) (dkgCall n keyper) :=
  ⟨_, rfl, h⟩

theorem feedsAggregate {now weight : Nat} {keyper : Bytes}
    (htuple : aggregateToTuple (artifact weight) = .ok (tally weight))
    (h : plainEth.recoverMessage (aggregateDigest lib election (tally weight))
      (plainEth.signMessage keyper (aggregateDigest lib election (tally weight))) = some keyper) :
    Feeds lib election (.aggregate keyper (tally weight) now) (aggregateCall now weight keyper) :=
  ⟨_, _, rfl, rfl, htuple, h⟩

theorem feeds : List.Forall₂ (Feeds lib election) votes calls := by
  refine .cons (feedsDkg ?_) (.cons (feedsDkg ?_) (.cons (feedsDkg ?_) (.cons (feedsAggregate ?_ ?_)
    (.cons (feedsAggregate ?_ ?_) (.cons (feedsAggregate ?_ ?_) (.cons (feedsAggregate ?_ ?_) .nil))))))
  all_goals decide +kernel

theorem hashes : Hashes lib election {c | c ∈ dkgContents lib election txs}
    {t | t ∈ talliesVoted lib election txs} where
  dkg := by
    have h : ∀ c ∈ dkgContents lib election txs, ∀ c' ∈ dkgContents lib election txs,
        dkgResultHash lib c.1 c.2 = dkgResultHash lib c'.1 c'.2 → c = c' := by decide +kernel
    exact fun c hc c' hc' => h c hc c' hc'
  aggregate := by
    have h : ∀ t ∈ talliesVoted lib election txs, ∀ t' ∈ talliesVoted lib election txs,
        aggregateDigest lib election t = aggregateDigest lib election t' → t = t' := by decide +kernel
    exact fun t ht t' ht' => h t ht t' ht'
  nonzero := by
    have h : ∀ t ∈ talliesVoted lib election txs, aggregateDigest lib election t ≠ zeroDigest := by
      decide +kernel
    exact h

theorem registered : Registered election memory :=
  ⟨{ config := smallConfig }, Dict.get?_set_self _ _ _, ⟨rfl, rfl, rfl, rfl⟩, rfl, rfl⟩

end SampleVotes

open SampleVotes in
/-- On the sample run both stores publish the key of two keypers and the aggregate the first
    keyper changed to, with two votes on its digest, and the contract keeps them. -/
theorem counters_refine_quorum_of_three :
    ((runTxs lib election {} txs).publishedKey = some (key 5) ∧
      (runTxs lib election {} txs).publishedAggregate = some (tally 8)) ∧
    (runTxs lib election {} txs).aggregateVoteCountByResult (aggregateDigest lib election (tally 8)) = 2 ∧
    getFinalizedKey (runCalls plainEth memory calls) election.id = .ok (some ⟨(key 5).1, (key 5).2⟩) ∧
    (ElGamalVoting.getAggregate plainEth (runCalls plainEth memory calls) election.id >>=
      Option.mapM aggregateToTuple) = .ok (some (tally 8)) ∧
    ∀ more, (runTxs lib election (runTxs lib election {} txs) more).publishedAggregate =
      some (tally 8) := by
  have hpublished : (runTxs lib election {} txs).publishedKey = some (key 5) ∧
      (runTxs lib election {} txs).publishedAggregate = some (tally 8) := by decide +kernel
  obtain ⟨hcounts, -, -, -, hmemory, -, hkept⟩ := counters_refine_quorum lib election txs hashes
  have hfeeds : List.Forall₂ (Feeds lib election) (acceptedVotes lib election {} txs) calls := by
    rw [accepted]
    exact feeds
  obtain ⟨hkey, hagg⟩ := hmemory memory calls registered hfeeds
  rw [hpublished.1] at hkey
  rw [hpublished.2] at hagg
  refine ⟨hpublished, ?_, hkey, hagg, fun more => hkept _ more hpublished.2⟩
  rw [hcounts _ (by decide +kernel)]
  decide +kernel

end ElGamalVoting.Contract
