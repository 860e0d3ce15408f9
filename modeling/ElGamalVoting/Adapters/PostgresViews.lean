import ElGamalVoting.Adapters.MemoryAgreement
import ElGamalVoting.Adapters.Postgres

/- What the database holds of one election, and how it is read back.

   `Database.view` is the rows of one election by their keys, `Stored.view` the rows
   that a record of the in-memory layer stands for. Where the two are equal and every
   artifact of the record has the sizes its decoder demands (`Stored.Readable`), the
   database answers each read as the in-memory layer does, whatever the order of its
   rows; for the aggregate, this needs that votes with one digest carry one artifact. -/
namespace ElGamalVoting
open Lib
namespace Postgres

@[ext] structure View where
  row : Option ElectionRow
  dkg : Int → Option Json
  ballots : Int → Option BallotRow
  shares : Int → Option Json
  aggregates : Int → Option Json
  result : Option Json

def View.empty : View := ⟨none, fun _ => none, fun _ => none, fun _ => none, fun _ => none, none⟩

def Database.view (db : Database) (electionId : Bytes) : View where
  row := db.elections.get? electionId
  dkg := fun i => db.dkgSubmissions.get? (electionId, i)
  ballots := fun seq => db.ballots.get? (electionId, seq)
  shares := fun i => db.decryptionShares.get? (electionId, i)
  aggregates := fun i => db.aggregates.get? (electionId, i)
  result := db.results.get? electionId

def ballotRow (sb : StoredBallot) : BallotRow := ⟨encBallot sb.envelope, sb.submittedAt.getD 0⟩

end Postgres
open Postgres

def Stored.view (st : Stored) : View where
  row := some ⟨encConfig st.config, st.config.adminKey, st.config.votingStart, st.cancelled, st.tallyStalled⟩
  dkg := fun i => (st.dkgByKeyper.get? i).map encDkgResult
  ballots := fun seq => (st.ballots.find? fun sb => sb.sequenceNumber = seq).map ballotRow
  shares := fun i => (st.sharesByKeyper.get? i).map encDecryptionShare
  aggregates := fun i => (st.aggregateByKeyper.get? i).map encAggregate
  result := st.result.map encResult

/-- Every artifact of the record passes its own decoder, and the ballots are numbered by
    their positions. -/
structure Stored.Readable (st : Stored) : Prop where
  id : st.config.electionId.length = 32
  dkg : ∀ i sub, st.dkgByKeyper.get? i = some sub → sub.WellSized
  numbered : ∀ (i : Nat) sb, st.ballots[i]? = some sb → sb.sequenceNumber = i
  timed : ∀ sb ∈ st.ballots, sb.submittedAt = some (sb.submittedAt.getD 0)
  ballots : ∀ sb ∈ st.ballots, sb.envelope.WellSized
  shares : ∀ i share, st.sharesByKeyper.get? i = some share → share.WellSized
  aggregates : ∀ i A, st.aggregateByKeyper.get? i = some A → A.WellSized
  result : ∀ r, st.result = some r → r.WellSized

namespace Postgres
variable {E : EthLib} {conv : PyConversions} {order : RowOrder} {db : Database} {electionId : Bytes}
  {st : Stored}

/-! ## Configuration, key and record -/

theorem configOf_eq (hview : db.view electionId = st.view) (h : st.Readable) :
    configOf conv db electionId = .ok st.config := by
  have hrow : db.elections.get? electionId = st.view.row := congrArg View.row hview
  rw [configOf, hrow]
  exact decConfig_encConfig conv h.id

/-- The DKG rows decode to the votes of the record, in some order. -/
theorem dkgVotes_perm (order : RowOrder) (hview : db.view electionId = st.view) (h : st.Readable) :
    ∃ votes, ((order.arrange (Table.rowsOf db.dkgSubmissions electionId)).mapM fun row => do
        let sub ← decDkgResult row.2
        pure (row.1, (sub.pkElection, sub.committeePks), (sub.pkElection, sub.committeePks))) =
      (.ok votes : Py _) ∧ votes.Perm (dkgVotes st) := by
  have hrows : (order.arrange (Table.rowsOf db.dkgSubmissions electionId)).Perm
      (st.dkgByKeyper.entries.map fun e => (e.1, encDkgResult e.2)) :=
    (order.perm _).trans (Table.rowsOf_perm fun k => congrFun (congrArg View.dkg hview) k)
  refine mapM_perm hrows (mapM_map_ok (h := fun e => .ok _) ?_ (mapM_ok_of fun e _ => rfl))
  intro e he
  rw [decDkgResult_encDkgResult (h.dkg e.1 e.2 (Dict.get?_eq_some.mpr he)), ok_bind]
  rfl

theorem finalizedKey_eq (hview : db.view electionId = st.view) (h : st.Readable) (hok : st.Ok E electionId) :
    finalizedKey order db st.config = finalizedKeyOf st := by
  obtain ⟨votes, hvotes, hperm⟩ := dkgVotes_perm order hview h
  have hvoters : ((dkgVotes st).map Prod.fst).Nodup := by
    rw [dkgVotes, List.map_map]
    exact st.dkgByKeyper.nodup
  have hlen : (dkgVotes st).length < st.config.threshold.t * 2 := by
    rw [dkgVotes, List.length_map]
    exact votes_lt_two_quorums hok.dkgVoters
  have hsame : ∀ e ∈ dkgVotes st, ∀ f ∈ dkgVotes st, e.2.1 = f.2.1 → e.2.2 = f.2.2 := by
    intro e he f hf hef
    obtain ⟨_, -, rfl⟩ := List.mem_map.mp he
    obtain ⟨_, -, rfl⟩ := List.mem_map.mp hf
    exact hef
  rw [finalizedKeyOf_ok hok, finalizedKey, hok.id, hvotes, ok_bind,
    resolveUnique_groupVotes st.config.threshold.one_le_t ((hperm.map Prod.fst).nodup_iff.mpr hvoters)
      (hperm.length_eq ▸ hlen), ok_bind,
    ← Quorum.winner_perm st.config.threshold.one_le_t hperm.symm hlen hsame]
  rfl

theorem getFinalizedKey_eq (hview : db.view electionId = st.view) (h : st.Readable)
    (hok : st.Ok E electionId) : getFinalizedKey conv order db electionId = finalizedKeyOf st := by
  rw [getFinalizedKey, configOf_eq hview h, ok_bind]
  exact finalizedKey_eq hview h hok

theorem getElection_eq (hview : db.view electionId = st.view) (h : st.Readable)
    (hok : st.Ok E electionId) : getElection conv order db electionId = (do
      let key ← finalizedKeyOf st
      pure ⟨st.config, st.cancelled, key, st.tallyStalled⟩) := by
  have hrow : db.elections.get? electionId = st.view.row := congrArg View.row hview
  have hconfig : decConfig conv (encConfig st.config) = .ok st.config := decConfig_encConfig conv h.id
  rw [getElection, hrow]
  show (do
    let config ← decConfig conv (encConfig st.config)
    let key ← finalizedKey order db config
    pure (⟨config, st.cancelled, key, st.tallyStalled⟩ : ElectionRecord)) = _
  rw [hconfig, ok_bind, finalizedKey_eq hview h hok]

/-! ## Rows in the order of their keys -/

/-- Decoding rows that hold the encodings of a list. -/
theorem mapM_decoded {V α : Type} {rows : List (Int × V)} {ys : List α} {enc : α → V} {dec : V → Py α}
    (h : rows.map Prod.snd = ys.map enc) (hdec : ∀ y ∈ ys, dec (enc y) = .ok y) :
    (rows.mapM fun row => dec row.2) = .ok ys := by
  rw [mapM_eq_ok]
  induction rows generalizing ys with
  | nil =>
    obtain rfl := List.map_eq_nil_iff.mp h.symm
    exact .nil
  | cons row rows ih =>
    cases ys with
    | nil => cases h
    | cons y ys =>
      rw [List.map_cons, List.map_cons, List.cons.injEq] at h
      exact .cons (h.1 ▸ hdec y List.mem_cons_self)
        (ih h.2 fun z hz => hdec z (List.mem_cons_of_mem y hz))

/-- The values of a dictionary at its sorted keys are values of it. -/
theorem mem_sorted_values {V : Type} {d : Dict Int V} {v : V}
    (h : v ∈ (sortedKeys d).filterMap d.get?) : ∃ i, d.get? i = some v := by
  obtain ⟨i, -, hi⟩ := List.mem_filterMap.mp h
  exact ⟨i, hi⟩

theorem getDkgSubmissions_eq (hview : db.view electionId = st.view) (h : st.Readable) :
    getDkgSubmissions db electionId = .ok ((sortedKeys st.dkgByKeyper).filterMap st.dkgByKeyper.get?) := by
  refine mapM_decoded (Table.orderBy_eq (Table.rowsOf_perm fun k => congrFun (congrArg View.dkg hview) k)) ?_
  intro sub hsub
  obtain ⟨i, hi⟩ := mem_sorted_values hsub
  exact decDkgResult_encDkgResult (h.dkg i sub hi)

theorem listDecryptionShares_eq (hview : db.view electionId = st.view) (h : st.Readable) :
    listDecryptionShares db electionId =
      .ok ((sortedKeys st.sharesByKeyper).filterMap st.sharesByKeyper.get?) := by
  refine mapM_decoded (Table.orderBy_eq (Table.rowsOf_perm fun k => congrFun (congrArg View.shares hview) k)) ?_
  intro share hshare
  obtain ⟨i, hi⟩ := mem_sorted_values hshare
  exact decDecryptionShare_encDecryptionShare (h.shares i share hi)

theorem getResult_eq (hview : db.view electionId = st.view) (h : st.Readable) :
    getResult db electionId = .ok st.result := by
  have hrow : db.results.get? electionId = st.result.map encResult := congrArg View.result hview
  rw [getResult, hrow]
  cases hresult : st.result with
  | none => rfl
  | some r =>
    show (do let result ← decResult (encResult r); pure (some result)) = _
    rw [decResult_encResult (h.result r hresult), ok_bind]
    rfl

/-! ## Ballots -/

/-- The rows of the record's ballots. -/
def ballotRows (st : Stored) : List (Int × BallotRow) :=
  st.ballots.map fun sb => (sb.sequenceNumber, ballotRow sb)

theorem sequenceNumbers (h : st.Readable) :
    st.ballots.map StoredBallot.sequenceNumber = (List.range st.ballots.length).map fun i : Nat => (i : Int) := by
  apply List.ext_getElem?
  intro i
  rw [List.getElem?_map, List.getElem?_map]
  cases hi : st.ballots[i]? with
  | none => rw [List.getElem?_eq_none (by simpa using List.getElem?_eq_none_iff.mp hi)]; rfl
  | some sb =>
    have hlt : i < st.ballots.length := (List.getElem?_eq_some_iff.mp hi).1
    rw [List.getElem?_range hlt, Option.map_some, Option.map_some, h.numbered i sb hi]

theorem sequence_sorted (h : st.Readable) :
    (ballotRows st).Pairwise fun a b => a.1 < b.1 := by
  have hkeys : ((ballotRows st).map Prod.fst).Pairwise (· < ·) := by
    rw [ballotRows, List.map_map]
    show (st.ballots.map StoredBallot.sequenceNumber).Pairwise (· < ·)
    rw [sequenceNumbers h, List.pairwise_map]
    exact List.pairwise_lt_range.imp fun hlt => by exact_mod_cast hlt
  exact List.pairwise_map.mp hkeys

theorem ballotRows_perm (hview : db.view electionId = st.view) (h : st.Readable) :
    (Table.rowsOf db.ballots electionId).Perm (ballotRows st) := by
  have hnodup : ((ballotRows st).map Prod.fst).Nodup :=
    List.pairwise_map.mpr ((sequence_sorted h).imp ne_of_lt)
  refine Table.rowsOf_perm_of_mem hnodup ?_
  intro seq row
  have hrow : db.ballots.get? (electionId, seq) = st.view.ballots seq :=
    congrFun (congrArg View.ballots hview) seq
  rw [hrow]
  constructor
  · intro hsome
    obtain ⟨sb, hfind, rfl⟩ := Option.map_eq_some_iff.mp hsome
    have hseq : sb.sequenceNumber = seq := by simpa using List.find?_some hfind
    exact List.mem_map.mpr ⟨sb, List.mem_of_find?_eq_some hfind, by rw [hseq]⟩
  · intro hmem
    obtain ⟨sb, hsb, heq⟩ := List.mem_map.mp hmem
    cases heq
    -- the first ballot with the number is the only one
    obtain ⟨sb', hfind⟩ := Option.isSome_iff_exists.mp
      (List.find?_isSome (p := fun b => decide (b.sequenceNumber = sb.sequenceNumber)).mpr ⟨sb, hsb, by simp⟩)
    have hseq : sb'.sequenceNumber = sb.sequenceNumber := by simpa using List.find?_some hfind
    obtain ⟨i, hi⟩ := List.mem_iff_getElem?.mp hsb
    obtain ⟨j, hj⟩ := List.mem_iff_getElem?.mp (List.mem_of_find?_eq_some hfind)
    have hnum := h.numbered i sb hi
    have hnum' := h.numbered j sb' hj
    obtain rfl : i = j := by omega
    rw [hi, Option.some.injEq] at hj
    show (st.ballots.find? _).map ballotRow = some (ballotRow sb)
    rw [hfind, hj]
    rfl

theorem nextSeq_eq (hview : db.view electionId = st.view) (h : st.Readable) :
    nextSeq db electionId = st.ballots.length := by
  have hperm : ((Table.rowsOf db.ballots electionId).map Prod.fst).Perm
      ((List.range st.ballots.length).map fun i : Nat => (i : Int)) := by
    rw [← sequenceNumbers h]
    have hmap := (ballotRows_perm hview h).map Prod.fst
    rw [ballotRows, List.map_map] at hmap
    exact hmap
  rw [nextSeq]
  cases hlen : st.ballots.length with
  | zero =>
    rw [hlen] at hperm
    rw [List.perm_nil.mp hperm]
    rfl
  | succ n =>
    rw [hlen] at hperm
    have hmax : ((Table.rowsOf db.ballots electionId).map Prod.fst).max? = some (n : Int) := by
      rw [List.max?_eq_some_iff]
      constructor
      · exact hperm.mem_iff.mpr (List.mem_map.mpr ⟨n, List.mem_range.mpr n.lt_succ_self, rfl⟩)
      · intro b hb
        obtain ⟨i, hi, rfl⟩ := List.mem_map.mp (hperm.mem_iff.mp hb)
        rw [List.mem_range] at hi
        omega
    rw [hmax]
    push_cast
    rfl

theorem bigint_eq_ok {v : Int} (hlo : -2 ^ 63 ≤ v) (hhi : v < 2 ^ 63) : bigint v = .ok v :=
  if_pos ⟨hlo, hhi⟩

/-- A limit that is no 64-bit integer is refused, whatever is stored. -/
theorem listBallots_beyond (db : Database) (electionId : Bytes) (start : Int) {count : Int} (hcount : 2 ^ 63 ≤ count) :
    listBallots db electionId start count = .error (.dataError "bigint out of range") := by
  have hlimit : bigint count = .error (.dataError "bigint out of range") := if_neg (by omega)
  rw [listBallots, if_neg (by omega), hlimit]
  rfl

/-- The aggregate rows give the votes of the record, in some order. -/
theorem aggregateVotes_perm (order : RowOrder) (hview : db.view electionId = st.view) (h : st.Readable)
    (hok : st.Ok E electionId) : ∃ votes votes', ElGamalVoting.aggregateVotes E electionId st = .ok votes ∧
      aggregateVotes E order db electionId = .ok votes' ∧ votes'.Perm votes := by
  obtain ⟨votes, hvotes, -⟩ := aggregateOf_ok hok
  have hrows : (order.arrange (Table.rowsOf db.aggregates electionId)).Perm
      (st.aggregateByKeyper.entries.map fun e => (e.1, encAggregate e.2)) :=
    (order.perm _).trans (Table.rowsOf_perm fun k => congrFun (congrArg View.aggregates hview) k)
  have hdecoded : (st.aggregateByKeyper.entries.map fun e => (e.1, encAggregate e.2)).mapM
      (fun row : Int × Json => do
        let agg ← decAggregate row.2
        let key ← aggregateDigestOf E electionId agg
        pure (row.1, key, agg)) = .ok votes := by
    refine mapM_map_ok ?_ hvotes
    intro e he
    rw [decAggregate_encAggregate (h.aggregates e.1 e.2 (Dict.get?_eq_some.mpr he)), ok_bind]
  obtain ⟨votes', hvotes', hperm⟩ := mapM_perm hrows hdecoded
  exact ⟨votes, votes', hvotes, hvotes', hperm⟩

/-- The voters and the number of the votes, in either order. -/
theorem aggregateVotes_few {votes : List (Int × Bytes × AggregateArtifact)} (hok : st.Ok E electionId)
    (hvotes : ElGamalVoting.aggregateVotes E electionId st = .ok votes) :
    (votes.map Prod.fst).Nodup ∧ votes.length < st.config.threshold.t * 2 := by
  have hfst : votes.map Prod.fst = st.aggregateByKeyper.entries.map Prod.fst := by
    refine map_eq_of_forall₂ (mapM_eq_ok.mp hvotes) fun e _ vote hvote => ?_
    obtain ⟨key, -, hvote⟩ := bind_eq_ok.mp hvote
    cases hvote
    rfl
  refine ⟨hfst ▸ st.aggregateByKeyper.nodup, ?_⟩
  rw [← List.length_map Prod.fst, hfst, List.length_map]
  exact votes_lt_two_quorums hok.aggregateVoters

/-- Both layers resolve the same votes, up to their order. -/
theorem resolveAggregate_ok (order : RowOrder) (hview : db.view electionId = st.view) (h : st.Readable)
    (hok : st.Ok E electionId) : ∃ votes votes' : List (Int × Bytes × AggregateArtifact),
      ElGamalVoting.aggregateVotes E electionId st = .ok votes ∧ votes'.Perm votes ∧
      aggregateOf E electionId st = .ok (Quorum.winner st.config.threshold.t votes) ∧
      resolveAggregate E order db st.config electionId = .ok (Quorum.winner st.config.threshold.t votes') := by
  obtain ⟨votes, votes', hvotes, hvotes', hperm⟩ := aggregateVotes_perm order hview h hok
  obtain ⟨hnodup, hlen⟩ := aggregateVotes_few hok hvotes
  refine ⟨votes, votes', hvotes, hperm, ?_, ?_⟩
  · rw [aggregateOf, hvotes, ok_bind]
    exact resolveUnique_groupVotes st.config.threshold.one_le_t hnodup hlen _ _
  · rw [resolveAggregate, hvotes', ok_bind]
    exact resolveUnique_groupVotes st.config.threshold.one_le_t
      ((hperm.map Prod.fst).nodup_iff.mpr hnodup) (hperm.length_eq ▸ hlen) _ _

theorem aggregateFinalized_eq {s : InMemoryDataLayer} (hst : s.elections.get? electionId = some st)
    (hview : db.view electionId = st.view) (h : st.Readable) (hok : st.Ok E electionId) :
    aggregateFinalized E order db st.config = ElGamalVoting.aggregateFinalized E s st := by
  obtain ⟨votes, votes', -, hperm, hmem, hpg⟩ := resolveAggregate_ok order hview h hok
  rw [aggregateFinalized, ElGamalVoting.aggregateFinalized, hok.id, hpg, ok_bind, ElGamalVoting.getAggregate,
    getStored_eq_ok.mpr hst, ok_bind, hmem, ok_bind,
    Quorum.isSome_winner_perm st.config.threshold.one_le_t hperm]

end Postgres
end ElGamalVoting
