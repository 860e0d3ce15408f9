import ElGamalVoting.Adapters.MemoryBinding
import ElGamalVoting.Adapters.MemoryLifecycle
import ElGamalVoting.Adapters.PostgresViews

/- The database store refines the in-memory layer.

   `Refines` relates a database to an in-memory store: the same next id, for every
   election the rows its record stands for (none, where it has no record), and the same
   spent nonces. Each write either raises in both or is accepted by both with related
   results (`Answers`), as long as the timestamps fit their columns; so every run keeps
   the relation, and under it the reads agree. -/
namespace ElGamalVoting
open Lib

def InMemoryDataLayer.Readable (s : InMemoryDataLayer) : Prop :=
  ∀ electionId st, s.elections.get? electionId = some st → st.Readable

/-- The artifact of a write has the sizes its decoder demands. -/
def Write.WellSized : Write → Prop
  | .dkgResult _ pkElection committeePks _ =>
    pkElection.length = g2Bytes ∧ ∀ pk ∈ committeePks, pk.length = g2Bytes
  | .ballot _ b _ => b.WellSized
  | .aggregate _ A _ => A.WellSized
  | .decryptionShare _ share _ => share.WellSized
  | .result _ r _ => r.WellSized
  | _ => True

namespace Postgres

structure Refines (db : Database) (s : InMemoryDataLayer) : Prop where
  next : db.peek = s.nextId + 1
  views : ∀ electionId, db.view electionId = ((s.elections.get? electionId).map Stored.view).getD .empty
  nonces : ∀ x, x ∈ db.requestNonces ↔ x ∈ s.usedRequestNonces

/-- Both layers raise, or both accept and are related again. -/
inductive Answers : Py Database → Py InMemoryDataLayer → Prop
  | accepted {db : Database} {s : InMemoryDataLayer} (h : Refines db s) : Answers (.ok db) (.ok s)
  | rejected {e e' : PyError} : Answers (.error e) (.error e')

theorem Answers.bind {α : Type} {x : Py α} {f : α → Py Database} {g : α → Py InMemoryDataLayer}
    (h : ∀ a, x = .ok a → Answers (f a) (g a)) : Answers (x >>= f) (x >>= g) := by
  cases x with
  | error e => exact .rejected
  | ok a => exact h a rfl

/-- A check that both make. -/
theorem Answers.guard {c : Prop} [Decidable c] {e e' : PyError} {x : Py Database}
    {y : Py InMemoryDataLayer} (h : ¬ c → Answers x y) :
    Answers (if c then .error e else x) (if c then .error e' else y) := by
  by_cases hc : c
  · rw [if_pos hc, if_pos hc]
    exact .rejected
  · rw [if_neg hc, if_neg hc]
    exact h hc

variable {E : EthLib} {conv : PyConversions} {order : RowOrder} {db db' : Database}
  {s s' : InMemoryDataLayer} {electionId : Bytes} {st st' : Stored}

theorem refines_empty : Refines {} {} where
  next := rfl
  views := fun _ => rfl
  nonces := fun _ => Iff.rfl

theorem Refines.known (h : Refines db s) (hst : s.elections.get? electionId = some st) :
    db.view electionId = st.view := by
  rw [h.views, hst]
  rfl

theorem Refines.unknown (h : Refines db s) (hst : s.elections.get? electionId = none) :
    db.view electionId = .empty := by
  rw [h.views, hst]
  rfl

/-- One record replaced, with its rows: both change in the same way. -/
theorem Refines.put (h : Refines db s) (hst : s.elections.get? electionId = some st)
    (change : View → View) (hdb : db'.view electionId = change (db.view electionId))
    (hrecord : st'.view = change st.view) (hother : ∀ e, e ≠ electionId → db'.view e = db.view e)
    (helections : s'.elections = s.elections.set electionId st')
    (hnext : db'.peek = s'.nextId + 1)
    (hnonces : ∀ x, x ∈ db'.requestNonces ↔ x ∈ s'.usedRequestNonces) : Refines db' s' where
  next := hnext
  views := by
    intro e
    rw [helections, Dict.get?_set]
    by_cases he : e = electionId
    · subst he
      rw [if_pos rfl, hdb, h.known hst, ← hrecord]
      rfl
    · rw [if_neg he, hother e he, h.views]
  nonces := hnonces

/-! ## The rows a write changes -/

/-- Setting one row changes one election's rows at one key. -/
theorem get?_set_row {V : Type} (table : Dict (Bytes × Int) V) (electionId : Bytes) (i : Int) (v : V) :
    (fun j => (table.set (electionId, i) v).get? (electionId, j)) =
      Function.update (fun j => table.get? (electionId, j)) i (some v) := by
  funext j
  rw [Dict.get?_set, Function.update_apply]
  by_cases hj : j = i
  · rw [if_pos hj, if_pos (by rw [hj])]
  · rw [if_neg hj, if_neg fun h => hj (Prod.mk.inj h).2]

theorem get?_set_row_ne {V : Type} (table : Dict (Bytes × Int) V) {e electionId : Bytes}
    (he : e ≠ electionId) (i : Int) (v : V) :
    (fun j => (table.set (electionId, i) v).get? (e, j)) = fun j => table.get? (e, j) := by
  funext j
  exact Dict.get?_set_ne fun h => he (Prod.mk.inj h).1

/-- What a dictionary of the record stands for after one key is set. -/
theorem map_get?_set {V W : Type} (d : Dict Int V) (i : Int) (v : V) (f : V → W) :
    (fun j => ((d.set i v).get? j).map f) =
      Function.update (fun j => (d.get? j).map f) i (some (f v)) := by
  funext j
  rw [Dict.get?_set, Function.update_apply]
  split <;> rfl

theorem Refines.putDkg (h : Refines db s) (hst : s.elections.get? electionId = some st) (i : Int)
    (sub : DKGResultSubmission) :
    Refines { db with dkgSubmissions := db.dkgSubmissions.set (electionId, i) (encDkgResult sub) }
      (putStored s electionId { st with dkgByKeyper := st.dkgByKeyper.set i sub }) := by
  refine h.put hst (fun v => { v with dkg := Function.update v.dkg i (some (encDkgResult sub)) })
    ?_ ?_ ?_ rfl h.next h.nonces
  · simp only [Database.view, get?_set_row]
  · simp only [Stored.view, map_get?_set]
  · intro e he
    simp only [Database.view, get?_set_row_ne _ he]

theorem Refines.putShare (h : Refines db s) (hst : s.elections.get? electionId = some st) (i : Int)
    (share : DecryptionShareEnvelope) :
    Refines { db with decryptionShares := db.decryptionShares.set (electionId, i) (encDecryptionShare share) }
      (putStored s electionId { st with sharesByKeyper := st.sharesByKeyper.set i share }) := by
  refine h.put hst (fun v => { v with shares := Function.update v.shares i (some (encDecryptionShare share)) })
    ?_ ?_ ?_ rfl h.next h.nonces
  · simp only [Database.view, get?_set_row]
  · simp only [Stored.view, map_get?_set]
  · intro e he
    simp only [Database.view, get?_set_row_ne _ he]

theorem Refines.putAggregate (h : Refines db s) (hst : s.elections.get? electionId = some st) (i : Int)
    (A : AggregateArtifact) :
    Refines { db with aggregates := db.aggregates.set (electionId, i) (encAggregate A) }
      (putStored s electionId { st with aggregateByKeyper := st.aggregateByKeyper.set i A }) := by
  refine h.put hst (fun v => { v with aggregates := Function.update v.aggregates i (some (encAggregate A)) })
    ?_ ?_ ?_ rfl h.next h.nonces
  · simp only [Database.view, get?_set_row]
  · simp only [Stored.view, map_get?_set]
  · intro e he
    simp only [Database.view, get?_set_row_ne _ he]

theorem Refines.putResult (h : Refines db s) (hst : s.elections.get? electionId = some st)
    (r : ResultArtifact) :
    Refines { db with results := db.results.set electionId (encResult r) }
      (putStored s electionId { st with result := some r }) := by
  refine h.put hst (fun v => { v with result := some (encResult r) }) ?_ rfl ?_ rfl h.next h.nonces
  · simp only [Database.view, Dict.get?_set_self]
  · intro e he
    simp only [Database.view, Dict.get?_set_ne he]

/-- A new ballot takes the number after the last. -/
theorem Refines.putBallot (h : Refines db s) (hst : s.elections.get? electionId = some st)
    (hread : st.Readable) (ballot : BallotEnvelope) (now : Int) :
    Refines
      { db with ballots := db.ballots.set (electionId, (st.ballots.length : Int)) ⟨encBallot ballot, now⟩ }
      (putStored s electionId
        { st with ballots := st.ballots ++ [⟨st.ballots.length, ballot, some now⟩] }) := by
  refine h.put hst (fun v => { v with
      ballots := Function.update v.ballots st.ballots.length (some ⟨encBallot ballot, now⟩) })
    ?_ ?_ ?_ rfl h.next h.nonces
  · simp only [Database.view, get?_set_row]
  · have hballots : (fun seq : Int =>
        ((st.ballots ++ [(⟨st.ballots.length, ballot, some now⟩ : StoredBallot)]).find?
          fun sb => sb.sequenceNumber = seq).map ballotRow) =
        Function.update (fun seq : Int => (st.ballots.find? fun sb => sb.sequenceNumber = seq).map ballotRow)
          (st.ballots.length : Int) (some ⟨encBallot ballot, now⟩) := by
      funext seq
      rw [Function.update_apply, List.find?_append]
      split
      · rename_i hseq
        subst hseq
        have hnone : st.ballots.find?
            (fun sb => decide (sb.sequenceNumber = (st.ballots.length : Int))) = none := by
          rw [List.find?_eq_none]
          intro sb hsb
          obtain ⟨i, hi⟩ := List.mem_iff_getElem?.mp hsb
          have hnum := hread.numbered i sb hi
          have hlt := (List.getElem?_eq_some_iff.mp hi).1
          simp only [decide_eq_true_eq]
          omega
        rw [hnone, Option.none_or, List.find?_singleton]
        simp [ballotRow]
      · rename_i hseq
        rw [List.find?_singleton, if_neg (by simpa using Ne.symm hseq), Option.or_none]
    simp only [Stored.view, hballots]
  · intro e he
    simp only [Database.view, get?_set_row_ne _ he]

/-- A change of the flags of an election's row. -/
theorem Refines.putRow (h : Refines db s) (hst : s.elections.get? electionId = some st)
    (change : ElectionRow → ElectionRow) (nonces : List (Bytes × String × Int))
    (hrecord : st'.view = { st.view with row := st.view.row.map change })
    (helections : s'.elections = s.elections.set electionId st') (hnext : s'.nextId = s.nextId)
    (hnonces : ∀ x, x ∈ nonces ↔ x ∈ s'.usedRequestNonces) :
    Refines { db with elections := updateElection db electionId change, requestNonces := nonces } s' := by
  have hrow : db.elections.get? electionId = st.view.row := congrArg View.row (h.known hst)
  have hupdate : updateElection db electionId change =
      db.elections.set electionId (change ⟨encConfig st.config, st.config.adminKey, st.config.votingStart,
        st.cancelled, st.tallyStalled⟩) := by
    rw [updateElection, hrow]
    rfl
  refine h.put hst (fun v => { v with row := v.row.map change }) ?_ hrecord ?_ helections
    (hnext ▸ h.next) hnonces
  · simp only [Database.view, hupdate, Dict.get?_set_self, hrow]
    rfl
  · intro e he
    simp only [Database.view, hupdate, Dict.get?_set_ne he]

/-! ## The writes answer alike -/

/-- Both layers begin with the configuration of a registered election. -/
theorem config_answers (hrel : Refines db s) (hread : s.Readable) {f : ElectionConfig → Py Database}
    {g : Stored → Py InMemoryDataLayer}
    (h : ∀ st, s.elections.get? electionId = some st → Answers (f st.config) (g st)) :
    Answers (configOf conv db electionId >>= f) (getStored s electionId >>= g) := by
  cases hst : s.elections.get? electionId with
  | none =>
    have hrow : db.elections.get? electionId = none := congrArg View.row (hrel.unknown hst)
    rw [configOf, hrow, getStored, hst]
    exact .rejected
  | some st =>
    rw [configOf_eq (hrel.known hst) (hread electionId st hst), getStored_eq_ok.mpr hst, ok_bind, ok_bind]
    exact h st hst

theorem cancelElection_answers (hrel : Refines db s) (now : Int) (adminSig : Bytes) :
    Answers (cancelElection E db now electionId adminSig)
      (ElGamalVoting.cancelElection E s now electionId adminSig) := by
  cases hst : s.elections.get? electionId with
  | none =>
    have hrow : db.elections.get? electionId = none := congrArg View.row (hrel.unknown hst)
    rw [cancelElection, hrow, ElGamalVoting.cancelElection, getStored, hst]
    exact .rejected
  | some st =>
    have hrow : db.elections.get? electionId = st.view.row := congrArg View.row (hrel.known hst)
    rw [cancelElection, hrow, ElGamalVoting.cancelElection, getStored_eq_ok.mpr hst, ok_bind]
    refine .guard fun _ => .guard fun _ => .accepted ?_
    exact hrel.putRow hst (fun row => { row with cancelled := true }) db.requestNonces rfl rfl rfl hrel.nonces

theorem submitDkgResult_answers (hrel : Refines db s) (hread : s.Readable) (pkElection : Bytes)
    (committeePks : List Bytes) (keyperSig : Bytes) :
    Answers (submitDkgResult E conv db electionId pkElection committeePks keyperSig)
      (ElGamalVoting.submitDkgResult E s electionId pkElection committeePks keyperSig) := by
  refine config_answers hrel hread fun st hst => .bind fun idx _ => ?_
  have hrow : db.dkgSubmissions.get? (electionId, idx) = (st.dkgByKeyper.get? idx).map encDkgResult :=
    congrFun (congrArg View.dkg (hrel.known hst)) idx
  rw [hrow]
  cases hsub : st.dkgByKeyper.get? idx with
  | none => exact .accepted (hrel.putDkg hst idx _)
  | some existing =>
    rw [Option.map_some]
    dsimp only
    rw [decDkgResult_encDkgResult ((hread electionId st hst).dkg idx existing hsub), ok_bind]
    exact .guard fun _ => .accepted hrel

theorem requireGateway_eq (hok : s.Ok E) (hst : s.elections.get? electionId = some st) (ballot : BallotEnvelope)
    (gatewaySig : Bytes) :
    requireGateway E st.config electionId ballot gatewaySig =
      ElGamalVoting.requireGateway E st ballot gatewaySig := by
  rewrite [requireGateway, ElGamalVoting.requireGateway, (hok.records electionId st hst).id]
  rfl

theorem requireVotingOpen_eq (hrel : Refines db s) (hok : s.Ok E) (hread : s.Readable)
    (hst : s.elections.get? electionId = some st) (now : Int) :
    requireVotingOpen conv order db electionId now = ElGamalVoting.requireVotingOpen st now := by
  have hview := hrel.known hst
  have hreadable := hread electionId st hst
  have hrow : db.elections.get? electionId = st.view.row := congrArg View.row hview
  have hresult : (db.results.get? electionId).isSome = st.result.isSome := by
    rw [show db.results.get? electionId = st.view.result from congrArg View.result hview]
    exact Option.isSome_map
  rw [requireVotingOpen, hrow]
  show (do
    let config ← decConfig conv (encConfig st.config)
    let key ← finalizedKey order db config
    if deriveState config ⟨st.cancelled, key.isSome, (db.results.get? electionId).isSome, false⟩ now ≠
        ElectionState.voting then .error (.votingWindow "ballot submitted outside the open voting window")
    else pure ()) = _
  rw [decConfig_encConfig conv hreadable.id, ok_bind,
    finalizedKey_eq hview hreadable (hok.records electionId st hst), hresult]
  rfl

theorem submitBallot_answers (hrel : Refines db s) (hok : s.Ok E) (hread : s.Readable) {now : Int}
    (hnow : bigint now = .ok now) (ballot : BallotEnvelope) (gatewaySig : Bytes) :
    Answers (submitBallot E conv order db now electionId ballot gatewaySig)
      (ElGamalVoting.submitBallot E s now electionId ballot gatewaySig) := by
  refine config_answers hrel hread fun st hst => ?_
  rw [requireGateway_eq hok hst, requireVotingOpen_eq hrel hok hread hst]
  refine .bind fun _ _ => .bind fun _ _ => ?_
  have hreadable := hread electionId st hst
  rw [nextSeq_eq (hrel.known hst) hreadable, hnow, ok_bind]
  exact .accepted (hrel.putBallot hst hreadable ballot now)

theorem submitAggregate_answers (hrel : Refines db s) (hok : s.Ok E) (hread : s.Readable) (now : Int)
    (aggregate : AggregateArtifact) (keyperSig : Bytes) :
    Answers (submitAggregate E conv order db now electionId aggregate keyperSig)
      (ElGamalVoting.submitAggregate E s now electionId aggregate keyperSig) := by
  refine config_answers hrel hread fun st hst => .guard fun _ => .bind fun digest _ => .bind fun idx _ => ?_
  have hview := hrel.known hst
  have hreadable := hread electionId st hst
  have hrow : db.aggregates.get? (electionId, idx) = (st.aggregateByKeyper.get? idx).map encAggregate :=
    congrFun (congrArg View.aggregates hview) idx
  have hexisting : (db.aggregates.get? (electionId, idx)).mapM decAggregate =
      (.ok (st.aggregateByKeyper.get? idx) : Py _) := by
    rw [hrow]
    cases hA : st.aggregateByKeyper.get? idx with
    | none => rfl
    | some A =>
      rw [Option.map_some, Option.mapM_some, decAggregate_encAggregate (hreadable.aggregates idx A hA)]
      rfl
  rw [hexisting, ok_bind, aggregateFinalized_eq hst hview hreadable (hok.records electionId st hst)]
  by_cases hsame : st.aggregateByKeyper.get? idx = some aggregate
  · rw [if_pos hsame, if_pos hsame]
    exact .accepted hrel
  · rw [if_neg hsame, if_neg hsame]
    refine .bind fun finalized _ => .guard fun _ => .accepted ?_
    exact hrel.putAggregate hst idx aggregate

theorem submitDecryptionShare_answers (hrel : Refines db s) (hok : s.Ok E) (hread : s.Readable)
    (now : Int) (share : DecryptionShareEnvelope) (keyperSig : Bytes) :
    Answers (submitDecryptionShare E conv order db now electionId share keyperSig)
      (ElGamalVoting.submitDecryptionShare E s now electionId share keyperSig) := by
  refine config_answers hrel hread fun st hst => .guard fun _ => ?_
  have hview := hrel.known hst
  have hreadable := hread electionId st hst
  rw [aggregateFinalized_eq hst hview hreadable (hok.records electionId st hst)]
  refine .bind fun finalized _ => .guard fun _ => .bind fun digest _ => .bind fun idx _ => .guard fun _ => ?_
  have hrow : db.decryptionShares.get? (electionId, idx) = (st.sharesByKeyper.get? idx).map encDecryptionShare :=
    congrFun (congrArg View.shares hview) idx
  rw [hrow]
  cases hshare : st.sharesByKeyper.get? idx with
  | none => exact .accepted (hrel.putShare hst idx share)
  | some existing =>
    rw [Option.map_some]
    dsimp only
    rw [decDecryptionShare_encDecryptionShare (hreadable.shares idx existing hshare), ok_bind]
    exact .guard fun _ => .accepted hrel

theorem publishResult_answers (hrel : Refines db s) (hread : s.Readable) (result : ResultArtifact)
    (resultPublisherSig : Bytes) :
    Answers (publishResult E conv db electionId result resultPublisherSig)
      (ElGamalVoting.publishResult E s electionId result resultPublisherSig) := by
  refine config_answers hrel hread fun st hst => .bind fun payload _ => .guard fun _ => ?_
  have hrow : db.results.get? electionId = st.result.map encResult :=
    congrArg View.result (hrel.known hst)
  rw [hrow]
  cases hresult : st.result with
  | none => exact .accepted (hrel.putResult hst result)
  | some existing =>
    rw [Option.map_some]
    dsimp only
    rw [decResult_encResult ((hread electionId st hst).result existing hresult), ok_bind]
    exact .guard fun _ => .accepted hrel

theorem requireStallAuthority_eq (hrel : Refines db s) (hst : s.elections.get? electionId = some st)
    (later : Int) (stalled : Bool) (sig payload : Bytes) :
    requireStallAuthority E db st.config later electionId stalled sig payload =
      ElGamalVoting.requireStallAuthority E st later electionId stalled sig payload := by
  have hresult : (db.results.get? electionId).isSome = st.result.isSome := by
    rw [show db.results.get? electionId = st.view.result from congrArg View.result (hrel.known hst)]
    exact Option.isSome_map
  rw [requireStallAuthority, ElGamalVoting.requireStallAuthority, hresult]

/-- The in-memory layer looks up the nonce before the authority, the database after it. -/
theorem setTallyStalled_answers (hrel : Refines db s) (hread : s.Readable) {issuedAt now : Int}
    (hissued : requestIsFresh issuedAt now = true → bigint issuedAt = .ok issuedAt) (later : Int)
    (stalled : Bool) (sig : Bytes) :
    Answers (setTallyStalled E conv db now later electionId stalled sig issuedAt)
      (ElGamalVoting.setTallyStalled E s now later electionId stalled sig issuedAt) := by
  refine config_answers hrel hread fun st hst => .guard fun hfresh => ?_
  replace hissued := hissued (not_not.mp hfresh)
  have hauthority := requireStallAuthority_eq (E := E) hrel hst later stalled sig
  cases hpayload : requestNoncePayload issuedAt with
  | error e =>
    rw [error_bind]
    split <;> exact .rejected
  | ok payload =>
    rw [ok_bind, ok_bind, hauthority]
    cases hallowed : ElGamalVoting.requireStallAuthority E st later electionId stalled sig payload with
    | error e =>
      rw [error_bind]
      split <;> exact .rejected
    | ok u =>
      rw [ok_bind, ok_bind, hissued, ok_bind]
      have hnonce := hrel.nonces (electionId, stallOp stalled, issuedAt)
      by_cases hused : (electionId, stallOp stalled, issuedAt) ∈ s.usedRequestNonces
      · rw [if_pos hused, if_pos (hnonce.mpr hused)]
        exact .rejected
      · rw [if_neg hused, if_neg fun h => hused (hnonce.mp h)]
        refine .accepted (hrel.putRow hst (fun row => { row with tallyStalled := stalled }) _ rfl rfl rfl ?_)
        intro x
        rw [List.mem_cons, List.mem_cons, hrel.nonces]

/-! ## Registration -/

/-- The signature is the administrator's and the id is the next of the sequence. -/
def Registers (E : EthLib) (db : Database) (config : ElectionConfig) (adminSig : Bytes) : Prop :=
  verifyRegister E config.adminKey adminSig config = true ∧ toBytes db.peek 32 = .ok config.electionId

/-- The database with the row of a new election. -/
def Database.registered (db : Database) (config : ElectionConfig) (json : Json) (votingStart : Int) :
    Database :=
  let row := ⟨json, config.adminKey, votingStart, false, false⟩
  { db.nextval.2 with elections := db.nextval.2.elections.set config.electionId row }

theorem registerElection_refused {config : ElectionConfig} {adminSig : Bytes}
    (h : ¬ Registers E db config adminSig) :
    ∃ e, registerElection E db config adminSig = (db, .error e) := by
  rw [registerElection]
  split
  · exact ⟨_, rfl⟩
  · rename_i hverify
    split
    · exact ⟨_, rfl⟩
    · rename_i expected hid
      split
      · exact ⟨_, rfl⟩
      · rename_i heq
        exact absurd ⟨not_not.mp hverify, (not_not.mp heq).symm ▸ hid⟩ h

theorem registerElection_eq {config : ElectionConfig} {adminSig : Bytes}
    (h : Registers E db config adminSig) :
    registerElection E db config adminSig =
      match jsonbConfig config, bigint config.votingStart with
      | .error e, _ => (db.nextval.2, .error e)
      | _, .error e => (db.nextval.2, .error e)
      | .ok json, .ok votingStart => (db.registered config json votingStart, .ok ()) := by
  rw [registerElection, if_neg (not_not.mpr h.1), h.2]
  dsimp only
  rw [if_neg (not_not.mpr rfl)]
  rfl

theorem memory_register (hrel : Refines db s) {config : ElectionConfig} {adminSig : Bytes}
    (h : Registers E db config adminSig) :
    ElGamalVoting.registerElection E s config adminSig =
      .ok { putStored s config.electionId { config } with nextId := s.nextId + 1 } := by
  have hid := h.2
  rw [hrel.next, Nat.cast_add, Nat.cast_one] at hid
  rw [ElGamalVoting.registerElection, if_neg (not_not.mpr h.1), hid, ok_bind, if_neg (not_not.mpr rfl)]
  rfl

theorem memory_register_refused (hrel : Refines db s) {config : ElectionConfig} {adminSig : Bytes}
    (h : ¬ Registers E db config adminSig) :
    ∃ e, ElGamalVoting.registerElection E s config adminSig = .error e := by
  cases hanswer : ElGamalVoting.registerElection E s config adminSig with
  | error e => exact ⟨e, rfl⟩
  | ok s' =>
    obtain ⟨hverify, hlt, hid, -⟩ := registerElection_eq_ok hanswer
    refine absurd ⟨hverify, ?_⟩ h
    rw [hrel.next, hid]
    exact toBytes_ok (Int.natCast_nonneg _) (by exact_mod_cast hlt)

/-- The sequence after a number is drawn. -/
theorem Refines.draw (hrel : Refines db s) : Refines db.nextval.2 { s with nextId := s.nextId + 1 } where
  next := by
    show db.peek + 1 = s.nextId + 1 + 1
    rw [hrel.next]
  views := hrel.views
  nonces := hrel.nonces

/-- The next id of the sequence is that of the in-memory layer. -/
theorem Refines.next_id (hrel : Refines db s) {electionId : Bytes} (h : toBytes db.peek 32 = .ok electionId) :
    s.nextId + 1 < 256 ^ 32 ∧ electionId = beBytes 32 (s.nextId + 1) := by
  obtain ⟨-, hlt, hid⟩ := toBytes_eq_ok h
  rw [hrel.next] at hlt hid
  exact ⟨by exact_mod_cast hlt, hid⟩

/-- A registered election has no rows but its own. -/
theorem Refines.register (hrel : Refines db s) (hok : s.Ok E) {config : ElectionConfig}
    (hnext : toBytes db.peek 32 = .ok config.electionId) :
    Refines (db.registered config (encConfig config) config.votingStart)
      { putStored s config.electionId { config } with nextId := s.nextId + 1 } where
  next := hrel.draw.next
  nonces := hrel.nonces
  views := by
    intro e
    have hview := hrel.views e
    have hrow : ((db.registered config (encConfig config) config.votingStart).view e).row =
        if e = config.electionId then (Stored.view { config }).row else (db.view e).row :=
      Dict.get?_set db.elections _ _ _
    have hrows : (db.registered config (encConfig config) config.votingStart).view e =
        { db.view e with
          row := if e = config.electionId then (Stored.view { config }).row else (db.view e).row } :=
      View.ext hrow rfl rfl rfl rfl rfl
    show _ = (((s.elections.set config.electionId { config }).get? e).map Stored.view).getD .empty
    rw [hrows, Dict.get?_set]
    by_cases he : e = config.electionId
    · have hnone : s.elections.get? e = none := by
        obtain ⟨hlt, hid⟩ := hrel.next_id hnext
        exact Dict.get?_eq_none.mpr (he ▸ hid ▸ hok.fresh hlt)
      rw [if_pos he, if_pos he, hrel.unknown hnone]
      rfl
    · rw [if_neg he, if_neg he, ← hview]

/-! ## What stays readable -/

/-- Setting one key keeps what holds of every value. -/
theorem forall_get?_set {V : Type} {d : Dict Int V} {P : V → Prop} (h : ∀ i v, d.get? i = some v → P v)
    {k : Int} {w : V} (hw : P w) : ∀ i v, (d.set k w).get? i = some v → P v := by
  intro i v hv
  rw [Dict.get?_set] at hv
  split at hv
  · cases hv
    exact hw
  · exact h i v hv

theorem readable_of_step {call : Call} (hstep : RecordStep E s call electionId st st')
    (hsized : call.write.WellSized) (hok : st.Ok E electionId) (h : st.Readable) : st'.Readable := by
  cases hstep with
  | cancel => exact { h with }
  | dkgResult pkElection committeePks keyperSig idx hwrite =>
    rw [hwrite] at hsized
    exact { h with dkg := forall_get?_set h.dkg ⟨hok.id ▸ h.id, hsized.1, hsized.2⟩ }
  | ballot ballot gatewaySig hwrite =>
    rw [hwrite] at hsized
    have hmem : ∀ sb ∈ st.ballots ++ [⟨st.ballots.length, ballot, some call.now⟩],
        sb ∈ st.ballots ∨ sb = ⟨st.ballots.length, ballot, some call.now⟩ := by
      intro sb hsb
      exact (List.mem_append.mp hsb).imp_right List.mem_singleton.mp
    -- a ballot gets the next number, so the list stays numbered from zero
    refine { h with numbered := ?_, timed := ?_, ballots := ?_ }
    · intro i sb hi
      rw [List.getElem?_append] at hi
      split at hi
      · exact h.numbered i sb hi
      · rename_i hge
        obtain ⟨hlt, rfl⟩ := List.getElem?_eq_some_iff.mp hi
        have hlt' : i - st.ballots.length < 1 := hlt
        obtain rfl : i = st.ballots.length := by omega
        simp
    · intro sb hsb
      rcases hmem sb hsb with hsb | rfl
      · exact h.timed sb hsb
      · rfl
    · intro sb hsb
      rcases hmem sb hsb with hsb | rfl
      · exact h.ballots sb hsb
      · exact hsized
  | aggregate aggregate keyperSig digest idx hwrite =>
    rw [hwrite] at hsized
    exact { h with aggregates := forall_get?_set h.aggregates hsized }
  | decryptionShare share keyperSig digest hwrite =>
    rw [hwrite] at hsized
    exact { h with shares := forall_get?_set h.shares hsized }
  | result result resultPublisherSig payload hwrite =>
    rw [hwrite] at hsized
    refine { h with result := ?_ }
    intro r hr
    cases hr
    exact hsized
  | tallyStalled => exact { h with }

/-- A registered configuration has the 32-byte id the layer gave it. -/
theorem readable_register {config : ElectionConfig} {n : Nat} (hid : config.electionId = beBytes 32 n) :
    Stored.Readable { config } where
  id := by rw [hid, length_beBytes]
  dkg := fun i sub h => by cases h
  numbered := fun i sb h => by cases h
  timed := fun sb h => by cases h
  ballots := fun sb h => by cases h
  shares := fun i share h => by cases h
  aggregates := fun i A h => by cases h
  result := fun r h => by cases h

theorem readable_put (h : s.Readable) (hst' : st'.Readable)
    (helections : s'.elections = s.elections.set electionId st') : s'.Readable := by
  intro e st hst
  rw [helections, Dict.get?_set] at hst
  split at hst
  · cases hst
    exact hst'
  · exact h e st hst

theorem readable_perform {call : Call} (h : s.Readable) (hok : s.Ok E) (hsized : call.write.WellSized)
    (hcall : call.perform E s = .ok s') : s'.Readable := by
  rcases Call.perform_cases hcall with ⟨config, adminSig, -, -, -, hid, rfl⟩ | hchanges
  · exact readable_put h (readable_register hid) rfl
  · rcases hchanges with ⟨electionId, st, st', hst, hstep, rfl⟩ | rfl
    · exact readable_put h
        (readable_of_step hstep hsized (hok.records electionId st hst) (h electionId st hst)) rfl
    · exact h

/-! ## Runs -/

/-- A call is accepted by both layers with related results, or rejected by both and the
    database is as it was. -/
def Alike (E : EthLib) (conv : PyConversions) (order : RowOrder) (call : Call) (db : Database)
    (s : InMemoryDataLayer) : Prop :=
  (∃ s', call.perform E s = .ok s' ∧ (perform E conv order call db).2 = .ok () ∧
    Refines (perform E conv order call db).1 s') ∨
  ∃ e e', call.perform E s = .error e ∧ perform E conv order call db = (db, .error e')

theorem transaction_alike {x : Py Database} {y : Py InMemoryDataLayer} (h : Answers x y) :
    (∃ s', y = .ok s' ∧ (transaction db x).2 = .ok () ∧ Refines (transaction db x).1 s') ∨
      ∃ e e', y = .error e ∧ transaction db x = (db, .error e') := by
  cases h with
  | accepted hrel => exact .inl ⟨_, rfl, rfl, hrel⟩
  | rejected => exact .inr ⟨_, _, rfl, rfl⟩

/-- The values of the call fit their columns. -/
def Fits (call : Call) : Prop :=
  match call.write with
  | .register config _ => jsonbConfig config = .ok (encConfig config) ∧
      bigint config.votingStart = .ok config.votingStart
  | .ballot _ _ _ => bigint call.now = .ok call.now
  | .tallyStalled _ _ _ issuedAt =>
    requestIsFresh issuedAt call.now = true → bigint issuedAt = .ok issuedAt
  | _ => True

theorem perform_alike (conv : PyConversions) (order : RowOrder) (hrel : Refines db s) (hok : s.Ok E)
    (hread : s.Readable) {call : Call} (hfits : Fits call) : Alike E conv order call db s := by
  unfold Alike Call.perform perform
  unfold Fits at hfits
  cases hwrite : call.write with
  | register config adminSig =>
    rw [hwrite] at hfits
    dsimp only
    by_cases hregisters : Registers E db config adminSig
    · rw [registerElection_eq hregisters, hfits.1, hfits.2]
      exact .inl ⟨_, memory_register hrel hregisters, rfl, hrel.register hok hregisters.2⟩
    · obtain ⟨e, he⟩ := memory_register_refused hrel hregisters
      obtain ⟨e', he'⟩ := registerElection_refused hregisters
      exact .inr ⟨e, e', he, he'⟩
  | cancel electionId adminSig =>
    exact transaction_alike (cancelElection_answers hrel call.now adminSig)
  | dkgResult electionId pkElection committeePks keyperSig =>
    exact transaction_alike (submitDkgResult_answers hrel hread pkElection committeePks keyperSig)
  | ballot electionId ballot gatewaySig =>
    rw [hwrite] at hfits
    exact transaction_alike (submitBallot_answers hrel hok hread hfits ballot gatewaySig)
  | aggregate electionId aggregate keyperSig =>
    exact transaction_alike (submitAggregate_answers hrel hok hread call.now aggregate keyperSig)
  | decryptionShare electionId share keyperSig =>
    exact transaction_alike (submitDecryptionShare_answers hrel hok hread call.now share keyperSig)
  | result electionId result resultPublisherSig =>
    exact transaction_alike (publishResult_answers hrel hread result resultPublisherSig)
  | tallyStalled electionId stalled sig issuedAt =>
    rw [hwrite] at hfits
    exact transaction_alike (setTallyStalled_answers hrel hread hfits call.later stalled sig)

/-- What the run's calls carry comes from the JSON decoders, under the id of the election
    written to; the times of a configuration are below `2 ^ 62`, and its texts storable and
    without a surrogate pair as two code points. -/
def FromDecoders (conv : PyConversions) (call : Call) : Prop :=
  match call.write with
  | .register config _ => (∃ d, decConfig conv d = .ok config) ∧ 0 ≤ config.votingStart ∧
      config.votingEnd < 2 ^ 62 ∧ joinTexts config = config ∧ storableText config.protocolVersion = true ∧
      ∀ k ∈ config.keypers, storableText k.url = true
  | .dkgResult electionId pkElection committeePks keyperSig =>
    ∃ d, decDkgResult d = .ok ⟨electionId, pkElection, committeePks, keyperSig⟩
  | .ballot electionId b _ => (∃ d, decBallot d = .ok b) ∧ b.electionId = electionId
  | .aggregate electionId A _ => (∃ d, decAggregate d = .ok A) ∧ A.electionId = electionId
  | .decryptionShare electionId share _ =>
    (∃ d, decDecryptionShare d = .ok share) ∧ share.electionId = electionId
  | .result electionId r _ => (∃ d, decResult d = .ok r) ∧ r.electionId = electionId
  | _ => True

theorem FromDecoders.fits {call : Call} (h : FromDecoders conv call) (hlo : 0 ≤ call.now)
    (hhi : call.now < 2 ^ 62) : Fits call := by
  unfold FromDecoders at h
  unfold Fits
  cases hwrite : call.write with
  | register config adminSig =>
    rw [hwrite] at h
    obtain ⟨-, hstart, hend, hjoined, hversion, hurls⟩ := h
    have horder := config.start_lt_end
    have hjson : jsonbConfig config = .ok (encConfig (joinTexts config)) := if_pos ⟨hversion, hurls⟩
    exact ⟨hjson.trans (by rw [hjoined]), bigint_eq_ok (by omega) (by omega)⟩
  | tallyStalled electionId stalled sig issuedAt =>
    -- a fresh request was issued within the window around the reading of the clock
    intro hfresh
    simp only [requestIsFresh, requestFreshness, decide_eq_true_eq, abs_le] at hfresh
    exact bigint_eq_ok (by omega) (by omega)
  | ballot => exact bigint_eq_ok (by omega) (by omega)
  | cancel => trivial
  | dkgResult => trivial
  | aggregate => trivial
  | decryptionShare => trivial
  | result => trivial

/-- Every aggregate of the store was written by one of the calls. -/
def Written (calls : List Call) (s : InMemoryDataLayer) : Prop :=
  ∀ electionId st i A, s.elections.get? electionId = some st → st.aggregateByKeyper.get? i = some A →
    ∃ call ∈ calls, ∃ sig, call.write = .aggregate electionId A sig

theorem RecordStep.written {call : Call} (hstep : RecordStep E s call electionId st st') {i : Int}
    {A : AggregateArtifact} (hA : st'.aggregateByKeyper.get? i = some A) :
    st.aggregateByKeyper.get? i = some A ∨ ∃ sig, call.write = .aggregate electionId A sig := by
  cases hstep with
  | aggregate aggregate keyperSig digest idx hwrite =>
    rw [Dict.get?_set] at hA
    split at hA
    · cases hA
      exact .inr ⟨keyperSig, hwrite⟩
    · exact .inl hA
  | cancel => exact .inl hA
  | dkgResult => exact .inl hA
  | ballot => exact .inl hA
  | decryptionShare => exact .inl hA
  | result => exact .inl hA
  | tallyStalled => exact .inl hA

theorem Written.apply {calls : List Call} (h : Written calls s) {call : Call} (hcall : call ∈ calls) :
    Written calls (call.apply E s) := by
  rw [Call.apply]
  cases hperform : call.perform E s with
  | error e => exact h
  | ok s' =>
    intro e st i A hst hA
    rcases Call.perform_cases hperform with ⟨config, adminSig, -, -, -, -, rfl⟩ | hchanges
    · simp only [putStored, Dict.get?_set] at hst
      split at hst
      · cases hst
        cases hA
      · exact h e st i A hst hA
    · rcases hchanges with ⟨electionId, st₀, st', hst₀, hstep, rfl⟩ | rfl
      · simp only [putStored, Dict.get?_set] at hst
        split at hst
        · cases hst
          obtain rfl : e = electionId := by assumption
          rcases RecordStep.written hstep hA with hA | ⟨sig, hwrite⟩
          · exact h e st₀ i A hst₀ hA
          · exact ⟨call, hcall, sig, hwrite⟩
        · exact h e st i A hst hA
      · exact h e st i A hst hA

theorem Written.run {all calls : List Call} (h : Written all s) (hcalls : ∀ call ∈ calls, call ∈ all) :
    Written all (runCalls E s calls) := by
  induction calls generalizing s with
  | nil => exact h
  | cons call calls ih =>
    exact ih (h.apply (hcalls call List.mem_cons_self)) fun c hc => hcalls c (List.mem_cons_of_mem call hc)

namespace RefinementSample
open BindingSample

def conversions : PyConversions := ⟨fun _ => [], fun _ => .ok 0⟩

def reversed : RowOrder := ⟨List.reverse, List.reverse_perm⟩

def calls : List OrderedCall :=
  [register, submit [1] smallConfig.electionId, submit [2] smallConfig.electionId].map (⟨·, reversed⟩)

end RefinementSample

end Postgres
end ElGamalVoting
