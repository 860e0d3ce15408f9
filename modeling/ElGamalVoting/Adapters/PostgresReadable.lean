import ElGamalVoting.Adapters.PostgresRefinement

/- When the database store can read what it has accepted.

   A write stores its artifact without the size checks its decoder makes on every read.
   In a run whose accepted writes are all well sized, the database mirrors an in-memory
   store that is (`Mirrored`), and every read of a registered election returns. One
   accepted DKG result with a key of another length makes the key of its election
   unreadable for everyone. -/
namespace ElGamalVoting
open Lib
namespace Postgres

/-- The rows are those of some readable in-memory store. -/
def Mirrored (E : EthLib) (db : Database) : Prop :=
  ∃ s : InMemoryDataLayer, Refines db s ∧ s.Ok E ∧ s.Readable

variable {E : EthLib} {conv : PyConversions} {order : RowOrder} {db db' : Database} {call : Call}
  {electionId : Bytes}

theorem mirrored_empty : Mirrored E {} :=
  ⟨{}, refines_empty, ok_empty, fun e st h => by cases h⟩

/-! ## One step -/

/-- A column that takes a value holds that value. -/
theorem bigint_self {v w : Int} (h : bigint v = .ok w) : bigint v = .ok v := by
  unfold bigint at h ⊢
  split at h
  · rw [if_pos (by assumption)]
  · cases h

theorem jsonbConfig_eq_ok {config : ElectionConfig} {json : Json} (h : jsonbConfig config = .ok json) :
    json = encConfig (joinTexts config) := by
  unfold jsonbConfig at h
  split at h
  · exact (Except.ok.inj h).symm
  · cases h

theorem transaction_ok {x : Py Database} (h : (transaction db x).2 = .ok ()) : ∃ db', x = .ok db' := by
  cases x with
  | error e => cases h
  | ok db' => exact ⟨db', rfl⟩

/-- An accepted registration writes the configuration behind its text under the next id. -/
theorem registerElection_accepted {config : ElectionConfig} {adminSig : Bytes}
    (h : (registerElection E db config adminSig).2 = .ok ()) :
    toBytes db.peek 32 = .ok config.electionId ∧ (registerElection E db config adminSig).1 =
      db.registered (joinTexts config) (encConfig (joinTexts config)) config.votingStart := by
  by_cases hregisters : Registers E db config adminSig
  · refine ⟨hregisters.2, ?_⟩
    rw [registerElection_eq hregisters] at h ⊢
    cases hjson : jsonbConfig config with
    | error e =>
      rw [hjson] at h
      cases h
    | ok json =>
      cases hstart : bigint config.votingStart with
      | error e =>
        rw [hjson, hstart] at h
        cases h
      | ok v =>
        cases hstart.symm.trans (bigint_self hstart)
        rw [jsonbConfig_eq_ok hjson]
        rfl
  · obtain ⟨e, he⟩ := registerElection_refused hregisters
    rw [he] at h
    cases h

/-- What any other accepted call wrote fitted its columns. -/
theorem fits_of_accepted (hother : ∀ config adminSig, call.write ≠ .register config adminSig)
    (h : (perform E conv order call db).2 = .ok ()) : Fits call := by
  unfold perform at h
  unfold Fits
  cases hwrite : call.write with
  | register config adminSig => exact absurd hwrite (hother config adminSig)
  | ballot electionId ballot gatewaySig =>
    rw [hwrite] at h
    obtain ⟨db', h⟩ := transaction_ok h
    obtain ⟨config, -, h⟩ := bind_eq_ok.mp h
    obtain ⟨_, -, h⟩ := bind_eq_ok.mp h
    obtain ⟨_, -, h⟩ := bind_eq_ok.mp h
    obtain ⟨v, hv, -⟩ := bind_eq_ok.mp h
    exact bigint_self hv
  | tallyStalled electionId stalled sig issuedAt =>
    rw [hwrite] at h
    obtain ⟨db', h⟩ := transaction_ok h
    obtain ⟨config, -, h⟩ := bind_eq_ok.mp h
    intro hfresh
    rw [if_neg (not_not.mpr hfresh)] at h
    obtain ⟨payload, -, h⟩ := bind_eq_ok.mp h
    obtain ⟨_, -, h⟩ := bind_eq_ok.mp h
    obtain ⟨v, hv, -⟩ := bind_eq_ok.mp h
    exact bigint_self hv
  | cancel => trivial
  | dkgResult => trivial
  | aggregate => trivial
  | decryptionShare => trivial
  | result => trivial

/-- A rejected call leaves the database as it was, up to a number drawn from the sequence. -/
theorem perform_rejected {e : PyError} (h : (perform E conv order call db).2 = .error e) :
    (perform E conv order call db).1 = db ∨ (perform E conv order call db).1 = db.nextval.2 := by
  have htransaction : ∀ x : Py Database, (transaction db x).2 = .error e → (transaction db x).1 = db := by
    intro x hx
    cases x with
    | error _ => rfl
    | ok _ => cases hx
  unfold perform at h ⊢
  cases hwrite : call.write with
  | register config adminSig =>
    rw [hwrite] at h
    dsimp only at h ⊢
    by_cases hregisters : Registers E db config adminSig
    · rw [registerElection_eq hregisters] at h ⊢
      cases hjson : jsonbConfig config with
      | error e => exact .inr rfl
      | ok json =>
        cases hstart : bigint config.votingStart with
        | error e => exact .inr rfl
        | ok v =>
          rw [hjson, hstart] at h
          cases h
    · obtain ⟨e, he⟩ := registerElection_refused hregisters
      rw [he]
      exact .inl rfl
  | cancel => rw [hwrite] at h; exact .inl (htransaction _ h)
  | dkgResult => rw [hwrite] at h; exact .inl (htransaction _ h)
  | ballot => rw [hwrite] at h; exact .inl (htransaction _ h)
  | aggregate => rw [hwrite] at h; exact .inl (htransaction _ h)
  | decryptionShare => rw [hwrite] at h; exact .inl (htransaction _ h)
  | result => rw [hwrite] at h; exact .inl (htransaction _ h)
  | tallyStalled => rw [hwrite] at h; exact .inl (htransaction _ h)

theorem Mirrored.draw (h : Mirrored E db) : Mirrored E db.nextval.2 := by
  obtain ⟨s, hrel, hok, hread⟩ := h
  refine ⟨{ s with nextId := s.nextId + 1 }, hrel.draw, ⟨?_, hok.records⟩, hread⟩
  intro e he
  obtain ⟨k, hk, hlt, heq⟩ := hok.ids e he
  exact ⟨k, Nat.le_succ_of_le hk, hlt, heq⟩

/-- The in-memory store of the configuration behind its text. -/
theorem Mirrored.register (h : Mirrored E db) {config : ElectionConfig}
    (hnext : toBytes db.peek 32 = .ok config.electionId) :
    Mirrored E (db.registered config (encConfig config) config.votingStart) := by
  obtain ⟨s, hrel, hok, hread⟩ := h
  obtain ⟨hlt, hid⟩ := hrel.next_id hnext
  exact ⟨_, hrel.register hok hnext, hok.registered hlt hid, readable_put hread (readable_register hid) rfl⟩

/-- A call keeps the database mirrored, if it is well sized or rejected. -/
theorem Mirrored.perform (h : Mirrored E db)
    (hsized : (perform E conv order call db).2 = .ok () → call.write.WellSized) :
    Mirrored E (perform E conv order call db).1 := by
  cases hanswer : (Postgres.perform E conv order call db).2 with
  | error e =>
    rcases perform_rejected hanswer with hdb | hdb
    · rw [hdb]
      exact h
    · rw [hdb]
      exact h.draw
  | ok u =>
    by_cases hregister : ∃ config adminSig, call.write = .register config adminSig
    · obtain ⟨config, adminSig, hwrite⟩ := hregister
      have hcall : Postgres.perform E conv order call db = registerElection E db config adminSig := by
        rw [Postgres.perform, hwrite]
      rw [hcall] at hanswer ⊢
      obtain ⟨hnext, hdb⟩ := registerElection_accepted hanswer
      rw [hdb]
      have hjoined : toBytes db.peek 32 = .ok (joinTexts config).electionId := hnext
      exact h.register hjoined
    · obtain ⟨s, hrel, hok, hread⟩ := h
      have hother : ∀ config adminSig, call.write ≠ .register config adminSig :=
        fun config adminSig hwrite => hregister ⟨config, adminSig, hwrite⟩
      rcases perform_alike conv order hrel hok hread (fits_of_accepted hother hanswer) with
        ⟨s', hs', -, hrel'⟩ | ⟨e, e', -, hdb⟩
      · exact ⟨s', hrel', hok.perform hs', readable_perform hread hok (hsized hanswer) hs'⟩
      · rw [hdb] at hanswer
        cases hanswer

/-! ## The reads -/

/-- Every read of the election returns a value, but for windows of `2 ^ 63` ballots and more, which the
    database refuses. -/
structure ReadsReturn (E : EthLib) (conv : PyConversions) (order : RowOrder) (db : Database)
    (electionId : Bytes) : Prop where
  election : Returns (getElection conv order db electionId)
  finalizedKey : Returns (getFinalizedKey conv order db electionId)
  dkgSubmissions : Returns (getDkgSubmissions db electionId)
  ballots : ∀ start count : Int, 0 ≤ count →
    if count < 2 ^ 63 then Returns (listBallots db electionId start count)
    else listBallots db electionId start count = .error (.dataError "bigint out of range")
  aggregate : Returns (getAggregate E conv order db electionId)
  shares : Returns (listDecryptionShares db electionId)
  result : Returns (getResult db electionId)

/-- Whatever window is asked for, its ballots decode. -/
theorem listBallots_returns {st : Stored} (hview : db.view electionId = st.view) (h : st.Readable)
    (start : Int) {count : Int} (hcount : 0 ≤ count) (hlimit : count < 2 ^ 63) :
    Returns (listBallots db electionId start count) := by
  rw [listBallots, if_neg (by omega), bigint_eq_ok (by omega) hlimit, ok_bind]
  apply mapM_returns
  intro row hrow
  have hmem := (List.mem_filter.mp ((Table.orderBy_perm _).mem_iff.mp (List.mem_of_mem_take hrow))).1
  obtain ⟨sb, hsb, rfl⟩ := List.mem_map.mp ((ballotRows_perm hview h).mem_iff.mp hmem)
  have hdec : decBallot (ballotRow sb).ballot = .ok sb.envelope := decBallot_encBallot (h.ballots sb hsb)
  rw [hdec, ok_bind]
  exact .ok _

theorem Mirrored.reads_return (h : Mirrored E db) (hreg : electionId ∈ db.elections.keys)
    (order : RowOrder) : ReadsReturn E conv order db electionId := by
  obtain ⟨s, hrel, hok, hread⟩ := h
  cases hst : s.elections.get? electionId with
  | none =>
    obtain ⟨row, hrow⟩ := Dict.exists_get?_of_mem_keys hreg
    have hnone : db.elections.get? electionId = none := congrArg View.row (hrel.unknown hst)
    rw [hnone] at hrow
    cases hrow
  | some st =>
    have hview := hrel.known hst
    have hreadable := hread electionId st hst
    have hrecord := hok.records electionId st hst
    obtain ⟨votes, votes', -, -, -, haggregate⟩ := resolveAggregate_ok order hview hreadable hrecord
    refine {
      election := ?_, finalizedKey := ?_, dkgSubmissions := ?_, ballots := ?_, aggregate := ?_,
      shares := ?_, result := ?_ }
    · rw [getElection_eq hview hreadable hrecord, finalizedKeyOf_ok hrecord, ok_bind]
      exact .ok _
    · rw [getFinalizedKey_eq hview hreadable hrecord, finalizedKeyOf_ok hrecord]
      exact .ok _
    · rw [getDkgSubmissions_eq hview hreadable]
      exact .ok _
    · intro start count hcount
      split_ifs with hlimit
      · exact listBallots_returns hview hreadable start hcount hlimit
      · exact listBallots_beyond db electionId start (not_lt.mp hlimit)
    · rw [getAggregate, configOf_eq hview hreadable, ok_bind, haggregate]
      exact .ok _
    · rw [listDecryptionShares_eq hview hreadable]
      exact .ok _
    · rw [getResult_eq hview hreadable]
      exact .ok _

/-- In every run whose accepted writes carry artifacts of the sizes their decoders demand, after
    each of its calls every read of every registered election returns. -/
theorem accepted_writes_readable (E : EthLib) (conv : PyConversions) (calls : List OrderedCall)
    (hsized : ∀ before c after, calls = before ++ c :: after →
      (perform E conv c.order c.call (run E conv {} before)).2 = .ok () → c.call.write.WellSized) :
    ∀ before after, calls = before ++ after →
      ∀ electionId ∈ (run E conv {} before).elections.keys, ∀ order,
        ReadsReturn E conv order (run E conv {} before) electionId := by
  intro before after hcalls electionId hreg order
  refine Mirrored.reads_return ?_ hreg order
  refine run_invariant_of (Mirrored E) (fun db c h hc => h.perform hc) mirrored_empty ?_
  intro earlier c later hbefore
  exact hsized earlier c (later ++ after) (by rw [hcalls, hbefore, List.append_assoc, List.cons_append])

/-! A keyper of the registered election submits a DKG result. -/

namespace ReadableSample
open RefinementSample

def register : Call :=
  ⟨0, 0, .register smallConfig (plainEth.signMessage [5] (registerDigest plainEth smallConfig))⟩

/-- The first keyper's result, with a key and no committee keys. -/
def dkgResult (pkElection : Bytes) : Call :=
  ⟨10, 10, .dkgResult smallConfig.electionId pkElection []
    (plainEth.signMessage [1] (dkgResultDigest plainEth smallConfig.electionId pkElection []))⟩

def submission (pkElection : Bytes) : DKGResultSubmission :=
  ⟨smallConfig.electionId, pkElection, [],
    plainEth.signMessage [1] (dkgResultDigest plainEth smallConfig.electionId pkElection [])⟩

def registered : Database := ({} : Database).registered smallConfig (encConfig smallConfig) 100

def submitted (pkElection : Bytes) : Database :=
  { registered with
    dkgSubmissions := (∅ : Dict (Bytes × Int) Json).set (smallConfig.electionId, 1)
      (encDkgResult (submission pkElection)) }

def calls (pkElection : Bytes) : List OrderedCall := [⟨register, reversed⟩, ⟨dkgResult pkElection, reversed⟩]

theorem perform_register : perform plainEth conversions reversed register {} = (registered, .ok ()) := by
  have hregisters : Registers plainEth {} smallConfig
      (plainEth.signMessage [5] (registerDigest plainEth smallConfig)) := by
    refine ⟨?_, rfl⟩
    have hprints : smallConfig.prints = true := rfl
    rw [verifyRegister, hprints, signedBy, plainEth_recoverMessage (by decide)]
    rfl
  have hjson : jsonbConfig smallConfig = .ok (encConfig (joinTexts smallConfig)) := if_pos (by decide)
  have hstart : bigint smallConfig.votingStart = .ok 100 := rfl
  show registerElection plainEth {} smallConfig _ = _
  rw [registerElection_eq hregisters, hjson, hstart]
  rfl

theorem perform_dkgResult (pkElection : Bytes) :
    perform plainEth conversions reversed (dkgResult pkElection) registered =
      (submitted pkElection, .ok ()) := by
  have hconfig : configOf conversions registered smallConfig.electionId = .ok smallConfig :=
    decConfig_encConfig conversions (by decide)
  have hidx : keyperIndexByRecovery plainEth smallConfig
      (dkgResultDigest plainEth smallConfig.electionId pkElection [])
      (plainEth.signMessage [1] (dkgResultDigest plainEth smallConfig.electionId pkElection [])) = .ok 1 := by
    rw [keyperIndexByRecovery, plainEth_recoverMessage (by decide)]
    rfl
  rw [perform, dkgResult]
  dsimp only
  rw [submitDkgResult, hconfig, ok_bind, hidx, ok_bind]
  rfl

theorem run_calls (pkElection : Bytes) :
    run plainEth conversions {} (calls pkElection) = submitted pkElection := by
  rw [calls, run, List.foldl_cons, List.foldl_cons, List.foldl_nil, perform_register, perform_dkgResult]

end ReadableSample

open ReadableSample RefinementSample in
/-- A result with a key of 96 bytes leaves every read of its election returning. -/
theorem accepted_writes_readable_sized :
    ReadsReturn plainEth conversions reversed
      (run plainEth conversions {} (calls (beBytes 96 17))) smallConfig.electionId := by
  refine accepted_writes_readable plainEth conversions (calls (beBytes 96 17)) ?_ _ [] (List.append_nil _).symm
    _ ?_ reversed
  · intro before c after hcalls _
    have hc : c ∈ calls (beBytes 96 17) := by
      rw [hcalls]
      exact List.mem_append_right _ List.mem_cons_self
    rcases List.mem_cons.mp hc with rfl | hc
    · trivial
    · cases List.mem_singleton.mp hc
      exact ⟨by decide, fun pk hpk => by cases hpk⟩
  · rw [run_calls]
    decide

open ReadableSample RefinementSample in
/-- One keyper's accepted result with a key of 95 bytes: the registered election's key is read by
    no one any more. -/
theorem short_key_unreadable :
    (perform plainEth conversions reversed (dkgResult (beBytes 95 17))
      (run plainEth conversions {} [⟨register, reversed⟩])).2 = .ok () ∧
    smallConfig.electionId ∈ (run plainEth conversions {} (calls (beBytes 95 17))).elections.keys ∧
    getFinalizedKey conversions reversed (run plainEth conversions {} (calls (beBytes 95 17)))
      smallConfig.electionId = .error (.codecError "pkElection: expected 96 bytes, got 95") := by
  refine ⟨?_, ?_, ?_⟩
  · rw [run, List.foldl_cons, List.foldl_nil, perform_register, perform_dkgResult]
  · rw [run_calls]
    decide
  · rw [run_calls]
    have hconfig : configOf conversions (submitted (beBytes 95 17)) smallConfig.electionId = .ok smallConfig :=
      decConfig_encConfig conversions (by decide)
    have hdecode : decDkgResult (encDkgResult (submission (beBytes 95 17))) =
        .error (.codecError "pkElection: expected 96 bytes, got 95") := by
      decide +kernel
    rw [getFinalizedKey, hconfig, ok_bind, finalizedKey]
    show ([(1, encDkgResult (submission (beBytes 95 17)))].mapM _ >>= _) = _
    rw [List.mapM_cons, hdecode]
    rfl

end Postgres
end ElGamalVoting
