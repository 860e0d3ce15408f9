import ElGamalVoting.Adapters.HttpReads
import ElGamalVoting.Adapters.MemoryBinding
import ElGamalVoting.Adapters.MemoryHistory
import ElGamalVoting.Services.CompleteReads

/- The HTTP service in front of the in-memory layer, over whole runs.

   The requests of a run are arbitrary: any route, path segment and JSON body, from anyone. What a route
   decodes is well sized, so every request leaves the store as it was or is a carried call
   (`serveAll_calls`), and all the store holds but the DKG submissions can be read back through the client.
   The ballot pages are capped, and yet `read_all_ballots` recovers the whole list through them. -/
namespace ElGamalVoting
open Lib

/-- The artifacts of a record, the DKG submissions apart, have the sizes their decoders demand. -/
structure Stored.Sized (st : Stored) : Prop where
  ballots : ∀ sb ∈ st.ballots, sb.envelope.WellSized
  aggregates : ∀ i A, st.aggregateByKeyper.get? i = some A → A.WellSized
  shares : ∀ i share, st.sharesByKeyper.get? i = some share → share.WellSized
  result : ∀ r, st.result = some r → r.WellSized

section
variable {E : EthLib} {s : InMemoryDataLayer} {call : Call} {electionId : Bytes} {st st' : Stored}

theorem RecordStep.sized (hstep : RecordStep E s call electionId st st') (hcall : call.write.Carried)
    (h : st.Sized) : st'.Sized := by
  cases hstep with
  | ballot ballot gatewaySig hwrite =>
    rw [hwrite] at hcall
    refine { h with ballots := ?_ }
    intro sb hsb
    rcases List.mem_append.mp hsb with hsb | hsb
    · exact h.ballots sb hsb
    · rw [List.mem_singleton.mp hsb]
      exact hcall
  | aggregate aggregate keyperSig digest idx hwrite =>
    rw [hwrite] at hcall
    refine { h with aggregates := ?_ }
    intro i A hA
    rw [Dict.get?_set] at hA
    split at hA
    · cases hA
      exact hcall
    · exact h.aggregates i A hA
  | decryptionShare share keyperSig digest hwrite =>
    rw [hwrite] at hcall
    refine { h with shares := ?_ }
    intro i share' hshare
    rw [Dict.get?_set] at hshare
    split at hshare
    · cases hshare
      exact hcall
    · exact h.shares i share' hshare
  | result result resultPublisherSig payload hwrite =>
    rw [hwrite] at hcall
    refine { h with result := ?_ }
    intro r hr
    cases hr
    exact hcall
  | cancel => exact { h with }
  | dkgResult => exact { h with }
  | tallyStalled => exact { h with }

theorem sized_run {calls : List Call} (hcalls : ∀ call ∈ calls, call.write.Carried) :
    ∀ electionId st, (runCalls E {} calls).elections.get? electionId = some st → st.Sized :=
  records_invariant (P := fun _ st => st.Sized) calls
    (fun _ _ => ⟨by simp, by simp, by simp, by simp⟩)
    (fun _ call _ _ _ hcall hstep h => hstep.sized (hcalls call hcall) h)

theorem mem_pySlice {α : Type} {l : List α} {start stop : Int} {x : α} (h : x ∈ pySlice l start stop) : x ∈ l :=
  List.mem_of_mem_take (List.mem_of_mem_drop h)

end

namespace Http

section
variable {E : EthLib} {conv : PyConversions} {lib : HttpLib}

/-! ## What a run of requests writes -/

/-- What a route decodes is carried. -/
theorem carried_of_write {route : Route} {eid : PyStr} {body : Json} {w : Write}
    (h : route.write conv eid body = .ok w) : w.Carried := by
  -- what a route hands on came out of a decoder, which demands the sizes
  cases route with
  | register =>
    obtain ⟨_, -, h⟩ := bind_eq_ok.mp h
    obtain ⟨_, hconfig, h⟩ := bind_eq_ok.mp h
    obtain ⟨_, -, h⟩ := bind_eq_ok.mp h
    cases h
    exact decConfig_electionId (decConfigLimited_eq_ok.mp hconfig).1
  | cancel =>
    obtain ⟨_, -, h⟩ := bind_eq_ok.mp h
    obtain ⟨_, -, h⟩ := bind_eq_ok.mp h
    cases h
    trivial
  | submitDkg =>
    obtain ⟨_, -, h⟩ := bind_eq_ok.mp h
    obtain ⟨_, -, h⟩ := bind_eq_ok.mp h
    obtain ⟨_, -, h⟩ := bind_eq_ok.mp h
    obtain ⟨_, -, h⟩ := bind_eq_ok.mp h
    obtain ⟨_, -, h⟩ := bind_eq_ok.mp h
    obtain ⟨_, -, h⟩ := bind_eq_ok.mp h
    cases h
    trivial
  | submitBallot =>
    obtain ⟨_, -, h⟩ := bind_eq_ok.mp h
    obtain ⟨_, -, h⟩ := bind_eq_ok.mp h
    obtain ⟨_, -, h⟩ := bind_eq_ok.mp h
    obtain ⟨_, hballot, h⟩ := bind_eq_ok.mp h
    cases h
    exact decBallot_wellSized hballot
  | submitAggregate =>
    obtain ⟨_, -, h⟩ := bind_eq_ok.mp h
    obtain ⟨_, -, h⟩ := bind_eq_ok.mp h
    obtain ⟨_, haggregate, h⟩ := bind_eq_ok.mp h
    obtain ⟨_, -, h⟩ := bind_eq_ok.mp h
    cases h
    exact decAggregate_wellSized haggregate
  | submitShare =>
    obtain ⟨_, -, h⟩ := bind_eq_ok.mp h
    obtain ⟨_, -, h⟩ := bind_eq_ok.mp h
    obtain ⟨_, hshare, h⟩ := bind_eq_ok.mp h
    obtain ⟨_, -, h⟩ := bind_eq_ok.mp h
    cases h
    exact decDecryptionShare_wellSized hshare
  | publishResult =>
    obtain ⟨_, -, h⟩ := bind_eq_ok.mp h
    obtain ⟨_, -, h⟩ := bind_eq_ok.mp h
    obtain ⟨_, hresult, h⟩ := bind_eq_ok.mp h
    obtain ⟨_, -, h⟩ := bind_eq_ok.mp h
    cases h
    exact decResult_wellSized hresult
  | setTallyStalled =>
    obtain ⟨_, -, h⟩ := bind_eq_ok.mp h
    obtain ⟨_, -, h⟩ := bind_eq_ok.mp h
    obtain ⟨_, -, h⟩ := bind_eq_ok.mp h
    obtain ⟨_, -, h⟩ := bind_eq_ok.mp h
    obtain ⟨_, -, h⟩ := bind_eq_ok.mp h
    cases h
    trivial

/-- A request changes nothing or makes a carried call. -/
theorem servePost_cases {σ : Type} (conv : PyConversions) (B : Backend σ) (now later : Int) (r : PostRequest) (s : σ) :
    (servePost B conv now later r s).1 = s ∨
      ∃ w : Write, w.Carried ∧ (servePost B conv now later r s).1 = (B.perform ⟨now, later, w⟩ s).1 := by
  rw [servePost]
  split
  · exact .inl rfl
  · split
    · exact .inl rfl
    · cases r.body with
      | none => exact .inl rfl
      | some body =>
        dsimp only
        cases hwrite : r.route.write conv r.eid body with
        | error e => exact .inl rfl
        | ok w => exact .inr ⟨w, carried_of_write hwrite, rfl⟩

/-- A run of requests leaves the store as a run of carried calls does. -/
theorem serveAll_calls (E : EthLib) (conv : PyConversions) (s : InMemoryDataLayer)
    (requests : List (Int × Int × PostRequest)) :
    ∃ calls, serveAll (memoryBackend E) conv s requests = runCalls E s calls ∧
      ∀ call ∈ calls, call.write.Carried := by
  induction requests generalizing s with
  | nil => exact ⟨[], rfl, by simp⟩
  | cons r requests ih =>
    have hstep : serveAll (memoryBackend E) conv s (r :: requests) =
        serveAll (memoryBackend E) conv (servePost (memoryBackend E) conv r.1 r.2.1 r.2.2 s).1 requests := rfl
    rw [hstep]
    rcases servePost_cases conv (memoryBackend E) r.1 r.2.1 r.2.2 s with hsame | ⟨w, hw, hcall⟩
    · rw [hsame]
      exact ih s
    · rw [hcall]
      obtain ⟨calls, hcalls, hcarried⟩ := ih (Call.apply E ⟨r.1, r.2.1, w⟩ s)
      refine ⟨⟨r.1, r.2.1, w⟩ :: calls, hcalls, ?_⟩
      intro call hmem
      rcases List.mem_cons.mp hmem with rfl | hmem
      · exact hw
      · exact hcarried call hmem

/-! ## What is read back -/

theorem sized_page {calls : List Call} (hcalls : ∀ call ∈ calls, call.write.Carried) {electionId : Bytes} :
    ∀ start count rows, ((runCalls E {} calls).reads E).listBallots electionId start count = .ok rows →
      ∀ sb ∈ rows, sb.envelope.WellSized := by
  intro start count rows hrows sb hsb
  obtain ⟨st, hst, hrows⟩ := bind_eq_ok.mp hrows
  cases hrows
  exact (sized_run (E := E) hcalls electionId st (getStored_eq_ok.mp hst)).ballots sb (mem_pySlice hsb)

end

/-! Two keypers agree on a key of one byte, and two ballots are cast. -/

namespace HttpSample
open HttpWriteSample

/-- A request with the body of a call, in two thousand bytes. -/
def post (call : Call) : Int × Int × PostRequest :=
  (call.now, call.later, ⟨routeOf call.write, segmentOf call.write, (bodyOf call.write).toOption, 2000⟩)

def dkgResult (key : Bytes) : Call := ⟨10, 10, .dkgResult smallConfig.electionId [7] [] key⟩

def ballot (pseudonym weight : Nat) : BallotEnvelope where
  electionId := smallConfig.electionId
  pseudonym := beBytes 32 pseudonym
  vk := beBytes 48 pseudonym
  ciphertexts := []
  zkProof := []
  voterSignature := beBytes 80 0
  attestation := {
    electionId := smallConfig.electionId
    pseudonym := beBytes 32 pseudonym
    vk := beBytes 48 pseudonym
    weight
    signature := beBytes 80 0 }

def cast (now : Int) (pseudonym weight : Nat) : Call :=
  ⟨now, now, .ballot smallConfig.electionId (ballot pseudonym weight) []⟩

def calls : List Call := [register, dkgResult [1], dkgResult [2], cast 150 1 5, cast 151 2 3]

def requests : List (Int × Int × PostRequest) := calls.map post

def store : InMemoryDataLayer := runCalls keyEth {} calls

/-- The ballots of the two voters, as they are stored. -/
def rows : List StoredBallot := [⟨0, ballot 1 5, some 150⟩, ⟨1, ballot 2 3, some 151⟩]

/-- A call whose body is made and carried. -/
def Ready (call : Call) : Prop :=
  Returns (bodyOf call.write) ∧ call.write.Carried ∧ (routeOf call.write = .register ∨ segmentOf call.write ≠ [])

theorem serveAll_posts {calls : List Call} (h : ∀ call ∈ calls, Ready call) (s : InMemoryDataLayer) :
    serveAll (memoryBackend keyEth) conversions s (calls.map post) = runCalls keyEth s calls := by
  induction calls generalizing s with
  | nil => rfl
  | cons call calls ih =>
    obtain ⟨⟨body, hbody⟩, hcarried, hroute⟩ := h call List.mem_cons_self
    have hserved := servePost_carried conversions (memoryBackend keyEth) call.now call.later s hbody
      hcarried hroute (show 2000 ≤ maxContentLength by decide)
    have hpost : post call = (call.now, call.later, ⟨routeOf call.write, segmentOf call.write, some body, 2000⟩) := by
      rw [post, hbody]
      rfl
    have hstep : (servePost (memoryBackend keyEth) conversions (post call).1 (post call).2.1 (post call).2.2 s).1 =
        call.apply keyEth s := by
      rw [hpost]
      exact congrArg Prod.fst hserved
    show serveAll (memoryBackend keyEth) conversions (servePost _ _ _ _ _ s).1 (calls.map post) = _
    rw [hstep]
    exact ih (fun c hc => h c (List.mem_cons_of_mem call hc)) _

theorem segment_ne_nil : clientEid smallConfig.electionId ≠ [] := by decide +kernel

theorem ready_dkgResult (key : Bytes) : Ready (dkgResult key) := ⟨⟨_, rfl⟩, trivial, .inr segment_ne_nil⟩

theorem ready_cast (now : Int) (pseudonym weight : Nat) (hweight : 1 ≤ weight) : Ready (cast now pseudonym weight) := by
  refine ⟨⟨_, rfl⟩, ?_, .inr segment_ne_nil⟩
  exact {
    electionId := length_beBytes 32 1
    pseudonym := length_beBytes 32 pseudonym
    vk := length_beBytes 48 pseudonym
    ciphertexts := by simp [ballot]
    voterSignature := length_beBytes 80 0
    attElectionId := length_beBytes 32 1
    attPseudonym := length_beBytes 32 pseudonym
    attVk := length_beBytes 48 pseudonym
    attWeight := Int.ofNat_le.mpr hweight
    attNonce := le_refl 1
    attSignature := length_beBytes 80 0 }

theorem serve_requests : serveAll (memoryBackend keyEth) conversions {} requests = store := by
  refine serveAll_posts ?_ {}
  obtain ⟨body, hbody, -, -, -, hcarried⟩ := delivers_register
  simp only [calls, List.forall_mem_cons]
  exact ⟨⟨⟨body, hbody⟩, hcarried, .inl rfl⟩, ready_dkgResult _, ready_dkgResult _,
    ready_cast _ _ _ (by decide), ready_cast _ _ _ (by decide), by simp⟩

theorem stored : ∃ st, store.elections.get? smallConfig.electionId = some st ∧ st.ballots = rows ∧
    ∀ s ∈ st.config.texts, WellPaired s = true := by
  have hcomputed : (store.elections.get? smallConfig.electionId).any (fun st =>
      st.ballots = rows ∧ st.config.texts.all WellPaired) = true := by decide +kernel
  cases hst : store.elections.get? smallConfig.electionId with
  | none =>
    rw [hst] at hcomputed
    cases hcomputed
  | some st =>
    rw [hst] at hcomputed
    have hboth := of_decide_eq_true hcomputed
    exact ⟨st, rfl, hboth.1, List.all_eq_true.mp hboth.2⟩

theorem submissions : getDkgSubmissions store smallConfig.electionId =
    .ok [⟨smallConfig.electionId, [7], [], [1]⟩, ⟨smallConfig.electionId, [7], [], [2]⟩] := by
  decide +kernel

end HttpSample

section
variable {E : EthLib} {conv : PyConversions} {lib : HttpLib}

/-! ## The complete ballot list -/

/-- The store at each access of a reader, with a batch of requests served between two accesses. -/
def storeAt (E : EthLib) (conv : PyConversions) (s : InMemoryDataLayer)
    (batches : Nat → List (Int × Int × PostRequest)) : Nat → InMemoryDataLayer
  | 0 => s
  | i + 1 => serveAll (memoryBackend E) conv (storeAt E conv s batches i) (batches i)

theorem storeAt_calls (E : EthLib) (conv : PyConversions) (requests : List (Int × Int × PostRequest))
    (batches : Nat → List (Int × Int × PostRequest)) (i : Nat) : ∃ calls,
    storeAt E conv (serveAll (memoryBackend E) conv {} requests) batches i = runCalls E {} calls ∧
      ∀ call ∈ calls, call.write.Carried := by
  induction i with
  | zero => exact serveAll_calls E conv {} requests
  | succ i ih =>
    obtain ⟨calls, hcalls, hcarried⟩ := ih
    obtain ⟨more, hmore, hmoreCarried⟩ := serveAll_calls E conv (runCalls E {} calls) (batches i)
    refine ⟨calls ++ more, ?_, ?_⟩
    · rw [storeAt, hcalls, hmore, runCalls_append]
    · intro call hcall
      exact (List.mem_append.mp hcall).elim (hcarried call) (hmoreCarried call)

/-- The ballots of an election, none of an unknown one. -/
def ballotsOf (s : InMemoryDataLayer) (electionId : Bytes) : List StoredBallot :=
  ((s.elections.get? electionId).map Stored.ballots).getD []

theorem ballotsOf_eq {s : InMemoryDataLayer} {electionId : Bytes} {st : Stored}
    (h : s.elections.get? electionId = some st) : ballotsOf s electionId = st.ballots := by
  rw [ballotsOf, h]
  rfl

/-- A known election stays known, and its ballots are appended to. -/
theorem ballots_grow {s : InMemoryDataLayer} (h : s.Ok E) {electionId : Bytes} {st : Stored}
    (hst : s.elections.get? electionId = some st) (calls : List Call) :
    ∃ st', (runCalls E s calls).elections.get? electionId = some st' ∧ st.ballots <+: st'.ballots := by
  refine h.run_record (P := fun st' => st.ballots <+: st'.ballots) ?_ hst List.prefix_rfl calls
  intro s call st₁ st₂ _ _ hstep hprefix
  cases hstep with
  | ballot ballot gatewaySig => exact hprefix.trans (List.prefix_append _ _)
  | _ => exact hprefix

section
variable {requests : List (Int × Int × PostRequest)} {batches : Nat → List (Int × Int × PostRequest)}
  {electionId : Bytes} {st : Stored}

theorem storeAt_ok (i : Nat) :
    (storeAt E conv (serveAll (memoryBackend E) conv {} requests) batches i).Ok E := by
  obtain ⟨calls, hrun, -⟩ := storeAt_calls E conv requests batches i
  rw [hrun]
  exact ok_empty.run calls

theorem storeAt_grows {i : Nat} {st : Stored}
    (hst : (storeAt E conv (serveAll (memoryBackend E) conv {} requests) batches i).elections.get? electionId =
      some st) :
    ∃ st', (storeAt E conv (serveAll (memoryBackend E) conv {} requests) batches (i + 1)).elections.get?
      electionId = some st' ∧ st.ballots <+: st'.ballots := by
  obtain ⟨more, hmore, -⟩ := serveAll_calls E conv
    (storeAt E conv (serveAll (memoryBackend E) conv {} requests) batches i) (batches i)
  rw [storeAt, hmore]
  exact ballots_grow (storeAt_ok i) hst more

theorem storeAt_known (batches : Nat → List (Int × Int × PostRequest))
    (hst : (serveAll (memoryBackend E) conv {} requests).elections.get? electionId = some st) (i : Nat) :
    ∃ st', (storeAt E conv (serveAll (memoryBackend E) conv {} requests) batches i).elections.get? electionId =
      some st' := by
  induction i with
  | zero => exact ⟨st, hst⟩
  | succ i ih =>
    obtain ⟨st', hst'⟩ := ih
    obtain ⟨st'', hst'', -⟩ := storeAt_grows hst'
    exact ⟨st'', hst''⟩

theorem storeAt_numbered {i : Nat} {st : Stored}
    (hst : (storeAt E conv (serveAll (memoryBackend E) conv {} requests) batches i).elections.get? electionId =
      some st) : st.ballots.map StoredBallot.sequenceNumber = pyRange st.ballots.length := by
  obtain ⟨calls, hrun, -⟩ := storeAt_calls E conv requests batches i
  rw [hrun] at hst
  exact numbers_eq_pyRange (numbered_run E calls electionId st hst)

/-- The ballots at the accesses of a reader. -/
def growingBallots (batches : Nat → List (Int × Int × PostRequest))
    (hst : (serveAll (memoryBackend E) conv {} requests).elections.get? electionId = some st) :
    GrowingStore where
  ballots i := ballotsOf (storeAt E conv (serveAll (memoryBackend E) conv {} requests) batches i) electionId
  grows i := by
    obtain ⟨st₁, hst₁⟩ := storeAt_known batches hst i
    obtain ⟨st₂, hst₂, hprefix⟩ := storeAt_grows hst₁
    rw [ballotsOf_eq hst₁, ballotsOf_eq hst₂]
    exact hprefix
  numbered i := by
    obtain ⟨st₁, hst₁⟩ := storeAt_known batches hst i
    rw [ballotsOf_eq hst₁]
    exact storeAt_numbered hst₁

/-- A page through the client: the rows asked for, up to the cap, where they are printed. -/
theorem client_page {i : Nat} {st : Stored}
    (hst : (storeAt E conv (serveAll (memoryBackend E) conv {} requests) batches i).elections.get? electionId =
      some st) {start count : Nat} (hstart : start < 10 ^ maxStrDigits) (hcount : count < 10 ^ maxStrDigits)
    (hprinted : ∀ sb ∈ (st.ballots.drop start).take count, (storedBallotJson sb).printable = true) :
    (lib.reads conv ((storeAt E conv (serveAll (memoryBackend E) conv {} requests) batches i).reads E)).listBallots
      electionId start count = .ok ((st.ballots.drop start).take (min count 1000)) := by
  have hmin : min (count : Int) maxBallotPage = ((min count 1000 : Nat) : Int) := by
    rw [maxBallotPage]
    omega
  have hpage : listBallots (storeAt E conv (serveAll (memoryBackend E) conv {} requests) batches i) electionId
      start (min count 1000 : Nat) = .ok ((st.ballots.drop start).take (min count 1000)) := by
    rw [listBallots, getStored_eq_ok.mpr hst, ok_bind, pySlice_nat, pure_eq_ok]
  have hprint : (Json.arr (((st.ballots.drop start).take (min count 1000)).map storedBallotJson)).printable = true := by
    rw [Json.printable, printableItems_iff]
    intro j hj
    obtain ⟨sb, hsb, rfl⟩ := List.mem_map.mp hj
    exact hprinted sb (List.take_subset_take_left _ (Nat.min_le_left count 1000) hsb)
  obtain ⟨calls, hrun, hcarried⟩ := storeAt_calls E conv requests batches i
  rw [ballots_read (hrun ▸ sized_page hcarried) (printable_nat.mpr hstart) (printable_nat.mpr hcount), hmin]
  show across _ _ (listBallots _ electionId start (min count 1000 : Nat)) = _
  rw [hpage, across, if_pos hprint]

theorem growingBallots_answers
    (hst : (serveAll (memoryBackend E) conv {} requests).elections.get? electionId = some st)
    (hcount : st.ballots.length < 10 ^ maxStrDigits)
    (hprinted : ∀ sb ∈ st.ballots, (storedBallotJson sb).printable = true) :
    (growingBallots batches hst).Answers (fun i => lib.reads conv
      ((storeAt E conv (serveAll (memoryBackend E) conv {} requests) batches i).reads E)) electionId := by
  have hfirst : (growingBallots batches hst).ballots 0 = st.ballots := ballotsOf_eq hst
  refine ⟨?_, ?_⟩
  · have hcounted : countBallots (serveAll (memoryBackend E) conv {} requests) electionId =
        .ok (st.ballots.length : Int) := by
      rw [countBallots, getStored_eq_ok.mpr hst, ok_bind, pure_eq_ok]
    rw [ballotCount_read, hfirst]
    show across Json.int lib.remoteRead (countBallots _ electionId) = _
    rw [storeAt, hcounted, across, if_pos (printable_nat.mpr hcount)]
  · intro i start count hwithin
    obtain ⟨st', hst'⟩ := storeAt_known batches hst i
    have hballots : (growingBallots batches hst).ballots i = st'.ballots := ballotsOf_eq hst'
    -- the rows asked for are among those that were counted
    have hwindow := (growingBallots batches hst).window i hwithin
    rw [hballots, hfirst] at hwindow
    rw [hfirst] at hwithin
    refine ⟨_, client_page hst' (by omega) (by omega) ?_, ?_, ?_⟩
    · rw [hwindow]
      exact fun sb hsb => hprinted sb (List.mem_of_mem_drop (List.mem_of_mem_take hsb))
    · rw [hballots, Nat.min_comm, ← List.take_take]
      exact List.take_prefix _ _
    · rw [hballots]
      intro hsome hpage
      apply hsome
      rw [List.take_eq_nil_iff] at hpage ⊢
      exact hpage.imp (fun h => by omega) id

end

/-- `read_all_ballots` through the client and its capped pages, with requests served between the pages: the
    ballots are those that were there when they were counted. -/
theorem http_read_all_ballots (lib : HttpLib) (conv : PyConversions) (E : EthLib)
    (requests : List (Int × Int × PostRequest)) (batches : Nat → List (Int × Int × PostRequest))
    {electionId : Bytes} {st : Stored}
    (hst : (serveAll (memoryBackend E) conv {} requests).elections.get? electionId = some st)
    (hcount : st.ballots.length < 10 ^ maxStrDigits)
    (hprinted : ∀ sb ∈ st.ballots, (storedBallotJson sb).printable = true) :
    readAllBallotsOver (fun i => lib.reads conv
      ((storeAt E conv (serveAll (memoryBackend E) conv {} requests) batches i).reads E)) electionId =
        .ok st.ballots := by
  rw [readAllBallotsOver_growing (growingBallots_answers hst hcount hprinted)]
  exact congrArg Except.ok (ballotsOf_eq hst)

end

open HttpSample HttpWriteSample in
/-- The two ballots are read, though before every page a third one is cast. -/
theorem http_read_all_ballots_of_two :
    readAllBallotsOver (fun i => httpLib.reads conversions ((storeAt keyEth conversions
      (serveAll (memoryBackend keyEth) conversions {} requests) (fun _ => [post (cast 160 3 1)]) i).reads keyEth))
      smallConfig.electionId = .ok rows ∧
    ballotsOf (storeAt keyEth conversions (serveAll (memoryBackend keyEth) conversions {} requests)
      (fun _ => [post (cast 160 3 1)]) 1) smallConfig.electionId = rows ++ [⟨2, ballot 3 1, some 160⟩] := by
  obtain ⟨st, hst, hrows, -⟩ := stored
  have hprinted : ∀ sb ∈ rows, (storedBallotJson sb).printable = true := by decide +kernel
  have hfew : rows.length < 10 ^ maxStrDigits :=
    lt_of_lt_of_le (by decide : rows.length < 10 ^ 1) (Nat.pow_le_pow_right (by decide) (by decide))
  refine ⟨?_, ?_⟩
  · have hread := http_read_all_ballots httpLib conversions keyEth requests (fun _ => [post (cast 160 3 1)])
      (serve_requests ▸ hst) (hrows ▸ hfew) (hrows ▸ hprinted)
    rwa [hrows] at hread
  · have hcast : serveAll (memoryBackend keyEth) conversions store ([cast 160 3 1].map post) =
        runCalls keyEth store [cast 160 3 1] :=
      serveAll_posts (by simp only [List.forall_mem_cons]; exact ⟨ready_cast _ _ _ (by decide), by simp⟩) store
    rw [serve_requests]
    show ballotsOf (serveAll (memoryBackend keyEth) conversions store ([cast 160 3 1].map post)) _ = _
    rw [hcast]
    decide +kernel

end Http
end ElGamalVoting
