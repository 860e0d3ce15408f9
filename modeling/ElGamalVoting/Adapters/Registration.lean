import ElGamalVoting.Adapters.PostgresRefinement

/- Registration on both backends (`register_election` of `adapters/memory.py` and of
   `adapters/db/store.py`).

   What both share is `RegisterStep`: a call is refused and changes nothing, or takes the
   next id. In a run of such steps the ids are 1, 2, ... without a gap and nothing is
   accepted twice. The in-memory store takes no other steps. The database draws the id
   before it inserts the row, and an id drawn for a row that is then refused stays drawn. -/
namespace ElGamalVoting
open Lib

/-- The registered elections, and the id the next one gets. -/
structure Registry (ρ : Type) where
  elections : Dict Bytes ρ
  nextId : Nat

/-- A store as its registrations see it. -/
structure RegistrationStore (σ ρ : Type) where
  start : σ
  register : σ → ElectionConfig → Bytes → σ × Py Unit
  registry : σ → Registry ρ

section
variable {σ ρ : Type} (store : RegistrationStore σ ρ)

/-- The state after a list of calls, each a configuration with its signature. -/
def RegistrationStore.after (calls : List (ElectionConfig × Bytes)) : σ :=
  calls.foldl (fun s call => (store.register s call.1 call.2).1) store.start

/-- What a call answers after the calls `before`. -/
def RegistrationStore.answer (before : List (ElectionConfig × Bytes)) (call : ElectionConfig × Bytes) :
    Py Unit :=
  (store.register (store.after before) call.1 call.2).2

/-- Registration over the calls: dense ids in the order of registration, no configuration accepted
    twice, and nothing changed by a call that raises. -/
structure SingleUse (calls : List (ElectionConfig × Bytes)) : Prop where
  dense : ∀ before after, calls = before ++ after →
    ∃ n, (store.registry (store.after before)).elections.keys = (List.range' 1 n).map (beBytes 32) ∧
      (store.registry (store.after before)).nextId = n + 1
  once : ∀ before call middle again after, calls = before ++ call :: middle ++ again :: after →
    store.answer before call = .ok () → store.answer (before ++ call :: middle) again = .ok () →
    call.1 ≠ again.1
  unchanged : ∀ before call after, calls = before ++ call :: after →
    ∀ e, store.answer before call = .error e →
      store.registry (store.after (before ++ [call])) = store.registry (store.after before)

end

/-! ## Stores that take the next id or nothing -/

/-- A registration that is refused, or takes the next id. -/
inductive RegisterStep {ρ : Type} (r : Registry ρ) (config : ElectionConfig) : Registry ρ → Py Unit → Prop
  | refused (e : PyError) : RegisterStep r config r (.error e)
  | accepted (row : ρ) (named : config.electionId = beBytes 32 r.nextId) (fits : r.nextId < 256 ^ 32) :
    RegisterStep r config ⟨r.elections.set config.electionId row, r.nextId + 1⟩ (.ok ())

/-- The ids given out are 1 to the one before the next. -/
def Dense {ρ : Type} (r : Registry ρ) : Prop :=
  ∃ n, r.elections.keys = (List.range' 1 n).map (beBytes 32) ∧ r.nextId = n + 1 ∧ n < 256 ^ 32

section
variable {ρ : Type} {r r' : Registry ρ} {config : ElectionConfig} {answer : Py Unit}

/-- The next id is a new one. -/
theorem Dense.next_notMem (h : Dense r) (hfits : r.nextId < 256 ^ 32) :
    beBytes 32 r.nextId ∉ r.elections.keys := by
  obtain ⟨n, hkeys, hnext, hn⟩ := h
  rw [hkeys, List.mem_map]
  intro hmem
  obtain ⟨i, hi, heq⟩ := hmem
  rw [List.mem_range'_1] at hi
  have hi' : i = r.nextId := beBytes_inj (by omega) hfits heq
  omega

theorem Dense.step (h : Dense r) (hstep : RegisterStep r config r' answer) : Dense r' := by
  cases hstep with
  | refused e => exact h
  | accepted row named fits =>
    have hnew := h.next_notMem fits
    obtain ⟨n, hkeys, hnext, hn⟩ := h
    refine ⟨n + 1, ?_, congrArg (· + 1) hnext, by omega⟩
    rw [Dict.keys_set, named, if_neg hnew, hkeys, hnext, List.range'_concat, List.map_append]
    simp [Nat.add_comm]

theorem RegisterStep.keys_subset (hstep : RegisterStep r config r' answer) {id : Bytes}
    (hid : id ∈ r.elections.keys) : id ∈ r'.elections.keys := by
  cases hstep with
  | refused e => exact hid
  | accepted row named fits => exact Dict.mem_keys_set.mpr (.inr hid)

end

section
variable {σ ρ : Type} {store : RegistrationStore σ ρ} {calls : List (ElectionConfig × Bytes)}

theorem RegistrationStore.after_concat (calls : List (ElectionConfig × Bytes)) (call : ElectionConfig × Bytes) :
    store.after (calls ++ [call]) = (store.register (store.after calls) call.1 call.2).1 := by
  rw [RegistrationStore.after, List.foldl_append]
  rfl

/-- Every call of the run takes the next id or nothing. -/
def StepsOnly (store : RegistrationStore σ ρ) (calls : List (ElectionConfig × Bytes)) : Prop :=
  ∀ before call after, calls = before ++ call :: after →
    RegisterStep (store.registry (store.after before)) call.1
      (store.registry (store.after (before ++ [call]))) (store.answer before call)

theorem StepsOnly.dense (hstart : store.registry store.start = ⟨∅, 1⟩) (h : StepsOnly store calls)
    {before after : List (ElectionConfig × Bytes)} (hsplit : calls = before ++ after) :
    Dense (store.registry (store.after before)) := by
  induction before using List.reverseRec generalizing after with
  | nil =>
    show Dense (store.registry store.start)
    rw [hstart]
    exact ⟨0, rfl, rfl, by decide⟩
  | append_singleton before call ih =>
    rw [List.append_assoc, List.singleton_append] at hsplit
    exact (ih hsplit).step (h before call after hsplit)

/-- An id that is taken stays taken. -/
theorem StepsOnly.keys_subset (h : StepsOnly store calls) {before middle after : List (ElectionConfig × Bytes)}
    (hsplit : calls = before ++ middle ++ after) {id : Bytes}
    (hid : id ∈ (store.registry (store.after before)).elections.keys) :
    id ∈ (store.registry (store.after (before ++ middle))).elections.keys := by
  induction middle using List.reverseRec generalizing after with
  | nil => rwa [List.append_nil]
  | append_singleton middle call ih =>
    rw [← List.append_assoc] at hsplit ⊢
    rw [List.append_assoc _ [call], List.singleton_append] at hsplit
    exact (h _ call after hsplit).keys_subset (ih hsplit)

/-- What an accepted call leaves: its id was new, and is taken. -/
theorem StepsOnly.accepted (hstart : store.registry store.start = ⟨∅, 1⟩) (h : StepsOnly store calls)
    {before after : List (ElectionConfig × Bytes)} {call : ElectionConfig × Bytes}
    (hsplit : calls = before ++ call :: after) (hanswer : store.answer before call = .ok ()) :
    call.1.electionId ∉ (store.registry (store.after before)).elections.keys ∧
      call.1.electionId ∈ (store.registry (store.after (before ++ [call]))).elections.keys := by
  have hstep := h before call after hsplit
  have hdense := h.dense hstart hsplit
  rw [hanswer] at hstep
  generalize store.registry (store.after (before ++ [call])) = r' at hstep ⊢
  cases hstep with
  | accepted row named fits =>
    refine ⟨?_, Dict.mem_keys_set.mpr (.inl rfl)⟩
    rw [named]
    exact hdense.next_notMem fits

/-- A run of such calls is single use. -/
theorem StepsOnly.singleUse (hstart : store.registry store.start = ⟨∅, 1⟩) (h : StepsOnly store calls) :
    SingleUse store calls := by
  refine ⟨?_, ?_, ?_⟩
  · intro before after hsplit
    obtain ⟨n, hkeys, hnext, -⟩ := h.dense hstart hsplit
    exact ⟨n, hkeys, hnext⟩
  · intro before call middle again after hsplit hcall hagain hsame
    have hfirst : calls = before ++ call :: (middle ++ again :: after) := by
      rw [hsplit, List.append_assoc, List.cons_append]
    have hmiddle : calls = before ++ [call] ++ middle ++ again :: after := by
      rw [hsplit]
      simp
    obtain ⟨-, htaken⟩ := h.accepted hstart hfirst hcall
    have hkept := h.keys_subset hmiddle htaken
    rw [List.append_assoc, List.singleton_append, hsame] at hkept
    exact (h.accepted hstart hsplit hagain).1 hkept
  · intro before call after hsplit e hanswer
    have hstep := h before call after hsplit
    rw [hanswer] at hstep
    generalize store.registry (store.after (before ++ [call])) = r' at hstep ⊢
    cases hstep with
    | refused => rfl

end

/-! ## The two backends -/

/-- The in-memory store; a write that raises leaves it as it was. -/
def memoryStore (E : EthLib) : RegistrationStore InMemoryDataLayer Stored where
  start := {}
  register s config adminSig :=
    match registerElection E s config adminSig with
    | .ok s' => (s', .ok ())
    | .error e => (s, .error e)
  registry s := ⟨s.elections, s.nextId + 1⟩

def postgresStore (E : EthLib) : RegistrationStore Postgres.Database Postgres.ElectionRow where
  start := {}
  register db config adminSig := Postgres.registerElection E db config adminSig
  registry db := ⟨db.elections, db.peek⟩

/-- The row of the election fits the columns of its table. -/
def Postgres.Storable (config : ElectionConfig) : Prop :=
  (-2 ^ 63 ≤ config.votingStart ∧ config.votingStart < 2 ^ 63) ∧
    storableText config.protocolVersion = true ∧ ∀ k ∈ config.keypers, storableText k.url = true

theorem memory_stepsOnly (E : EthLib) (calls : List (ElectionConfig × Bytes)) :
    StepsOnly (memoryStore E) calls := by
  intro before call after _
  rw [RegistrationStore.after_concat, RegistrationStore.answer]
  generalize (memoryStore E).after before = s
  show RegisterStep ⟨s.elections, s.nextId + 1⟩ call.1 ((memoryStore E).registry _) _
  simp only [memoryStore]
  cases hanswer : registerElection E s call.1 call.2 with
  | error e => exact .refused e
  | ok s' =>
    obtain ⟨-, hlt, hid, rfl⟩ := registerElection_eq_ok hanswer
    exact .accepted _ hid hlt

namespace Postgres
variable {E : EthLib} {db : Database} {config : ElectionConfig} {adminSig : Bytes}

/-- A registration that comes to the insert of a row that fits takes the next id. -/
theorem registerStep_of_storable (h : Registers E db config adminSig) (hstorable : Storable config) :
    RegisterStep ((postgresStore E).registry db) config
      ((postgresStore E).registry (registerElection E db config adminSig).1)
      (registerElection E db config adminSig).2 := by
  have hjson : jsonbConfig config = .ok (encConfig (joinTexts config)) := if_pos hstorable.2
  have hstart : bigint config.votingStart = .ok config.votingStart := if_pos hstorable.1
  obtain ⟨-, hlt, hid⟩ := toBytes_eq_ok h.2
  rw [registerElection_eq h, hjson, hstart]
  exact .accepted _ hid (by exact_mod_cast hlt)

/-- One that does not fit raises with the number drawn. -/
theorem draws_of_not_storable (h : Registers E db config adminSig) (hstorable : ¬ Storable config) :
    ∃ e, registerElection E db config adminSig = (db.nextval.2, .error e) := by
  rw [registerElection_eq h]
  by_cases htexts : storableText config.protocolVersion = true ∧ ∀ k ∈ config.keypers, storableText k.url = true
  · have hjson : jsonbConfig config = .ok (encConfig (joinTexts config)) := if_pos htexts
    have hstart : bigint config.votingStart = .error (.dataError "bigint out of range") :=
      if_neg fun hfits => hstorable ⟨hfits, htexts⟩
    rw [hjson, hstart]
    exact ⟨_, rfl⟩
  · have hjson : jsonbConfig config = .error (.dataError "unsupported Unicode escape sequence") := if_neg htexts
    rw [hjson]
    exact ⟨_, rfl⟩

end Postgres

theorem postgres_stepsOnly {E : EthLib} {calls : List (ElectionConfig × Bytes)}
    (h : ∀ before config adminSig after, calls = before ++ (config, adminSig) :: after →
      Postgres.Registers E ((postgresStore E).after before) config adminSig → Postgres.Storable config) :
    StepsOnly (postgresStore E) calls := by
  intro before call after hsplit
  rw [RegistrationStore.after_concat, RegistrationStore.answer]
  have hcall := h before call.1 call.2 after hsplit
  generalize (postgresStore E).after before = db at hcall
  simp only [postgresStore] at hcall ⊢
  by_cases hregisters : Postgres.Registers E db call.1 call.2
  · exact Postgres.registerStep_of_storable hregisters (hcall hregisters)
  · obtain ⟨e, he⟩ := Postgres.registerElection_refused hregisters
    rw [he]
    exact .refused e

/-- Where registration is single use, what comes to the insert fits. -/
theorem storable_of_singleUse {E : EthLib} {calls before after : List (ElectionConfig × Bytes)}
    {config : ElectionConfig} {adminSig : Bytes} (h : SingleUse (postgresStore E) calls)
    (hsplit : calls = before ++ (config, adminSig) :: after)
    (hregisters : Postgres.Registers E ((postgresStore E).after before) config adminSig) :
    Postgres.Storable config := by
  by_contra hstorable
  obtain ⟨e, he⟩ := Postgres.draws_of_not_storable hregisters hstorable
  -- the call raises, so the next id should be what it was
  have hsame := h.unchanged before (config, adminSig) after hsplit e (congrArg Prod.snd he)
  rw [RegistrationStore.after_concat] at hsame
  have hnext := congrArg Registry.nextId hsame
  rw [show ((postgresStore E).register ((postgresStore E).after before) config adminSig).1 =
    ((postgresStore E).after before).nextval.2 from congrArg Prod.fst he] at hnext
  exact Nat.succ_ne_self _ hnext

/-- Registration is single use on the in-memory store, over every list of calls. On the database it
    is exactly over those in which every call that is correctly signed and names the next id also
    fits the columns. -/
theorem registration_single_use_iff (E : EthLib) (calls : List (ElectionConfig × Bytes)) :
    SingleUse (memoryStore E) calls ∧
      (SingleUse (postgresStore E) calls ↔
        ∀ before config adminSig after, calls = before ++ (config, adminSig) :: after →
          Postgres.Registers E ((postgresStore E).after before) config adminSig → Postgres.Storable config) := by
  refine ⟨(memory_stepsOnly E calls).singleUse rfl, ?_⟩
  constructor
  · intro h before config adminSig after hsplit hregisters
    exact storable_of_singleUse h hsplit hregisters
  · intro h
    exact (postgres_stepsOnly h).singleUse rfl

/-! Voting that starts in a number of seconds no 64-bit column holds. -/

namespace RegistrationSample

def farConfig : ElectionConfig :=
  { smallConfig with
    votingStart := 2 ^ 63
    votingEnd := 2 ^ 63 + 1
    start_lt_end := by decide }

def register : ElectionConfig × Bytes :=
  (farConfig, plainEth.signMessage farConfig.adminKey (registerDigest plainEth farConfig))

theorem registers : Postgres.Registers plainEth {} farConfig register.2 := by
  have hverify : verifyRegister plainEth farConfig.adminKey register.2 farConfig = true := by
    have hprints : farConfig.prints = true := rfl
    rw [verifyRegister, hprints, signedBy]
    simp [register, plainEth_recoverMessage (by decide : farConfig.adminKey.length < 256)]
  have hbytes : toBytes ((1 : Nat) : Int) 32 = .ok (beBytes 32 1) := rfl
  exact ⟨hverify, hbytes⟩

/-- The registration raises, no election is stored, and the id 1 is gone. -/
theorem registration_burns_id :
    ¬ Returns ((postgresStore plainEth).answer [] register) ∧
      ((postgresStore plainEth).registry ((postgresStore plainEth).after [register])).elections.keys = [] ∧
      ((postgresStore plainEth).registry ((postgresStore plainEth).after [register])).nextId = 2 ∧
      ¬ SingleUse (postgresStore plainEth) [register] := by
  have hfar : ¬ Postgres.Storable farConfig := fun h => absurd h.1.2 (by decide)
  obtain ⟨e, he⟩ := Postgres.draws_of_not_storable registers hfar
  have hafter : (postgresStore plainEth).after [register] = (Postgres.Database.nextval {}).2 :=
    congrArg Prod.fst he
  have hanswer : (postgresStore plainEth).answer [] register = .error e := congrArg Prod.snd he
  refine ⟨?_, ?_, ?_, ?_⟩
  · rw [hanswer]
    exact nofun
  · rw [hafter]
    rfl
  · rw [hafter]
    rfl
  · intro h
    exact hfar (storable_of_singleUse h (show [register] = [] ++ register :: [] from rfl) registers)

end RegistrationSample
end ElGamalVoting
