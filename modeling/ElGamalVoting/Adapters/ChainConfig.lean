import ElGamalVoting.Contracts.Registry
import ElGamalVoting.Core.ContentBinding
import ElGamalVoting.Envelopes.ConfigInversion
import ElGamalVoting.Ports.DataLayer

/- Registering an election on chain and reading it back (`register_election`, `get_election`,
   `_config_to_params` and `_config_from_view` of `adapters/chain/client.py`).

   The adapter reads the count of the registry, then deploys the committee and then publishes, in
   transactions of their own; what the registry is when it publishes is therefore a state of its
   own (`atPublish`), which others may have changed. The library's encodings are what they are on
   the values of the types: an integer outside its type, a text that is no UTF-8 and bytes that
   are no address are refused before anything is sent. -/
namespace ElGamalVoting
open Lib Contract

/-! What the library encodes. -/

/-- The text of a string as the contract holds it; a lone surrogate has none. -/
def textOf (s : PyStr) : Option String :=
  (s.mapM fun c : Nat => if h : c.isValidChar then some (Char.ofNatAux c h) else none).map String.ofList

def abiString (s : PyStr) : Py String :=
  match textOf s with
  | some text => .ok text
  | none => .error (.encodingError "surrogates not allowed")

/-- `Web3.to_checksum_address`, of bytes. -/
def toChecksumAddress (b : Bytes) : Py Bytes :=
  if b.length = 20 then .ok b else .error (.valueError s!"Unknown format 0x{hex b}")

/-- `_map_revert`, by the error the contract reverts with. -/
def mapRevert : Revert → PyError
  | .votingNotStarted _ => .votingWindow "VotingNotStarted"
  | .votingClosed _ => .votingWindow "VotingClosed"
  | .votingStillOpen _ => .votingWindow "VotingStillOpen"
  | .aggregateNotPublished => .votingWindow "AggregateNotPublished"
  | .alreadyCancelled => .immutability "AlreadyCancelled"
  | .votingAlreadyStarted _ => .immutability "VotingAlreadyStarted"
  | .alreadyVoted _ => .immutability "AlreadyVoted"
  | .alreadyFinalized => .immutability "AlreadyFinalized"
  | .unauthorizedAccount _ => .writeAuthorization "AccessControlUnauthorizedAccount"
  | .unauthorizedKeyper _ => .writeAuthorization "UnauthorizedKeyper"
  | .invalidMember _ => .writeAuthorization "InvalidMember"
  | _ => .valueError "execution reverted"

def send {α : Type} (x : Except Revert α) : Py α :=
  match x with
  | .ok a => .ok a
  | .error e => .error (mapRevert e)

/-! Integer codes of the enumerations (`adapters/chain/codec.py`). -/

def modeToU8 : Mode → Nat
  | .exact => 0
  | .atMost => 1

def variantToU8 : Variant → Nat
  | .A => 0
  | .B => 1

def dupToU8 : DuplicatePolicy → Nat
  | .firstWins => 0
  | .lastWins => 1

/-- The member with a code, `KeyError` when there is none. -/
def fromU8 {α : Type} (members : List α) (code : α → Nat) (n : Nat) : Py α :=
  match members.find? fun m => code m = n with
  | some m => .ok m
  | none => .error (.keyError (toString n))

/-! Config to params and back. -/

/-- The first of the gateway keys is the vote proxy. -/
def configToParams (config : ElectionConfig) : Py ElectionParams :=
  match config.gatewayKeys with
  | [] => .error (.valueError ("On the blockchain backend you must set exactly one authorized ballot-writer " ++
      "(vote-proxy) address — the account that submits ballots (the gateway/api " ++
      "sender). The registration left it blank."))
  | voteProxy :: _ => do
    let resultPublisher ← toChecksumAddress config.resultPublisherKey
    let voteProxy ← toChecksumAddress voteProxy
    let votingStart ← abiUint 64 config.votingStart
    let votingEnd ← abiUint 64 config.votingEnd
    let selfSubmitFee ← abiUint 256 config.selfSubmitFeeWei
    let numCandidates ← abiUint 32 config.numCandidates
    let budget ← abiUint 32 config.budget
    let scale ← abiUint 32 config.scale
    let protocolVersion ← abiString config.protocolVersion
    pure {
      votingStart, votingEnd, selfSubmitFee, numCandidates, budget
      mode := modeToU8 config.mode
      variant := variantToU8 config.variant
      weighted := config.weighted
      scale
      duplicatePolicy := dupToU8 config.duplicatePolicy
      protocolVersion
      pkWR := config.eligibilityKey
      resultPublisher, voteProxy }

def configFromView (v : ElectionConfigView) : Py ElectionConfig := do
  let electionId ← toBytes v.electionId 32
  let mode ← fromU8 [Mode.exact, .atMost] modeToU8 v.mode
  let variant ← fromU8 [Variant.A, .B] variantToU8 v.variant
  let duplicatePolicy ← fromU8 [DuplicatePolicy.firstWins, .lastWins] dupToU8 v.duplicatePolicy
  let threshold ← mkThreshold v.thresholdT v.thresholdN
  ConfigFields.check {
    electionId
    numCandidates := v.numCandidates
    budget := v.budget
    mode, variant
    weighted := v.weighted
    scale := v.scale
    duplicatePolicy
    votingStart := v.votingStart
    votingEnd := v.votingEnd
    threshold
    keypers := List.zipWith KeyperIdentity.mk v.keyperAddresses (v.keyperURLs.map pyStr)
    eligibilityKey := v.pkWR
    resultPublisherKey := v.resultPublisher
    gatewayKeys := [v.voteProxy]
    adminKey := v.adminAddr
    protocolVersion := pyStr v.protocolVersion
    selfSubmitFeeWei := v.selfSubmitFee }

/-- The id the registry has given the election, and the registry after it. -/
def registerElectionOnChain (atRead atPublish : Registry) (account : Bytes) (config : ElectionConfig) :
    Py (Bytes × Registry) := do
  let expected ← toBytes (atRead.electionCount + 1 : Nat) 32
  if config.electionId ≠ expected then
    .error (.immutability (s!"register: expected election id {hex config.electionId} but the next id is " ++
      s!"{hex expected} — the sequence moved on; re-read it and sign again"))
  else do
    let members ← config.keypers.mapM fun k => toChecksumAddress k.signingKey
    let urls ← config.keypers.mapM fun k => abiString k.url
    let quorum ← abiUint 64 config.threshold.t
    let ks ← send (CommitteeSet.deploy members urls quorum)
    let params ← configToParams config
    let (id, after) ← send (publishElection atPublish account ks params)
    let id ← toBytes id 32
    pure (id, after)

/-- The election under an id; the zero address is none. -/
def electionOf {α : Type} (elections : Nat → Option α) (electionId : Bytes) : Py α := do
  let id ← abiUint 256 (beNat electionId)
  match elections id with
  | none => .error (.keyError s!"unknown election {hex electionId}")
  | some election => pure election

/-- The record an election's answers are read as. -/
def electionRecordOf (election : Instance) : Py ElectionRecord := do
  let (configRaw, dkgRaw) := election.getElection
  let config ← configFromView configRaw
  pure {
    config
    cancelled := configRaw.cancelled
    finalizedKey := if election.storage.dkgFinalized then some ⟨dkgRaw.1, dkgRaw.2⟩ else none
    tallyStalled := election.tallyStalled }

def getElectionOnChain (r : Registry) (electionId : Bytes) : Py ElectionRecord := do
  let election ← electionOf r.elections electionId
  electionRecordOf election

/-! ## What was sent -/

theorem pyStr_textOf {s : PyStr} {text : String} (h : textOf s = some text) : pyStr text = s := by
  rw [textOf, Option.map_eq_some_iff] at h
  obtain ⟨cs, hcs, rfl⟩ := h
  rw [pyStr, String.toList_ofList]
  rw [mapM_option_eq_some] at hcs
  induction hcs with
  | nil => rfl
  | @cons ch c cs s hhead _ ih =>
    rw [List.map_cons, ih]
    by_cases hvalid : c.isValidChar
    · rw [dif_pos hvalid] at hhead
      cases hhead
      rw [show (Char.ofNatAux c hvalid).toNat = c from rfl]
    · rw [dif_neg hvalid] at hhead
      cases hhead

theorem abiString_eq_ok {s : PyStr} {text : String} (h : abiString s = .ok text) : pyStr text = s := by
  unfold abiString at h
  split at h
  · rename_i t ht
    cases h
    exact pyStr_textOf ht
  · cases h

theorem toChecksumAddress_eq_ok {b a : Bytes} (h : toChecksumAddress b = .ok a) : a = b := by
  unfold toChecksumAddress at h
  split at h
  · cases h
    rfl
  · cases h

theorem send_eq_ok {α : Type} {x : Except Revert α} {a : α} (h : send x = .ok a) : x = .ok a := by
  unfold send at h
  split at h
  · cases h
    rfl
  · cases h

theorem members_eq {keypers : List KeyperIdentity} {members : List Bytes}
    (h : (keypers.mapM fun k => toChecksumAddress k.signingKey) = .ok members) :
    members = keypers.map KeyperIdentity.signingKey := by
  have hmap : members.map id = keypers.map KeyperIdentity.signingKey :=
    map_eq_of_forall₂ (mapM_eq_ok.mp h) fun k _ member hmember => toChecksumAddress_eq_ok hmember
  rwa [List.map_id] at hmap

theorem urls_eq {keypers : List KeyperIdentity} {urls : List String}
    (h : (keypers.mapM fun k => abiString k.url) = .ok urls) :
    urls.map pyStr = keypers.map KeyperIdentity.url :=
  map_eq_of_forall₂ (mapM_eq_ok.mp h) fun _ _ _ hurl => abiString_eq_ok hurl

/-- The parameters are the fields of the configuration, but for the keys after the first. -/
structure ParamsOf (config : ElectionConfig) (params : ElectionParams) : Prop where
  votingStart : config.votingStart = params.votingStart
  votingEnd : config.votingEnd = params.votingEnd
  selfSubmitFee : config.selfSubmitFeeWei = params.selfSubmitFee
  numCandidates : config.numCandidates = params.numCandidates
  budget : config.budget = params.budget
  mode : params.mode = modeToU8 config.mode
  variant : params.variant = variantToU8 config.variant
  weighted : params.weighted = config.weighted
  scale : config.scale = params.scale
  duplicatePolicy : params.duplicatePolicy = dupToU8 config.duplicatePolicy
  protocolVersion : pyStr params.protocolVersion = config.protocolVersion
  pkWR : params.pkWR = config.eligibilityKey
  resultPublisher : params.resultPublisher = config.resultPublisherKey
  voteProxy : ∃ others, config.gatewayKeys = params.voteProxy :: others

theorem configToParams_eq_ok {config : ElectionConfig} {params : ElectionParams}
    (h : configToParams config = .ok params) : ParamsOf config params := by
  unfold configToParams at h
  split at h
  · cases h
  · rename_i voteProxy others hkeys
    obtain ⟨resultPublisher, hpublisher, h⟩ := bind_eq_ok.mp h
    obtain ⟨proxy, hproxy, h⟩ := bind_eq_ok.mp h
    obtain ⟨votingStart, hstart, h⟩ := bind_eq_ok.mp h
    obtain ⟨votingEnd, hend, h⟩ := bind_eq_ok.mp h
    obtain ⟨fee, hfee, h⟩ := bind_eq_ok.mp h
    obtain ⟨numCandidates, hnum, h⟩ := bind_eq_ok.mp h
    obtain ⟨budget, hbudget, h⟩ := bind_eq_ok.mp h
    obtain ⟨scale, hscale, h⟩ := bind_eq_ok.mp h
    obtain ⟨version, hversion, h⟩ := bind_eq_ok.mp h
    cases h
    exact {
      votingStart := abiUint_eq_ok hstart
      votingEnd := abiUint_eq_ok hend
      selfSubmitFee := Int.ofNat.inj (abiUint_eq_ok hfee)
      numCandidates := Int.ofNat.inj (abiUint_eq_ok hnum)
      budget := Int.ofNat.inj (abiUint_eq_ok hbudget)
      mode := rfl
      variant := rfl
      weighted := rfl
      scale := Int.ofNat.inj (abiUint_eq_ok hscale)
      duplicatePolicy := rfl
      protocolVersion := abiString_eq_ok hversion
      pkWR := rfl
      resultPublisher := toChecksumAddress_eq_ok hpublisher
      voteProxy := ⟨others, by rw [hkeys, toChecksumAddress_eq_ok hproxy]⟩ }

/-- What a registration that returned has put into the registry. -/
theorem registerElectionOnChain_eq_ok {atRead atPublish after : Registry} {account id : Bytes} {config : ElectionConfig}
    (h : registerElectionOnChain atRead atPublish account config = .ok (id, after)) :
    ∃ n ks params, config.electionId = beBytes 32 (atRead.electionCount + 1) ∧
      atRead.electionCount + 1 < 2 ^ 256 ∧ n = atPublish.electionCount + 1 ∧ n < 2 ^ 256 ∧ id = beBytes 32 n ∧
      ks.members = config.keypers.map KeyperIdentity.signingKey ∧
      ks.urls.map pyStr = config.keypers.map KeyperIdentity.url ∧ ks.threshold = config.threshold.t ∧
      ParamsOf config params ∧ after.Holds n ⟨n, ks, account, params⟩ := by
  obtain ⟨expected, hexpected, h⟩ := bind_eq_ok.mp h
  split at h
  · cases h
  · rename_i hid
    obtain ⟨members, hmembers, h⟩ := bind_eq_ok.mp h
    obtain ⟨urls, hurls, h⟩ := bind_eq_ok.mp h
    obtain ⟨quorum, hquorum, h⟩ := bind_eq_ok.mp h
    obtain ⟨ks, hks, h⟩ := bind_eq_ok.mp h
    obtain ⟨params, hparams, h⟩ := bind_eq_ok.mp h
    obtain ⟨⟨n, after'⟩, hpublish, h⟩ := bind_eq_ok.mp h
    obtain ⟨idBytes, hidBytes, h⟩ := bind_eq_ok.mp h
    cases h
    obtain ⟨-, hlt, rfl⟩ := toBytes_eq_ok hexpected
    obtain ⟨-, -, rfl⟩ := toBytes_eq_ok hidBytes
    obtain ⟨hks1, hks2, hks3⟩ := CommitteeSet.deploy_eq_ok (send_eq_ok hks)
    obtain ⟨hn, hnlt, hcount, helections⟩ := publishElection_eq_ok (send_eq_ok hpublish)
    refine ⟨n, ks, params, not_not.mp hid, by omega, hn, hnlt, rfl, ?_, ?_, ?_, configToParams_eq_ok hparams, ?_⟩
    · rw [hks1, members_eq hmembers]
    · rw [hks2, urls_eq hurls]
    · rw [hks3]
      exact (Int.ofNat.inj (abiUint_eq_ok hquorum)).symm
    · have helection : after.elections n = some { fixed := ⟨n, ks, account, params⟩ } := by
        rw [helections, Function.update_self]
      exact ⟨hcount.ge, _, helection, rfl⟩

/-! ## What is read back -/

/-- The configuration the contract knows: under the number it has given, with the first key only. -/
def ElectionConfig.onChain (config : ElectionConfig) (n : Nat) (voteProxy : Bytes) : ElectionConfig :=
  { config with electionId := beBytes 32 n, gatewayKeys := [voteProxy] }

theorem fromU8_mode (m : Mode) : fromU8 [Mode.exact, .atMost] modeToU8 (modeToU8 m) = .ok m := by
  cases m <;> rfl

theorem fromU8_variant (v : Variant) : fromU8 [Variant.A, .B] variantToU8 (variantToU8 v) = .ok v := by
  cases v <;> rfl

theorem fromU8_dup (p : DuplicatePolicy) :
    fromU8 [DuplicatePolicy.firstWins, .lastWins] dupToU8 (dupToU8 p) = .ok p := by
  cases p <;> rfl

theorem zipWith_keypers {keypers : List KeyperIdentity} {urls : List String}
    (hurls : urls.map pyStr = keypers.map KeyperIdentity.url) :
    List.zipWith KeyperIdentity.mk (keypers.map KeyperIdentity.signingKey) (urls.map pyStr) = keypers := by
  rw [hurls, List.zipWith_map, List.zipWith_self]
  exact List.map_id keypers

theorem configFromView_getElection {config : ElectionConfig} {params : ElectionParams} {n : Nat} {ks : CommitteeSet}
    {i : Instance} (hi : i.fixed = ⟨n, ks, config.adminKey, params⟩) (hn : n < 2 ^ 256)
    (hmembers : ks.members = config.keypers.map KeyperIdentity.signingKey)
    (hurls : ks.urls.map pyStr = config.keypers.map KeyperIdentity.url)
    (hthreshold : ks.threshold = config.threshold.t) (hparams : ParamsOf config params) :
    configFromView i.getElection.1 = .ok (config.onChain n params.voteProxy) := by
  have hid : toBytes (n : Int) 32 = .ok (beBytes 32 n) := toBytes_ok (by omega) (by omega)
  have hsize : ks.members.length = config.threshold.n := by
    rw [hmembers, List.length_map, config.length_keypers]
  -- each field of the view is the one of the configuration
  rw [configFromView]
  simp only [Instance.getElection, hi, hid, hparams.mode, hparams.variant, hparams.duplicatePolicy, hthreshold,
    hsize, fromU8_mode, fromU8_variant, fromU8_dup, mkThreshold_of, ok_bind]
  refine Eq.trans (congrArg ConfigFields.check ?_) (check_fields (config.onChain n params.voteProxy))
  simp only [ElectionConfig.fields, ElectionConfig.onChain, hmembers, zipWith_keypers hurls, hparams.votingStart,
    hparams.votingEnd, hparams.selfSubmitFee, hparams.numCandidates, hparams.budget, hparams.weighted,
    hparams.scale, hparams.protocolVersion, hparams.pkWR, hparams.resultPublisher]

theorem onChain_eq_self_iff {config : ElectionConfig} {n m : Nat} {voteProxy : Bytes} {others : List Bytes}
    (hid : config.electionId = beBytes 32 m) (hn : n < 2 ^ 256) (hm : m < 2 ^ 256)
    (hkeys : config.gatewayKeys = voteProxy :: others) :
    config.onChain n voteProxy = config ↔ config.gatewayKeys.length = 1 ∧ n = m := by
  have hbytes : beBytes 32 n = beBytes 32 m ↔ n = m := ⟨beBytes_inj hn hm, fun h => h ▸ rfl⟩
  have hothers : [voteProxy] = voteProxy :: others ↔ config.gatewayKeys.length = 1 := by
    rw [hkeys]
    simp [eq_comm]
  rw [← hothers, ← hbytes, ← hkeys, ← hid]
  refine ⟨fun h => ⟨congrArg ElectionConfig.gatewayKeys h, congrArg ElectionConfig.electionId h⟩, fun h => ?_⟩
  rw [ElectionConfig.onChain, h.1, h.2]

/-- What is read back after a registration, whatever happens on chain in between. -/
theorem getElectionOnChain_registered {atRead atPublish after later : Registry} {account id : Bytes}
    {config : ElectionConfig} (h : registerElectionOnChain atRead atPublish account config = .ok (id, after))
    (hadmin : config.adminKey = account) (hrun : Relation.ReflTransGen RegistryStep after later) :
    ∃ record voteProxy others, getElectionOnChain later id = .ok record ∧
      config.gatewayKeys = voteProxy :: others ∧
      record.config = config.onChain (atPublish.electionCount + 1) voteProxy := by
  subst hadmin
  obtain ⟨n, ks, params, -, -, hn, hlt, rfl, hmembers, hurls, hthreshold, hparams, hholds⟩ :=
    registerElectionOnChain_eq_ok h
  obtain ⟨-, i, hi, hfixed⟩ := hholds.run hrun
  obtain ⟨others, hkeys⟩ := hparams.voteProxy
  have hconfig := configFromView_getElection hfixed hlt hmembers hurls hthreshold hparams
  have helection : electionOf later.elections (beBytes 32 n) = .ok i := by
    rw [electionOf, beNat_beBytes 32 n hlt, abiUint, if_pos ⟨by omega, by omega⟩, ok_bind]
    simp only [Int.toNat_natCast, hi]
    rfl
  let record : ElectionRecord := {
    config := config.onChain n params.voteProxy
    cancelled := i.getElection.1.cancelled
    finalizedKey := if i.storage.dkgFinalized then some ⟨i.getElection.2.1, i.getElection.2.2⟩ else none
    tallyStalled := i.tallyStalled }
  refine ⟨record, params.voteProxy, others, ?_, hkeys, by rw [← hn]⟩
  rw [getElectionOnChain, helection, ok_bind, electionRecordOf]
  simp only [hconfig, ok_bind]
  rfl

/-- A registered election is read back as it was registered when it had a single gateway key and
    nobody published between the count and the publication, and only then. -/
theorem chain_config_reads_back_iff {atRead atPublish after later : Registry} {account id : Bytes}
    {config : ElectionConfig} (h : registerElectionOnChain atRead atPublish account config = .ok (id, after))
    (hadmin : config.adminKey = account) (hrun : Relation.ReflTransGen RegistryStep after later) :
    ∃ record, getElectionOnChain later id = .ok record ∧
      (record.config = config ↔
        config.gatewayKeys.length = 1 ∧ atPublish.electionCount = atRead.electionCount) := by
  obtain ⟨n, ks, params, hid, hread, rfl, hlt, -⟩ := registerElectionOnChain_eq_ok h
  obtain ⟨record, voteProxy, others, hrecord, hkeys, hconfig⟩ := getElectionOnChain_registered h hadmin hrun
  refine ⟨record, hrecord, ?_⟩
  rw [hconfig, onChain_eq_self_iff hid hlt hread hkeys]
  omega

/-- An election of three keypers that can be put on chain, with the gateway keys it is given. -/
def chainSample (gatewayKeys : List Bytes) : ElectionConfig :=
  { smallConfig with
    keypers := [⟨beBytes 20 1, []⟩, ⟨beBytes 20 2, []⟩, ⟨beBytes 20 3, []⟩]
    resultPublisherKey := beBytes 20 4
    gatewayKeys
    adminKey := beBytes 20 5
    length_keypers := rfl
    nodup_keys := by decide }

theorem exists_registry_of_id {x : Py (Bytes × Registry)} {id : Bytes} (h : x.toOption.map Prod.fst = some id) :
    ∃ after, x = .ok (id, after) := by
  cases x with
  | error e => cases h
  | ok p =>
    cases h
    exact ⟨p.2, rfl⟩

theorem chain_config_reads_back_single : ∃ after record,
    registerElectionOnChain { hasAdminRole := fun _ => true } { hasAdminRole := fun _ => true } (beBytes 20 5)
      (chainSample [beBytes 20 6]) = .ok (beBytes 32 1, after) ∧
    getElectionOnChain after (beBytes 32 1) = .ok record ∧ record.config = chainSample [beBytes 20 6] := by
  obtain ⟨after, hafter⟩ : ∃ after, registerElectionOnChain { hasAdminRole := fun _ => true }
      { hasAdminRole := fun _ => true } (beBytes 20 5) (chainSample [beBytes 20 6]) = .ok (beBytes 32 1, after) :=
    exists_registry_of_id (by decide +kernel)
  obtain ⟨record, hrecord, hiff⟩ := chain_config_reads_back_iff hafter rfl .refl
  exact ⟨after, record, hafter, hrecord, hiff.mpr ⟨rfl, rfl⟩⟩

/-- The second of two gateway keys is lost. -/
theorem chain_config_second_key_lost : ∃ after record,
    registerElectionOnChain { hasAdminRole := fun _ => true } { hasAdminRole := fun _ => true } (beBytes 20 5)
      (chainSample [beBytes 20 6, beBytes 20 7]) = .ok (beBytes 32 1, after) ∧
    (chainSample [beBytes 20 6, beBytes 20 7]).adminKey = beBytes 20 5 ∧
    getElectionOnChain after (beBytes 32 1) = .ok record ∧
    record.config.gatewayKeys = [beBytes 20 6] ∧ record.config ≠ chainSample [beBytes 20 6, beBytes 20 7] := by
  obtain ⟨after, hafter⟩ : ∃ after, registerElectionOnChain { hasAdminRole := fun _ => true }
      { hasAdminRole := fun _ => true } (beBytes 20 5) (chainSample [beBytes 20 6, beBytes 20 7]) =
        .ok (beBytes 32 1, after) :=
    exists_registry_of_id (by decide +kernel)
  obtain ⟨record, voteProxy, others, hrecord, hkeys, hconfig⟩ := getElectionOnChain_registered hafter rfl .refl
  have hone : record.config.gatewayKeys = [beBytes 20 6] := by
    rw [hconfig, (List.cons.inj hkeys).1]
    rfl
  refine ⟨after, record, hafter, rfl, hrecord, hone, fun hsame => ?_⟩
  rw [hsame] at hone
  cases (List.cons.inj hone).2

end ElGamalVoting
