import ElGamalVoting.Services.CredentialSafety
import ElGamalVoting.Services.KeyperPersistence

/- The credential bundles as bytes (`services/keyper/keyper_bootstrap.py`, `bootstrap` and
   `_require_bearer` of `services/keyper/keyper_server.py`, the tokens of
   `services/keyper/keyper_persistence.py`).

   `Services.Credentials` has bundles as values. Here a bundle is a JSON object, signed over its
   canonical bytes, sealed, opened, parsed and checked again, and what it installs is written to a
   file and read at the next start. A keyper of bytes then behaves as the keyper of
   `Services.Credentials` does on the same bundles (`wire_keyper_refines`): it answers every request
   alike and calls its peers with the same tokens, over restarts and lost directories, whatever
   other bytes are posted to it.

   Sealing, Fernet and the signatures are those of the libraries: a box opens with its own key
   alone, and a signature of the coordinator names it. -/
namespace ElGamalVoting.Credentials
open Lib

/-! ## The signed payload -/

def bootstrapDst : Bytes := utf8 "SHUTTER-GOVERNANCE-PROTOCOL-KEYPER-TOKEN-BOOTSTRAP-v1"

def payloadDigest (E : EthLib) (payload : Json) : Bytes := E.keccak (bootstrapDst ++ payload.dumps)

def signPayload (E : EthLib) (signer : Signer) (payload : Json) : Py Bytes :=
  signDigest E signer.privateKey (payloadDigest E payload)

def verifyPayload (E : EthLib) (trusted : List Bytes) (payload : Json) (signature : Bytes) : Bool :=
  match E.recoverMessage (payloadDigest E payload) signature with
  | some address => address ∈ trusted
  | none => false

/-- What the libraries decide. -/
structure WireLib extends AtRest where
  eth : EthLib
  /-- `x25519_seal`, which draws a key and a nonce. -/
  box : Nat → EncKey → Bytes → Bytes
  /-- `x25519_unseal`, `none` where it raises. -/
  unbox : EncKey → Bytes → Option Bytes
  /-- The key at `/status`, and its signature. -/
  encPubkey : EncKey → PyStr
  encPubkeySig : EncKey → PyStr

structure WireLib.Documented (lib : WireLib) (coordinator : Signer) : Prop extends
    lib.toAtRest.Documented where
  opens : ∀ draw key data, lib.unbox key (lib.box draw key data) = some data
  closed : ∀ draw key key' data, key' ≠ key → lib.unbox key' (lib.box draw key data) = none
  signs : ∀ digest, ∃ sig, signDigest lib.eth coordinator.privateKey digest = .ok sig ∧
    lib.eth.recoverMessage digest sig = some (coordinator.identity lib.eth)

def optionJson (s : Option PyStr) : Json := (s.map Json.str).getD .null

section
variable (lib : WireLib)

def peerFields (p : Peer) : List (PyStr × Json) :=
  [(pyStr "url", .str p.url), (pyStr "token", .str p.token.text),
    (pyStr "enc_pubkey", .str (lib.encPubkey p.key)), (pyStr "enc_pubkey_sig", .str (lib.encPubkeySig p.key))]

def peerJson (p : Peer) : Json := .obj (peerFields lib p)

def peersJson (peers : List (Nat × Peer)) : Json :=
  .obj (peers.map fun p => (pyStr (toString p.1), peerJson lib p.2))

/-- The payload of `bootstrap_keypers`. -/
def payloadFields (b : Bundle) : List (PyStr × Json) :=
  [(pyStr "api_token", .str b.credential.apiToken.text), (pyStr "peer_token", .str b.credential.peerToken.text),
    (pyStr "relay_token", optionJson b.relayToken), (pyStr "peers", peersJson lib b.peers),
    (pyStr "nonce", .str b.nonce), (pyStr "timestamp", .int b.timestamp)]

def payloadJson (b : Bundle) : Json := .obj (payloadFields lib b)

end

/-! ## The keyper -/

/-- `installed`, as Python values. -/
structure WireInstalled where
  apiToken : Json := .null
  peerToken : Json := .null
  relayToken : Json := .null
  peers : Json := .obj []

structure WireKeyper where
  installed : WireInstalled := {}
  /-- `bootstrap_tokens.enc`, `none` where it is missing. -/
  file : Option Bytes := none
  tracker : NonceTracker := { windowS := nonceWindowS }
  generation : Nat := 0

def tokensJson (w : WireInstalled) : Json :=
  .obj [(pyStr "api_token", w.apiToken), (pyStr "peer_token", w.peerToken), (pyStr "peers", w.peers),
    (pyStr "relay_token", w.relayToken)]

/-- `_require_bearer`: the status a request is refused with. -/
def WireInstalled.requireBearer (w : WireInstalled) (peer : Bool) (header : PyStr) : Option Nat :=
  match w.apiToken with
  | .null => some 503
  | _ =>
    match (if peer then w.peerToken else w.apiToken) with
    | .str expected =>
      match tokensEqual (presentedIn header) expected with
      | .ok true => none
      | .ok false => some 401
      | .error _ => some 500
    -- a token that is no text is unequal
    | _ => some 401

/-- The url and the token `_post_peer` calls a peer with, `none` where it raises. -/
def WireInstalled.peerTarget (w : WireInstalled) (index : Nat) : Option (PyStr × PyStr) :=
  match Http.subscript w.peers (toString index) with
  | .ok peer =>
    match Http.subscript peer "url", Http.subscript peer "token" with
    | .ok (.str url), .ok (.str token) => some (url, token)
    | _, _ => none
  | .error _ => none

section
variable (lib : WireLib)

def saveBootstrapTokens (draw : Nat) (w : WireInstalled) : Bytes :=
  lib.encrypt draw (asciiBytes ((tokensJson w).render [0x20]))

/-- `load_bootstrap_tokens` at the start; whatever is wrong with the file is logged. -/
def loadBootstrapTokens (file : Option Bytes) : WireInstalled :=
  match (file.bind lib.decrypt).bind decodeUtf8 with
  | none => {}
  | some text =>
    match jsonLoads lib.depth text with
    | .ok tokens =>
      { apiToken := getOr tokens "api_token" .null
        peerToken := getOr tokens "peer_token" .null
        relayToken := getOr tokens "relay_token" .null
        peers := getOr tokens "peers" (.obj []) }
    | .error _ => {}

/-- The last part of `bootstrap`, under the lock: an assignment stays when a later one raises. -/
def WireKeyper.install (k : WireKeyper) (draw : Nat) (payload : Json) : WireKeyper × Nat :=
  match Http.subscript payload "api_token" with
  | .error _ => (k, 500)
  | .ok api =>
    let w := { k.installed with apiToken := .str (strOf lib.conv api) }
    match Http.subscript payload "peer_token" with
    | .error _ => ({ k with installed := w }, 500)
    | .ok peer =>
      let w := { w with peerToken := .str (strOf lib.conv peer) }
      match Http.subscript payload "peers" with
      | .ok (.obj peers) =>
        let w := { w with peers := .obj peers }
        let relay := getOr payload "relay_token" .null
        let w := if truthy relay then { w with relayToken := .str (strOf lib.conv relay) } else w
        ({ k with installed := w, file := some (saveBootstrapTokens lib draw w) }, 200)
      | _ => ({ k with installed := w }, 500)

/-- The replay guard on a payload of the coordinator. -/
def WireKeyper.accept (k : WireKeyper) (now : ℚ) (draw : Nat) (payload : Json) : WireKeyper × Nat :=
  match Http.getField payload "nonce" with
  | .error _ => (k, 500)
  | .ok _ =>
    match getOr payload "nonce" (.str []), intOf lib.conv (getOr payload "timestamp" (.int 0)) with
    | .str nonce, .ok timestamp =>
      match k.tracker.checkAndRecord now nonce timestamp with
      | (tracker, .ok true) => WireKeyper.install lib { k with tracker } draw payload
      | (tracker, .ok false) => ({ k with tracker }, 401)
      | (tracker, .error _) => ({ k with tracker }, 500)
    | _, _ => (k, 500)

/-- The payload an envelope opens to, `none` where opening or parsing it raises. -/
def opened (key : EncKey) (envelope : Bytes) : Option Json :=
  ((lib.unbox key envelope).bind decodeUtf8).bind fun text => (jsonLoads lib.depth text).toOption

/-- `bootstrap`, on the two fields of its body. -/
def WireKeyper.bootstrap (trusted : List Bytes) (address : Bytes) (k : WireKeyper) (now : ℚ) (draw : Nat)
    (envelope signature : Bytes) : WireKeyper × Nat :=
  match opened lib ⟨address, k.generation⟩ envelope with
  | none => (k, 400)
  | some payload =>
    if verifyPayload lib.eth trusted payload signature then k.accept lib now draw payload else (k, 401)

def WireKeyper.restart (k : WireKeyper) : WireKeyper where
  installed := loadBootstrapTokens lib k.file
  file := k.file
  generation := k.generation

omit lib in
def WireKeyper.lose (k : WireKeyper) : WireKeyper where
  generation := k.generation + 1

/-! ## Runs of one keyper -/

inductive WireEvent where
  /-- A bundle of the coordinator arrives, with the draws of its sealing and of the file's. -/
  | deliver (e : Envelope) (now : ℚ) (sealing saving : Nat)
  /-- Anything else is posted. -/
  | post (envelope signature : Bytes) (now : ℚ) (saving : Nat)
  | restart
  | lose

variable (coordinator : Signer) (trusted : List Bytes) (address : Bytes)

def WireKeyper.step (k : WireKeyper) : WireEvent → WireKeyper
  | .deliver e now sealing saving =>
    match signPayload lib.eth coordinator (payloadJson lib e.bundle) with
    | .ok signature =>
      (k.bootstrap lib trusted address now saving (lib.box sealing e.key (payloadJson lib e.bundle).dumps)
        signature).1
    | .error _ => k
  | .post envelope signature now saving => (k.bootstrap lib trusted address now saving envelope signature).1
  | .restart => k.restart lib
  | .lose => k.lose

omit lib coordinator trusted in
/-- The same on the keyper of `Services.Credentials`. -/
def Keyper.wireStep (k : Keyper) : WireEvent → Keyper
  | .deliver e now _ _ => if e.key = ⟨address, k.generation⟩ then k.bootstrap now e.bundle else k
  | .post _ _ _ _ => k
  | .restart => k.restart
  | .lose => k.lose

omit coordinator in
/-- The coordinator's bundles are texts the interpreter reads, with one entry for each peer; the payload
    that anything else opens to is not what a trusted identity signed. A bundle that is posted again, as
    it was or sealed anew, is a delivery again. -/
def WireEvent.Honest : WireEvent → Prop
  | .deliver e _ _ _ => (payloadJson lib e.bundle).canon.readable lib.depth = true ∧
      (e.bundle.peers.map Prod.fst).Nodup
  | .post envelope signature _ _ => ∀ generation payload, opened lib ⟨address, generation⟩ envelope = some payload →
      verifyPayload lib.eth trusted payload signature = false
  | _ => True

end

/-! ## Fields of a canonical object -/

theorem nodup_sorted {fields : List (PyStr × Json)} (h : (fields.map Prod.fst).Nodup) :
    (((Json.canonFields fields).insertionSort fun a b => keyLe a.1 b.1).map Prod.fst).Nodup := by
  rw [((List.perm_insertionSort _ _).map Prod.fst).nodup_iff]
  exact Frontend.nodup_canonFields h

/-- Sorting changes no field but the order of those inside it. -/
theorem lookup_sorted {fields : List (PyStr × Json)} (h : (fields.map Prod.fst).Nodup) (key : String) :
    Json.lookup ((Json.canonFields fields).insertionSort fun a b => keyLe a.1 b.1) key =
      (Json.lookup fields key).map Json.canon := by
  cases hlook : Json.lookup fields key with
  | some v =>
    refine Frontend.lookup_of_mem (nodup_sorted h) ?_
    rw [List.mem_insertionSort, Frontend.canonFields_map]
    exact List.mem_map.mpr ⟨_, Frontend.mem_of_lookup hlook, rfl⟩
  | none =>
    rw [Option.map_none, Option.eq_none_iff_forall_ne_some]
    intro w hw
    have hmem := Frontend.mem_of_lookup hw
    rw [List.mem_insertionSort, Frontend.canonFields_map] at hmem
    obtain ⟨f, hf, heq⟩ := List.mem_map.mp hmem
    cases f with
    | mk name v =>
      cases heq
      rw [Frontend.lookup_of_mem h hf] at hlook
      cases hlook

theorem lookup_eq_some_iff {peers : List (Nat × Peer)} (h : (peers.map Prod.fst).Nodup) {i : Nat} {p : Peer} :
    peers.lookup i = some p ↔ (i, p) ∈ peers := by
  induction peers with
  | nil => simp
  | cons q peers ih =>
    rw [List.map_cons, List.nodup_cons] at h
    obtain ⟨j, q⟩ := q
    by_cases hij : i = j
    · subst hij
      have hnot : (i, p) ∉ peers := fun hmem => h.1 (List.mem_map.mpr ⟨_, hmem, rfl⟩)
      simp [hnot, eq_comm]
    · have hbeq : (i == j) = false := beq_eq_false_iff_ne.mpr hij
      simp [List.lookup_cons, hbeq, ih h.2, hij]

theorem index_inj {i j : Nat} (h : pyStr (toString i) = pyStr (toString j)) : i = j := by
  have hi := intOfStr_toString i
  rw [h, intOfStr_toString j, Option.some.injEq] at hi
  exact_mod_cast hi.symm

section
variable (lib : WireLib)

theorem nodup_peers {peers : List (Nat × Peer)} (h : (peers.map Prod.fst).Nodup) :
    ((peers.map fun p => (pyStr (toString p.1), peerJson lib p.2)).map Prod.fst).Nodup := by
  rw [List.map_map]
  have hinj : Function.Injective fun i : Nat => pyStr (toString i) := fun i j hij => index_inj hij
  have hmapped := h.map hinj
  rwa [List.map_map] at hmapped

theorem lookup_peers {peers : List (Nat × Peer)} (h : (peers.map Prod.fst).Nodup) (i : Nat) :
    Json.lookup (peers.map fun p => (pyStr (toString p.1), peerJson lib p.2)) (toString i) =
      (peers.lookup i).map (peerJson lib) := by
  cases hlook : peers.lookup i with
  | some p =>
    refine Frontend.lookup_of_mem (nodup_peers lib h) ?_
    exact List.mem_map.mpr ⟨_, (lookup_eq_some_iff h).mp hlook, rfl⟩
  | none =>
    rw [Option.map_none, Option.eq_none_iff_forall_ne_some]
    intro w hw
    obtain ⟨q, hq, heq⟩ := List.mem_map.mp (Frontend.mem_of_lookup hw)
    obtain rfl : q.1 = i := index_inj (congrArg Prod.fst heq)
    rw [(lookup_eq_some_iff h).mpr hq] at hlook
    cases hlook

/-! ## A keyper of bytes for a keyper of values -/

/-- The Python values stand for what is installed, and the file takes them. -/
structure Shows (inst : Installed) (w : WireInstalled) : Prop where
  api : w.apiToken = optionJson (inst.credential.map fun c => c.apiToken.text)
  peer : w.peerToken = optionJson (inst.credential.map fun c => c.peerToken.text)
  relay : w.relayToken = optionJson inst.relayToken
  peers : ∃ fields, w.peers = .obj fields ∧
    ∀ i : Nat, Json.lookup fields (toString i) = (inst.peers.lookup i).map fun p => (peerJson lib p).canon
  readable : (tokensJson w).readable lib.depth = true

structure Represents (k : Keyper) (w : WireKeyper) : Prop where
  installed : Shows lib k.installed w.installed
  saved : Shows lib (k.saved.getD {}) (loadBootstrapTokens lib w.file)
  tracker : w.tracker = k.tracker
  generation : w.generation = k.generation

theorem nodup_peerFields (p : Peer) : ((peerFields lib p).map Prod.fst).Nodup := by
  have hnames : (["url", "token", "enc_pubkey", "enc_pubkey_sig"].map pyStr).Nodup := by decide
  exact hnames

theorem nodup_payloadFields (b : Bundle) : ((payloadFields lib b).map Prod.fst).Nodup := by
  have hnames : (["api_token", "peer_token", "relay_token", "peers", "nonce", "timestamp"].map pyStr).Nodup := by
    decide
  exact hnames

/-- What a payload of the coordinator installs. -/
def installedBy (w : WireInstalled) (b : Bundle) : WireInstalled where
  apiToken := .str b.credential.apiToken.text
  peerToken := .str b.credential.peerToken.text
  relayToken := if b.relayToken.getD [] = [] then w.relayToken else optionJson b.relayToken
  peers := (peersJson lib b.peers).canon

variable {lib}

/-- A request is answered alike. -/
theorem Shows.requireBearer {k : Keyper} {w : WireInstalled} (h : Shows lib k.installed w) (peer : Bool)
    (header : PyStr) : w.requireBearer peer header = k.requireBearer peer header := by
  rw [WireInstalled.requireBearer, h.api, h.peer, Keyper.requireBearer]
  cases k.installed.credential with
  | none => rfl
  | some cred => cases peer <;> rfl

variable (lib) in
theorem canon_peerJson (p : Peer) : ∃ fields, (peerJson lib p).canon = .obj fields ∧
    Json.lookup fields "url" = some (.str p.url) ∧ Json.lookup fields "token" = some (.str p.token.text) := by
  refine ⟨_, by rw [peerJson, Json.canon], ?_, ?_⟩
  · rw [lookup_sorted (nodup_peerFields lib p)]
    rfl
  · rw [lookup_sorted (nodup_peerFields lib p)]
    rfl

/-- A peer is called at its url with its token. -/
theorem Shows.peerTarget {inst : Installed} {w : WireInstalled} (h : Shows lib inst w) (i : Nat) :
    w.peerTarget i = (inst.peers.lookup i).map fun p => (p.url, p.token.text) := by
  obtain ⟨fields, hpeers, hlook⟩ := h.peers
  rw [WireInstalled.peerTarget, hpeers, Http.subscript, hlook i]
  cases inst.peers.lookup i with
  | none => rfl
  | some p =>
    obtain ⟨fields', hcanon, hurl, htoken⟩ := canon_peerJson lib p
    simp only [Option.map_some, hcanon, Http.subscript, hurl, htoken]

/-! ## A bundle arrives -/

theorem subscript_canon {fields : List (PyStr × Json)} (h : (fields.map Prod.fst).Nodup) {key : String} {v : Json}
    (hv : Json.lookup fields key = some v) : Http.subscript (Json.obj fields).canon key = .ok v.canon := by
  rw [Json.canon, Http.subscript, lookup_sorted h, hv, Option.map_some]

theorem getOr_canon {fields : List (PyStr × Json)} (h : (fields.map Prod.fst).Nodup) {key : String} {v : Json}
    (hv : Json.lookup fields key = some v) (default : Json) : getOr (Json.obj fields).canon key default = v.canon := by
  rw [Json.canon, getOr, lookup_sorted h, hv, Option.map_some, Option.getD_some]

theorem readable_field {fields : List (PyStr × Json)} {depth : Nat}
    (h : (Json.obj fields).canon.readable (depth + 1) = true) {name : PyStr} {v : Json} (hv : (name, v) ∈ fields) :
    v.canon.readable depth = true := by
  rw [Json.canon, Json.readable, readableFields_iff] at h
  refine (h (name, v.canon) ?_).2
  rw [List.mem_insertionSort, Frontend.canonFields_map]
  exact List.mem_map.mpr ⟨_, hv, rfl⟩

theorem canon_optionJson (s : Option PyStr) : (optionJson s).canon = optionJson s := by
  cases s with
  | none => simp [optionJson, Json.canon]
  | some s => simp [optionJson, Json.canon]

theorem readable_tokensJson {w : WireInstalled} {depth : Nat} : (tokensJson w).readable (depth + 1) = true ↔
    w.apiToken.readable depth = true ∧ w.peerToken.readable depth = true ∧ w.peers.readable depth = true ∧
      w.relayToken.readable depth = true := by
  have hnames : WellPaired (pyStr "api_token") = true ∧ WellPaired (pyStr "peer_token") = true ∧
      WellPaired (pyStr "peers") = true ∧ WellPaired (pyStr "relay_token") = true := by decide
  rw [tokensJson, Json.readable, readableFields_iff]
  simp [hnames]

/-- The file gives the installed values back. -/
theorem loadBootstrapTokens_save (hlib : lib.toAtRest.Documented) {w : WireInstalled}
    (h : (tokensJson w).readable lib.depth = true) (draw : Nat) :
    loadBootstrapTokens lib (some (saveBootstrapTokens lib draw w)) = w := by
  obtain ⟨text, htext, hloads⟩ := Option.map_eq_some_iff.mp (loads_render (show isGap [0x20] = true by decide) h)
  rw [loadBootstrapTokens, saveBootstrapTokens, Option.bind_some, hlib.decrypts, Option.bind_some, htext]
  simp only [hloads]
  rfl

theorem canon_str (s : PyStr) : (Json.str s).canon = .str s := by
  simp [Json.canon]

theorem install_payload (k : WireKeyper) (draw : Nat) (b : Bundle) :
    (k.install lib draw (payloadJson lib b).canon).1 =
      { k with installed := installedBy lib k.installed b
               file := some (saveBootstrapTokens lib draw (installedBy lib k.installed b)) } := by
  have hapi : Http.subscript (payloadJson lib b).canon "api_token" = .ok (.str b.credential.apiToken.text) := by
    rw [← canon_str]
    exact subscript_canon (nodup_payloadFields lib b) rfl
  have hpeer : Http.subscript (payloadJson lib b).canon "peer_token" = .ok (.str b.credential.peerToken.text) := by
    rw [← canon_str]
    exact subscript_canon (nodup_payloadFields lib b) rfl
  have hpeers : Http.subscript (payloadJson lib b).canon "peers" = .ok (peersJson lib b.peers).canon :=
    subscript_canon (nodup_payloadFields lib b) rfl
  have hrelay : getOr (payloadJson lib b).canon "relay_token" .null = optionJson b.relayToken := by
    rw [← canon_optionJson b.relayToken]
    exact getOr_canon (nodup_payloadFields lib b) rfl .null
  rw [WireKeyper.install, hapi, hpeer, hpeers, hrelay]
  simp only [strOf, installedBy]
  rw [peersJson, Json.canon]
  cases b.relayToken with
  | none => rfl
  | some relay =>
    cases relay with
    | nil => rfl
    | cons c relay => rfl

theorem shows_installed {inst : Installed} {w : WireInstalled} (hdeep : 2 ≤ lib.depth) (h : Shows lib inst w) {b : Bundle}
    (hread : (payloadJson lib b).canon.readable lib.depth = true) (hpeers : (b.peers.map Prod.fst).Nodup) :
    Shows lib (inst.accept b) (installedBy lib w b) where
  api := rfl
  peer := rfl
  relay := by
    rw [installedBy, Installed.accept]
    split
    · exact h.relay
    · rfl
  peers := by
    refine ⟨_, by rw [installedBy, peersJson, Json.canon], fun i => ?_⟩
    rw [lookup_sorted (nodup_peers lib hpeers), lookup_peers lib hpeers, Option.map_map]
    rfl
  readable := by
    obtain ⟨depth, hdepth⟩ : ∃ depth, lib.depth = depth + 1 := ⟨lib.depth - 1, by omega⟩
    have hold := h.readable
    rw [hdepth] at hread hold ⊢
    rw [readable_tokensJson] at hold ⊢
    -- every value but a kept relay token is a field of the payload
    have hapi := readable_field hread (.head _)
    have hpeer := readable_field hread (.tail _ (.head _))
    have hmap := readable_field hread (.tail _ (.tail _ (.tail _ (.head _))))
    have hrelay := readable_field hread (.tail _ (.tail _ (.head _)))
    rw [canon_optionJson] at hrelay
    refine ⟨hapi, hpeer, hmap, ?_⟩
    rw [installedBy]
    split
    · exact hold.2.2.2
    · exact hrelay

/-- The replay guard lets both keypers install, or neither. -/
theorem Represents.accept (hlib : lib.toAtRest.Documented) {k : Keyper} {w : WireKeyper} (h : Represents lib k w)
    {b : Bundle} (now : ℚ) (draw : Nat) (hread : (payloadJson lib b).canon.readable lib.depth = true)
    (hpeers : (b.peers.map Prod.fst).Nodup) :
    Represents lib (k.bootstrap now b) (w.accept lib now draw (payloadJson lib b).canon).1 := by
  have hfield : Http.getField (payloadJson lib b).canon "nonce" =
      .ok (getOr (payloadJson lib b).canon "nonce" .null) := by
    rw [payloadJson, Json.canon]
    rfl
  have hnonce : getOr (payloadJson lib b).canon "nonce" (.str []) = .str b.nonce := by
    rw [← canon_str b.nonce]
    exact getOr_canon (nodup_payloadFields lib b) rfl _
  have htime : getOr (payloadJson lib b).canon "timestamp" (.int 0) = .int b.timestamp := by
    have hcanon : (Json.int b.timestamp).canon = .int b.timestamp := by simp [Json.canon]
    rw [← hcanon]
    exact getOr_canon (nodup_payloadFields lib b) rfl _
  rw [WireKeyper.accept, hfield, hnonce, htime]
  simp only [intOf]
  rw [h.tracker, Keyper.bootstrap]
  cases k.tracker.checkAndRecord now b.nonce b.timestamp with
  | mk tracker answer =>
    cases answer with
    | error e => exact ⟨h.installed, h.saved, rfl, h.generation⟩
    | ok fresh =>
      cases fresh with
      | false => exact ⟨h.installed, h.saved, rfl, h.generation⟩
      | true =>
        have hshows := shows_installed hlib.deep h.installed hread hpeers
        simp only [install_payload]
        refine ⟨hshows, ?_, rfl, h.generation⟩
        simp only [loadBootstrapTokens_save hlib hshows.readable]
        exact hshows

/-- A box of the coordinator opens to the payload with its keys sorted. -/
theorem opened_box {coordinator : Signer} (hlib : lib.Documented coordinator) {payload : Json}
    (hread : payload.canon.readable lib.depth = true) (draw : Nat) (key : EncKey) :
    opened lib key (lib.box draw key payload.dumps) = some payload.canon := by
  obtain ⟨text, htext, hloads⟩ := Option.map_eq_some_iff.mp (loads_canonical hread)
  rw [opened, hlib.opens, Option.bind_some, htext, Option.bind_some, hloads]
  rfl

theorem Represents.deliver {coordinator : Signer} {trusted : List Bytes} {address : Bytes}
    (hlib : lib.Documented coordinator) (htrusted : coordinator.identity lib.eth ∈ trusted) {k : Keyper}
    {w : WireKeyper} (h : Represents lib k w) {e : Envelope} {now : ℚ} {sealing saving : Nat}
    (he : (WireEvent.deliver e now sealing saving).Honest lib trusted address) :
    Represents lib (k.wireStep address (.deliver e now sealing saving))
      (w.step lib coordinator trusted address (.deliver e now sealing saving)) := by
  obtain ⟨hread, hpeers⟩ := he
  obtain ⟨signature, hsign, hrecover⟩ := hlib.signs (payloadDigest lib.eth (payloadJson lib e.bundle))
  rw [WireKeyper.step, signPayload, hsign, Keyper.wireStep]
  simp only
  rw [WireKeyper.bootstrap, h.generation]
  by_cases hkey : e.key = ⟨address, k.generation⟩
  · have hverify : verifyPayload lib.eth trusted (payloadJson lib e.bundle).canon signature = true := by
      rw [verifyPayload, payloadDigest, dumps_canon, ← payloadDigest, hrecover]
      exact decide_eq_true htrusted
    rw [if_pos hkey, hkey, opened_box hlib hread]
    simp only [hverify, if_true]
    exact h.accept hlib.toDocumented now saving hread hpeers
  · rw [if_neg hkey, opened, hlib.closed _ _ _ _ (Ne.symm hkey)]
    exact h

/-- Other bytes change nothing. -/
theorem bootstrap_untrusted {trusted : List Bytes} {address : Bytes} (w : WireKeyper) (now : ℚ) (draw : Nat)
    {envelope signature : Bytes}
    (h : ∀ payload, opened lib ⟨address, w.generation⟩ envelope = some payload →
      verifyPayload lib.eth trusted payload signature = false) :
    (w.bootstrap lib trusted address now draw envelope signature).1 = w := by
  rw [WireKeyper.bootstrap]
  cases hopened : opened lib ⟨address, w.generation⟩ envelope with
  | none => rfl
  | some payload =>
    simp only [h payload hopened, Bool.false_eq_true, if_false]

/-- Nothing is installed. -/
theorem shows_start (hdeep : 2 ≤ lib.depth) : Shows lib {} {} where
  api := rfl
  peer := rfl
  relay := rfl
  peers := ⟨[], rfl, fun _ => rfl⟩
  readable := by
    obtain ⟨depth, hdepth⟩ : ∃ depth, lib.depth = depth + 2 := ⟨lib.depth - 2, by omega⟩
    rw [hdepth, readable_tokensJson]
    exact ⟨rfl, rfl, rfl, rfl⟩

section
variable {coordinator : Signer} {trusted : List Bytes} (address : Bytes)

theorem Represents.step (hlib : lib.Documented coordinator) (htrusted : coordinator.identity lib.eth ∈ trusted)
    {k : Keyper} {w : WireKeyper} (h : Represents lib k w) {e : WireEvent} (he : e.Honest lib trusted address) :
    Represents lib (k.wireStep address e) (w.step lib coordinator trusted address e) := by
  cases e with
  | deliver e now sealing saving => exact h.deliver hlib htrusted he
  | post envelope signature now saving =>
    rw [Keyper.wireStep, WireKeyper.step, bootstrap_untrusted w now saving (he w.generation)]
    exact h
  | restart => exact ⟨h.saved, h.saved, rfl, h.generation⟩
  | lose =>
    have hstart := shows_start hlib.deep
    exact ⟨hstart, hstart, rfl, congrArg (· + 1) h.generation⟩

theorem Represents.run (hlib : lib.Documented coordinator) (htrusted : coordinator.identity lib.eth ∈ trusted)
    {k : Keyper} {w : WireKeyper} (h : Represents lib k w) {events : List WireEvent}
    (hevents : ∀ e ∈ events, e.Honest lib trusted address) :
    Represents lib (events.foldl (Keyper.wireStep address) k)
      (events.foldl (WireKeyper.step lib coordinator trusted address) w) := by
  induction events generalizing k w with
  | nil => exact h
  | cons e events ih =>
    have hstep := h.step address hlib htrusted (hevents e List.mem_cons_self)
    exact ih hstep fun e' he' => hevents e' (List.mem_cons_of_mem e he')

/-- In every run the keyper of bytes answers every request as the keyper of values does, and calls every
    peer at the same url with the same token. -/
theorem wire_keyper_refines (hlib : lib.Documented coordinator) (htrusted : coordinator.identity lib.eth ∈ trusted)
    {events : List WireEvent} (hevents : ∀ e ∈ events, e.Honest lib trusted address) :
    (∀ peer header, (events.foldl (WireKeyper.step lib coordinator trusted address) {}).installed.requireBearer peer
        header = (events.foldl (Keyper.wireStep address) {}).requireBearer peer header) ∧
      ∀ i : Nat, (events.foldl (WireKeyper.step lib coordinator trusted address) {}).installed.peerTarget i =
        ((events.foldl (Keyper.wireStep address) {}).installed.peers.lookup i).map fun p => (p.url, p.token.text) := by
  have hstart : Represents lib {} {} :=
    ⟨shows_start hlib.deep, shows_start hlib.deep, rfl, rfl⟩
  have hrun := hstart.run address hlib htrusted hevents
  exact ⟨fun peer header => hrun.installed.requireBearer peer header, fun i => hrun.installed.peerTarget i⟩

end
end

namespace CredentialSample

/-- The code word of a key, which no word of another key starts with. -/
def keyCode (key : EncKey) : Bytes := pairCode unaryCode (listCode byteCode) (key.generation, key.owner)

theorem keyCode_selfDelimiting : SelfDelimiting keyCode := by
  intro a b x y h
  obtain ⟨hpair, hrest⟩ :=
    pairCode_selfDelimiting unaryCode_selfDelimiting (listCode_selfDelimiting byteCode_selfDelimiting) _ _ _ _ h
  rw [Prod.mk.injEq] at hpair
  cases a
  cases b
  simp only at hpair
  obtain ⟨rfl, rfl⟩ := hpair
  exact ⟨rfl, hrest⟩

/-- Boxes that bear the key they open with. -/
def wireLib : WireLib where
  toAtRest := { KeyperSample.box with depth := 3 }
  eth := plainEth
  box _ key data := keyCode key ++ data
  unbox key envelope := if keyCode key <+: envelope then some (envelope.drop (keyCode key).length) else none
  encPubkey key := pyStr (hex key.owner)
  encPubkeySig key := pyStr (hex key.owner)

theorem wireLib_documented : wireLib.Documented ⟨7⟩ where
  deep := by decide
  decrypts := KeyperSample.box_documented.decrypts
  opens draw key data := by
    have hopen : (keyCode key ++ data).drop (keyCode key).length = data := List.drop_left
    exact (if_pos (List.prefix_append _ _)).trans (congrArg some hopen)
  closed draw key key' data hne := by
    refine if_neg ?_
    rintro ⟨rest, hrest⟩
    exact hne (keyCode_selfDelimiting _ _ _ _ hrest).1
  signs digest := ⟨_, rfl, plainEth_recoverMessage (by decide) digest⟩

def bundle : Bundle where
  credential := ⟨token 0, token 1⟩
  relayToken := some (pyStr "relay")
  peers := [(2, ⟨url 2, token 3, ⟨address 2, 0⟩⟩)]
  nonce := pyStr "n"
  timestamp := 1000

/-- The coordinator's signature on the bundle. -/
def bundleSig : Bytes := plainEth.signMessage (beBytes 32 7) (payloadDigest plainEth (payloadJson wireLib bundle))

/-- The bundle arrives, then its signature with another payload sealed for the same key, then the process
    restarts. -/
def wireEvents : List WireEvent :=
  [.deliver ⟨⟨address 1, 0⟩, bundle⟩ 1001 0 0,
    .post (wireLib.box 1 ⟨address 1, 0⟩ (Json.obj []).dumps) bundleSig 1002 0, .restart]

theorem wireEvents_honest : ∀ e ∈ wireEvents, e.Honest wireLib [beBytes 32 7] (address 1) := by
  have hread : (payloadJson wireLib bundle).canon.readable wireLib.depth = true := by decide +kernel
  intro e he
  simp only [wireEvents, List.mem_cons, List.not_mem_nil, or_false] at he
  rcases he with rfl | rfl | rfl
  · exact ⟨hread, by decide⟩
  · intro generation payload hopened
    by_cases hgeneration : generation = 0
    · subst hgeneration
      rw [opened_box wireLib_documented (by decide), Option.some.injEq] at hopened
      rw [← hopened]
      decide +kernel
    · have hkey : (⟨address 1, generation⟩ : EncKey) ≠ ⟨address 1, 0⟩ := by simp [hgeneration]
      rw [opened, wireLib_documented.closed _ _ _ _ hkey] at hopened
      cases hopened
  · trivial

end CredentialSample

open CredentialSample in
theorem wire_keyper_of_bundle :
    (wireEvents.foldl (WireKeyper.step wireLib ⟨7⟩ [beBytes 32 7] (address 1)) {}).installed.requireBearer false
        (bearer (token 0)) = none ∧
      (wireEvents.foldl (WireKeyper.step wireLib ⟨7⟩ [beBytes 32 7] (address 1)) {}).installed.peerTarget 2 =
        some (url 2, (token 3).text) := by
  have htrusted : (⟨7⟩ : Signer).identity wireLib.eth ∈ [beBytes 32 7] := List.mem_singleton.mpr rfl
  obtain ⟨hbearer, hpeer⟩ := wire_keyper_refines (address 1) wireLib_documented htrusted wireEvents_honest
  rw [hbearer, hpeer]
  decide +kernel

end ElGamalVoting.Credentials
