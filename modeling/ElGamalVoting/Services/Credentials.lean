import ElGamalVoting.Envelopes.ConfigCodec
import ElGamalVoting.Services.NonceTracker

/- The channel credentials between the coordinator and the keypers
   (`services/common/token_store.py`, `services/common/auth.py`, `bootstrap_keypers` and
   `_post_keyper` of `services/coordinator/dkg_coordinator.py`, the token methods of `AutoDKG`,
   and `bootstrap` and `_require_bearer` of `services/keyper/keyper_server.py`).

   The system is the coordinator's token file and its cache, every keyper by its address, and
   every bundle that was ever sent. A run is any interleaving of

     * the coordinator's passes: a DKG attempt (a full bootstrap and then calls), or a tally
       poll (tokens from the cache, the file or a bootstrap, and then calls), a call that is
       answered 401 installing the credential again;
     * what happens at the keypers meanwhile: a bundle reaches its keyper, at any time and any
       number of times, a keyper restarts, loses its state, or calls a peer;
     * restarts of the coordinator and the loss of its token file.

   Cryptography is symbolic. An encryption key is its owner's address and a number that is new
   whenever the owner generates a key, a key that verifies against an address is one of that
   keyper, and a bundle sealed to a key is opened by it alone. A signature covers the content of
   a bundle and not its recipient: who has opened one can seal it again to another keyper
   (`reseal`). Tokens are drawn one after the other from `token`; the texts of headers and the
   comparison of tokens are Python's.

   `no_request_unauthorized` is what the store is for: with one URL for each keyper, no committee,
   replay or restart ever makes a keyper refuse a token of the coordinator or of a peer.
   `api_token_private` is what the two tokens are for: no other keyper is told a token that
   opens a keyper's coordinator routes. -/
namespace ElGamalVoting.Credentials
open Lib

/-! ## Tokens -/

/-- The characters of `secrets.token_urlsafe`. -/
def isUrlSafe (c : Nat) : Bool :=
  (48 ≤ c ∧ c ≤ 57) ∨ (65 ≤ c ∧ c ≤ 90) ∨ (97 ≤ c ∧ c ≤ 122) ∨ c = 45 ∨ c = 95

/-- A token as `secrets.token_urlsafe` draws it. -/
structure Token where
  text : PyStr
  nonempty : text ≠ []
  urlSafe : ∀ c ∈ text, isUrlSafe c = true
  deriving DecidableEq

/-- One character under `encode("utf-8", "surrogateescape")`; the other surrogates raise. -/
def escaped (c : Nat) : Option Bytes :=
  if 0xDC80 ≤ c ∧ c ≤ 0xDCFF then some [UInt8.ofNat (c - 0xDC00)]
  else if 0xD800 ≤ c ∧ c ≤ 0xDFFF then none
  else some (String.utf8EncodeChar (Char.ofNat c))

def escapedText (s : PyStr) : Option Bytes := (s.mapM escaped).map List.flatten

/-- An empty token never authenticates. -/
def tokensEqual (presented expected : PyStr) : Py Bool :=
  match escapedText presented, escapedText expected with
  | some p, some e => .ok (decide (p ≠ [] ∧ e ≠ [] ∧ p = e))
  | _, _ => .error (.encodingError "surrogates not allowed")

/-- The header a token is sent in. -/
def bearer (t : Token) : PyStr := pyStr "Bearer " ++ t.text

/-- `header.removeprefix("Bearer ").strip()` -/
def presentedIn (header : PyStr) : PyStr :=
  pyStrip (if pyStr "Bearer " <+: header then header.drop 7 else header)

/-! ## The keyper -/

structure Credential where
  apiToken : Token
  peerToken : Token
  deriving DecidableEq

/-- A keyper's X25519 key: whose it is, and which of those the owner ever generated. -/
structure EncKey where
  owner : Bytes
  generation : Nat
  deriving DecidableEq

/-- An entry of a bundle's peers map. -/
structure Peer where
  url : PyStr
  token : Token
  key : EncKey
  deriving DecidableEq

/-- The payload of `/auth/bootstrap`. -/
structure Bundle where
  credential : Credential
  relayToken : Option PyStr
  peers : List (Nat × Peer)
  nonce : PyStr
  timestamp : Int

structure Envelope where
  key : EncKey
  bundle : Bundle

/-- What is installed on a keyper; the two tokens are set together. -/
structure Installed where
  credential : Option Credential := none
  relayToken : Option PyStr := none
  peers : List (Nat × Peer) := []

structure Keyper where
  installed : Installed := {}
  /-- `bootstrap_tokens.enc`, `none` where it is missing. -/
  saved : Option Installed := none
  tracker : NonceTracker := { windowS := nonceWindowS }
  generation : Nat := 0

/-- The relay token is kept when the bundle has none. -/
def Installed.accept (inst : Installed) (b : Bundle) : Installed where
  credential := some b.credential
  relayToken := if b.relayToken.getD [] = [] then inst.relayToken else b.relayToken
  peers := b.peers

/-- `bootstrap` on a bundle of the coordinator that opens here. -/
def Keyper.bootstrap (k : Keyper) (now : ℚ) (b : Bundle) : Keyper :=
  match k.tracker.checkAndRecord now b.nonce b.timestamp with
  | (tracker, .ok true) =>
    { k with tracker, installed := k.installed.accept b, saved := some (k.installed.accept b) }
  | (tracker, _) => { k with tracker }

/-- A new process with the same state directory. -/
def Keyper.restart (k : Keyper) : Keyper where
  installed := k.saved.getD {}
  saved := k.saved
  generation := k.generation

/-- A new process with an empty state directory, and so with a new encryption key. -/
def Keyper.lose (k : Keyper) : Keyper where
  generation := k.generation + 1

/-- `_require_bearer`: the status a request is refused with. -/
def Keyper.requireBearer (k : Keyper) (peer : Bool) (header : PyStr) : Option Nat :=
  match k.installed.credential with
  | none => some 503
  | some cred =>
    match tokensEqual (presentedIn header) (if peer then cred.peerToken else cred.apiToken).text with
    | .ok true => none
    | .ok false => some 401
    | .error _ => some 500

/-! ## The system -/

/-- A request to a bearer-gated route, and how the check answered it. -/
structure Request where
  keyper : Bytes
  peer : Bool
  refused : Option Nat
  deriving DecidableEq

structure System where
  /-- The token file by keyper url, `none` without a state directory. -/
  store : Option (Dict PyStr Credential)
  /-- `_tokens_by_committee`; the committee's urls stand in the order of its indices. -/
  cache : Dict (List PyStr) (List Token) := ∅
  keypers : Bytes → Keyper := fun _ => {}
  /-- The bundles sent so far, newest first. -/
  sent : List Envelope := []
  /-- The urls a credential was drawn for, in order. -/
  minted : List PyStr := []
  /-- The requests so far, newest first. -/
  log : List Request := []

namespace System

/-- `TokenStore.get` -/
def stored (s : System) (url : PyStr) : Option Credential := s.store.bind (·.get? url)

def setKeyper (s : System) (a : Bytes) (k : Keyper) : System :=
  { s with keypers := Function.update s.keypers a k }

def send (s : System) (e : Envelope) : System := { s with sent := e :: s.sent }

/-- A request to the keyper at the address. -/
def request (s : System) (a : Bytes) (peer : Bool) (t : Token) : System :=
  { s with log := ⟨a, peer, (s.keypers a).requireBearer peer (bearer t)⟩ :: s.log }

def remember (s : System) (urls : List PyStr) (tokens : List Token) : System :=
  { s with cache := s.cache.set urls tokens }

end System

/-- What happens at the keypers. -/
inductive KeyperEvent where
  /-- A bundle reaches a keyper, at its clock; it opens with the key it is sealed to. -/
  | deliver (number : Nat) (address : Bytes) (now : ℚ)
  /-- The content of a bundle reaches a keyper, sealed to it anew. -/
  | reseal (number : Nat) (address : Bytes) (now : ℚ)
  | restart (address : Bytes)
  | lose (address : Bytes)
  /-- The keyper calls the peer with the index (`_post_peer`). -/
  | callPeer (address : Bytes) (index : Nat)

/-- The bundles of the run's own coordinator reach the keypers they are sealed to only. -/
def KeyperEvent.Sealed : KeyperEvent → Prop
  | .reseal _ _ _ => False
  | _ => True

section
variable (host : PyStr → Bytes)

def KeyperEvent.apply (s : System) : KeyperEvent → System
  | .deliver number a now =>
    match s.sent[number]? with
    | some e =>
      if e.key = ⟨a, (s.keypers a).generation⟩ then s.setKeyper a ((s.keypers a).bootstrap now e.bundle)
      else s
    | none => s
  | .reseal number a now =>
    match s.sent[number]? with
    | some e => s.setKeyper a ((s.keypers a).bootstrap now e.bundle)
    | none => s
  | .restart a => s.setKeyper a (s.keypers a).restart
  | .lose a => s.setKeyper a (s.keypers a).lose
  | .callPeer a index =>
    match (s.keypers a).installed.peers.lookup index with
    | some p => s.request (host p.url) true p.token
    | none => s

/-! ## The coordinator -/

/-- A committee member as the election's config has it. -/
structure Member where
  url : PyStr
  address : Bytes
  deriving DecidableEq

/-- The answers of the network during one bootstrap, by keyper index. -/
structure Net where
  /-- The key at `/status`, `none` where the request or the reading of it raises. -/
  status : Nat → Option EncKey
  nonce : Nat → PyStr
  clock : Nat → Int
  /-- What happens at the keypers while the bundle is posted, its own arrival included. -/
  meanwhile : Nat → List KeyperEvent
  /-- Whether the post is answered with a success. -/
  answered : Nat → Bool

/-- A member as `bootstrap_keypers` knows it once the keys are verified. -/
structure Seat where
  index : Nat
  member : Member
  credential : Credential
  key : EncKey

variable (relayToken : Option PyStr) (token : Nat → Token)

/-- The credential drawn as the `n`-th. -/
def drawn (n : Nat) : Credential := ⟨token (2 * n), token (2 * n + 1)⟩

/-- A credential is drawn and stored. -/
def System.mint (s : System) (url : PyStr) : System :=
  { s with minted := s.minted ++ [url], store := s.store.map (·.set url (drawn token s.minted.length)) }

/-- The first loop of `bootstrap_keypers`: a stored credential is used again. -/
def System.credentials (s : System) : List PyStr → System × List Credential
  | [] => (s, [])
  | url :: urls =>
    match s.stored url with
    | some cred =>
      let rest := s.credentials urls
      (rest.1, cred :: rest.2)
    | none =>
      let rest := (s.mint token url).credentials urls
      (rest.1, drawn token s.minted.length :: rest.2)

/-- The second loop: every key is verified against its member's address. -/
def verifiedKeys (status : Nat → Option EncKey) : Nat → List Member → Option (List EncKey)
  | _, [] => some []
  | i, m :: members =>
    match status i with
    | none => none
    | some key =>
      if key.owner = m.address then (verifiedKeys status (i + 1) members).map (key :: ·) else none

def seats : Nat → List Member → List Credential → List EncKey → List Seat
  | i, m :: members, cred :: creds, key :: keys => ⟨i, m, cred, key⟩ :: seats (i + 1) members creds keys
  | _, _, _, _ => []

/-- The payload for one member, with the others in its peers map. -/
def Seat.bundle (roster : List Seat) (net : Net) (seat : Seat) : Bundle where
  credential := seat.credential
  relayToken := relayToken
  peers := (roster.filter fun p => p.index ≠ seat.index).map fun p =>
    (p.index, ⟨p.member.url, p.credential.peerToken, p.key⟩)
  nonce := net.nonce seat.index
  timestamp := net.clock seat.index

def KeyperEvent.applyAll (s : System) (events : List KeyperEvent) : System :=
  events.foldl (KeyperEvent.apply host) s

/-- The third loop: a post that fails ends it. -/
def System.postAll (roster : List Seat) (net : Net) (s : System) : List Seat → System × Bool
  | [] => (s, true)
  | seat :: rest =>
    let posted := KeyperEvent.applyAll host (s.send ⟨seat.key, seat.bundle relayToken roster net⟩)
      (net.meanwhile seat.index)
    if net.answered seat.index then posted.postAll roster net rest else (posted, false)

/-- The members a bundle is posted to. -/
def targetsOf (roster : List Seat) : Option Nat → List Seat
  | none => roster
  | some i => roster.filter fun seat => seat.index = i

/-- `bootstrap_keypers`, on one member where `install` names it; `none` where it raises. -/
def System.bootstrapKeypers (s : System) (committee : List Member) (net : Net) (install : Option Nat) :
    System × Option (List Token) :=
  let (s, creds) := s.credentials token (committee.map Member.url)
  match verifiedKeys net.status 1 committee with
  | none => (s, none)
  | some keys =>
    let roster := seats 1 committee creds keys
    let (s, ok) := s.postAll host relayToken roster net (targetsOf roster install)
    (s, if ok then some (creds.map Credential.apiToken) else none)

/-- `_bootstrap`, and `_rebootstrap_one` where `install` names a member: the tokens are cached
    when it succeeds. -/
def System.bootstrap (s : System) (committee : List Member) (net : Net) (install : Option Nat) :
    System × Option (List Token) :=
  match s.bootstrapKeypers host relayToken token committee net install with
  | (s, some tokens) => (s.remember (committee.map Member.url) tokens, some tokens)
  | (s, none) => (s, none)

/-- `_committee_tokens`: from the cache, from the file, or by a bootstrap. -/
def System.committeeTokens (s : System) (committee : List Member) (net : Net) :
    System × Option (List Token) :=
  let urls := committee.map Member.url
  match s.cache.get? urls with
  | some tokens => (s, some tokens)
  | none =>
    match s.store, urls.mapM s.stored with
    | some _, some creds =>
      (s.remember urls (creds.map Credential.apiToken), some (creds.map Credential.apiToken))
    | _, _ => s.bootstrap host relayToken token committee net none

/-- A call to a keyper's coordinator route: what happens before it, the status the handler
    answers with when the bearer check passes (`none` where the request raises), and the same
    for the second try. -/
structure Trigger where
  index : Nat
  meanwhile : List KeyperEvent
  answer : Option Nat
  net : Net
  again : Option Nat

/-- A request to a coordinator route and the status it is answered with. -/
def System.call (s : System) (a : Bytes) (t : Token) : Option Nat → System × Option Nat
  | none => (s, none)
  | some handled =>
    (s.request a false t, some (((s.keypers a).requireBearer false (bearer t)).getD handled))

/-- The second try of a call, with the member's token of the bootstrap where it succeeded. -/
def System.repeatCall (tokens : List Token) (call : Trigger) (url : PyStr) (first : Option Nat) :
    System × Option (List Token) → System × List Token × Option Nat
  | (s, fresh) =>
    match fresh.bind (·[call.index - 1]?) with
    | none => (s, tokens, first)
    | some t =>
      let second := s.call (host url) t call.again
      (second.1, tokens.set (call.index - 1) t, second.2)

/-- `_post_keyper`: a call answered 401 installs the keyper's credential again and is repeated. -/
def System.postKeyper (s : System) (committee : List Member) (tokens : List Token) (call : Trigger) :
    System × List Token × Option Nat :=
  let s := KeyperEvent.applyAll host s call.meanwhile
  match committee[call.index - 1]?, tokens[call.index - 1]? with
  | some m, some t =>
    let first := s.call (host m.url) t call.answer
    if first.2 = some 401 then
      System.repeatCall host tokens call m.url first.2
        (first.1.bootstrap host relayToken token committee call.net (some call.index))
    else (first.1, tokens, first.2)
  | _, _ => (s, tokens, none)

/-- The calls of one pass, one after the other. -/
def System.postAllKeypers (s : System) (committee : List Member) (tokens : List Token) :
    List Trigger → System
  | [] => s
  | call :: calls =>
    let posted := s.postKeyper host relayToken token committee tokens call
    posted.1.postAllKeypers committee posted.2.1 calls

inductive Event where
  | keyper (event : KeyperEvent)
  /-- A DKG attempt: a full bootstrap, then the ceremony's calls. -/
  | dkg (committee : List Member) (net : Net) (calls : List Trigger)
  /-- A tally poll: the committee's tokens, then the calls. -/
  | tally (committee : List Member) (net : Net) (calls : List Trigger)
  | restartCoordinator
  | loseTokens

/-- The calls of a pass that has its tokens. -/
def System.pass (committee : List Member) (calls : List Trigger) :
    System × Option (List Token) → System
  | (s, none) => s
  | (s, some tokens) => s.postAllKeypers host relayToken token committee tokens calls

def Event.apply (s : System) : Event → System
  | .keyper e => e.apply host s
  | .dkg committee net calls =>
    System.pass host relayToken token committee calls
      (s.bootstrap host relayToken token committee net none)
  | .tally committee net calls =>
    System.pass host relayToken token committee calls
      (s.committeeTokens host relayToken token committee net)
  | .restartCoordinator => { s with cache := ∅ }
  | .loseTokens => { s with cache := ∅, store := s.store.map fun _ => ∅ }

def run (s : System) (events : List Event) : System :=
  events.foldl (Event.apply host relayToken token) s

end
end ElGamalVoting.Credentials
