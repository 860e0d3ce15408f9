import Mathlib.Data.Set.Function
import ElGamalVoting.Services.Credentials

/- What every run of the credential protocol keeps.

   The invariant `Consistent` says that every token in use is the one the token file has: what is
   installed or saved on a keyper, what is in a bundle under way, what stands in a peers map and
   what the coordinator has cached. The file only grows, so one lemma for each operation carries
   the invariant through it, and a run is their fold. -/
namespace ElGamalVoting.Credentials
open Lib

/-! ## Tokens -/

theorem lt_of_isUrlSafe {c : Nat} (h : isUrlSafe c = true) : c < 123 := by
  simp only [isUrlSafe, Bool.decide_or, Bool.decide_and, Bool.or_eq_true, Bool.and_eq_true,
    decide_eq_true_eq] at h
  omega

theorem escaped_of_urlSafe {c : Nat} (h : isUrlSafe c = true) : escaped c = some [UInt8.ofNat c] := by
  have hall : ∀ c < 123, isUrlSafe c = true → escaped c = some [UInt8.ofNat c] := by decide +kernel
  exact hall c (lt_of_isUrlSafe h) h

theorem isPySpace_of_urlSafe {c : Nat} (h : isUrlSafe c = true) : isPySpace c = false := by
  have hall : ∀ c < 123, isUrlSafe c = true → isPySpace c = false := by decide +kernel
  exact hall c (lt_of_isUrlSafe h) h

theorem Token.ext_text {a b : Token} (h : a.text = b.text) : a = b := by
  cases a
  cases b
  simp only at h
  subst h
  rfl

theorem Token.escapedText_eq (t : Token) : escapedText t.text = some (t.text.map UInt8.ofNat) := by
  have hchars : t.text.mapM escaped = some (t.text.map fun c => [UInt8.ofNat c]) :=
    mapM_some_of fun c hc => escaped_of_urlSafe (t.urlSafe c hc)
  rw [escapedText, hchars, Option.map_some, Option.some.injEq]
  induction t.text with
  | nil => rfl
  | cons c cs ih => rw [List.map_cons, List.flatten_cons, ih, List.map_cons, List.singleton_append]

/-- The bytes of a token give its text back. -/
theorem Token.text_of_bytes (t : Token) : (t.text.map UInt8.ofNat).map UInt8.toNat = t.text := by
  rw [List.map_map]
  calc t.text.map (UInt8.toNat ∘ UInt8.ofNat) = t.text.map id := by
        refine List.map_congr_left fun c hc => ?_
        have hlt := lt_of_isUrlSafe (t.urlSafe c hc)
        rw [Function.comp_apply, UInt8.toNat_ofNat', id_eq]
        omega
    _ = t.text := List.map_id t.text

theorem tokensEqual_tokens (a b : Token) : tokensEqual a.text b.text = .ok (decide (a = b)) := by
  rw [tokensEqual, a.escapedText_eq, b.escapedText_eq]
  simp only [Except.ok.injEq, decide_eq_decide]
  constructor
  · rintro ⟨-, -, hbytes⟩
    apply Token.ext_text
    rw [← a.text_of_bytes, hbytes, b.text_of_bytes]
  · rintro rfl
    simp [a.nonempty]

theorem presentedIn_bearer (t : Token) : presentedIn (bearer t) = t.text := by
  have hprefix : pyStr "Bearer " <+: bearer t := List.prefix_append _ _
  have hlength : (pyStr "Bearer ").length = 7 := by decide
  rw [presentedIn, if_pos hprefix, bearer, ← hlength, List.drop_left]
  exact stripBy_eq_self fun c hc => isPySpace_of_urlSafe (t.urlSafe c hc)

/-- The token a keyper expects on its coordinator routes or on its peer routes. -/
def Credential.expected (cred : Credential) (peer : Bool) : Token :=
  if peer then cred.peerToken else cred.apiToken

/-- The bearer check on a token, which is never refused for another reason. -/
theorem requireBearer_bearer (k : Keyper) (peer : Bool) (t : Token) :
    k.requireBearer peer (bearer t) =
      k.installed.credential.elim (some 503) fun cred => if cred.expected peer = t then none else some 401 := by
  rw [Keyper.requireBearer]
  cases k.installed.credential with
  | none => rfl
  | some cred =>
    have heq : tokensEqual (presentedIn (bearer t)) (if peer then cred.peerToken else cred.apiToken).text
        = .ok (decide (t = cred.expected peer)) := by
      rw [presentedIn_bearer]
      exact tokensEqual_tokens t (cred.expected peer)
    simp only [heq, Option.elim_some]
    by_cases h : cred.expected peer = t
    · simp [h]
    · simp [h, Ne.symm h]

/-! ## The invariant -/

section
variable (host : PyStr → Bytes) (urlOf : Bytes → PyStr)

/-- The url by which the keyper that answers at it is known. -/
def Proper (u : PyStr) : Prop := urlOf (host u) = u

/-- The member's url is its keyper's, and the one by which it is known everywhere. -/
def Member.Addressed (m : Member) : Prop := host m.url = m.address ∧ urlOf m.address = m.url

instance (m : Member) : Decidable (m.Addressed host urlOf) :=
  inferInstanceAs (Decidable (host m.url = m.address ∧ urlOf m.address = m.url))

def Net.Sealed (net : Net) : Prop := ∀ i, ∀ e ∈ net.meanwhile i, e.Sealed

def Trigger.Sealed (call : Trigger) : Prop := (∀ e ∈ call.meanwhile, e.Sealed) ∧ call.net.Sealed

/-- The events of a run in which every keyper has one url, the token file stays and no keyper
    passes a bundle on. -/
def Event.Orderly : Event → Prop
  | .keyper e => e.Sealed
  | .dkg committee net calls =>
    (∀ m ∈ committee, m.Addressed host urlOf) ∧ net.Sealed ∧ ∀ call ∈ calls, call.Sealed
  | .tally committee net calls =>
    (∀ m ∈ committee, m.Addressed host urlOf) ∧ net.Sealed ∧ ∀ call ∈ calls, call.Sealed
  | .restartCoordinator => True
  | .loseTokens => False

/-- A reading of the token file has at least the entries of another. -/
def Extends (look look' : PyStr → Option Credential) : Prop :=
  ∀ u cred, look u = some cred → look' u = some cred

def Backs (look : PyStr → Option Credential) (u : PyStr) (t : Token) (peer : Bool) : Prop :=
  ∃ cred, look u = some cred ∧ t = cred.expected peer

def PeersBacked (look : PyStr → Option Credential) (peers : List (Nat × Peer)) : Prop :=
  ∀ e ∈ peers, Proper host urlOf e.2.url ∧ Backs look e.2.url e.2.token true

structure Installed.Backed (look : PyStr → Option Credential) (a : Bytes) (inst : Installed) : Prop where
  credential : ∀ cred, inst.credential = some cred → look (urlOf a) = some cred ∧ host (urlOf a) = a
  peers : PeersBacked host urlOf look inst.peers

structure Keyper.Backed (look : PyStr → Option Credential) (a : Bytes) (k : Keyper) : Prop where
  installed : k.installed.Backed host urlOf look a
  saved : ∀ inst, k.saved = some inst → inst.Backed host urlOf look a

structure Envelope.Backed (look : PyStr → Option Credential) (e : Envelope) : Prop where
  owner : host (urlOf e.key.owner) = e.key.owner
  credential : look (urlOf e.key.owner) = some e.bundle.credential
  peers : PeersBacked host urlOf look e.bundle.peers

structure Consistent (token : Nat → Token) (s : System) : Prop where
  persistent : s.store.isSome = true
  drawn : ∀ u cred, s.stored u = some cred → ∃ n, s.minted[n]? = some u ∧ cred = drawn token n
  keypers : ∀ a, (s.keypers a).Backed host urlOf s.stored a
  sent : ∀ e ∈ s.sent, e.Backed host urlOf s.stored
  cached : ∀ e ∈ s.cache.entries, List.Forall₂ (fun u t => Backs s.stored u t false) e.1 e.2
  authorized : ∀ r ∈ s.log, r.refused = none ∨ r.refused = some 503

variable {host urlOf} {look look' : PyStr → Option Credential} {token : Nat → Token} {s : System}

theorem Extends.refl (look : PyStr → Option Credential) : Extends look look := fun _ _ h => h

theorem Extends.trans {look'' : PyStr → Option Credential} (h : Extends look look')
    (h' : Extends look' look'') : Extends look look'' := fun u cred hu => h' u cred (h u cred hu)

theorem Backs.mono {u : PyStr} {t : Token} {peer : Bool} (h : Backs look u t peer)
    (hext : Extends look look') : Backs look' u t peer := by
  obtain ⟨cred, hcred, ht⟩ := h
  exact ⟨cred, hext u cred hcred, ht⟩

theorem PeersBacked.mono {peers : List (Nat × Peer)} (h : PeersBacked host urlOf look peers)
    (hext : Extends look look') : PeersBacked host urlOf look' peers := by
  intro e he
  exact ⟨(h e he).1, (h e he).2.mono hext⟩

theorem Installed.Backed.mono {a : Bytes} {inst : Installed} (h : inst.Backed host urlOf look a)
    (hext : Extends look look') : inst.Backed host urlOf look' a where
  credential cred hcred := ⟨hext _ cred (h.credential cred hcred).1, (h.credential cred hcred).2⟩
  peers := h.peers.mono hext

theorem Installed.Backed.start (a : Bytes) : ({} : Installed).Backed host urlOf look a where
  credential cred hcred := by cases hcred
  peers e he := by cases he

theorem Keyper.Backed.mono {a : Bytes} {k : Keyper} (h : k.Backed host urlOf look a)
    (hext : Extends look look') : k.Backed host urlOf look' a where
  installed := h.installed.mono hext
  saved inst hinst := (h.saved inst hinst).mono hext

theorem Envelope.Backed.mono {e : Envelope} (h : e.Backed host urlOf look)
    (hext : Extends look look') : e.Backed host urlOf look' where
  owner := h.owner
  credential := hext _ _ h.credential
  peers := h.peers.mono hext

/-! ## The keepers of the invariant -/

/-- A keyper that installs a bundle sealed to it. -/
theorem Keyper.Backed.bootstrap {a : Bytes} {k : Keyper} (h : k.Backed host urlOf look a) {e : Envelope}
    (he : e.Backed host urlOf look) (howner : e.key.owner = a) (now : ℚ) :
    (k.bootstrap now e.bundle).Backed host urlOf look a := by
  have haccept : (k.installed.accept e.bundle).Backed host urlOf look a := by
    refine ⟨fun cred hcred => ?_, he.peers⟩
    cases hcred
    rw [← howner]
    exact ⟨he.credential, he.owner⟩
  rw [Keyper.bootstrap]
  split
  · refine ⟨haccept, fun inst hinst => ?_⟩
    cases hinst
    exact haccept
  · exact ⟨h.installed, h.saved⟩

theorem Keyper.Backed.restart {a : Bytes} {k : Keyper} (h : k.Backed host urlOf look a) :
    k.restart.Backed host urlOf look a := by
  refine ⟨?_, h.saved⟩
  rw [Keyper.restart]
  cases hsaved : k.saved with
  | none => exact Installed.Backed.start a
  | some inst => exact h.saved inst hsaved

theorem Keyper.Backed.lose {a : Bytes} (k : Keyper) : k.lose.Backed host urlOf look a where
  installed := Installed.Backed.start a
  saved inst hinst := by cases hinst

/-- A keyper that holds a credential holds the file's, so a token of the file passes. -/
theorem Keyper.Backed.passes {a : Bytes} {k : Keyper} (h : k.Backed host urlOf look a) {t : Token}
    {peer : Bool} (ht : Backs look (urlOf a) t peer) :
    k.requireBearer peer (bearer t) = none ∨ k.requireBearer peer (bearer t) = some 503 := by
  rw [requireBearer_bearer]
  cases hinst : k.installed.credential with
  | none => exact Or.inr rfl
  | some cred =>
    obtain ⟨cred', hcred', rfl⟩ := ht
    rw [(h.installed.credential cred hinst).1, Option.some.injEq] at hcred'
    simp [hcred']

theorem System.keypers_setKeyper (s : System) (a b : Bytes) (k : Keyper) :
    (s.setKeyper a k).keypers b = if b = a then k else s.keypers b := Function.update_apply s.keypers a k b

namespace Consistent

theorem setKeyper (h : Consistent host urlOf token s) {a : Bytes} {k : Keyper}
    (hk : k.Backed host urlOf s.stored a) : Consistent host urlOf token (s.setKeyper a k) where
  persistent := h.persistent
  drawn := h.drawn
  keypers b := by
    rw [System.keypers_setKeyper]
    split
    · next hb =>
      subst hb
      exact hk
    · exact h.keypers b
  sent := h.sent
  cached := h.cached
  authorized := h.authorized

theorem request (h : Consistent host urlOf token s) {u : PyStr} (hu : Proper host urlOf u) {t : Token}
    {peer : Bool} (ht : Backs s.stored u t peer) :
    Consistent host urlOf token (s.request (host u) peer t) where
  persistent := h.persistent
  drawn := h.drawn
  keypers := h.keypers
  sent := h.sent
  cached := h.cached
  authorized r hr := by
    rcases List.mem_cons.mp hr with rfl | hr
    · refine (h.keypers (host u)).passes ?_
      rw [hu]
      exact ht
    · exact h.authorized r hr

theorem send (h : Consistent host urlOf token s) {e : Envelope} (he : e.Backed host urlOf s.stored) :
    Consistent host urlOf token (s.send e) where
  persistent := h.persistent
  drawn := h.drawn
  keypers := h.keypers
  sent e' he' := by
    rcases List.mem_cons.mp he' with rfl | he'
    · exact he
    · exact h.sent e' he'
  cached := h.cached
  authorized := h.authorized

theorem remember (h : Consistent host urlOf token s) {urls : List PyStr} {tokens : List Token}
    (ht : List.Forall₂ (fun u t => Backs s.stored u t false) urls tokens) :
    Consistent host urlOf token (s.remember urls tokens) where
  persistent := h.persistent
  drawn := h.drawn
  keypers := h.keypers
  sent := h.sent
  cached e he := by
    have hget := Dict.get?_eq_some.mpr he
    rw [System.remember, Dict.get?_set] at hget
    split at hget
    · next hkey =>
      rw [hkey, ← Option.some.inj hget]
      exact ht
    · exact h.cached e (Dict.get?_eq_some.mp hget)
  authorized := h.authorized

/-- A new url is drawn a credential; the file keeps what it has. -/
theorem mint (h : Consistent host urlOf token s) {url : PyStr} (hnew : s.stored url = none) :
    Consistent host urlOf token (s.mint token url) ∧ Extends s.stored (s.mint token url).stored ∧
      (s.mint token url).stored url = some (Credentials.drawn token s.minted.length) := by
  obtain ⟨store, hstore⟩ := Option.isSome_iff_exists.mp h.persistent
  have hlook : ∀ u, (s.mint token url).stored u =
      if u = url then some (Credentials.drawn token s.minted.length) else s.stored u := by
    intro u
    simp only [System.stored, System.mint, hstore, Option.map_some, Option.bind_some, Dict.get?_set]
  have hext : Extends s.stored (s.mint token url).stored := by
    intro u cred hu
    have hne : u ≠ url := by
      rintro rfl
      rw [hnew] at hu
      cases hu
    rw [hlook, if_neg hne]
    exact hu
  refine ⟨?_, hext, by rw [hlook, if_pos rfl]⟩
  exact {
    persistent := by
      rw [System.mint, Option.isSome_map]
      exact h.persistent
    drawn := by
      intro u cred hu
      rw [hlook] at hu
      split at hu
      · next heq =>
        refine ⟨s.minted.length, ?_, (Option.some.inj hu).symm⟩
        rw [System.mint, heq]
        exact List.getElem?_concat_length
      · obtain ⟨n, hn, hcred⟩ := h.drawn u cred hu
        refine ⟨n, ?_, hcred⟩
        exact (List.getElem?_append_left (List.getElem?_eq_some_iff.mp hn).1).trans hn
    keypers := fun a => (h.keypers a).mono hext
    sent := fun e he => (h.sent e he).mono hext
    cached := fun e he => (h.cached e he).imp fun u t ht => ht.mono hext
    authorized := h.authorized }

theorem credentials (h : Consistent host urlOf token s) (urls : List PyStr) :
    Consistent host urlOf token (s.credentials token urls).1 ∧
      Extends s.stored (s.credentials token urls).1.stored ∧
      List.Forall₂ (fun u cred => (s.credentials token urls).1.stored u = some cred) urls
        (s.credentials token urls).2 := by
  induction urls generalizing s with
  | nil => exact ⟨h, Extends.refl _, List.Forall₂.nil⟩
  | cons url urls ih =>
    rw [System.credentials]
    cases hurl : s.stored url with
    | some cred =>
      obtain ⟨hrest, hext, hcreds⟩ := ih h
      exact ⟨hrest, hext, hcreds.cons (hext url cred hurl)⟩
    | none =>
      obtain ⟨hmint, hext, hself⟩ := h.mint hurl
      obtain ⟨hrest, hext', hcreds⟩ := ih hmint
      exact ⟨hrest, hext.trans hext', hcreds.cons (hext' url _ hself)⟩

/-- Whatever happens at the keypers, short of passing a bundle on. -/
theorem keyperEvent (h : Consistent host urlOf token s) {e : KeyperEvent} (he : e.Sealed) :
    Consistent host urlOf token (e.apply host s) := by
  cases e with
  | deliver number a now =>
    rw [KeyperEvent.apply]
    split
    · next e hsent =>
      split
      · next hkey =>
        refine h.setKeyper ((h.keypers a).bootstrap (h.sent e (List.mem_of_getElem? hsent)) ?_ now)
        rw [hkey]
      · exact h
    · exact h
  | reseal number a now => exact he.elim
  | restart a => exact h.setKeyper (h.keypers a).restart
  | lose a => exact h.setKeyper (Keyper.Backed.lose _)
  | callPeer a index =>
    rw [KeyperEvent.apply]
    split
    · next p hp =>
      obtain ⟨before, after, hpeers, -⟩ := List.lookup_eq_some_iff.mp hp
      have hmem : (index, p) ∈ (s.keypers a).installed.peers := by
        rw [hpeers]
        exact List.mem_append_right before List.mem_cons_self
      have hpeer := (h.keypers a).installed.peers (index, p) hmem
      exact h.request hpeer.1 hpeer.2
    · exact h

end Consistent

theorem store_keyperEvent (host : PyStr → Bytes) (s : System) (e : KeyperEvent) :
    (e.apply host s).store = s.store := by
  cases e <;> rw [KeyperEvent.apply] <;> (repeat' split) <;> rfl

theorem store_applyAll (host : PyStr → Bytes) (s : System) (events : List KeyperEvent) :
    (KeyperEvent.applyAll host s events).store = s.store := by
  induction events generalizing s with
  | nil => rfl
  | cons e events ih => exact (ih _).trans (store_keyperEvent host s e)

theorem stored_applyAll (host : PyStr → Bytes) (s : System) (events : List KeyperEvent) :
    (KeyperEvent.applyAll host s events).stored = s.stored := by
  funext u
  rw [System.stored, store_applyAll, System.stored]

/-! ## The coordinator's operations -/

theorem verifiedKeys_owner {status : Nat → Option EncKey} {i : Nat} {members : List Member}
    {keys : List EncKey} (h : verifiedKeys status i members = some keys) :
    List.Forall₂ (fun m key => key.owner = m.address) members keys := by
  induction members generalizing i keys with
  | nil =>
    cases h
    exact List.Forall₂.nil
  | cons m members ih =>
    rw [verifiedKeys] at h
    split at h
    · cases h
    · split at h
      · next howner =>
        obtain ⟨rest, hrest, rfl⟩ := Option.map_eq_some_iff.mp h
        exact (ih hrest).cons howner
      · cases h

/-- The seat's member is at its keyper's url, its key is that keyper's, and its credential the
    file's. -/
structure Seat.Backed (host : PyStr → Bytes) (urlOf : Bytes → PyStr) (look : PyStr → Option Credential)
    (seat : Seat) : Prop where
  addressed : seat.member.Addressed host urlOf
  owner : seat.key.owner = seat.member.address
  credential : look seat.member.url = some seat.credential

theorem seats_backed {i : Nat} {members : List Member} {creds : List Credential} {keys : List EncKey}
    (hm : ∀ m ∈ members, m.Addressed host urlOf)
    (hcreds : List.Forall₂ (fun u cred => look u = some cred) (members.map Member.url) creds)
    (hkeys : List.Forall₂ (fun m key => key.owner = m.address) members keys) :
    ∀ seat ∈ seats i members creds keys, seat.Backed host urlOf look := by
  induction hkeys generalizing i creds with
  | nil =>
    intro seat hseat
    rw [seats] at hseat
    · cases hseat
    · intro _ _ _ _ _ _ h
      cases h
  | @cons m key members keys howner _ ih =>
    rw [List.map_cons] at hcreds
    obtain ⟨cred, creds, hcred, hrest, rfl⟩ := List.forall₂_cons_left_iff.mp hcreds
    intro seat hseat
    rw [seats] at hseat
    rcases List.mem_cons.mp hseat with rfl | hseat
    · exact ⟨hm m List.mem_cons_self, howner, hcred⟩
    · exact ih (fun m' hm' => hm m' (List.mem_cons_of_mem m hm')) hrest seat hseat

/-- The bundle for a seat, with the other seats as its peers. -/
theorem Seat.Backed.envelope {seat : Seat} (h : seat.Backed host urlOf look) {roster : List Seat}
    (hroster : ∀ p ∈ roster, p.Backed host urlOf look) (relayToken : Option PyStr) (net : Net) :
    (⟨seat.key, seat.bundle relayToken roster net⟩ : Envelope).Backed host urlOf look where
  owner := by rw [h.owner, h.addressed.2, h.addressed.1]
  credential := by
    rw [h.owner, h.addressed.2]
    exact h.credential
  peers e he := by
    obtain ⟨p, hp, rfl⟩ := List.mem_map.mp he
    have hseat := hroster p (List.mem_of_mem_filter hp)
    refine ⟨?_, p.credential, hseat.credential, rfl⟩
    rw [Proper, hseat.addressed.1, hseat.addressed.2]

section
variable (relayToken : Option PyStr)

/-- An operation keeps the invariant and every entry of the token file. -/
def Keeps (host : PyStr → Bytes) (urlOf : Bytes → PyStr) (token : Nat → Token) (s s' : System) : Prop :=
  Consistent host urlOf token s' ∧ Extends s.stored s'.stored

theorem Consistent.applyAll (h : Consistent host urlOf token s) {events : List KeyperEvent}
    (he : ∀ e ∈ events, e.Sealed) : Consistent host urlOf token (KeyperEvent.applyAll host s events) := by
  induction events generalizing s with
  | nil => exact h
  | cons e events ih =>
    exact ih (h.keyperEvent (he e List.mem_cons_self)) fun e' he' => he e' (List.mem_cons_of_mem e he')

theorem Consistent.postAll (h : Consistent host urlOf token s) {roster targets : List Seat} {net : Net}
    (hnet : net.Sealed) (hroster : ∀ p ∈ roster, p.Backed host urlOf s.stored)
    (htargets : ∀ seat ∈ targets, seat ∈ roster) :
    Keeps host urlOf token s (s.postAll host relayToken roster net targets).1 := by
  induction targets generalizing s with
  | nil => exact ⟨h, Extends.refl _⟩
  | cons seat targets ih =>
    have hseat := hroster seat (htargets seat List.mem_cons_self)
    have hposted := (h.send (hseat.envelope hroster relayToken net)).applyAll (hnet seat.index)
    have hstored : (KeyperEvent.applyAll host (s.send ⟨seat.key, seat.bundle relayToken roster net⟩)
        (net.meanwhile seat.index)).stored = s.stored := stored_applyAll host _ _
    rw [System.postAll]
    split
    · have hrest := ih hposted (by rwa [hstored]) fun p hp => htargets p (List.mem_cons_of_mem seat hp)
      rwa [Keeps, hstored] at hrest
    · refine ⟨hposted, ?_⟩
      rw [hstored]
      exact Extends.refl _

/-- The tokens an operation returns are the file's. -/
def TokensBacked (s : System) (committee : List Member) (tokens : Option (List Token)) : Prop :=
  ∀ ts, tokens = some ts → List.Forall₂ (fun u t => Backs s.stored u t false) (committee.map Member.url) ts

theorem mem_roster_of_mem_targetsOf {roster : List Seat} {install : Option Nat} :
    ∀ seat ∈ targetsOf roster install, seat ∈ roster := by
  intro seat hseat
  cases install with
  | none => exact hseat
  | some i => exact List.mem_of_mem_filter hseat

theorem Consistent.bootstrapKeypers (h : Consistent host urlOf token s) {committee : List Member}
    (hm : ∀ m ∈ committee, m.Addressed host urlOf) {net : Net} (hnet : net.Sealed) (install : Option Nat) :
    Keeps host urlOf token s (s.bootstrapKeypers host relayToken token committee net install).1 ∧
      TokensBacked (s.bootstrapKeypers host relayToken token committee net install).1 committee
        (s.bootstrapKeypers host relayToken token committee net install).2 := by
  obtain ⟨hcons, hext, hcreds⟩ := h.credentials (committee.map Member.url)
  rw [System.bootstrapKeypers]
  cases hkeys : verifiedKeys net.status 1 committee with
  | none => exact ⟨⟨hcons, hext⟩, fun ts hts => by cases hts⟩
  | some keys =>
    have hroster := seats_backed (i := 1) hm hcreds (verifiedKeys_owner hkeys)
    obtain ⟨hpost, hext'⟩ := hcons.postAll relayToken hnet hroster mem_roster_of_mem_targetsOf
    refine ⟨⟨hpost, hext.trans hext'⟩, fun ts hts => ?_⟩
    simp only at hts
    split at hts
    · rw [← Option.some.inj hts, List.forall₂_map_right_iff]
      exact hcreds.imp fun u cred hu => ⟨cred, hext' u cred hu, rfl⟩
    · cases hts

theorem Consistent.bootstrap (h : Consistent host urlOf token s) {committee : List Member}
    (hm : ∀ m ∈ committee, m.Addressed host urlOf) {net : Net} (hnet : net.Sealed) (install : Option Nat) :
    Keeps host urlOf token s (s.bootstrap host relayToken token committee net install).1 ∧
      TokensBacked (s.bootstrap host relayToken token committee net install).1 committee
        (s.bootstrap host relayToken token committee net install).2 := by
  obtain ⟨⟨hcons, hext⟩, htokens⟩ := h.bootstrapKeypers relayToken hm hnet install
  rw [System.bootstrap]
  cases hboot : s.bootstrapKeypers host relayToken token committee net install with
  | mk s' result =>
    rw [hboot] at hcons hext htokens
    cases result with
    | none => exact ⟨⟨hcons, hext⟩, fun ts hts => by cases hts⟩
    | some tokens =>
      refine ⟨⟨hcons.remember (htokens tokens rfl), hext⟩, fun ts hts => ?_⟩
      cases hts
      exact htokens tokens rfl

theorem Consistent.committeeTokens (h : Consistent host urlOf token s) {committee : List Member}
    (hm : ∀ m ∈ committee, m.Addressed host urlOf) {net : Net} (hnet : net.Sealed) :
    Keeps host urlOf token s (s.committeeTokens host relayToken token committee net).1 ∧
      TokensBacked (s.committeeTokens host relayToken token committee net).1 committee
        (s.committeeTokens host relayToken token committee net).2 := by
  rw [System.committeeTokens]
  split
  · next tokens hcache =>
    refine ⟨⟨h, Extends.refl _⟩, fun ts hts => ?_⟩
    cases hts
    exact h.cached _ (Dict.get?_eq_some.mp hcache)
  · split
    · next creds _ hcreds =>
      -- every member has an entry in the file, and its token is used without a bootstrap
      have htokens : List.Forall₂ (fun u t => Backs s.stored u t false) (committee.map Member.url)
          (creds.map Credential.apiToken) := by
        rw [List.forall₂_map_right_iff]
        exact (mapM_option_eq_some.mp hcreds).flip.imp fun u cred hu => ⟨cred, hu, rfl⟩
      refine ⟨⟨h.remember htokens, Extends.refl _⟩, fun ts hts => ?_⟩
      cases hts
      exact htokens
    · exact h.bootstrap relayToken hm hnet none

theorem Consistent.call (h : Consistent host urlOf token s) {u : PyStr} (hu : Proper host urlOf u)
    {t : Token} (ht : Backs s.stored u t false) (handled : Option Nat) :
    Keeps host urlOf token s (s.call (host u) t handled).1 := by
  cases handled with
  | none => exact ⟨h, Extends.refl _⟩
  | some status => exact ⟨h.request hu ht, Extends.refl _⟩

/-- One element on the right is replaced by another that is related to its partner. -/
theorem forall₂_set_right {α β : Type} {R : α → β → Prop} {xs : List α} {ys : List β}
    (h : List.Forall₂ R xs ys) {i : Nat} {x : α} (hx : xs[i]? = some x) {y : β} (hr : R x y) :
    List.Forall₂ R xs (ys.set i y) := by
  induction h generalizing i with
  | nil => simp at hx
  | cons hr' hrest ih =>
    cases i with
    | zero =>
      rw [List.getElem?_cons_zero, Option.some.injEq] at hx
      rw [hx]
      exact hrest.cons hr
    | succ i => exact (ih hx).cons hr'

/-- The file's tokens stay the file's while it grows. -/
theorem TokensBacked.mono {s' : System} {committee : List Member} {tokens : Option (List Token)}
    (h : TokensBacked s committee tokens) (hext : Extends s.stored s'.stored) :
    TokensBacked s' committee tokens := fun ts hts => (h ts hts).imp fun _ _ ht => ht.mono hext

theorem TokensBacked.at {committee : List Member} {tokens : List Token}
    (h : TokensBacked s committee (some tokens)) {i : Nat} {m : Member} (hm : committee[i]? = some m)
    {t : Token} (ht : tokens[i]? = some t) : Backs s.stored m.url t false := by
  have hurl : (committee.map Member.url)[i]? = some m.url := by rw [List.getElem?_map, hm, Option.map_some]
  obtain ⟨t', ht', hback⟩ := forall₂_getElem? (h tokens rfl) hurl
  rw [ht, Option.some.injEq] at ht'
  rw [ht']
  exact hback

theorem TokensBacked.set {committee : List Member} {tokens : List Token}
    (h : TokensBacked s committee (some tokens)) {i : Nat} {m : Member} (hm : committee[i]? = some m)
    {t : Token} (ht : Backs s.stored m.url t false) : TokensBacked s committee (some (tokens.set i t)) := by
  rintro ts hts
  cases hts
  have hurl : (committee.map Member.url)[i]? = some m.url := by rw [List.getElem?_map, hm, Option.map_some]
  exact forall₂_set_right (h tokens rfl) hurl ht

/-- The second try of a call. -/
theorem Consistent.repeatCall (h : Consistent host urlOf token s) {committee : List Member}
    {m : Member} (hproper : Proper host urlOf m.url) {tokens : List Token}
    (ht : TokensBacked s committee (some tokens)) {fresh : Option (List Token)}
    (hfresh : TokensBacked s committee fresh) {call : Trigger}
    (hm : committee[call.index - 1]? = some m) (first : Option Nat) :
    Keeps host urlOf token s (System.repeatCall host tokens call m.url first (s, fresh)).1 ∧
      TokensBacked (System.repeatCall host tokens call m.url first (s, fresh)).1 committee
        (some (System.repeatCall host tokens call m.url first (s, fresh)).2.1) := by
  rw [System.repeatCall]
  split
  · exact ⟨⟨h, Extends.refl _⟩, ht⟩
  · next t hbind =>
    obtain ⟨ts, rfl, hget⟩ := Option.bind_eq_some_iff.mp hbind
    have hback := hfresh.at hm hget
    have hcall := h.call hproper hback call.again
    exact ⟨hcall, (ht.set hm hback).mono hcall.2⟩

/-- The tokens of the committee stay the file's, whatever is called. -/
theorem Consistent.postKeyper (h : Consistent host urlOf token s) {committee : List Member}
    (haddr : ∀ m ∈ committee, m.Addressed host urlOf) {tokens : List Token}
    (ht : TokensBacked s committee (some tokens)) {call : Trigger} (hcall : call.Sealed) :
    Keeps host urlOf token s (s.postKeyper host relayToken token committee tokens call).1 ∧
      TokensBacked (s.postKeyper host relayToken token committee tokens call).1 committee
        (some (s.postKeyper host relayToken token committee tokens call).2.1) := by
  have hmean := h.applyAll hcall.1
  have hext : Extends s.stored (KeyperEvent.applyAll host s call.meanwhile).stored := by
    rw [stored_applyAll]
    exact Extends.refl _
  rw [System.postKeyper]
  generalize KeyperEvent.applyAll host s call.meanwhile = s₁ at hmean hext ⊢
  have ht₁ := ht.mono hext
  split
  · next m t hm htok =>
    have hproper : Proper host urlOf m.url := by
      have hm' := haddr m (List.mem_of_getElem? hm)
      rw [Proper, hm'.1, hm'.2]
    obtain ⟨hfirst, hext₁⟩ := hmean.call hproper (ht₁.at hm htok) call.answer
    simp only
    split
    · obtain ⟨⟨hboot, hext₂⟩, hfresh⟩ :=
        hfirst.bootstrap relayToken haddr hcall.2 (some call.index)
      have hgrown := hext₁.trans hext₂
      obtain ⟨⟨hlast, hext₃⟩, htokens⟩ :=
        hboot.repeatCall hproper (ht₁.mono hgrown) hfresh hm (s₁.call (host m.url) t call.answer).2
      exact ⟨⟨hlast, (hext.trans hgrown).trans hext₃⟩, htokens⟩
    · exact ⟨⟨hfirst, hext.trans hext₁⟩, ht₁.mono hext₁⟩
  · exact ⟨⟨hmean, hext⟩, ht₁⟩

theorem Consistent.postAllKeypers (h : Consistent host urlOf token s) {committee : List Member}
    (haddr : ∀ m ∈ committee, m.Addressed host urlOf) {tokens : List Token}
    (ht : TokensBacked s committee (some tokens)) {calls : List Trigger} (hcalls : ∀ call ∈ calls, call.Sealed) :
    Consistent host urlOf token (s.postAllKeypers host relayToken token committee tokens calls) := by
  induction calls generalizing s tokens with
  | nil => exact h
  | cons call calls ih =>
    obtain ⟨⟨hposted, -⟩, htokens⟩ :=
      h.postKeyper relayToken haddr ht (hcalls call List.mem_cons_self)
    exact ih hposted htokens fun c hc => hcalls c (List.mem_cons_of_mem call hc)

theorem Consistent.pass (h : Consistent host urlOf token s) {committee : List Member}
    (haddr : ∀ m ∈ committee, m.Addressed host urlOf) {tokens : Option (List Token)}
    (ht : TokensBacked s committee tokens) {calls : List Trigger} (hcalls : ∀ call ∈ calls, call.Sealed) :
    Consistent host urlOf token (System.pass host relayToken token committee calls (s, tokens)) := by
  cases tokens with
  | none => exact h
  | some tokens => exact h.postAllKeypers relayToken haddr ht hcalls

/-- One event of an orderly run. -/
theorem Consistent.event (h : Consistent host urlOf token s) {e : Event} (he : e.Orderly host urlOf) :
    Consistent host urlOf token (e.apply host relayToken token s) := by
  cases e with
  | keyper e => exact h.keyperEvent he
  | dkg committee net calls =>
    obtain ⟨haddr, hnet, hcalls⟩ := he
    obtain ⟨⟨hboot, -⟩, htokens⟩ := h.bootstrap relayToken haddr hnet none
    exact hboot.pass relayToken haddr htokens hcalls
  | tally committee net calls =>
    obtain ⟨haddr, hnet, hcalls⟩ := he
    obtain ⟨⟨hboot, -⟩, htokens⟩ := h.committeeTokens relayToken haddr hnet
    exact hboot.pass relayToken haddr htokens hcalls
  | restartCoordinator => exact { h with cached := fun e he => by cases he }
  | loseTokens => exact he.elim

theorem Consistent.run (h : Consistent host urlOf token s) {events : List Event}
    (he : ∀ e ∈ events, e.Orderly host urlOf) : Consistent host urlOf token (run host relayToken token s events) := by
  induction events generalizing s with
  | nil => exact h
  | cons e events ih =>
    exact ih (h.event relayToken (he e List.mem_cons_self)) fun e' he' => he e' (List.mem_cons_of_mem e he')

end

/-- The tokens in a bundle: the keyper's own, and what it sends its peers. -/
def Bundle.tokens (b : Bundle) : List Token :=
  b.credential.apiToken :: b.credential.peerToken :: b.peers.map fun p => p.2.token

/-- A token of a bundle is the api token of the keyper it is sealed to, or a peer token. -/
theorem Envelope.Backed.tokens {e : Envelope} (h : e.Backed host urlOf look) {t : Token}
    (ht : t ∈ e.bundle.tokens) :
    Backs look (urlOf e.key.owner) t false ∨ ∃ u, Backs look u t true := by
  rcases List.mem_cons.mp ht with rfl | ht
  · exact Or.inl ⟨_, h.credential, rfl⟩
  · rcases List.mem_cons.mp ht with rfl | ht
    · exact Or.inr ⟨_, _, h.credential, rfl⟩
    · obtain ⟨p, hp, rfl⟩ := List.mem_map.mp ht
      exact Or.inr ⟨_, (h.peers p hp).2⟩

/-- The api token of one url is no other token of the file. -/
theorem Consistent.apiToken_ne (h : Consistent host urlOf token s)
    (hinj : Set.InjOn token {n | n < 2 * s.minted.length}) {u v : PyStr} {cred cred' : Credential}
    (hu : s.stored u = some cred) (hv : s.stored v = some cred') :
    cred.apiToken ≠ cred'.peerToken ∧ (u ≠ v → cred.apiToken ≠ cred'.apiToken) := by
  obtain ⟨n, hn, rfl⟩ := h.drawn u cred hu
  obtain ⟨m, hm, rfl⟩ := h.drawn v cred' hv
  have hn' := (List.getElem?_eq_some_iff.mp hn).1
  have hm' := (List.getElem?_eq_some_iff.mp hm).1
  constructor
  · intro heq
    have hpos : 2 * n = 2 * m + 1 :=
      hinj (show 2 * n < _ by omega) (show 2 * m + 1 < _ by omega) heq
    omega
  · intro hne heq
    have hpos : 2 * n = 2 * m := hinj (show 2 * n < _ by omega) (show 2 * m < _ by omega) heq
    have hnm : n = m := by omega
    subst hnm
    rw [hn, Option.some.injEq] at hm
    exact hne hm

end

/-! ## Whole runs -/

/-- Before the first election: an empty token file, and keypers that were never bootstrapped. -/
def System.start : System := { store := some ∅ }

theorem consistent_start (host : PyStr → Bytes) (urlOf : Bytes → PyStr) (token : Nat → Token) :
    Consistent host urlOf token System.start where
  persistent := rfl
  drawn u cred hu := by cases hu
  keypers a := ⟨Installed.Backed.start a, fun inst hinst => by cases hinst⟩
  sent e he := by cases he
  cached e he := by cases he
  authorized r hr := by cases hr

/-- However committees overlap, bundles are delayed or repeated and processes restart, no request
    of the coordinator or of a peer is refused for its token: a keyper that refuses one holds no
    credential at all. -/
theorem no_request_unauthorized (host : PyStr → Bytes) (urlOf : Bytes → PyStr) (relayToken : Option PyStr)
    (token : Nat → Token) (events : List Event) (he : ∀ e ∈ events, e.Orderly host urlOf) :
    ∀ r ∈ (run host relayToken token System.start events).log, r.refused = none ∨ r.refused = some 503 :=
  ((consistent_start host urlOf token).run relayToken he).authorized

/-! Three keypers in two committees that share the second: both ceremonies are bootstrapped, the
    second keyper restarts, the first keyper is sent its bundle again after its own restart, and
    the first committee is called for its tally by a coordinator that restarted too. -/
namespace CredentialSample

/-- 43 characters, as `token_urlsafe(32)` draws. -/
def token (n : Nat) : Token where
  text := List.replicate 42 65 ++ [97 + n % 26]
  nonempty := by simp
  urlSafe c hc := by
    rw [List.mem_append, List.mem_replicate, List.mem_singleton] at hc
    rcases hc with ⟨-, rfl⟩ | rfl
    · rfl
    · simp only [isUrlSafe, Bool.decide_or, Bool.decide_and, Bool.or_eq_true, Bool.and_eq_true,
        decide_eq_true_eq]
      omega

def address (n : Nat) : Bytes := List.replicate 19 0 ++ [UInt8.ofNat n]

def url (n : Nat) : PyStr := pyStr "http://keyper-" ++ [48 + n]

def host (u : PyStr) : Bytes := address (u.getLastD 48 - 48)

def urlOf (a : Bytes) : PyStr := url (a.getLastD 0).toNat

def member (n : Nat) : Member := ⟨url n, address n⟩

/-- A network that delivers what is posted; the nonces of a bootstrap start with its number. -/
def net (keypers : List Nat) (number : Nat) : Net where
  status i := keypers[i - 1]?.map fun n => ⟨address n, 0⟩
  nonce i := [number, i]
  clock _ := 1000
  meanwhile i := [.deliver 0 (address (keypers[i - 1]?.getD 0)) 1001]
  answered _ := true

def call (i : Nat) : Trigger := ⟨i, [], some 202, net [] 9, none⟩

def events : List Event :=
  [.dkg [member 1, member 2] (net [1, 2] 1) [call 1, call 2], .keyper (.callPeer (address 1) 2),
    .keyper (.restart (address 2)), .dkg [member 2, member 3] (net [2, 3] 2) [call 1, call 2],
    .keyper (.callPeer (address 3) 1), .keyper (.restart (address 1)),
    .keyper (.deliver 3 (address 1) 1002), .restartCoordinator,
    .tally [member 1, member 2] (net [1, 2] 3) [call 1, call 2]]

theorem addressed : ∀ n < 4, (member n).Addressed host urlOf := by decide +kernel

theorem net_sealed (keypers : List Nat) (number : Nat) : (net keypers number).Sealed := by
  intro i e he
  rw [net, List.mem_singleton] at he
  rw [he]
  trivial

theorem calls_sealed (calls : List Nat) : ∀ c ∈ calls.map call, c.Sealed := by
  intro c hc
  obtain ⟨i, -, rfl⟩ := List.mem_map.mp hc
  refine ⟨fun e he => ?_, net_sealed [] 9⟩
  cases he

theorem orderly : ∀ e ∈ events, e.Orderly host urlOf := by
  have hm : ∀ ns : List Nat, (∀ n ∈ ns, n < 4) → ∀ m ∈ ns.map member, m.Addressed host urlOf := by
    intro ns hns m hm
    obtain ⟨n, hn, rfl⟩ := List.mem_map.mp hm
    exact addressed n (hns n hn)
  have hc := calls_sealed [1, 2]
  intro e he
  simp only [events, List.mem_cons, List.not_mem_nil, or_false] at he
  rcases he with rfl | rfl | rfl | rfl | rfl | rfl | rfl | rfl | rfl
  · exact ⟨hm [1, 2] (by decide), net_sealed [1, 2] 1, hc⟩
  · trivial
  · trivial
  · exact ⟨hm [2, 3] (by decide), net_sealed [2, 3] 2, hc⟩
  · trivial
  · trivial
  · trivial
  · trivial
  · exact ⟨hm [1, 2] (by decide), net_sealed [1, 2] 3, hc⟩

end CredentialSample

open CredentialSample in
theorem overlapping_committees_authorized :
    (run host none token System.start events).log.length = 8 ∧
      ∀ r ∈ (run host none token System.start events).log, r.refused = none ∨ r.refused = some 503 :=
  ⟨by decide +kernel, no_request_unauthorized host urlOf none token events orderly⟩

/-- Where no two tokens drawn are alike, nothing a keyper is ever sent opens the coordinator
    routes of another keyper. -/
theorem api_token_private (host : PyStr → Bytes) (urlOf : Bytes → PyStr) (relayToken : Option PyStr)
    (token : Nat → Token) (events : List Event) (he : ∀ e ∈ events, e.Orderly host urlOf)
    (hinj : Set.InjOn token {n | n < 2 * (run host relayToken token System.start events).minted.length})
    {e : Envelope} (hsent : e ∈ (run host relayToken token System.start events).sent) {b : Bytes}
    (hb : e.key.owner ≠ b) {t : Token} (ht : t ∈ e.bundle.tokens) :
    ((run host relayToken token System.start events).keypers b).requireBearer false (bearer t) = some 401 ∨
      ((run host relayToken token System.start events).keypers b).requireBearer false (bearer t) = some 503 := by
  have h := (consistent_start host urlOf token).run relayToken he
  generalize run host relayToken token System.start events = s at h hinj hsent
  have hback := h.sent e hsent
  rw [requireBearer_bearer]
  cases hcred : (s.keypers b).installed.credential with
  | none => exact Or.inr rfl
  | some cred =>
    obtain ⟨hstored, hhost⟩ := (h.keypers b).installed.credential cred hcred
    -- two keypers with one url would be one keyper
    have hurls : urlOf b ≠ urlOf e.key.owner := by
      intro heq
      rw [heq, hback.owner] at hhost
      exact hb hhost
    have hne : cred.apiToken ≠ t := by
      rcases hback.tokens ht with ⟨cred', hcred', rfl⟩ | ⟨u, cred', hcred', rfl⟩
      · exact (h.apiToken_ne hinj hstored hcred').2 hurls
      · exact (h.apiToken_ne hinj hstored hcred').1
    left
    exact if_neg hne

open CredentialSample in
/-- The first keyper's bundle at the second keyper, which holds a credential of its own. -/
theorem first_bundle_useless_at_second : ∃ e ∈ (run host none token System.start events).sent,
    e.key.owner = address 1 ∧
      ((run host none token System.start events).keypers (address 2)).installed.credential.isSome = true ∧
      ∀ t ∈ e.bundle.tokens,
        ((run host none token System.start events).keypers (address 2)).requireBearer false (bearer t) = some 401 ∨
        ((run host none token System.start events).keypers (address 2)).requireBearer false (bearer t) = some 503 := by
  have hfirst : ((run host none token System.start events).sent[3]?.map fun e => e.key.owner) =
      some (address 1) := by decide +kernel
  have hminted : (run host none token System.start events).minted.length = 3 := by decide +kernel
  obtain ⟨e, hget, howner⟩ := Option.map_eq_some_iff.mp hfirst
  have hmem := List.mem_of_getElem? hget
  have hinj : Set.InjOn token {n | n < 2 * (run host none token System.start events).minted.length} := by
    intro m hm n hn heq
    rw [hminted, Set.mem_ofPred_eq] at hm hn
    have hlast := congrArg (fun t : Token => t.text.getLast?) heq
    simp only [token, List.getLast?_concat, Option.some.injEq] at hlast
    omega
  refine ⟨e, hmem, howner, by decide +kernel, fun t ht => ?_⟩
  refine api_token_private host urlOf none token events orderly hinj hmem ?_ ht
  rw [howner]
  decide

end ElGamalVoting.Credentials
