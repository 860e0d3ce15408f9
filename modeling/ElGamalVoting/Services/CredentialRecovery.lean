import ElGamalVoting.Services.CredentialSafety

/- What a call that is refused recovers from, and what it does not.

   A keyper that holds another token than the one presented answers 401, and `_post_keyper`
   installs its credential again: from whatever state the system is in, the repeated call passes
   (`postKeyper_passes_iff`). A keyper that lost its state holds none and answers 503, which is
   not taken for a reason to install one: no run of tally polls gives such a keyper a credential
   (`lost_keyper_stays_out`), only the next ceremony it is a member of does.

   The signature over a bundle does not cover its recipient, so a keyper that passes its bundle
   on gives the next one its own tokens (`resealed_bundle_installs`). -/
namespace ElGamalVoting.Credentials
open Lib

section
variable {host : PyStr → Bytes} {token : Nat → Token} {s : System}

/-! ## Seats -/

theorem credentials_length (s : System) (urls : List PyStr) :
    (s.credentials token urls).2.length = urls.length := by
  induction urls generalizing s with
  | nil => rfl
  | cons url urls ih =>
    rw [System.credentials]
    split
    · exact congrArg (· + 1) (ih s)
    · exact congrArg (· + 1) (ih _)

variable (token) in
theorem keypers_credentials (s : System) (urls : List PyStr) :
    (s.credentials token urls).1.keypers = s.keypers ∧ (s.credentials token urls).1.sent = s.sent ∧
      (s.credentials token urls).1.log = s.log := by
  induction urls generalizing s with
  | nil => exact ⟨rfl, rfl, rfl⟩
  | cons url urls ih =>
    rw [System.credentials]
    split
    · exact ih s
    · exact ih (s.mint token url)

/-- A seat is at its index, with the member, the credential and the key that stand there. -/
theorem seats_at {i : Nat} {members : List Member} {creds : List Credential} {keys : List EncKey}
    {seat : Seat} (h : seat ∈ seats i members creds keys) :
    ∃ j, seat.index = i + j ∧ members[j]? = some seat.member ∧ creds[j]? = some seat.credential ∧
      keys[j]? = some seat.key := by
  induction members generalizing i creds keys with
  | nil => simp [seats] at h
  | cons m members ih =>
    cases creds with
    | nil => simp [seats] at h
    | cons cred creds =>
      cases keys with
      | nil => simp [seats] at h
      | cons key keys =>
        rw [seats] at h
        rcases List.mem_cons.mp h with rfl | h
        · exact ⟨0, rfl, rfl, rfl, rfl⟩
        · obtain ⟨j, hj, hm, hc, hk⟩ := ih h
          exact ⟨j + 1, by omega, hm, hc, hk⟩

/-- The one seat with an index of the committee. -/
theorem filter_seats {i j : Nat} {members : List Member} {creds : List Credential} {keys : List EncKey}
    {m : Member} (hm : members[j]? = some m) {cred : Credential} (hc : creds[j]? = some cred)
    {key : EncKey} (hk : keys[j]? = some key) :
    (seats i members creds keys).filter (fun seat => seat.index = i + j) = [⟨i + j, m, cred, key⟩] := by
  induction members generalizing i j creds keys with
  | nil => simp at hm
  | cons m' members ih =>
    cases creds with
    | nil => simp at hc
    | cons cred' creds =>
      cases keys with
      | nil => simp at hk
      | cons key' keys =>
        rw [seats, List.filter_cons]
        cases j with
        | zero =>
          simp only [List.getElem?_cons_zero, Option.some.injEq] at hm hc hk
          subst hm hc hk
          have hrest : (seats (i + 1) members creds keys).filter (fun seat => seat.index = i + 0) = [] := by
            rw [List.filter_eq_nil_iff]
            intro seat hseat
            obtain ⟨j, hj, -⟩ := seats_at hseat
            simp only [decide_eq_true_eq]
            omega
          rw [hrest, if_pos (by simp)]
          rfl
        | succ j =>
          have hshift : i + (j + 1) = i + 1 + j := by omega
          rw [if_neg (by simp), hshift]
          exact ih hm hc hk

theorem verifiedKeys_at {status : Nat → Option EncKey} {i j : Nat} {members : List Member}
    {keys : List EncKey} (h : verifiedKeys status i members = some keys) {m : Member}
    (hm : members[j]? = some m) : keys[j]? = status (i + j) := by
  induction members generalizing i j keys with
  | nil => simp at hm
  | cons m' members ih =>
    rw [verifiedKeys] at h
    split at h
    · cases h
    · next key hkey =>
      split at h
      · obtain ⟨rest, hrest, rfl⟩ := Option.map_eq_some_iff.mp h
        cases j with
        | zero => exact hkey.symm
        | succ j =>
          have hshift : i + (j + 1) = i + 1 + j := by omega
          rw [hshift, List.getElem?_cons_succ]
          exact ih hrest hm
      · cases h

/-! ## A repeated call -/

/-- During one bootstrap every key verifies, and the bundle for the member reaches its keyper,
    which has not seen its nonce and whose clock is near the coordinator's. -/
structure Net.Delivers (net : Net) (k : Keyper) (committee : List Member) (i : Nat) (m : Member)
    (now : ℚ) : Prop where
  verified : (verifiedKeys net.status 1 committee).isSome = true
  key : net.status i = some ⟨m.address, k.generation⟩
  delivered : net.meanwhile i = [.deliver 0 m.address now]
  answered : net.answered i = true
  fresh : (k.tracker.checkAndRecord now (net.nonce i) (net.clock i)).2 = .ok true

theorem Keyper.bootstrap_fresh {k : Keyper} {now : ℚ} {b : Bundle}
    (h : (k.tracker.checkAndRecord now b.nonce b.timestamp).2 = .ok true) :
    (k.bootstrap now b).installed = k.installed.accept b := by
  rw [Keyper.bootstrap]
  split
  · rfl
  · next hother heq =>
    rw [heq] at h
    exact absurd h hother

section
variable (relayToken : Option PyStr) {committee : List Member} {net : Net} {i : Nat} {m : Member} {now : ℚ}

variable (host) in
/-- The bundle of one seat, sealed to its keyper's present key. -/
theorem postAll_one (roster : List Seat) (cred : Credential)
    (hnet : net.Delivers (s.keypers m.address) committee i m now) :
    ∃ s', s.postAll host relayToken roster net
        [⟨i, m, cred, ⟨m.address, (s.keypers m.address).generation⟩⟩] = (s', true) ∧
      (s'.keypers m.address).installed.credential = some cred ∧ s'.log = s.log := by
  let seat : Seat := ⟨i, m, cred, ⟨m.address, (s.keypers m.address).generation⟩⟩
  let b := seat.bundle relayToken roster net
  refine ⟨(s.send ⟨seat.key, b⟩).setKeyper m.address ((s.keypers m.address).bootstrap now b), ?_, ?_, rfl⟩
  · have hdeliver : KeyperEvent.apply host (s.send ⟨seat.key, b⟩) (.deliver 0 m.address now) =
        (s.send ⟨seat.key, b⟩).setKeyper m.address ((s.keypers m.address).bootstrap now b) :=
      if_pos rfl
    rw [System.postAll, if_pos hnet.answered, System.postAll, hnet.delivered]
    exact congrArg (·, true) hdeliver
  · rw [System.keypers_setKeyper, if_pos rfl, Keyper.bootstrap_fresh hnet.fresh]
    rfl

variable (host token) in
/-- The bundle that is posted to one member installs the credential its token is returned of. -/
theorem bootstrap_one (hi : 1 ≤ i) (hm : committee[i - 1]? = some m)
    (hnet : net.Delivers (s.keypers m.address) committee i m now) :
    ∃ s' fresh cred, s.bootstrap host relayToken token committee net (some i) = (s', some fresh) ∧
      fresh[i - 1]? = some cred.apiToken ∧
      (s'.keypers m.address).installed.credential = some cred ∧ s'.log = s.log := by
  obtain ⟨keys, hkeys⟩ := Option.isSome_iff_exists.mp hnet.verified
  have hindex : 1 + (i - 1) = i := by omega
  have hkey : keys[i - 1]? = some ⟨m.address, (s.keypers m.address).generation⟩ := by
    rw [verifiedKeys_at hkeys hm, hindex]
    exact hnet.key
  have hlength : i - 1 < (s.credentials token (committee.map Member.url)).2.length := by
    rw [credentials_length, List.length_map]
    exact (List.getElem?_eq_some_iff.mp hm).1
  obtain ⟨cred, hcred⟩ : ∃ cred, (s.credentials token (committee.map Member.url)).2[i - 1]? = some cred :=
    ⟨_, List.getElem?_eq_getElem hlength⟩
  obtain ⟨hkeypers, -, hlog⟩ := keypers_credentials token s (committee.map Member.url)
  have hseat := filter_seats (i := 1) hm hcred hkey
  rw [hindex] at hseat
  generalize hs : s.credentials token (committee.map Member.url) = minted at hseat hcred hkeypers hlog
  obtain ⟨s₁, creds⟩ := minted
  simp only at hseat hcred hkeypers hlog
  rw [← hkeypers] at hnet hseat
  obtain ⟨s', hpost, hinstalled, hlog'⟩ := postAll_one host relayToken (seats 1 committee creds keys) cred hnet
  refine ⟨s'.remember (committee.map Member.url) (creds.map Credential.apiToken), creds.map Credential.apiToken,
    cred, ?_, by rw [List.getElem?_map, hcred, Option.map_some], hinstalled, hlog'.trans hlog⟩
  have hboot : s.bootstrapKeypers host relayToken token committee net (some i) =
      (s', some (creds.map Credential.apiToken)) := by
    rw [System.bootstrapKeypers, hs]
    simp only [hkeys, targetsOf, hseat, hpost, if_true]
  rw [System.bootstrap, hboot]

variable (token) in
/-- A repeated call passes the bearer check, whatever the system was before. -/
theorem repeatCall_passes (hi : 1 ≤ i) (hm : committee[i - 1]? = some m)
    (hnet : net.Delivers (s.keypers m.address) committee i m now) (hhost : host m.url = m.address)
    {call : Trigger} (hcall : call.index = i) {status : Nat} (hagain : call.again = some status)
    (tokens : List Token) (first : Option Nat) :
    (System.repeatCall host tokens call m.url first
      (s.bootstrap host relayToken token committee net (some i))).1.log.head? =
        some ⟨m.address, false, none⟩ := by
  obtain ⟨s', fresh, cred, hboot, hfresh, hinstalled, -⟩ :=
    bootstrap_one host token relayToken hi hm hnet
  have hpass : (s'.keypers m.address).requireBearer false (bearer cred.apiToken) = none := by
    rw [requireBearer_bearer, hinstalled]
    exact if_pos rfl
  rw [hboot, System.repeatCall, hcall]
  simp only [Option.bind_some, hfresh, hagain, hhost]
  rw [System.call, System.request, hpass]
  rfl

end

end

/-- From any state, a call whose bundle would reach the keyper ends in a request that passes the
    bearer check, unless the keyper holds no credential. -/
theorem postKeyper_passes_iff (host : PyStr → Bytes) (relayToken : Option PyStr) (token : Nat → Token)
    (s : System) {committee : List Member} {tokens : List Token} {call : Trigger} {m : Member} {t : Token}
    {now : ℚ} (hindex : 1 ≤ call.index) (hm : committee[call.index - 1]? = some m)
    (ht : tokens[call.index - 1]? = some t) (hhost : host m.url = m.address)
    (hquiet : call.meanwhile = []) (hanswer : call.answer.isSome = true) (hagain : call.again.isSome = true)
    (hnet : call.net.Delivers (s.keypers m.address) committee call.index m now) :
    (s.postKeyper host relayToken token committee tokens call).1.log.head? = some ⟨m.address, false, none⟩ ↔
      (s.keypers m.address).installed.credential.isSome = true := by
  obtain ⟨handled, hanswer⟩ := Option.isSome_iff_exists.mp hanswer
  obtain ⟨again, hagain⟩ := Option.isSome_iff_exists.mp hagain
  have hrepeat := repeatCall_passes (s := s.request m.address false t) token relayToken hindex hm
    hnet hhost rfl hagain tokens
  rw [System.postKeyper, hquiet, hm, ht]
  simp only [KeyperEvent.applyAll, List.foldl_nil, hanswer, hhost, System.call]
  cases hcred : (s.keypers m.address).installed.credential with
  | none =>
    have hrefused : (s.keypers m.address).requireBearer false (bearer t) = some 503 := by
      rw [requireBearer_bearer, hcred]
      rfl
    simp [hrefused, System.request]
  | some cred =>
    simp only [Option.isSome_some, iff_true]
    split
    · exact hrepeat _
    · next hne =>
      -- any other answer is the handler's own, behind the check
      have hpass : (s.keypers m.address).requireBearer false (bearer t) = none := by
        rw [requireBearer_bearer, hcred] at hne ⊢
        by_cases heq : cred.expected false = t
        · exact if_pos heq
        · simp [heq] at hne
      rw [System.request, hpass]
      rfl

namespace CredentialSample

/-- After the first ceremony, the token file is gone and the next bootstrap fails at the statuses:
    the file has new credentials, and the keypers the old ones. -/
def staleFirst : System :=
  run host none token System.start
    [.dkg [member 1, member 2] (net [1, 2] 1) [], .loseTokens, .dkg [member 1, member 2] (net [] 2) []]

def retried : Trigger := ⟨1, [], some 202, net [1, 2] 3, some 202⟩

end CredentialSample

open CredentialSample in
/-- The call with the file's new token is refused, the credential is installed, and the second
    try passes. -/
theorem stale_first_keyper_recovered :
    (staleFirst.keypers (address 1)).requireBearer false (bearer (token 4)) = some 401 ∧
      (staleFirst.postKeyper host none token [member 1, member 2] [token 4, token 6] retried).1.log.head? =
        some ⟨address 1, false, none⟩ :=
  ⟨by decide +kernel, (postKeyper_passes_iff host none token staleFirst (m := member 1) (t := token 4)
    (by decide) rfl rfl (by decide +kernel) rfl rfl rfl
    ⟨by decide +kernel, by decide +kernel, rfl, rfl, by decide +kernel⟩).mpr (by decide +kernel)⟩

/-! ## A keyper that lost its state -/

section
variable {host : PyStr → Bytes} {token : Nat → Token} {s : System}

/-- There is a token file, with at least the entries of an earlier reading. -/
def Covers (look : PyStr → Option Credential) (s : System) : Prop :=
  s.store.isSome = true ∧ Extends look s.stored

theorem Covers.credentials {look : PyStr → Option Credential} (h : Covers look s) (urls : List PyStr) :
    Covers look (s.credentials token urls).1 := by
  induction urls generalizing s with
  | nil => exact h
  | cons url urls ih =>
    rw [System.credentials]
    split
    · exact ih h
    · next hnew =>
      refine ih ⟨(Option.isSome_map ..).trans h.1, fun u cred hu => ?_⟩
      have hold := h.2 u cred hu
      have hne : u ≠ url := by
        rintro rfl
        rw [hnew] at hold
        cases hold
      obtain ⟨store, hstore⟩ := Option.isSome_iff_exists.mp h.1
      rw [System.stored, hstore] at hold
      rw [System.stored, System.mint, hstore]
      exact (Dict.get?_set_ne hne).trans hold

/-- The keyper holds no credential, neither installed nor saved, and no bundle under way is sealed
    to its present key or to a later one. -/
structure Lost (a : Bytes) (look : PyStr → Option Credential) (old : List Request) (s : System) :
    Prop where
  installed : (s.keypers a).installed.credential = none
  saved : (s.keypers a).saved = none
  sent : ∀ e ∈ s.sent, e.key.owner = a → e.key.generation < (s.keypers a).generation
  /-- Every request to it since then was refused with 503. -/
  log : ∃ new, s.log = new ++ old ∧ ∀ r ∈ new, r.keyper = a → r.refused = some 503
  covers : Covers look s

/-- The events of a run of tally polls by a coordinator whose token file has an entry for every
    member. -/
def Event.Tallies (host : PyStr → Bytes) (look : PyStr → Option Credential) : Event → Prop
  | .keyper e => e.Sealed
  | .tally committee _ calls =>
    (∀ m ∈ committee, host m.url = m.address ∧ (look m.url).isSome = true) ∧ ∀ call ∈ calls, call.Sealed
  | .restartCoordinator => True
  | _ => False

namespace Lost
variable {a : Bytes} {look : PyStr → Option Credential} {old : List Request}

theorem requireBearer (h : Lost a look old s) (peer : Bool) (t : Token) :
    (s.keypers a).requireBearer peer (bearer t) = some 503 := by
  rw [requireBearer_bearer, h.installed]
  rfl

theorem request (h : Lost a look old s) (b : Bytes) (peer : Bool) (t : Token) :
    Lost a look old (s.request b peer t) where
  installed := h.installed
  saved := h.saved
  sent := h.sent
  log := by
    obtain ⟨new, hnew, hrefused⟩ := h.log
    refine ⟨_ :: new, congrArg (_ :: ·) hnew, fun r hr hra => ?_⟩
    rcases List.mem_cons.mp hr with rfl | hr
    · rw [show b = a from hra]
      exact h.requireBearer peer t
    · exact hrefused r hr hra
  covers := h.covers

/-- What changes at another keyper. -/
theorem setKeyper_of_ne (h : Lost a look old s) {b : Bytes} (hb : b ≠ a) (k : Keyper) :
    Lost a look old (s.setKeyper b k) := by
  have hsame : (s.setKeyper b k).keypers a = s.keypers a := by
    rw [System.keypers_setKeyper, if_neg (Ne.symm hb)]
  exact ⟨by rw [hsame, h.installed], by rw [hsame, h.saved], by rw [hsame]; exact h.sent, h.log,
    h.covers⟩

theorem keyperEvent (h : Lost a look old s) {e : KeyperEvent} (he : e.Sealed) : Lost a look old (e.apply host s) := by
  cases e with
  | deliver number b now =>
    rw [KeyperEvent.apply]
    split
    · next e hsent =>
      split
      · next hkey =>
        refine h.setKeyper_of_ne (fun hb => ?_) _
        subst hb
        have hlt := h.sent e (List.mem_of_getElem? hsent) (by rw [hkey])
        rw [hkey] at hlt
        exact absurd hlt (Nat.lt_irrefl _)
      · exact h
    · exact h
  | reseal number b now => exact he.elim
  | restart b =>
    by_cases hb : b = a
    · subst hb
      have hself : ((KeyperEvent.restart b).apply host s).keypers b = (s.keypers b).restart := by
        rw [KeyperEvent.apply, System.keypers_setKeyper, if_pos rfl]
      refine ⟨?_, ?_, ?_, h.log, h.covers⟩
      · rw [hself, Keyper.restart, h.saved]
        rfl
      · rw [hself, Keyper.restart, h.saved]
      · rw [hself]
        exact h.sent
    · exact h.setKeyper_of_ne hb _
  | lose b =>
    by_cases hb : b = a
    · subst hb
      have hself : ((KeyperEvent.lose b).apply host s).keypers b = (s.keypers b).lose := by
        rw [KeyperEvent.apply, System.keypers_setKeyper, if_pos rfl]
      refine ⟨by rw [hself]; rfl, by rw [hself]; rfl, fun e hsent howner => ?_, h.log, h.covers⟩
      rw [hself]
      exact Nat.lt_succ_of_lt (h.sent e hsent howner)
    · exact h.setKeyper_of_ne hb _
  | callPeer b index =>
    rw [KeyperEvent.apply]
    split
    · exact h.request _ true _
    · exact h

variable (host) in
theorem applyAll (h : Lost a look old s) {events : List KeyperEvent} (he : ∀ e ∈ events, e.Sealed) :
    Lost a look old (KeyperEvent.applyAll host s events) := by
  induction events generalizing s with
  | nil => exact h
  | cons e events ih =>
    exact ih (h.keyperEvent (he e List.mem_cons_self)) fun e' he' => he e' (List.mem_cons_of_mem e he')

theorem credentials (h : Lost a look old s) (urls : List PyStr) : Lost a look old (s.credentials token urls).1 := by
  obtain ⟨hkeypers, hsent, hlog⟩ := keypers_credentials token s urls
  exact ⟨by rw [hkeypers, h.installed], by rw [hkeypers, h.saved], by rw [hkeypers, hsent]; exact h.sent,
    by rw [hlog]; exact h.log, h.covers.credentials urls⟩

variable (relayToken : Option PyStr)

/-- Bundles that are sealed to other keypers. -/
theorem postAll (h : Lost a look old s) {roster targets : List Seat} {net : Net} (hnet : net.Sealed)
    (htargets : ∀ seat ∈ targets, seat.key.owner ≠ a) :
    Lost a look old (s.postAll host relayToken roster net targets).1 := by
  induction targets generalizing s with
  | nil => exact h
  | cons seat targets ih =>
    have hsend : Lost a look old (s.send ⟨seat.key, seat.bundle relayToken roster net⟩) := by
      refine ⟨h.installed, h.saved, fun e he howner => ?_, h.log, h.covers⟩
      rcases List.mem_cons.mp he with rfl | he
      · exact absurd howner (htargets seat List.mem_cons_self)
      · exact h.sent e he howner
    have hposted := hsend.applyAll host (hnet seat.index)
    rw [System.postAll]
    split
    · exact ih hposted fun seat' hseat => htargets seat' (List.mem_cons_of_mem seat hseat)
    · exact hposted

variable (host token) in
/-- The credential of another member is installed again. -/
theorem bootstrap (h : Lost a look old s) {committee : List Member} {net : Net} (hnet : net.Sealed) {i : Nat}
    {m : Member} (hm : committee[i - 1]? = some m) (hne : m.address ≠ a) :
    Lost a look old (s.bootstrap host relayToken token committee net (some i)).1 := by
  have hkeypers : Lost a look old (s.bootstrapKeypers host relayToken token committee net (some i)).1 := by
    rw [System.bootstrapKeypers]
    cases hkeys : verifiedKeys net.status 1 committee with
    | none => exact h.credentials _
    | some keys =>
      refine (h.credentials _).postAll relayToken hnet fun seat hseat howner => ?_
      obtain ⟨hmem, hindex⟩ := List.mem_filter.mp hseat
      obtain ⟨j, hj, hmember, -, hkey⟩ := seats_at hmem
      have hij : i - 1 = j := by
        simp only [decide_eq_true_eq] at hindex
        omega
      rw [hij, hmember, Option.some.injEq] at hm
      obtain ⟨key, hkey', hverified⟩ := forall₂_getElem? (verifiedKeys_owner hkeys) hmember
      rw [hkey, Option.some.injEq] at hkey'
      rw [← hkey', howner, hm] at hverified
      exact hne hverified.symm
  rw [System.bootstrap]
  cases hboot : s.bootstrapKeypers host relayToken token committee net (some i) with
  | mk s' result =>
    rw [hboot] at hkeypers
    cases result with
    | none => exact hkeypers
    | some tokens => exact ⟨hkeypers.installed, hkeypers.saved, hkeypers.sent, hkeypers.log, hkeypers.covers⟩

theorem call (h : Lost a look old s) (b : Bytes) (t : Token) (handled : Option Nat) :
    Lost a look old (s.call b t handled).1 := by
  cases handled with
  | none => exact h
  | some status => exact h.request b false t

/-- A call that is answered 401 was to another keyper. -/
theorem ne_of_call (h : Lost a look old s) {b : Bytes} {t : Token} {handled : Option Nat}
    (hcall : (s.call b t handled).2 = some 401) : b ≠ a := by
  intro hb
  subst hb
  cases handled with
  | none => cases hcall
  | some status =>
    rw [System.call, h.requireBearer] at hcall
    simp at hcall

theorem postKeyper (h : Lost a look old s) {committee : List Member}
    (hhost : ∀ m ∈ committee, host m.url = m.address) (tokens : List Token) {call : Trigger}
    (hcall : call.Sealed) : Lost a look old (s.postKeyper host relayToken token committee tokens call).1 := by
  have hmean := h.applyAll host hcall.1
  rw [System.postKeyper]
  generalize KeyperEvent.applyAll host s call.meanwhile = s₁ at hmean ⊢
  split
  · next m t hm ht =>
    have hfirst := hmean.call (host m.url) t call.answer
    simp only
    split
    · next hanswer =>
      have hne : m.address ≠ a := by
        rw [← hhost m (List.mem_of_getElem? hm)]
        exact hmean.ne_of_call hanswer
      have hboot := hfirst.bootstrap host token relayToken hcall.2 hm hne
      rw [System.repeatCall]
      split
      · exact hboot
      · exact hboot.call _ _ _
    · exact hfirst
  · exact hmean

theorem postAllKeypers (h : Lost a look old s) {committee : List Member}
    (hhost : ∀ m ∈ committee, host m.url = m.address) (tokens : List Token) {calls : List Trigger}
    (hcalls : ∀ call ∈ calls, call.Sealed) :
    Lost a look old (s.postAllKeypers host relayToken token committee tokens calls) := by
  induction calls generalizing s tokens with
  | nil => exact h
  | cons call calls ih =>
    exact ih (h.postKeyper relayToken hhost tokens (hcalls call List.mem_cons_self)) _
      fun c hc => hcalls c (List.mem_cons_of_mem call hc)

variable (host token) in
/-- The tokens of a committee whose members all have an entry are read, and nobody is
    bootstrapped. -/
theorem committeeTokens (h : Lost a look old s) {committee : List Member}
    (hlook : ∀ m ∈ committee, (look m.url).isSome = true) (net : Net) :
    Lost a look old (s.committeeTokens host relayToken token committee net).1 := by
  obtain ⟨store, hstore⟩ := Option.isSome_iff_exists.mp h.covers.1
  have hread : (committee.map Member.url).mapM s.stored =
      some ((committee.map Member.url).map fun u => (s.stored u).getD (drawn token 0)) := by
    refine mapM_some_of fun u hu => ?_
    obtain ⟨m, hm, rfl⟩ := List.mem_map.mp hu
    obtain ⟨cred, hcred⟩ := Option.isSome_iff_exists.mp (hlook m hm)
    rw [h.covers.2 m.url cred hcred, Option.getD_some]
  rw [System.committeeTokens]
  split
  · exact h
  · rw [hstore, hread]
    exact ⟨h.installed, h.saved, h.sent, h.log, h.covers⟩

theorem event (h : Lost a look old s) {e : Event} (he : e.Tallies host look) :
    Lost a look old (e.apply host relayToken token s) := by
  cases e with
  | keyper e => exact h.keyperEvent he
  | dkg committee net calls => exact he.elim
  | tally committee net calls =>
    obtain ⟨hm, hcalls⟩ := he
    have htokens := h.committeeTokens host token relayToken (fun m hmem => (hm m hmem).2) net
    rw [Event.apply]
    cases hread : s.committeeTokens host relayToken token committee net with
    | mk s' tokens =>
      rw [hread] at htokens
      cases tokens with
      | none => exact htokens
      | some tokens =>
        exact htokens.postAllKeypers relayToken (fun m hmem => (hm m hmem).1) tokens hcalls
  | restartCoordinator => exact ⟨h.installed, h.saved, h.sent, h.log, h.covers⟩
  | loseTokens => exact he.elim

end Lost

end

/-- A keyper that lost its state directory is given no credential by the tally: over any run of
    polls, restarts and deliveries it answers every request with 503. -/
theorem lost_keyper_stays_out (host : PyStr → Bytes) (relayToken : Option PyStr) (token : Nat → Token)
    {s : System} {a : Bytes} (hlost : Lost a s.stored s.log s) (events : List Event)
    (he : ∀ e ∈ events, e.Tallies host s.stored) :
    ((run host relayToken token s events).keypers a).installed.credential = none ∧
      ∃ new, (run host relayToken token s events).log = new ++ s.log ∧
        ∀ r ∈ new, r.keyper = a → r.refused = some 503 := by
  have hrun : Lost a s.stored s.log (run host relayToken token s events) := by
    rw [run]
    generalize s.stored = look at hlost he
    generalize s.log = old at hlost
    induction events generalizing s with
    | nil => exact hlost
    | cons e events ih =>
      exact ih (fun e' he' => he e' (List.mem_cons_of_mem e he')) (hlost.event relayToken (he e List.mem_cons_self))
  exact ⟨hrun.installed, hrun.log⟩

namespace CredentialSample

/-- After the first ceremony, the first keyper's state directory is gone. -/
def lostFirst : System :=
  run host none token System.start
    [.dkg [member 1, member 2] (net [1, 2] 1) [call 1, call 2], .keyper (.lose (address 1))]

/-- A poll, a restart, the old bundle once more and another poll. -/
def polls : List Event :=
  [.tally [member 1, member 2] (net [1, 2] 2) [call 1, call 2], .keyper (.deliver 1 (address 1) 1002),
    .restartCoordinator, .tally [member 1, member 2] (net [1, 2] 3) [call 1, call 2]]

theorem lostFirst_lost : Lost (address 1) lostFirst.stored lostFirst.log lostFirst where
  installed := by decide +kernel
  saved := by
    have hsaved : (lostFirst.keypers (address 1)).saved.isNone = true := by decide +kernel
    exact Option.isNone_iff_eq_none.mp hsaved
  sent := by decide +kernel
  log := ⟨[], (List.nil_append lostFirst.log).symm, fun r hr => by cases hr⟩
  covers := ⟨by decide +kernel, Extends.refl _⟩

theorem polls_tally : ∀ e ∈ polls, e.Tallies host lostFirst.stored := by
  have hm : ∀ m ∈ [member 1, member 2], host m.url = m.address ∧ (lostFirst.stored m.url).isSome = true := by
    decide +kernel
  have hc := calls_sealed [1, 2]
  intro e he
  simp only [polls, List.mem_cons, List.not_mem_nil, or_false] at he
  rcases he with rfl | rfl | rfl | rfl
  · exact ⟨hm, hc⟩
  · trivial
  · trivial
  · exact ⟨hm, hc⟩

end CredentialSample

open CredentialSample in
theorem lost_first_keyper_stays_out :
    (run host none token lostFirst polls).log.length = lostFirst.log.length + 4 ∧
      ((run host none token lostFirst polls).keypers (address 1)).installed.credential = none ∧
      ∃ new, (run host none token lostFirst polls).log = new ++ lostFirst.log ∧
        ∀ r ∈ new, r.keyper = address 1 → r.refused = some 503 :=
  ⟨by decide +kernel, lost_keyper_stays_out host none token lostFirst_lost polls polls_tally⟩

/-- A bundle that is passed on installs its own credential on the next keyper, where its nonce is
    new and its time is near. -/
theorem resealed_bundle_installs (host : PyStr → Bytes) (s : System) {number : Nat} {e : Envelope}
    (hsent : s.sent[number]? = some e) (b : Bytes) {now : ℚ}
    (hfresh : ((s.keypers b).tracker.checkAndRecord now e.bundle.nonce e.bundle.timestamp).2 = .ok true) :
    (((KeyperEvent.reseal number b now).apply host s).keypers b).requireBearer false
      (bearer e.bundle.credential.apiToken) = none := by
  rw [KeyperEvent.apply, hsent]
  simp only [System.keypers_setKeyper, if_true]
  rw [requireBearer_bearer, Keyper.bootstrap_fresh hfresh]
  exact if_pos rfl

end ElGamalVoting.Credentials
