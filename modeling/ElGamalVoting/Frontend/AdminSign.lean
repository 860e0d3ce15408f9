import ElGamalVoting.Adapters.MemoryBinding

/- The request digests the admin app signs (`frontend/apps/admin/src/adminSign.ts`)
   against those the store verifies (`core/authz.py`).

   An app function that throws returns `none`. `hexToBytes` is the one of `viem`: it drops
   two characters, pads an odd number of digits on the left and throws on anything that is
   not a digit. A length is written as JavaScript writes a number into four bytes.

   A cancellation is signed over the string the server hashes. A retry is signed over an empty
   payload, and the server hashes the eight bytes of its `issued_at`. -/
namespace ElGamalVoting
open Lib

namespace Frontend

/-- Pairs of digits. -/
def hexPairs : List Nat → Option Bytes
  | [] => some []
  | [_] => none
  | c :: d :: rest => do
    let hi ← hexValue c
    let lo ← hexValue d
    let tail ← hexPairs rest
    pure (UInt8.ofNat (16 * hi + lo) :: tail)

def hexToBytes (h : PyStr) : Option Bytes :=
  let body := h.drop 2
  hexPairs (if body.length % 2 = 1 then '0'.toNat :: body else body)

/-- A byte string behind its length. -/
def framed (b : Bytes) : Bytes := beBytes 4 b.length ++ b

def requestDigest (E : EthLib) (op : String) (eid : PyStr) : Option Bytes := do
  let id ← hexToBytes eid
  -- no payload for either operation
  pure (E.keccak (requestDst ++ framed (utf8 op) ++ framed id ++ framed []))

def cancelDigest (E : EthLib) (eid : PyStr) : Option Bytes := requestDigest E "cancel" eid

def retryTallyDigest (E : EthLib) (eid : PyStr) : Option Bytes := requestDigest E "tally_resume" eid

/-- The spelling of an id the app uses. -/
def eidText (electionId : Bytes) : PyStr := pyStr "0x" ++ pyStr (hex electionId)

theorem hexPairs_hex (b : Bytes) : hexPairs (pyStr (hex b)) = some b := by
  rw [pyStr, hex, String.toList_ofList]
  induction b with
  | nil => rfl
  | cons x b ih =>
    have hx := x.toNat_lt
    have hbyte : UInt8.ofNat (16 * (x.toNat / 16) + x.toNat % 16) = x := by
      rw [Nat.div_add_mod, UInt8.ofNat_toNat]
    simp only [List.flatMap_cons, List.cons_append, List.nil_append, List.map_cons, hexPairs,
      hexValue_hexDigit (by omega : x.toNat / 16 < 16), hexValue_hexDigit (by omega : x.toNat % 16 < 16), ih]
    show some (UInt8.ofNat (16 * (x.toNat / 16) + x.toNat % 16) :: b) = some (x :: b)
    rw [hbyte]

theorem length_pyStr_hex (b : Bytes) : (pyStr (hex b)).length = 2 * b.length := by
  rw [pyStr, hex, String.toList_ofList, List.length_map]
  induction b with
  | nil => rfl
  | cons x b ih =>
    rw [List.flatMap_cons, List.length_append, ih]
    simp
    omega

/-- The app's spelling of an id is read as that id. -/
theorem hexToBytes_eidText (electionId : Bytes) : hexToBytes (eidText electionId) = some electionId := by
  have hdrop : (eidText electionId).drop 2 = pyStr (hex electionId) := rfl
  rw [hexToBytes, hdrop, length_pyStr_hex]
  simp only [Nat.mul_mod_right, Nat.zero_ne_one, if_false]
  exact hexPairs_hex electionId

/-! ## The strings that are hashed -/

section
variable {E : EthLib} {electionId payload : Bytes} {eid : PyStr}

/-- What the server hashes for a request of an operation with a short name. -/
def requestString (op : String) (electionId payload : Bytes) : Bytes :=
  requestDst ++ framed (utf8 op) ++ framed electionId ++ framed payload

theorem u32be_length {b : Bytes} (h : b.length < 2 ^ 32) : u32be b.length = .ok (beBytes 4 b.length) := by
  rw [u32be, toBytes, if_neg (by omega), if_pos (by omega), Int.toNat_natCast]

theorem requestDigest_eq {op : String} (hop : (utf8 op).length < 2 ^ 32)
    (hid : electionId.length < 2 ^ 32) (hpayload : payload.length < 2 ^ 32) :
    ElGamalVoting.requestDigest E op electionId payload =
      .ok (E.keccak (requestString op electionId payload)) := by
  simp only [ElGamalVoting.requestDigest, requestPreimage, hashed, u32be_length hop, u32be_length hid, u32be_length hpayload,
    ok_bind, pure_eq_ok, requestString, framed, List.append_assoc]

theorem requestDigest_app {op : String} (heid : hexToBytes eid = some electionId) :
    requestDigest E op eid = some (E.keccak (requestString op electionId [])) := by
  rw [requestDigest, heid]
  rfl

/-- Strings for different payloads of one request differ. -/
theorem requestString_inj {op : String} {payload' : Bytes}
    (h : requestString op electionId payload = requestString op electionId payload') :
    payload = payload' := by
  have hframed : framed payload = framed payload' := List.append_cancel_left h
  exact (List.append_inj hframed (by simp)).2

/-- The freshness term is eight bytes. -/
theorem length_requestNoncePayload {issuedAt : Int} (h : requestNoncePayload issuedAt = .ok payload) :
    payload.length = 8 := by
  rw [requestNoncePayload] at h
  split at h
  · cases h
  · obtain ⟨-, -, rfl⟩ := toBytes_eq_ok h
    exact length_beBytes 8 _

/-- Two byte strings the hash does not confuse. -/
def NoCollision (E : EthLib) (x y : Bytes) : Prop := E.keccak x = E.keccak y → x = y

/-- A cancellation is signed over the digest the server verifies; a retry never is, and so no
    retry the admin signed is taken, whatever the time in it. -/
theorem retry_never_verifies (hid : electionId.length = 32) (heid : hexToBytes eid = some electionId)
    {issuedAt : Int} (hpayload : requestNoncePayload issuedAt = .ok payload)
    (hhash : NoCollision E (requestString "tally_resume" electionId [])
      (requestString "tally_resume" electionId payload)) :
    (∃ d, cancelDigest E eid = some d ∧ ElGamalVoting.requestDigest E "cancel" electionId [] = .ok d) ∧
    (∃ d d', retryTallyDigest E eid = some d ∧
      ElGamalVoting.requestDigest E (stallOp false) electionId payload = .ok d' ∧ d ≠ d') ∧
    ∀ (s : InMemoryDataLayer) (st : Stored) (now later : Int) (sig : Bytes),
      s.elections.get? electionId = some st →
      -- the admin made this signature for what the app asked for, and for nothing else
      (∀ d, E.recoverMessage d sig = some st.config.adminKey → retryTallyDigest E eid = some d) →
      ¬ Returns (setTallyStalled E s now later electionId false sig issuedAt) := by
  have hlen := length_requestNoncePayload hpayload
  have hretry : retryTallyDigest E eid = some (E.keccak (requestString "tally_resume" electionId [])) :=
    requestDigest_app heid
  have hserver : ElGamalVoting.requestDigest E (stallOp false) electionId payload =
      .ok (E.keccak (requestString "tally_resume" electionId payload)) :=
    requestDigest_eq (by decide +kernel) (by omega) (by omega)
  have hne : E.keccak (requestString "tally_resume" electionId []) ≠
      E.keccak (requestString "tally_resume" electionId payload) := by
    intro h
    rw [← requestString_inj (hhash h)] at hlen
    cases hlen
  refine ⟨⟨_, requestDigest_app heid, requestDigest_eq (by decide +kernel) (by omega) (by simp)⟩,
    ⟨_, _, hretry, hserver, hne⟩, ?_⟩
  intro s st now later sig hst hsig hreturns
  obtain ⟨s', hs'⟩ := hreturns
  rw [setTallyStalled, getStored_eq_ok.mpr hst, ok_bind] at hs'
  split at hs'
  · cases hs'
  split at hs'
  · cases hs'
  rw [hpayload, ok_bind] at hs'
  obtain ⟨_, hauth, _⟩ := bind_eq_ok.mp hs'
  unfold requireStallAuthority at hauth
  simp only [Bool.false_eq_true, if_false] at hauth
  split at hauth
  · cases hauth
  · rename_i hverify
    obtain ⟨d, hd, hkey⟩ := verifyRequest_eq_true (not_not.mp hverify)
    rw [hserver, Except.ok.injEq] at hd
    have happ := hsig d hkey
    rw [hretry, Option.some.injEq] at happ
    exact hne (happ.trans hd.symm)

end

/-! ## A stalled tally -/

namespace RetrySample

/-- A store in which the tally of the first election is stalled. -/
def store : InMemoryDataLayer where
  elections := Dict.set ∅ smallConfig.electionId { config := smallConfig, tallyStalled := true }
  nextId := 1

def issuedAt : Int := 1000

/-- What the admin signs when asked by the app. -/
def signature : Bytes :=
  plainEth.signMessage smallConfig.adminKey
    (requestString "tally_resume" smallConfig.electionId [])

/-- The admin's signature over the digest the server verifies. -/
def signatureOverTime : Bytes :=
  plainEth.signMessage smallConfig.adminKey
    (requestString "tally_resume" smallConfig.electionId (beBytes 8 1000))

end RetrySample

open RetrySample in
/-- A fresh retry of the first election: the app's digest is another one than the server's, and
    the server refuses the signature over it while it takes one over its own. -/
theorem retry_of_first_refused :
    requestIsFresh issuedAt 1000 = true ∧
    (retryTallyDigest plainEth (eidText smallConfig.electionId)).map Except.ok ≠
      some (do
        let payload ← requestNoncePayload issuedAt
        ElGamalVoting.requestDigest plainEth "tally_resume" smallConfig.electionId payload) ∧
    ((setTallyStalled plainEth store 1000 1000 smallConfig.electionId false signature issuedAt).map
      fun _ => ()) = .error (.writeAuthorization "clear tally stalled: bad admin signature") ∧
    ((setTallyStalled plainEth store 1000 1000 smallConfig.electionId false signatureOverTime
      issuedAt).map fun _ => ()) = .ok () := by
  decide +kernel

open RetrySample in
/-- The digests of the first election, and the fate of any retry the admin signs for the app. -/
theorem retry_never_verifies_first :
    requestNoncePayload issuedAt = .ok (beBytes 8 1000) ∧
    ∃ d d', retryTallyDigest plainEth (eidText smallConfig.electionId) = some d ∧
      ElGamalVoting.requestDigest plainEth (stallOp false) smallConfig.electionId (beBytes 8 1000) =
        .ok d' ∧ d ≠ d' := by
  have hpayload : requestNoncePayload issuedAt = .ok (beBytes 8 1000) := by decide +kernel
  exact ⟨hpayload, (retry_never_verifies (E := plainEth) (by decide)
    (hexToBytes_eidText smallConfig.electionId) hpayload id).2.1⟩

end Frontend
end ElGamalVoting
