import ElGamalVoting.Core.ContentBinding
import ElGamalVoting.Envelopes.CanonicalText
import ElGamalVoting.Envelopes.ConfigCodec

/- Domain separation of the signed digests (`core/authz.py` and `core/write_auth.py`).

   Eleven digests are signed. Ten hash a tag of their own before the content; the digest of a
   registration hashes the canonical text of the config alone, which opens with a brace. What
   follows a tag is read back from the left: fields of fixed size, fields behind their length,
   a canonical text or an ABI encoding at the end, and in the digest of decryption shares two
   ABI encodings in a row, where the first says how long it is. -/
namespace ElGamalVoting
open Lib

inductive DigestKind where
  | request | register | dkgResult | decryptionShare | ballot | result | dkgCommitments | dkgShare
  | dkgAccusation | dkgReveal | aggregate
  deriving DecidableEq

/-- A digest kind with the content it is taken of. A result and an aggregate are their
    hashed fields: the copy of the election id that the artifact carries is not hashed. -/
inductive SignedContent where
  | request (op : String) (electionId payload : Bytes)
  | register (config : ElectionConfig)
  | dkgResult (electionId pkElection : Bytes) (committeePks : List Bytes)
  | decryptionShare (electionId : Bytes) (shares : List Bytes) (proofs : List (Int × Int))
  | ballot (electionId : Bytes) (envelope : BallotEnvelope)
  | result (electionId : Bytes) (totals keyperIndices : List Int) (bsgsBound : Int)
  | dkgCommitments (electionId : Bytes) (dealerIndex : Int) (commitments : List Bytes)
  | dkgShare (electionId : Bytes) (dealerIndex recipientIndex share : Int)
  | dkgAccusation (electionId : Bytes) (accusedDealerIndex recipientIndex : Int)
  | dkgReveal (electionId : Bytes) (dealerIndex recipientIndex share : Int)
  | aggregate (electionId : Bytes) (aggregates : List Ciphertext) (admitted : List Int)
      (exclusions : List Exclusion) (totalAdmittedWeight totalScaledWeight : Int)

namespace SignedContent

section
variable (E : EthLib)

/-- The digest that is signed. -/
def digest : SignedContent → Py Bytes
  | .request op electionId payload => requestDigest E op electionId payload
  | .register config => .ok (registerDigest E config)
  | .dkgResult electionId pkElection committeePks =>
    .ok (dkgResultDigest E electionId pkElection committeePks)
  | .decryptionShare electionId shares proofs => decryptionShareDigest E electionId shares proofs
  | .ballot electionId envelope => .ok (ballotDigest E electionId envelope)
  | .result electionId totals keyperIndices bsgsBound =>
    resultDigest E electionId ⟨electionId, totals, keyperIndices, bsgsBound⟩
  | .dkgCommitments electionId dealerIndex commitments =>
    dkgCommitmentsDigest E electionId dealerIndex commitments
  | .dkgShare electionId dealerIndex recipientIndex share =>
    dkgShareDigest E electionId dealerIndex recipientIndex share
  | .dkgAccusation electionId accusedDealerIndex recipientIndex =>
    dkgAccusationDigest E electionId accusedDealerIndex recipientIndex
  | .dkgReveal electionId dealerIndex recipientIndex share =>
    dkgRevealDigest E electionId dealerIndex recipientIndex share
  | .aggregate electionId aggregates admitted exclusions total scaled =>
    aggregateDigestOf E electionId ⟨electionId, aggregates, admitted, exclusions, total, scaled⟩

/-- The byte string that is hashed. -/
def preimage : SignedContent → Py Bytes
  | .request op electionId payload => requestPreimage op electionId payload
  | .register config => .ok (encConfig config).dumps
  | .dkgResult electionId pkElection committeePks => .ok (dkgResultPreimage E electionId pkElection committeePks)
  | .decryptionShare electionId shares proofs => decryptionSharePreimage E electionId shares proofs
  | .ballot electionId envelope => .ok (ballotPreimage electionId envelope)
  | .result electionId totals keyperIndices bsgsBound =>
    resultPreimage E electionId ⟨electionId, totals, keyperIndices, bsgsBound⟩
  | .dkgCommitments electionId dealerIndex commitments =>
    dkgCommitmentsPreimage electionId dealerIndex commitments
  | .dkgShare electionId dealerIndex recipientIndex share =>
    dealtPreimage dkgShareDst electionId dealerIndex recipientIndex share
  | .dkgAccusation electionId accusedDealerIndex recipientIndex =>
    dkgAccusationPreimage electionId accusedDealerIndex recipientIndex
  | .dkgReveal electionId dealerIndex recipientIndex share =>
    dealtPreimage dkgRevealDst electionId dealerIndex recipientIndex share
  | .aggregate electionId aggregates admitted exclusions total scaled =>
    aggregatePreimage E electionId ⟨electionId, aggregates, admitted, exclusions, total, scaled⟩

end

/-- The sizes of well-formed contents. The count of an encoded list is one of its integers. -/
def WellSized : SignedContent → Prop
  | .request _ electionId _ => electionId.length = 32
  | .register config => ∃ conv j, decConfig conv j = .ok config
  | .dkgResult electionId pkElection committeePks => electionId.length = 32 ∧ pkElection.length = 96 ∧
    (∀ pk ∈ committeePks, pk.length = 96) ∧ committeePks.length < 2 ^ 256
  | .decryptionShare electionId shares proofs => electionId.length = 32 ∧
    (∀ share ∈ shares, share.length = 96) ∧ shares.length < 2 ^ 256 ∧
    ∀ p ∈ proofs, (0 ≤ p.1 ∧ p.1 < 2 ^ 256) ∧ 0 ≤ p.2 ∧ p.2 < 2 ^ 256
  | .ballot electionId envelope => electionId.length = 32 ∧ ∃ j, decBallot j = .ok envelope
  | .result electionId totals keyperIndices bsgsBound => electionId.length = 32 ∧
    (∀ v ∈ totals, 0 ≤ v ∧ v < 2 ^ 256) ∧ (∀ i ∈ keyperIndices, 0 ≤ i ∧ i < 2 ^ 64) ∧
    0 ≤ bsgsBound ∧ bsgsBound < 2 ^ 256
  | .dkgCommitments electionId dealerIndex commitments => electionId.length = 32 ∧
    (0 ≤ dealerIndex ∧ dealerIndex < 2 ^ 64) ∧ ∀ c ∈ commitments, c.length = 96
  | .dkgShare electionId dealerIndex recipientIndex share
  | .dkgReveal electionId dealerIndex recipientIndex share => electionId.length = 32 ∧
    (0 ≤ dealerIndex ∧ dealerIndex < 2 ^ 64) ∧ (0 ≤ recipientIndex ∧ recipientIndex < 2 ^ 64) ∧
    0 ≤ share ∧ share < curveOrder
  | .dkgAccusation electionId accusedDealerIndex recipientIndex => electionId.length = 32 ∧
    (0 ≤ accusedDealerIndex ∧ accusedDealerIndex < 2 ^ 64) ∧ 0 ≤ recipientIndex ∧ recipientIndex < 2 ^ 64
  | .aggregate electionId aggregates admitted exclusions total scaled => electionId.length = 32 ∧
    (∀ ct ∈ aggregates, ct.c1.length = 96 ∧ ct.c2.length = 96) ∧
    (∀ s ∈ admitted, 0 ≤ s ∧ s < 2 ^ 256) ∧
    (∀ x ∈ exclusions, 0 ≤ x.sequenceNumber ∧ x.sequenceNumber < 2 ^ 256) ∧
    (0 ≤ total ∧ total < 2 ^ 256) ∧ 0 ≤ scaled ∧ scaled < 2 ^ 256

/-- The texts of a config have no high surrogate directly before a low one, so that no two
    of them are the same UTF-16 units. -/
def PairedTexts : SignedContent → Prop
  | .register config => ∀ s ∈ config.texts, WellPaired s = true
  | _ => True

/-! ## The tags -/

def kind : SignedContent → DigestKind
  | .request .. => .request
  | .register .. => .register
  | .dkgResult .. => .dkgResult
  | .decryptionShare .. => .decryptionShare
  | .ballot .. => .ballot
  | .result .. => .result
  | .dkgCommitments .. => .dkgCommitments
  | .dkgShare .. => .dkgShare
  | .dkgAccusation .. => .dkgAccusation
  | .dkgReveal .. => .dkgReveal
  | .aggregate .. => .aggregate

end SignedContent

/-- What the byte string hashed for a kind opens with. -/
def DigestKind.tag : DigestKind → Bytes
  | .request => requestDst
  | .register => utf8 "\x7b"
  | .dkgResult => dkgResultDst
  | .decryptionShare => decryptShareDst
  | .ballot => ballotWriteDst
  | .result => resultDst
  | .dkgCommitments => dkgCommitmentsDst
  | .dkgShare => dkgShareDst
  | .dkgAccusation => dkgAccuseDst
  | .dkgReveal => dkgRevealDst
  | .aggregate => aggregateDst

def DigestKind.all : List DigestKind :=
  [.request, .register, .dkgResult, .decryptionShare, .ballot, .result, .dkgCommitments, .dkgShare,
    .dkgAccusation, .dkgReveal, .aggregate]

theorem DigestKind.mem_all (k : DigestKind) : k ∈ all := by
  cases k <;> decide

/-- No tag opens another. -/
theorem DigestKind.tag_prefixFree (k l : DigestKind) (h : k.tag <+: l.tag) : k = l := by
  have hall : ∀ k ∈ all, ∀ l ∈ all, k.tag <+: l.tag → k = l := by
    decide +kernel
  exact hall k k.mem_all l l.mem_all h

theorem DigestKind.eq_of_tags {k l : DigestKind} {x : Bytes} (hk : k.tag <+: x) (hl : l.tag <+: x) :
    k = l := by
  rcases List.prefix_or_prefix_of_prefix hk hl with h | h
  · exact tag_prefixFree k l h
  · exact (tag_prefixFree l k h).symm

/-! ## What the ABI encodings are assumed to be -/

/-- Every encoding can be decoded on the values that are signed, and an array of points opens
    with an offset and its count and has the size of that many points. -/
structure AbiLayout (E : EthLib) : Prop where
  tally : TallyDecodes E
  result : ResultDecodes E
  points : ∀ xs ys : List Bytes, (∀ x ∈ xs, x.length = 96) → (∀ y ∈ ys, y.length = 96) →
    E.abiBytesArray xs = E.abiBytesArray ys → xs = ys
  proofs : ∀ xs ys : List (Nat × Nat), (∀ p ∈ xs, p.1 < 2 ^ 256 ∧ p.2 < 2 ^ 256) →
    (∀ p ∈ ys, p.1 < 2 ^ 256 ∧ p.2 < 2 ^ 256) → E.abiProofs xs = E.abiProofs ys → xs = ys
  head : ∀ xs : List Bytes, (E.abiBytesArray xs).take 64 = beBytes 32 32 ++ beBytes 32 xs.length
  size : ∀ xs : List Bytes, (∀ x ∈ xs, x.length = 96) →
    (E.abiBytesArray xs).length = 64 + 160 * xs.length

/-! ## Reading a hashed byte string from the left -/

section
variable {E : EthLib} {x : Bytes}

theorem abiProofs_bounds {proofs : List (Int × Int)} {ns : List (Nat × Nat)}
    (h : (proofs.mapM fun p => do
      let e ← abiUint 256 p.1
      let z ← abiUint 256 p.2
      pure (e, z)) = Except.ok ns) :
    (∀ p ∈ ns, p.1 < 2 ^ 256 ∧ p.2 < 2 ^ 256) ∧ proofs = ns.map fun p => ((p.1 : Int), (p.2 : Int)) := by
  rw [mapM_eq_ok] at h
  induction h with
  | nil => exact ⟨nofun, rfl⟩
  | @cons p n proofs ns hhead htail ih =>
    obtain ⟨e, he, hhead⟩ := bind_eq_ok.mp hhead
    obtain ⟨z, hz, hhead⟩ := bind_eq_ok.mp hhead
    cases hhead
    have he' := abiUint_lt he
    have hz' := abiUint_lt hz
    refine ⟨?_, ?_⟩
    · intro q hq
      rcases List.mem_cons.mp hq with rfl | hq
      · exact ⟨he', hz'⟩
      · exact ih.1 q hq
    · rw [List.map_cons, ← ih.2, ← abiUint_eq_ok he, ← abiUint_eq_ok hz]

/-- The count at the start of an array of points tells where the array ends. -/
theorem points_split (habi : AbiLayout E) {xs ys : List Bytes} {r r' : Bytes}
    (hxs : ∀ x ∈ xs, x.length = 96) (hys : ∀ y ∈ ys, y.length = 96) (hxs' : xs.length < 2 ^ 256)
    (hys' : ys.length < 2 ^ 256) (h : E.abiBytesArray xs ++ r = E.abiBytesArray ys ++ r') :
    xs = ys ∧ r = r' := by
  have hsize := habi.size xs hxs
  have hsize' := habi.size ys hys
  have hhead := congrArg (List.take 64) h
  rw [List.take_append_of_le_length (by omega), List.take_append_of_le_length (by omega),
    habi.head, habi.head] at hhead
  have hcount : xs.length = ys.length :=
    beBytes_inj (by omega) (by omega) (List.append_cancel_left hhead)
  obtain ⟨harray, hrest⟩ := List.append_inj h (by omega)
  exact ⟨habi.points xs ys hxs hys harray, hrest⟩

end

namespace SignedContent

section
variable {E : EthLib} {a b : SignedContent} {x digest : Bytes}

/-- A digest that is returned is the hash of the byte string. -/
theorem digest_eq_ok : a.digest E = .ok digest ↔ ∃ x, a.preimage E = .ok x ∧ E.keccak x = digest := by
  cases a with
  | register => simp [SignedContent.digest, preimage, registerDigest]
  | dkgResult => simp [SignedContent.digest, preimage, dkgResultDigest]
  | ballot => simp [SignedContent.digest, preimage, ballotDigest]
  | _ => exact hashed_eq_ok

/-- The rest of a byte string that is a tag and more. -/
theorem prefix_of_append {t body : Bytes} (h : (Except.ok (t ++ body) : Py Bytes) = .ok x) : t <+: x := by
  cases h
  exact List.prefix_append t body

theorem opens_with_tag (h : a.preimage E = .ok x) : a.kind.tag <+: x := by
  -- each preimage starts with its tag, after the lengths that may raise are peeled off
  cases a with
  | request op electionId payload =>
    obtain ⟨opLen, -, h⟩ := bind_eq_ok.mp h
    obtain ⟨idLen, -, h⟩ := bind_eq_ok.mp h
    obtain ⟨payloadLen, -, h⟩ := bind_eq_ok.mp h
    simp only [List.append_assoc] at h
    exact prefix_of_append h
  | register config =>
    simp only [preimage, encConfig, Json.dumps, List.append_assoc] at h
    exact prefix_of_append h
  | dkgResult electionId pkElection committeePks =>
    simp only [preimage, dkgResultPreimage, List.append_assoc] at h
    exact prefix_of_append h
  | decryptionShare electionId shares proofs =>
    obtain ⟨ns, -, h⟩ := bind_eq_ok.mp h
    simp only [List.append_assoc] at h
    exact prefix_of_append h
  | ballot electionId envelope =>
    simp only [preimage, ballotPreimage, List.append_assoc] at h
    exact prefix_of_append h
  | result electionId totals keyperIndices bsgsBound =>
    obtain ⟨_, -, h⟩ := bind_eq_ok.mp h
    obtain ⟨_, -, h⟩ := bind_eq_ok.mp h
    obtain ⟨_, -, h⟩ := bind_eq_ok.mp h
    simp only [List.append_assoc] at h
    exact prefix_of_append h
  | dkgCommitments electionId dealerIndex commitments =>
    obtain ⟨dealer, -, h⟩ := bind_eq_ok.mp h
    obtain ⟨count, -, h⟩ := bind_eq_ok.mp h
    simp only [List.append_assoc] at h
    exact prefix_of_append h
  | dkgShare electionId dealerIndex recipientIndex share
  | dkgReveal electionId dealerIndex recipientIndex share =>
    obtain ⟨dealer, -, h⟩ := bind_eq_ok.mp h
    obtain ⟨recipient, -, h⟩ := bind_eq_ok.mp h
    simp only [List.append_assoc] at h
    exact prefix_of_append h
  | dkgAccusation electionId accusedDealerIndex recipientIndex =>
    obtain ⟨dealer, -, h⟩ := bind_eq_ok.mp h
    obtain ⟨recipient, -, h⟩ := bind_eq_ok.mp h
    simp only [List.append_assoc] at h
    exact prefix_of_append h
  | aggregate electionId aggregates admitted exclusions total scaled =>
    obtain ⟨_, -, h⟩ := bind_eq_ok.mp h
    obtain ⟨_, -, h⟩ := bind_eq_ok.mp h
    obtain ⟨_, -, h⟩ := bind_eq_ok.mp h
    obtain ⟨_, -, h⟩ := bind_eq_ok.mp h
    simp only [List.append_assoc] at h
    exact prefix_of_append h

/-! One lemma for each layout: the content is read back from the byte string. -/

theorem request_inj {op op' : String} {electionId electionId' payload payload' : Bytes}
    (h : requestPreimage op electionId payload = .ok x)
    (h' : requestPreimage op' electionId' payload' = .ok x) :
    op = op' ∧ electionId = electionId' ∧ payload = payload' := by
  obtain ⟨opLen, ho, h⟩ := bind_eq_ok.mp h
  obtain ⟨idLen, hi, h⟩ := bind_eq_ok.mp h
  obtain ⟨payloadLen, hp, h⟩ := bind_eq_ok.mp h
  obtain ⟨opLen', ho', h'⟩ := bind_eq_ok.mp h'
  obtain ⟨idLen', hi', h'⟩ := bind_eq_ok.mp h'
  obtain ⟨payloadLen', hp', h'⟩ := bind_eq_ok.mp h'
  have heq := Except.ok.inj (h.trans h'.symm)
  simp only [List.append_assoc] at heq
  obtain ⟨hop, heq⟩ := framed_split ho ho' (List.append_cancel_left heq)
  obtain ⟨hid, heq⟩ := framed_split hi hi' heq
  obtain ⟨-, hpayload⟩ := toBytes_split hp hp' heq
  exact ⟨utf8_injective hop, hid, hpayload⟩

theorem dkgResult_inj (habi : AbiLayout E) {electionId electionId' pk pk' : Bytes} {pks pks' : List Bytes}
    (ha : (dkgResult electionId pk pks).WellSized) (hb : (dkgResult electionId' pk' pks').WellSized)
    (h : (dkgResult electionId pk pks).preimage E = .ok x)
    (h' : (dkgResult electionId' pk' pks').preimage E = .ok x) :
    electionId = electionId' ∧ pk = pk' ∧ pks = pks' := by
  have heq := Except.ok.inj (h.trans h'.symm)
  simp only [dkgResultPreimage, List.append_assoc] at heq
  obtain ⟨hid, heq⟩ := List.append_inj (List.append_cancel_left heq) (ha.1.trans hb.1.symm)
  obtain ⟨hpk, heq⟩ := List.append_inj heq (ha.2.1.trans hb.2.1.symm)
  exact ⟨hid, hpk, habi.points pks pks' ha.2.2.1 hb.2.2.1 heq⟩

theorem decryptionShare_inj (habi : AbiLayout E) {electionId electionId' : Bytes}
    {shares shares' : List Bytes} {proofs proofs' : List (Int × Int)}
    (ha : (decryptionShare electionId shares proofs).WellSized)
    (hb : (decryptionShare electionId' shares' proofs').WellSized)
    (h : (decryptionShare electionId shares proofs).preimage E = .ok x)
    (h' : (decryptionShare electionId' shares' proofs').preimage E = .ok x) :
    electionId = electionId' ∧ shares = shares' ∧ proofs = proofs' := by
  obtain ⟨ns, hns, h⟩ := bind_eq_ok.mp h
  obtain ⟨ns', hns', h'⟩ := bind_eq_ok.mp h'
  obtain ⟨hbound, hproofs⟩ := abiProofs_bounds hns
  obtain ⟨hbound', hproofs'⟩ := abiProofs_bounds hns'
  have heq := Except.ok.inj (h.trans h'.symm)
  simp only [List.append_assoc] at heq
  obtain ⟨hid, heq⟩ := List.append_inj (List.append_cancel_left heq) (ha.1.trans hb.1.symm)
  obtain ⟨hshares, heq⟩ := points_split habi ha.2.1 hb.2.1 ha.2.2.1 hb.2.2.1 heq
  rw [hproofs, hproofs', habi.proofs ns ns' hbound hbound' heq]
  exact ⟨hid, hshares, rfl⟩

theorem ballot_inj {electionId electionId' : Bytes} {envelope envelope' : BallotEnvelope}
    (ha : electionId.length = 32) (hb : electionId'.length = 32)
    (h : (ballot electionId envelope).preimage E = .ok x)
    (h' : (ballot electionId' envelope').preimage E = .ok x) :
    electionId = electionId' ∧ envelope = envelope' := by
  have heq := Except.ok.inj (h.trans h'.symm)
  simp only [ballotPreimage, List.append_assoc] at heq
  obtain ⟨hid, heq⟩ := List.append_inj (List.append_cancel_left heq) (ha.trans hb.symm)
  exact ⟨hid, ballotText_injective heq⟩

theorem dkgCommitments_inj {electionId electionId' : Bytes} {dealer dealer' : Int}
    {commitments commitments' : List Bytes} (ha : (dkgCommitments electionId dealer commitments).WellSized)
    (hb : (dkgCommitments electionId' dealer' commitments').WellSized)
    (h : (dkgCommitments electionId dealer commitments).preimage E = .ok x)
    (h' : (dkgCommitments electionId' dealer' commitments').preimage E = .ok x) :
    electionId = electionId' ∧ dealer = dealer' ∧ commitments = commitments' := by
  obtain ⟨d, hd, h⟩ := bind_eq_ok.mp h
  obtain ⟨n, hn, h⟩ := bind_eq_ok.mp h
  obtain ⟨d', hd', h'⟩ := bind_eq_ok.mp h'
  obtain ⟨n', hn', h'⟩ := bind_eq_ok.mp h'
  have heq := Except.ok.inj (h.trans h'.symm)
  simp only [List.append_assoc] at heq
  obtain ⟨hid, heq⟩ := List.append_inj (List.append_cancel_left heq) (ha.1.trans hb.1.symm)
  obtain ⟨hdealer, heq⟩ := toBytes_split hd hd' heq
  obtain ⟨hcount, heq⟩ := toBytes_split hn hn' heq
  exact ⟨hid, hdealer, flatten_inj ha.2.2 hb.2.2 (by exact_mod_cast hcount) heq⟩

theorem dealt_inj {dst electionId electionId' : Bytes} {dealer dealer' recipient recipient' share share' : Int}
    (ha : electionId.length = 32) (hb : electionId'.length = 32) (hs : 0 ≤ share ∧ share < curveOrder)
    (hs' : 0 ≤ share' ∧ share' < curveOrder)
    (h : dealtPreimage dst electionId dealer recipient share = .ok x)
    (h' : dealtPreimage dst electionId' dealer' recipient' share' = .ok x) :
    electionId = electionId' ∧ dealer = dealer' ∧ recipient = recipient' ∧ share = share' := by
  obtain ⟨d, hd, h⟩ := bind_eq_ok.mp h
  obtain ⟨r, hr, h⟩ := bind_eq_ok.mp h
  obtain ⟨d', hd', h'⟩ := bind_eq_ok.mp h'
  obtain ⟨r', hr', h'⟩ := bind_eq_ok.mp h'
  have heq := Except.ok.inj (h.trans h'.symm)
  simp only [List.append_assoc] at heq
  obtain ⟨hid, heq⟩ := List.append_inj (List.append_cancel_left heq) (ha.trans hb.symm)
  obtain ⟨hdealer, heq⟩ := toBytes_split hd hd' heq
  obtain ⟨hrecipient, heq⟩ := toBytes_split hr hr' heq
  exact ⟨hid, hdealer, hrecipient, scalarToBytes_inj hs hs' heq⟩

theorem dkgAccusation_inj {electionId electionId' : Bytes} {accused accused' recipient recipient' : Int}
    (ha : electionId.length = 32) (hb : electionId'.length = 32)
    (h : (dkgAccusation electionId accused recipient).preimage E = .ok x)
    (h' : (dkgAccusation electionId' accused' recipient').preimage E = .ok x) :
    electionId = electionId' ∧ accused = accused' ∧ recipient = recipient' := by
  obtain ⟨d, hd, h⟩ := bind_eq_ok.mp h
  obtain ⟨r, hr, h⟩ := bind_eq_ok.mp h
  obtain ⟨d', hd', h'⟩ := bind_eq_ok.mp h'
  obtain ⟨r', hr', h'⟩ := bind_eq_ok.mp h'
  have heq := Except.ok.inj (h.trans h'.symm)
  simp only [List.append_assoc] at heq
  obtain ⟨hid, heq⟩ := List.append_inj (List.append_cancel_left heq) (ha.trans hb.symm)
  obtain ⟨haccused, heq⟩ := toBytes_split hd hd' heq
  -- the recipient ends the string
  obtain ⟨hrecipient, -⟩ := toBytes_split hr hr' (congrArg (· ++ ([] : Bytes)) heq)
  exact ⟨hid, haccused, hrecipient⟩

/-- Contents of one kind that are hashed from one byte string are the same. -/
theorem eq_of_kind (habi : AbiLayout E) (ha : a.WellSized) (hb : b.WellSized) (hpa : a.PairedTexts)
    (hpb : b.PairedTexts) (hkind : a.kind = b.kind) (h : a.preimage E = .ok x)
    (h' : b.preimage E = .ok x) : a = b := by
  -- the kinds agree, so only the diagonal is left; there the preimage gives the fields back
  cases a with
  | request =>
    cases b with
    | request =>
      obtain ⟨rfl, rfl, rfl⟩ := request_inj h h'
      rfl
    | _ => cases hkind
  | register =>
    cases b with
    | register =>
      rw [configText_injective hpa hpb (Except.ok.inj (h.trans h'.symm))]
    | _ => cases hkind
  | dkgResult =>
    cases b with
    | dkgResult =>
      obtain ⟨rfl, rfl, rfl⟩ := dkgResult_inj habi ha hb h h'
      rfl
    | _ => cases hkind
  | decryptionShare =>
    cases b with
    | decryptionShare =>
      obtain ⟨rfl, rfl, rfl⟩ := decryptionShare_inj habi ha hb h h'
      rfl
    | _ => cases hkind
  | ballot =>
    cases b with
    | ballot =>
      obtain ⟨rfl, rfl⟩ := ballot_inj ha.1 hb.1 h h'
      rfl
    | _ => cases hkind
  | result =>
    cases b with
    | result =>
      obtain ⟨rfl, hfields⟩ := resultPreimage_split habi.result (ha.1.trans hb.1.symm) h h'
      cases hfields rfl
      rfl
    | _ => cases hkind
  | dkgCommitments =>
    cases b with
    | dkgCommitments =>
      obtain ⟨rfl, rfl, rfl⟩ := dkgCommitments_inj ha hb h h'
      rfl
    | _ => cases hkind
  | dkgShare =>
    cases b with
    | dkgShare =>
      obtain ⟨rfl, rfl, rfl, rfl⟩ := dealt_inj ha.1 hb.1 ha.2.2.2 hb.2.2.2 h h'
      rfl
    | _ => cases hkind
  | dkgAccusation =>
    cases b with
    | dkgAccusation =>
      obtain ⟨rfl, rfl, rfl⟩ := dkgAccusation_inj ha.1 hb.1 h h'
      rfl
    | _ => cases hkind
  | dkgReveal =>
    cases b with
    | dkgReveal =>
      obtain ⟨rfl, rfl, rfl, rfl⟩ := dealt_inj ha.1 hb.1 ha.2.2.2 hb.2.2.2 h h'
      rfl
    | _ => cases hkind
  | aggregate =>
    cases b with
    | aggregate =>
      obtain ⟨rfl, hfields⟩ := aggregatePreimage_split habi.tally (ha.1.trans hb.1.symm) h h'
      cases hfields rfl
      rfl
    | _ => cases hkind

/-- Signed digests are hashes of different byte strings where the kind or the content is
    different. -/
theorem digests_separated (habi : AbiLayout E) (ha : a.WellSized) (hb : b.WellSized)
    (hpa : a.PairedTexts) (hpb : b.PairedTexts) (hne : a ≠ b) {digest' : Bytes}
    (hda : a.digest E = .ok digest) (hdb : b.digest E = .ok digest') :
    ∃ x y, a.preimage E = .ok x ∧ E.keccak x = digest ∧ b.preimage E = .ok y ∧ E.keccak y = digest' ∧
      x ≠ y := by
  obtain ⟨x, hx, hhash⟩ := digest_eq_ok.mp hda
  obtain ⟨y, hy, hhash'⟩ := digest_eq_ok.mp hdb
  refine ⟨x, y, hx, hhash, hy, hhash', ?_⟩
  rintro rfl
  have hkind := DigestKind.eq_of_tags (opens_with_tag hx) (opens_with_tag hy)
  exact hne (eq_of_kind habi ha hb hpa hpb hkind hx hy)

end
end SignedContent

/-! ## The encodings of the ABI specification -/

/-- The offsets of the parts of an array, where the first part starts at `start`. -/
def abiOffsets (start : Nat) : List Bytes → Bytes
  | [] => []
  | part :: parts => beBytes 32 start ++ abiOffsets (start + part.length) parts

/-- A byte string: its length, and its bytes up to a multiple of 32. -/
def abiBytes (b : Bytes) : Bytes :=
  beBytes 32 b.length ++ b ++ List.replicate ((32 - b.length % 32) % 32) 0

/-- `bytes[]` as a sole argument: its offset, the count, the offsets of the elements and the
    elements. -/
def abiBytesList (xs : List Bytes) : Bytes :=
  beBytes 32 32 ++ (beBytes 32 xs.length ++
    (abiOffsets (32 * xs.length) (xs.map abiBytes) ++ (xs.map abiBytes).flatten))

/-- `(uint256,uint256)[]` as a sole argument. -/
def abiPairList (ps : List (Nat × Nat)) : Bytes :=
  beBytes 32 32 ++ (beBytes 32 ps.length ++ (ps.map fun p => beBytes 32 p.1 ++ beBytes 32 p.2).flatten)

/-- The arrays of the share digest as the ABI specification has them. -/
def abiEth : EthLib := { codedEth with abiBytesArray := abiBytesList, abiProofs := abiPairList }

theorem length_abiOffsets (start : Nat) (parts : List Bytes) :
    (abiOffsets start parts).length = 32 * parts.length := by
  induction parts generalizing start with
  | nil => rfl
  | cons part parts ih =>
    rw [abiOffsets, List.length_append, length_beBytes, ih, List.length_cons]
    omega

theorem abiBytes_point {b : Bytes} (h : b.length = 96) : abiBytes b = beBytes 32 96 ++ b := by
  rw [abiBytes, h]
  exact List.append_nil _

theorem length_flatten_of {k : Nat} {xs : List Bytes} (h : ∀ x ∈ xs, x.length = k) :
    xs.flatten.length = k * xs.length := by
  induction xs with
  | nil => rfl
  | cons x xs ih =>
    rw [List.flatten_cons, List.length_append, h x List.mem_cons_self,
      ih fun y hy => h y (List.mem_cons_of_mem x hy), List.length_cons, Nat.mul_succ, Nat.add_comm]

/-- A point is encoded in 128 bytes. -/
theorem length_abiPoints {xs : List Bytes} (h : ∀ x ∈ xs, x.length = 96) :
    ∀ part ∈ xs.map abiBytes, part.length = 128 := by
  intro part hpart
  obtain ⟨x, hx, rfl⟩ := List.mem_map.mp hpart
  rw [abiBytes_point (h x hx), List.length_append, length_beBytes, h x hx]

theorem length_abiBytesList {xs : List Bytes} (h : ∀ x ∈ xs, x.length = 96) :
    (abiBytesList xs).length = 64 + 160 * xs.length := by
  rw [abiBytesList, List.length_append, List.length_append, List.length_append, length_beBytes,
    length_beBytes, length_abiOffsets, length_flatten_of (length_abiPoints h), List.length_map]
  omega

theorem abiBytesList_inj {xs ys : List Bytes} (hxs : ∀ x ∈ xs, x.length = 96)
    (hys : ∀ y ∈ ys, y.length = 96) (h : abiBytesList xs = abiBytesList ys) : xs = ys := by
  have hlen := congrArg List.length h
  rw [length_abiBytesList hxs, length_abiBytesList hys] at hlen
  have hcount : xs.length = ys.length := by omega
  rw [abiBytesList, abiBytesList, hcount] at h
  have hrest := List.append_cancel_left (List.append_cancel_left h)
  obtain ⟨-, hparts⟩ := List.append_inj hrest
    (by rw [length_abiOffsets, length_abiOffsets, List.length_map, List.length_map, hcount])
  have hmap := flatten_inj (length_abiPoints hxs) (length_abiPoints hys)
    (by rw [List.length_map, List.length_map, hcount]) hparts
  -- elementwise, a point stands behind its length
  refine List.ext_getElem hcount ?_
  intro i hi hi'
  have hpart : abiBytes xs[i] = abiBytes ys[i] := by
    simpa [hi, hi'] using congrArg (fun l : List Bytes => l[i]?) hmap
  rw [abiBytes_point (hxs _ (List.getElem_mem hi)), abiBytes_point (hys _ (List.getElem_mem hi'))] at hpart
  exact List.append_cancel_left hpart

theorem abiPairList_inj {ps qs : List (Nat × Nat)} (hps : ∀ p ∈ ps, p.1 < 2 ^ 256 ∧ p.2 < 2 ^ 256)
    (hqs : ∀ q ∈ qs, q.1 < 2 ^ 256 ∧ q.2 < 2 ^ 256) (h : abiPairList ps = abiPairList qs) : ps = qs := by
  have hsized (l : List (Nat × Nat)) :
      ∀ x ∈ l.map (fun p => beBytes 32 p.1 ++ beBytes 32 p.2), x.length = 64 := by
    intro x hx
    obtain ⟨p, -, rfl⟩ := List.mem_map.mp hx
    rw [List.length_append, length_beBytes, length_beBytes]
  have hlen := congrArg List.length h
  simp only [abiPairList, List.length_append, length_beBytes, length_flatten_of (hsized ps),
    length_flatten_of (hsized qs), List.length_map] at hlen
  have hcount : ps.length = qs.length := by omega
  rw [abiPairList, abiPairList, hcount] at h
  have hmap := flatten_inj (hsized ps) (hsized qs) (by rw [List.length_map, List.length_map, hcount])
    (List.append_cancel_left (List.append_cancel_left h))
  refine List.ext_getElem hcount ?_
  intro i hi hi'
  have hpair : beBytes 32 ps[i].1 ++ beBytes 32 ps[i].2 = beBytes 32 qs[i].1 ++ beBytes 32 qs[i].2 := by
    simpa [hi, hi'] using congrArg (fun l : List Bytes => l[i]?) hmap
  obtain ⟨hfst, hsnd⟩ := List.append_inj hpair (by rw [length_beBytes, length_beBytes])
  have hp := hps _ (List.getElem_mem hi)
  have hq := hqs _ (List.getElem_mem hi')
  exact Prod.ext (beBytes_inj (by omega) (by omega) hfst) (beBytes_inj (by omega) (by omega) hsnd)

theorem abiEth_layout : AbiLayout abiEth where
  tally := codedEth_abiInjective.tally
  result := codedEth_abiInjective.result
  points _ _ := abiBytesList_inj
  proofs _ _ := abiPairList_inj
  head xs := by
    show (abiBytesList xs).take 64 = _
    rw [abiBytesList, ← List.append_assoc, List.take_append_of_le_length (by simp)]
    exact List.take_of_length_le (by simp)
  size _ := length_abiBytesList

namespace SeparationSample
open SignedContent

/-- Two shares with a proof of one of them, and one share with it. -/
def shares (n : Nat) : SignedContent :=
  .decryptionShare (beBytes 32 1) (List.replicate n (beBytes 96 7)) [(3, 4)]

theorem wellSized_shares {n : Nat} (hn : n < 2 ^ 256) : (shares n).WellSized := by
  refine ⟨length_beBytes _ _, ?_, by rwa [List.length_replicate], by decide⟩
  intro share hshare
  rw [List.eq_of_mem_replicate hshare, length_beBytes]

theorem digests_separated_shares : ∃ x y, (shares 2).preimage abiEth = .ok x ∧
    abiEth.keccak x = x ∧ (shares 1).preimage abiEth = .ok y ∧ abiEth.keccak y = y ∧ x ≠ y := by
  have hne : shares 2 ≠ shares 1 := by
    intro h
    have hlists := (SignedContent.decryptionShare.inj h).2.1
    exact absurd (congrArg List.length hlists) (by decide)
  obtain ⟨x, y, hx, -, hy, -, hdiffer⟩ := digests_separated abiEth_layout (wellSized_shares (by decide))
    (wellSized_shares (by decide)) trivial trivial hne rfl rfl
  exact ⟨x, y, hx, rfl, hy, rfl, hdiffer⟩

/-- The version of a config is one character outside the basic plane, or the two surrogates
    of that character. -/
def astral : ElectionConfig := { smallConfig with protocolVersion := [0x1F600] }
def surrogates : ElectionConfig := { smallConfig with protocolVersion := [0xD83D, 0xDE00] }

theorem registers_not_separated : AbiLayout abiEth ∧ (register astral).WellSized ∧
    (register surrogates).WellSized ∧ register astral ≠ register surrogates ∧
    ∃ x, (register astral).preimage abiEth = .ok x ∧ (register surrogates).preimage abiEth = .ok x := by
  -- neither config needs a conversion of its fields
  have hcodec {c : ElectionConfig} (hid : c.electionId.length = 32) : (register c).WellSized :=
    ⟨⟨fun _ => [], fun _ => .ok 0⟩, encConfig c, decConfig_encConfig _ hid⟩
  refine ⟨abiEth_layout, hcodec (by decide), hcodec (by decide), ?_, _, rfl, ?_⟩
  · intro h
    exact absurd (congrArg ElectionConfig.protocolVersion (SignedContent.register.inj h)) (by decide)
  · exact congrArg Except.ok (by decide +kernel)

end SeparationSample
end ElGamalVoting
