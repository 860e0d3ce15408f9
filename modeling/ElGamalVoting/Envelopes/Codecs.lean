import ElGamalVoting.Core.Config
import ElGamalVoting.Envelopes.Types

/- JSON transport-envelope codecs (`envelopes/codecs.py`).

   A JSON value is what Python's `json` module returns: integers are unbounded,
   strings are sequences of code points (lone surrogates included), and of two
   equal names in an object the last one counts. A float is carried by the text
   its `repr` has, as no decoder computes with one. Error messages end where the source would
   quote an inner exception or the `repr` of a rejected value. -/
namespace ElGamalVoting
open Lib

inductive Json where
  | null
  | bool (b : Bool)
  | int (n : Int)
  | float (text : String)
  | str (s : PyStr)
  | arr (items : List Json)
  | obj (fields : List (PyStr × Json))

namespace Json

/-- Python's `type(value).__name__`. -/
def typeName : Json → String
  | null => "NoneType"
  | bool _ => "bool"
  | int _ => "int"
  | float _ => "float"
  | str _ => "str"
  | arr _ => "list"
  | obj _ => "dict"

/-- The value of a name: the last one given. -/
def lookup (fields : List (PyStr × Json)) (key : String) : Option Json :=
  (fields.reverse.find? fun f => f.1 == pyStr key).map Prod.snd

end Json

/-- The interpreter's limit on the digits of a decimal text. -/
def maxStrDigits : Nat := 4300

/-! Primitive helpers. -/

def encBytes (b : Bytes) : Json := .str (pyStr "0x" ++ pyStr (hex b))

def decBytes (value : Json) (name : String) (size : Option Nat) : Py Bytes :=
  match value with
  | .str s =>
    if s.take 2 ≠ pyStr "0x" then .error (.codecError s!"{name}: missing '0x' prefix")
    else match fromHex (s.drop 2) with
      | none => .error (.codecError s!"{name}: invalid hex")
      | some raw =>
        match size with
        | none => .ok raw
        | some size =>
          if raw.length ≠ size then
            .error (.codecError s!"{name}: expected {size} bytes, got {raw.length}")
          else .ok raw
  | v => .error (.codecError s!"{name}: expected hex string, got {v.typeName}")

def req (d : Json) (key : String) : Py Json :=
  match d with
  | .obj fields =>
    match Json.lookup fields key with
    | none => .error (.codecError s!"missing field '{key}'")
    | some v => .ok v
  | v => .error (.codecError s!"expected object, got {v.typeName}")

def decInt (value : Json) (name : String) (minimum : Option Int) : Py Int :=
  match value with
  | .int n =>
    match minimum with
    | none => .ok n
    | some minimum =>
      if n < minimum then .error (.codecError s!"{name}: must be >= {minimum}, got {n}") else .ok n
  | v => .error (.codecError s!"{name}: expected integer, got {v.typeName}")

def decList (value : Json) (name : String) : Py (List Json) :=
  match value with
  | .arr items => .ok items
  | v => .error (.codecError s!"{name}: expected array, got {v.typeName}")

/-! Ciphertext. -/

def encCiphertext (ct : Ciphertext) : Json :=
  .obj [(pyStr "c1", encBytes ct.c1), (pyStr "c2", encBytes ct.c2)]

def decCiphertext (d : Json) (name : String) : Py Ciphertext := do
  let c1 ← decBytes (← req d "c1") s!"{name}.c1" (some g2Bytes)
  let c2 ← decBytes (← req d "c2") s!"{name}.c2" (some g2Bytes)
  pure ⟨c1, c2⟩

/-! Attestation. -/

def encAttestation (a : Attestation) : Json :=
  .obj [(pyStr "scheme", .str (pyStr a.scheme.value)), (pyStr "electionId", encBytes a.electionId),
    (pyStr "pseudonym", encBytes a.pseudonym), (pyStr "vk", encBytes a.vk),
    (pyStr "weight", .int a.weight), (pyStr "nonce", .int a.nonce),
    (pyStr "signature", encBytes a.signature)]

/-- `AttestationScheme(scheme_raw)`, the one scheme by its text. -/
def decScheme (value : Json) (name : String) : Py AttestationScheme :=
  match value with
  | .str s =>
    if s = pyStr AttestationScheme.v1.value then .ok .v1
    else .error (.codecError s!"{name}.scheme: unknown scheme")
  | _ => .error (.codecError s!"{name}.scheme: unknown scheme")

/-- The optional scheme: absent from an object it is V1, and a value that is no
    object has none. -/
def schemeField (d : Json) (name : String) : Py AttestationScheme :=
  match d with
  | .obj fields =>
    decScheme ((Json.lookup fields "scheme").getD (.str (pyStr AttestationScheme.v1.value))) name
  | _ => .error (.codecError s!"{name}.scheme: unknown scheme")

/-- The optional nonce, one when absent. -/
def nonceField (d : Json) (name : String) : Py Int :=
  match d with
  | .obj fields =>
    match Json.lookup fields "nonce" with
    | some v => decInt v s!"{name}.nonce" (some 1)
    | none => .ok 1
  | _ => .ok 1

def decAttestation (d : Json) (name : String) : Py Attestation := do
  let scheme ← schemeField d name
  let nonce ← nonceField d name
  let electionId ← decBytes (← req d "electionId") s!"{name}.electionId" (some 32)
  let pseudonym ← decBytes (← req d "pseudonym") s!"{name}.pseudonym" (some 32)
  let vk ← decBytes (← req d "vk") s!"{name}.vk" (some g1Bytes)
  let weight ← decInt (← req d "weight") s!"{name}.weight" (some 1)
  let signature ← decBytes (← req d "signature") s!"{name}.signature" (some schnorrBytes)
  pure { electionId, pseudonym, vk, weight, signature, scheme, nonce }

/-! Ballot. -/

def encBallot (b : BallotEnvelope) : Json :=
  .obj [(pyStr "electionId", encBytes b.electionId), (pyStr "pseudonym", encBytes b.pseudonym),
    (pyStr "vk", encBytes b.vk), (pyStr "ciphertexts", .arr (b.ciphertexts.map encCiphertext)),
    (pyStr "zkProof", encBytes b.zkProof), (pyStr "voterSignature", encBytes b.voterSignature),
    (pyStr "attestation", encAttestation b.attestation)]

def decBallot (d : Json) : Py BallotEnvelope := do
  let cts ← decList (← req d "ciphertexts") "ciphertexts"
  let electionId ← decBytes (← req d "electionId") "electionId" (some 32)
  let pseudonym ← decBytes (← req d "pseudonym") "pseudonym" (some 32)
  let vk ← decBytes (← req d "vk") "vk" (some g1Bytes)
  let ciphertexts ← cts.zipIdx.mapM fun ci => decCiphertext ci.1 s!"ciphertexts[{ci.2}]"
  let zkProof ← decBytes (← req d "zkProof") "zkProof" none
  let voterSignature ← decBytes (← req d "voterSignature") "voterSignature" (some schnorrBytes)
  let attestation ← decAttestation (← req d "attestation") "attestation"
  pure { electionId, pseudonym, vk, ciphertexts, zkProof, voterSignature, attestation }

/-! Election configuration. -/

def Mode.value : Mode → String
  | exact => "exact"
  | atMost => "atMost"

def Variant.value : Variant → String
  | A => "A"
  | B => "B"

def DuplicatePolicy.value : DuplicatePolicy → String
  | firstWins => "first-wins"
  | lastWins => "last-wins"

/-- The fee is a decimal string on the wire, every other integer a number. -/
def encConfig (c : ElectionConfig) : Json :=
  .obj [(pyStr "electionId", encBytes c.electionId), (pyStr "numCandidates", .int c.numCandidates),
    (pyStr "budget", .int c.budget), (pyStr "mode", .str (pyStr c.mode.value)),
    (pyStr "variant", .str (pyStr c.variant.value)), (pyStr "weighted", .bool c.weighted),
    (pyStr "scale", .int c.scale),
    (pyStr "duplicatePolicy", .str (pyStr c.duplicatePolicy.value)),
    (pyStr "votingStart", .int c.votingStart), (pyStr "votingEnd", .int c.votingEnd),
    (pyStr "threshold", .obj [(pyStr "t", .int c.threshold.t), (pyStr "n", .int c.threshold.n)]),
    (pyStr "keypers", .arr (c.keypers.map fun k =>
      .obj [(pyStr "signingKey", encBytes k.signingKey), (pyStr "url", .str k.url)])),
    (pyStr "eligibilityKey", encBytes c.eligibilityKey),
    (pyStr "resultPublisherKey", encBytes c.resultPublisherKey),
    (pyStr "gatewayKeys", .arr (c.gatewayKeys.map encBytes)), (pyStr "adminKey", encBytes c.adminKey),
    (pyStr "protocolVersion", .str c.protocolVersion),
    (pyStr "selfSubmitFee", .str (pyStr (toString c.selfSubmitFeeWei)))]

/-! ## What is accepted is well sized, and what is encoded is accepted -/

theorem decBytes_length {value : Json} {name : String} {size : Nat} {raw : Bytes}
    (h : decBytes value name (some size) = .ok raw) : raw.length = size := by
  unfold decBytes at h
  split at h
  · split at h
    · cases h
    · split at h
      · cases h
      · dsimp only at h
        split at h
        · cases h
        · cases h
          exact not_not.mp ‹_›
  · cases h

theorem decInt_ge {value : Json} {name : String} {minimum n : Int}
    (h : decInt value name (some minimum) = .ok n) : minimum ≤ n := by
  unfold decInt at h
  split at h
  · dsimp only at h
    split at h
    · cases h
    · cases h
      omega
  · cases h

theorem decBytes_encBytes (b : Bytes) (name : String) {size : Option Nat}
    (hsize : ∀ s, size = some s → b.length = s) : decBytes (encBytes b) name size = .ok b := by
  have htake : (pyStr "0x" ++ pyStr (hex b)).take 2 = pyStr "0x" := List.take_left' (by decide)
  have hdrop : (pyStr "0x" ++ pyStr (hex b)).drop 2 = pyStr (hex b) := List.drop_left' (by decide)
  have hhex : fromHex (pyStr (hex b)) = some b := fromHex_hex b
  unfold decBytes encBytes
  dsimp only
  rw [if_neg (not_not.mpr htake), hdrop, hhex]
  cases size with
  | none => rfl
  | some s => simp [hsize s rfl]

theorem decBytes_encBytes_sized {b : Bytes} {name : String} {size : Nat} (h : b.length = size) :
    decBytes (encBytes b) name (some size) = .ok b :=
  decBytes_encBytes b name fun s hs => by
    cases hs
    exact h

/-- The byte fields have the sizes the codec enforces and the integers are positive. -/
structure BallotEnvelope.WellSized (b : BallotEnvelope) : Prop where
  electionId : b.electionId.length = 32
  pseudonym : b.pseudonym.length = 32
  vk : b.vk.length = g1Bytes
  ciphertexts : ∀ ct ∈ b.ciphertexts, ct.c1.length = g2Bytes ∧ ct.c2.length = g2Bytes
  voterSignature : b.voterSignature.length = schnorrBytes
  attElectionId : b.attestation.electionId.length = 32
  attPseudonym : b.attestation.pseudonym.length = 32
  attVk : b.attestation.vk.length = g1Bytes
  attWeight : 1 ≤ b.attestation.weight
  attNonce : 1 ≤ b.attestation.nonce
  attSignature : b.attestation.signature.length = schnorrBytes

theorem decCiphertext_sized {d : Json} {name : String} {ct : Ciphertext}
    (h : decCiphertext d name = .ok ct) : ct.c1.length = g2Bytes ∧ ct.c2.length = g2Bytes := by
  rw [decCiphertext] at h
  obtain ⟨_, -, h⟩ := bind_eq_ok.mp h
  obtain ⟨_, h1, h⟩ := bind_eq_ok.mp h
  obtain ⟨_, -, h⟩ := bind_eq_ok.mp h
  obtain ⟨_, h2, h⟩ := bind_eq_ok.mp h
  cases h
  exact ⟨decBytes_length h1, decBytes_length h2⟩

theorem decAttestation_sized {d : Json} {name : String} {a : Attestation}
    (h : decAttestation d name = .ok a) :
    a.electionId.length = 32 ∧ a.pseudonym.length = 32 ∧ a.vk.length = g1Bytes ∧
      1 ≤ a.weight ∧ 1 ≤ a.nonce ∧ a.signature.length = schnorrBytes := by
  rw [decAttestation] at h
  obtain ⟨_, -, h⟩ := bind_eq_ok.mp h
  obtain ⟨nonce, hn, h⟩ := bind_eq_ok.mp h
  obtain ⟨_, -, h⟩ := bind_eq_ok.mp h
  obtain ⟨_, he, h⟩ := bind_eq_ok.mp h
  obtain ⟨_, -, h⟩ := bind_eq_ok.mp h
  obtain ⟨_, hp, h⟩ := bind_eq_ok.mp h
  obtain ⟨_, -, h⟩ := bind_eq_ok.mp h
  obtain ⟨_, hv, h⟩ := bind_eq_ok.mp h
  obtain ⟨_, -, h⟩ := bind_eq_ok.mp h
  obtain ⟨_, hw, h⟩ := bind_eq_ok.mp h
  obtain ⟨_, -, h⟩ := bind_eq_ok.mp h
  obtain ⟨_, hs, h⟩ := bind_eq_ok.mp h
  cases h
  have hnonce : 1 ≤ nonce := by
    unfold nonceField at hn
    split at hn
    · split at hn
      · exact decInt_ge hn
      · cases hn
        exact le_rfl
    · cases hn
      exact le_rfl
  exact ⟨decBytes_length he, decBytes_length hp, decBytes_length hv, decInt_ge hw, hnonce,
    decBytes_length hs⟩

/-- What the ballot decoder accepts is well sized. -/
theorem decBallot_wellSized {d : Json} {b : BallotEnvelope} (h : decBallot d = .ok b) :
    b.WellSized := by
  rw [decBallot] at h
  obtain ⟨_, -, h⟩ := bind_eq_ok.mp h
  obtain ⟨cts, -, h⟩ := bind_eq_ok.mp h
  obtain ⟨_, -, h⟩ := bind_eq_ok.mp h
  obtain ⟨_, he, h⟩ := bind_eq_ok.mp h
  obtain ⟨_, -, h⟩ := bind_eq_ok.mp h
  obtain ⟨_, hp, h⟩ := bind_eq_ok.mp h
  obtain ⟨_, -, h⟩ := bind_eq_ok.mp h
  obtain ⟨_, hv, h⟩ := bind_eq_ok.mp h
  obtain ⟨decoded, hcts, h⟩ := bind_eq_ok.mp h
  obtain ⟨_, -, h⟩ := bind_eq_ok.mp h
  obtain ⟨_, -, h⟩ := bind_eq_ok.mp h
  obtain ⟨_, -, h⟩ := bind_eq_ok.mp h
  obtain ⟨_, hs, h⟩ := bind_eq_ok.mp h
  obtain ⟨_, -, h⟩ := bind_eq_ok.mp h
  obtain ⟨_, ha, h⟩ := bind_eq_ok.mp h
  cases h
  obtain ⟨h1, h2, h3, h4, h5, h6⟩ := decAttestation_sized ha
  exact {
    electionId := decBytes_length he
    pseudonym := decBytes_length hp
    vk := decBytes_length hv
    ciphertexts := fun ct hct => by
      obtain ⟨ci, -, hci⟩ := mapM_ok_mem_right hcts hct
      exact decCiphertext_sized hci
    voterSignature := decBytes_length hs
    attElectionId := h1
    attPseudonym := h2
    attVk := h3
    attWeight := h4
    attNonce := h5
    attSignature := h6 }

/-- Reading a byte field that was written with `encBytes`. -/
theorem read_encBytes {α : Type} {d : Json} {key name : String} {size : Nat} {b : Bytes}
    {f : Bytes → Py α} (hr : req d key = .ok (encBytes b)) (hb : b.length = size) :
    (do let v ← req d key; let x ← decBytes v name (some size); f x) = f b := by
  rw [hr, ok_bind, decBytes_encBytes_sized hb, ok_bind]

theorem decCiphertext_encCiphertext {ct : Ciphertext} (name : String) (h1 : ct.c1.length = g2Bytes)
    (h2 : ct.c2.length = g2Bytes) : decCiphertext (encCiphertext ct) name = .ok ct := by
  rw [decCiphertext, read_encBytes (b := ct.c1) rfl h1, read_encBytes (b := ct.c2) rfl h2]
  rfl

theorem decInt_ok {n : Int} (hn : 1 ≤ n) (name : String) : decInt (.int n) name (some 1) = .ok n := by
  simp [decInt, hn]

theorem decAttestation_encAttestation {a : Attestation} (name : String)
    (he : a.electionId.length = 32) (hp : a.pseudonym.length = 32) (hv : a.vk.length = g1Bytes)
    (hw : 1 ≤ a.weight) (hn : 1 ≤ a.nonce) (hs : a.signature.length = schnorrBytes) :
    decAttestation (encAttestation a) name = .ok a := by
  have hscheme : schemeField (encAttestation a) name = .ok a.scheme := by
    show decScheme (.str (pyStr a.scheme.value)) name = .ok a.scheme
    cases a.scheme
    simp [decScheme]
  have hnonce : nonceField (encAttestation a) name = .ok a.nonce := decInt_ok hn _
  have hweight : req (encAttestation a) "weight" = .ok (.int a.weight) := rfl
  rw [decAttestation, hscheme, ok_bind, hnonce, ok_bind, read_encBytes (b := a.electionId) rfl he,
    read_encBytes (b := a.pseudonym) rfl hp, read_encBytes (b := a.vk) rfl hv, hweight, ok_bind,
    decInt_ok hw, ok_bind, read_encBytes (b := a.signature) rfl hs]
  rfl

theorem decCiphertexts_enc (cts : List Ciphertext)
    (h : ∀ ct ∈ cts, ct.c1.length = g2Bytes ∧ ct.c2.length = g2Bytes) (k : Nat) :
    ((cts.map encCiphertext).zipIdx k).mapM
      (fun ci => decCiphertext ci.1 s!"ciphertexts[{ci.2}]") = .ok cts := by
  rw [mapM_eq_ok]
  induction cts generalizing k with
  | nil => exact .nil
  | cons ct cts ih =>
    have hct := h ct List.mem_cons_self
    exact .cons (decCiphertext_encCiphertext _ hct.1 hct.2)
      (ih (fun c hc => h c (List.mem_cons_of_mem ct hc)) (k + 1))

/-- Decoding the encoding of a well-sized ballot returns it. -/
theorem decBallot_encBallot {b : BallotEnvelope} (hb : b.WellSized) :
    decBallot (encBallot b) = .ok b := by
  have hcts : req (encBallot b) "ciphertexts" = .ok (.arr (b.ciphertexts.map encCiphertext)) := rfl
  have hlist : decList (.arr (b.ciphertexts.map encCiphertext)) "ciphertexts" =
      .ok (b.ciphertexts.map encCiphertext) := rfl
  have hproof : req (encBallot b) "zkProof" = .ok (encBytes b.zkProof) := rfl
  have hatt : req (encBallot b) "attestation" = .ok (encAttestation b.attestation) := rfl
  rw [decBallot, hcts, ok_bind, hlist, ok_bind, read_encBytes (b := b.electionId) rfl hb.electionId,
    read_encBytes (b := b.pseudonym) rfl hb.pseudonym, read_encBytes (b := b.vk) rfl hb.vk,
    decCiphertexts_enc _ hb.ciphertexts, ok_bind, hproof, ok_bind,
    decBytes_encBytes _ _ (fun s hs => by cases hs), ok_bind,
    read_encBytes (b := b.voterSignature) rfl hb.voterSignature, hatt, ok_bind,
    decAttestation_encAttestation _ hb.attElectionId hb.attPseudonym hb.attVk hb.attWeight hb.attNonce
      hb.attSignature, ok_bind]
  rfl

end ElGamalVoting
