import Mathlib.Data.Nat.Digits.Lemmas
import ElGamalVoting.Core.AdmissionReturns
import ElGamalVoting.Core.AdmissionWinners
import ElGamalVoting.Core.WeightedSum
import ElGamalVoting.Lib.Double

/- The dashboard's check of a published aggregate (`frontend/shared/src/vd/verify/index.ts`, with
   the ballots as `vd/eth/client.ts` shapes them) against the committee's aggregation
   (`core/aggregation.py`).

   The dashboard gets a ballot from a JSON text, whose numbers become doubles, and packs its
   credential into one hexadecimal text, `scheme ‖ weight ‖ nonce ‖ signature`, which it reads
   again to verify the ballot and to weigh it. Where a function of the app throws, it returns
   `none` here. The SDK is outside the repository: `Sdk` is what the check calls of it, and
   `Sdk.Agrees` is what is assumed of these calls. Its points are those of the same curve, read
   from 96 compressed bytes.

   The committee adds every ciphertext times the *scaled* weight of its ballot; the dashboard adds
   those of the ballots that are still valid as it reads them, times the weight it reads. They agree
   exactly when the differences of these weights cancel out (`browser_agrees_iff`), which they do
   without scaling where all weights and nonces are doubles. -/
namespace ElGamalVoting
open Lib

namespace Frontend

/-! Reading and writing hexadecimal text. -/

/-- `BigInt(n).toString(16)`. -/
def toString16 (n : Int) : PyStr :=
  let digits := if n = 0 then pyStr "0"
    else (Nat.digits 16 n.natAbs).reverse.map fun d => (hexDigit d).toNat
  if n < 0 then pyStr "-" ++ digits else digits

def padStart (s : PyStr) (width : Nat) : PyStr := List.replicate (width - s.length) '0'.toNat ++ s

/-- `Buffer.from(text, "hex")`: pairs of digits, up to the first that is none. -/
def bufferFromHex : PyStr → Bytes
  | c :: d :: rest =>
    match hexValue c, hexValue d with
    | some hi, some lo => UInt8.ofNat (16 * hi + lo) :: bufferFromHex rest
    | _, _ => []
  | _ => []

def fromHex (h : PyStr) : Bytes := bufferFromHex (if h.take 2 = pyStr "0x" then h.drop 2 else h)

/-- `BigInt` of an integer in a JSON text: `JSON.parse` makes it a double, and infinity throws. -/
def bigIntOf (n : Int) : Option Int := (Double.ofNat n.natAbs).map fun d : Nat => n.sign * d

def packWrAttestation (att : Attestation) : Option PyStr := do
  let weight ← bigIntOf att.weight
  let nonce ← bigIntOf att.nonce
  pure (pyStr "0x" ++ pyStr "01" ++ padStart (toString16 weight) 64 ++ padStart (toString16 nonce) 64 ++
    pyStr (hex att.signature))

/-- The 32 bytes behind the scheme, as a number; a missing byte throws. -/
def attWeight (attHex : PyStr) : Option Int :=
  let a := fromHex attHex
  if a.length < 33 then none else some (beNat ((a.drop 1).take 32))

/-! The check. -/

structure VBallot where
  pseudonym : Bytes
  vk : Bytes
  ciphertexts : List Ciphertext
  zkProof : Bytes
  voterSignature : Bytes
  wrAttestation : PyStr

/-- One ballot of `fetchBallotsPage`. -/
def VBallot.ofEnvelope (env : BallotEnvelope) : Option VBallot := do
  let wrAttestation ← packWrAttestation env.attestation
  pure { pseudonym := env.pseudonym, vk := env.vk, ciphertexts := env.ciphertexts, zkProof := env.zkProof,
         voterSignature := env.voterSignature, wrAttestation }

/-- The ballot whose credential is what `makeWrVerifier` reads from the packed one; a missing byte
    throws there and is no credential. -/
def VBallot.envelope (electionId : Bytes) (b : VBallot) : Option BallotEnvelope :=
  let att := fromHex b.wrAttestation
  if att.length < 65 then none
  else some
    { electionId, pseudonym := b.pseudonym, vk := b.vk, ciphertexts := b.ciphertexts, zkProof := b.zkProof,
      voterSignature := b.voterSignature
      attestation := {
        electionId, pseudonym := b.pseudonym, vk := b.vk
        weight := beNat ((att.drop 1).take 32)
        nonce := beNat ((att.drop 33).take 32)
        signature := (att.drop 65).take 80 } }

inductive VerifyResult where
  | ok
  | failed (reason : String)
  deriving DecidableEq

/-- What the check calls of the SDK. -/
structure Sdk (G₂ : Type) where
  verifyBallot : VBallot → Bool
  scalarMulCt : Int → G₂ × G₂ → G₂ × G₂
  sumCts : List (G₂ × G₂) → Option (G₂ × G₂)

section
variable {G₁ G₂ : Type} [AddCommGroup G₁] [AddCommGroup G₂] [DecidableEq G₂] (S : Suite G₁ G₂)
  (sdk : Sdk G₂)

omit [DecidableEq G₂] in
def g2 (b : Bytes) : Option G₂ := (g2FromCompressed S.g2 b).toOption

omit [DecidableEq G₂] in
/-- The points of the `j`-th ciphertext of a list. -/
def pointsAt (cts : List Ciphertext) (j : Nat) : Option (G₂ × G₂) := do
  let ct ← cts[j]?
  let c1 ← g2 S ct.c1
  let c2 ← g2 S ct.c2
  pure (c1, c2)

/-- Whether the weighted sum at candidate `j` is the published one. -/
def candidateAgrees (valid : List VBallot) (aggregate : List Ciphertext) (j : Nat) : Option Bool := do
  let terms ← valid.mapM fun b => do
    let w ← attWeight b.wrAttestation
    let pts ← pointsAt S b.ciphertexts j
    pure (sdk.scalarMulCt w pts)
  let sum ← sdk.sumCts terms
  let pub ← pointsAt S aggregate j
  pure (sum.1 == pub.1 && sum.2 == pub.2)

/-- The loop over the candidates. -/
def verifyCandidates (valid : List VBallot) (aggregate : List Ciphertext) :
    List Nat → Option VerifyResult
  | [] => some .ok
  | j :: js => do
    let agrees ← candidateAgrees S sdk valid aggregate j
    if agrees then verifyCandidates valid aggregate js
    else pure (.failed s!"candidate {j}: sum ≠ published aggregate")

def verifyAggregateLocal (numCandidates : Nat) (aggregate : List Ciphertext) (ballots : List VBallot) :
    Option VerifyResult :=
  verifyCandidates S sdk (ballots.filter sdk.verifyBallot) aggregate (List.range numCandidates)

/-- The check on ballots as the service sends them. -/
def verifyAggregateOf (numCandidates : Nat) (aggregate : List Ciphertext) (envs : List BallotEnvelope) :
    Option VerifyResult := do
  let ballots ← envs.mapM VBallot.ofEnvelope
  verifyAggregateLocal S sdk numCandidates aggregate ballots

end

/-! ## The weight that is read -/

/-- The number a list of hexadecimal digits stands for. -/
def hexNat (vs : List Nat) : Nat := vs.foldl (fun acc v => acc * 16 + v) 0

def pairBytes : List Nat → Bytes
  | hi :: lo :: rest => UInt8.ofNat (16 * hi + lo) :: pairBytes rest
  | _ => []

/-- Digits in front of a text are read in pairs. -/
theorem bufferFromHex_append {vs : List Nat} (hvs : ∀ v ∈ vs, v < 16) (heven : vs.length % 2 = 0)
    (rest : PyStr) :
    bufferFromHex (vs.map (fun d => (hexDigit d).toNat) ++ rest) = pairBytes vs ++ bufferFromHex rest := by
  induction vs using pairBytes.induct with
  | case1 hi lo vs ih =>
    have hhi := hvs hi (by simp)
    have hlo := hvs lo (by simp)
    have htail := ih (fun v hv => hvs v (by simp [hv])) (by simp at heven; omega)
    simp only [List.map_cons, List.cons_append, bufferFromHex, hexValue_hexDigit hhi,
      hexValue_hexDigit hlo, htail, pairBytes]
  | case2 vs hvs' =>
    match vs, heven, hvs' with
    | [], _, _ => rfl
    | [v], h, _ => simp at h
    | hi :: lo :: vs, _, h => exact absurd rfl (h hi lo vs)

theorem length_pairBytes (vs : List Nat) : (pairBytes vs).length = vs.length / 2 := by
  induction vs using pairBytes.induct with
  | case1 hi lo vs ih =>
    simp only [pairBytes, List.length_cons, ih]
    omega
  | case2 vs hvs =>
    match vs, hvs with
    | [], _ => rfl
    | [v], _ => simp [pairBytes]
    | hi :: lo :: vs, h => exact absurd rfl (h hi lo vs)

theorem beNat_foldl_pairBytes {vs : List Nat} (hvs : ∀ v ∈ vs, v < 16) (heven : vs.length % 2 = 0)
    (acc : Nat) :
    (pairBytes vs).foldl (fun acc x => acc * 256 + x.toNat) acc =
      vs.foldl (fun acc v => acc * 16 + v) acc := by
  induction vs using pairBytes.induct generalizing acc with
  | case1 hi lo vs ih =>
    have hhi := hvs hi (by simp)
    have hlo := hvs lo (by simp)
    have hbyte : (UInt8.ofNat (16 * hi + lo)).toNat = 16 * hi + lo := by
      rw [UInt8.toNat_ofNat']
      omega
    simp only [pairBytes, List.foldl_cons, hbyte]
    rw [ih (fun v hv => hvs v (by simp [hv])) (by simp at heven; omega)]
    congr 1
    omega
  | case2 vs hvs' =>
    match vs, heven, hvs' with
    | [], _, _ => rfl
    | [v], h, _ => simp at h
    | hi :: lo :: vs, _, h => exact absurd rfl (h hi lo vs)

theorem hexNat_append (us vs : List Nat) : hexNat (us ++ vs) = hexNat us * 16 ^ vs.length + hexNat vs := by
  induction vs using List.reverseRecOn with
  | nil => simp [hexNat]
  | append_singleton vs v ih =>
    rw [← List.append_assoc]
    simp only [hexNat, List.foldl_append, List.foldl_cons, List.foldl_nil, List.length_append,
      List.length_singleton] at ih ⊢
    rw [ih, pow_succ]
    ring

theorem hexNat_replicate_zero (n : Nat) : hexNat (List.replicate n 0) = 0 := by
  induction n with
  | zero => rfl
  | succ n ih => simpa [hexNat, List.replicate_succ] using ih

theorem hexNat_digits (n : Nat) : hexNat (Nat.digits 16 n).reverse = n := by
  have h : hexNat (Nat.digits 16 n).reverse = Nat.ofDigits 16 (Nat.digits 16 n) := by
    rw [hexNat, List.foldl_reverse, Nat.ofDigits_eq_foldr]
    congr 1
    funext d acc
    simp
    ring
  rw [h, Nat.ofDigits_digits]

/-- The values of the digits of a padded number. -/
def paddedDigits (n width : Nat) : List Nat :=
  let ds := if n = 0 then [0] else (Nat.digits 16 n).reverse
  List.replicate (width - ds.length) 0 ++ ds

theorem padStart_toString16 (n width : Nat) :
    padStart (toString16 n) width = (paddedDigits n width).map fun d => (hexDigit d).toNat := by
  have hneg : ¬ (n : Int) < 0 := by omega
  by_cases hn : n = 0
  · subst hn
    simp [padStart, toString16, paddedDigits, hexDigit, pyStr]
  · have hn' : (n : Int) ≠ 0 := by omega
    have hzero : '0'.toNat = (hexDigit 0).toNat := rfl
    simp only [padStart, toString16, paddedDigits, hn, hn', hneg, if_false, Int.natAbs_natCast,
      List.map_append, List.map_replicate, List.length_map, hzero]

theorem paddedDigits_lt {n width : Nat} : ∀ v ∈ paddedDigits n width, v < 16 := by
  intro v hv
  rw [paddedDigits] at hv
  rcases List.mem_append.mp hv with hv | hv
  · rw [List.eq_of_mem_replicate hv]
    omega
  · split at hv
    · simp at hv
      omega
    · exact Nat.digits_lt_base (by omega) (List.mem_reverse.mp hv)

theorem hexNat_paddedDigits (n width : Nat) : hexNat (paddedDigits n width) = n := by
  rw [paddedDigits, hexNat_append, hexNat_replicate_zero, zero_mul, zero_add]
  split
  · simp [hexNat, *]
  · exact hexNat_digits n

theorem length_paddedDigits {n width : Nat} (hwidth : 0 < width) (hn : n < 16 ^ width) :
    (paddedDigits n width).length = width := by
  have hle : (if n = 0 then [0] else (Nat.digits 16 n).reverse).length ≤ width := by
    split
    · simpa using Nat.succ_le_of_lt hwidth
    · rw [List.length_reverse]
      exact Nat.digits_length_le_iff (by omega) n |>.mpr hn
  rw [paddedDigits]
  simp only [List.length_append, List.length_replicate]
  omega

theorem fromHex_prefixed (t : PyStr) : fromHex (pyStr "0x" ++ t) = bufferFromHex t := by
  simp [fromHex, pyStr]

theorem beNat_pairBytes {vs : List Nat} (hvs : ∀ v ∈ vs, v < 16) (heven : vs.length % 2 = 0) :
    beNat (pairBytes vs) = hexNat vs := beNat_foldl_pairBytes hvs heven 0

/-- A number that fits them is written as 32 bytes. -/
theorem pairBytes_paddedDigits {n : Nat} (hn : n < 2 ^ 256) : pairBytes (paddedDigits n 64) = beBytes 32 n := by
  have hlen : (paddedDigits n 64).length = 64 := length_paddedDigits (by omega) (by omega)
  apply beNat_inj
  · rw [length_pairBytes, hlen, length_beBytes]
  · rw [beNat_pairBytes paddedDigits_lt (by rw [hlen]), hexNat_paddedDigits, beNat_beBytes 32 n (by omega)]

/-- The two digits of each byte. -/
def nibbles (b : Bytes) : List Nat := b.flatMap fun x => [x.toNat / 16, x.toNat % 16]

theorem nibbles_lt {b : Bytes} : ∀ v ∈ nibbles b, v < 16 := by
  intro v hv
  obtain ⟨x, -, hv⟩ := List.mem_flatMap.mp hv
  have hx := x.toNat_lt
  simp only [List.mem_cons, List.not_mem_nil, or_false] at hv
  omega

theorem pairBytes_nibbles (b : Bytes) : pairBytes (nibbles b) = b := by
  induction b with
  | nil => rfl
  | cons x b ih =>
    have hbyte : UInt8.ofNat (16 * (x.toNat / 16) + x.toNat % 16) = x := by
      rw [Nat.div_add_mod, UInt8.ofNat_toNat]
    show UInt8.ofNat (16 * (x.toNat / 16) + x.toNat % 16) :: pairBytes (nibbles b) = x :: b
    rw [hbyte, ih]

theorem pyStr_hex (b : Bytes) : pyStr (hex b) = (nibbles b).map fun d => (hexDigit d).toNat := by
  rw [pyStr, hex, String.toList_ofList, nibbles, List.map_flatMap, List.map_flatMap]
  rfl

theorem bufferFromHex_hex (b : Bytes) : bufferFromHex (pyStr (hex b)) = b := by
  have heven : (nibbles b).length % 2 = 0 := by
    rw [nibbles, List.length_flatMap]
    simp
  have hread := bufferFromHex_append (nibbles_lt (b := b)) heven []
  rw [List.append_nil, ← pyStr_hex, pairBytes_nibbles] at hread
  have hend : bufferFromHex [] = [] := rfl
  rw [hread, hend, List.append_nil]

theorem bufferFromHex_number {n : Nat} (hn : n < 2 ^ 256) (rest : PyStr) :
    bufferFromHex (padStart (toString16 n) 64 ++ rest) = beBytes 32 n ++ bufferFromHex rest := by
  have hlen : (paddedDigits n 64).length = 64 := length_paddedDigits (by omega) (by omega)
  rw [padStart_toString16, bufferFromHex_append paddedDigits_lt (by rw [hlen]), pairBytes_paddedDigits hn]

/-! ## The credential that is read -/

/-- Weight and nonce are doubles that fit their 32 bytes. -/
structure Attestation.Exact (att : Attestation) : Prop where
  weight : bigIntOf att.weight = some att.weight
  nonce : bigIntOf att.nonce = some att.nonce

/-- Numbers of at most 53 bits are. -/
theorem bigIntOf_small {n : Int} (h : n.natAbs < 2 ^ 53) : bigIntOf n = some n := by
  rw [bigIntOf, Double.ofNat_eq_self h, Option.map_some, Int.sign_mul_natAbs]

/-- A credential of doubles is packed byte by byte. -/
theorem packWrAttestation_exact {att : Attestation} (hexact : Attestation.Exact att) {w n : Nat}
    (hweight : att.weight = w) (hnonce : att.nonce = n) (hw : w < 2 ^ 256) (hn : n < 2 ^ 256) :
    ∃ packed, packWrAttestation att = some packed ∧
      fromHex packed = 1 :: (beBytes 32 w ++ (beBytes 32 n ++ att.signature)) := by
  refine ⟨pyStr "0x" ++ pyStr "01" ++ padStart (toString16 w) 64 ++ padStart (toString16 n) 64 ++
    pyStr (hex att.signature), ?_, ?_⟩
  · rw [packWrAttestation, hexact.weight, Option.bind_eq_bind, Option.bind_some, hexact.nonce,
      Option.bind_some, hweight, hnonce]
    rfl
  · have hscheme : ∀ rest, bufferFromHex (pyStr "01" ++ rest) = 1 :: bufferFromHex rest := fun _ => rfl
    simp only [List.append_assoc]
    rw [fromHex_prefixed, hscheme, bufferFromHex_number hw, bufferFromHex_number hn, bufferFromHex_hex]

/-! ## The two sums -/

section
variable {G₁ G₂ : Type} [AddCommGroup G₁] [AddCommGroup G₂] [DecidableEq G₁] [DecidableEq G₂]
  {S : Suite G₁ G₂} {sdk : Sdk G₂} {config : ElectionConfig} {mpk : G₂}

/-- `validate_ballot` accepts the ballot, which has no receive time. -/
def accepts (S : Suite G₁ G₂) (config : ElectionConfig) (mpk : G₂) (env : BallotEnvelope) : Bool :=
  validateBallot S ⟨0, env, none⟩ config mpk = .ok none

/-- What is assumed of the SDK: of the ballots it is given it accepts those that are valid on their
    own with the credential it reads, and its operations are those of the group. It may refuse to sum
    no ciphertexts. -/
structure Sdk.Agrees (S : Suite G₁ G₂) (config : ElectionConfig) (mpk : G₂) (sdk : Sdk G₂) : Prop where
  verifyBallot : ∀ env b, VBallot.ofEnvelope env = some b →
    sdk.verifyBallot b = (b.envelope config.electionId).any (accepts S config mpk)
  scalarMulCt : ∀ k ct, sdk.scalarMulCt k ct = (k • ct.1, k • ct.2)
  sumCts : ∀ cts, cts ≠ [] → sdk.sumCts cts = some ((cts.map Prod.fst).sum, (cts.map Prod.snd).sum)
  sumCts_nil : ∀ C, sdk.sumCts [] = some C → C = 0

/-- Every compressed encoding is the one of its point. -/
def Canonical (S : Suite G₁ G₂) : Prop :=
  ∀ b P, g2FromCompressed S.g2 b = .ok P → b = S.g2.toCompressed P

/-- A ballot's points at candidate `j`; the identity beyond its ciphertexts. -/
def ballotPoint (S : Suite G₁ G₂) (env : BallotEnvelope) (j : Nat) : G₂ × G₂ :=
  (ballotPoints S env).getD j (0, 0)

/-- The sum over the ballots of a weight times the point at candidate `j`. -/
def weightedSum (S : Suite G₁ G₂) (weight : BallotEnvelope → Int) (envs : List BallotEnvelope) (j : Nat) :
    G₂ × G₂ :=
  (envs.map fun env => weight env • ballotPoint S env j).sum

/-- The weight of a ballot's credential. -/
def rawWeight (env : BallotEnvelope) : Int := env.attestation.weight

/-- The weight the committee counts it with. -/
def countedWeight (config : ElectionConfig) (env : BallotEnvelope) : Int :=
  scaledWeight env.attestation.weight config.scale

def encodeCt (S : Suite G₁ G₂) (C : G₂ × G₂) : Ciphertext := ⟨S.g2.toCompressed C.1, S.g2.toCompressed C.2⟩

/-- The aggregate with the given weights, as published. -/
def publishedSums (S : Suite G₁ G₂) (weight : BallotEnvelope → Int) (envs : List BallotEnvelope)
    (numCandidates : Nat) : List Ciphertext :=
  (List.range numCandidates).map fun j => encodeCt S (weightedSum S weight envs j)

omit [DecidableEq G₁] [DecidableEq G₂] in
theorem pointsAt_of_decodes {env : BallotEnvelope} {n j : Nat} (h : Decodes S n env) (hj : j < n) :
    pointsAt S env.ciphertexts j = some (ballotPoint S env j) := by
  obtain ⟨pts, hpts, hlen⟩ := h
  have hget : pts[j]? = some (pts.get ⟨j, by omega⟩) := List.getElem?_eq_getElem (by omega)
  obtain ⟨pair, hpair, hdecode⟩ := forall₂_getElem? (List.Forall₂.flip (mapM_eq_ok.mp hpts)) hget
  rw [ciphertextPairs, List.getElem?_map, Option.map_eq_some_iff] at hpair
  obtain ⟨ct, hct, rfl⟩ := hpair
  have hpoint : ballotPoint S env j = pts.get ⟨j, by omega⟩ := by
    have hpts' : ballotPoints S env = pts := by rw [ballotPoints, hpts]; rfl
    rw [ballotPoint, hpts', List.getD_eq_getElem?_getD, hget, Option.getD_some]
  rw [pointsAt, hct, hpoint]
  obtain ⟨c1, hc1, hdecode⟩ := bind_eq_ok.mp hdecode
  obtain ⟨c2, hc2, hdecode⟩ := bind_eq_ok.mp hdecode
  rw [pure_eq_ok, Except.ok.injEq] at hdecode
  simp only [Option.bind_eq_bind, Option.bind_some, g2, hc1, hc2, Except.toOption, ← hdecode,
    Option.pure_def]

omit [DecidableEq G₁] [DecidableEq G₂] in
theorem sum_pairs (l : List (G₂ × G₂)) : ((l.map Prod.fst).sum, (l.map Prod.snd).sum) = l.sum := by
  have h1 := map_list_sum (AddMonoidHom.fst G₂ G₂) l
  have h2 := map_list_sum (AddMonoidHom.snd G₂ G₂) l
  exact Prod.ext h1.symm h2.symm

/-- The ballot as the dashboard reads it, where it is still valid. -/
def stillValid (S : Suite G₁ G₂) (config : ElectionConfig) (mpk : G₂) (env : BallotEnvelope) : Option BallotEnvelope :=
  ((VBallot.ofEnvelope env).bind (VBallot.envelope config.electionId)).filter (accepts S config mpk)

/-- The weight the dashboard counts a ballot with. -/
def readWeight (S : Suite G₁ G₂) (config : ElectionConfig) (mpk : G₂) (env : BallotEnvelope) : Int :=
  ((stillValid S config mpk env).map rawWeight).getD 0

/-- The ballots the dashboard counts. -/
def kept (S : Suite G₁ G₂) (config : ElectionConfig) (mpk : G₂) (envs : List BallotEnvelope) : List BallotEnvelope :=
  envs.filterMap (stillValid S config mpk)

/-- There is a ballot to count, or the SDK sums none to the identity. -/
def HasTerms (S : Suite G₁ G₂) (sdk : Sdk G₂) (config : ElectionConfig) (mpk : G₂) (envs : List BallotEnvelope) : Prop :=
  kept S config mpk envs = [] → sdk.sumCts [] = some 0

theorem of_accepts {env : BallotEnvelope} (h : accepts S config mpk env = true) :
    Decodes S config.numCandidates env :=
  (of_validateBallot (of_decide_eq_true h)).2.2

/-- The weight of a ballot is read where its credential is. -/
theorem attWeight_of_envelope {b : VBallot} {electionId : Bytes} {env : BallotEnvelope}
    (h : b.envelope electionId = some env) : attWeight b.wrAttestation = some (rawWeight env) := by
  rw [VBallot.envelope] at h
  split_ifs at h with hlen
  cases h
  rw [attWeight]
  exact if_neg (by omega)

omit [AddCommGroup G₁] [AddCommGroup G₂] [DecidableEq G₁] [DecidableEq G₂] in
theorem ciphertexts_ofEnvelope {env : BallotEnvelope} {b : VBallot} (h : VBallot.ofEnvelope env = some b) :
    b.ciphertexts = env.ciphertexts := by
  rw [VBallot.ofEnvelope, Option.bind_eq_bind, Option.bind_eq_some_iff] at h
  obtain ⟨_, -, h⟩ := h
  cases h
  rfl

theorem ciphertexts_envelope {b : VBallot} {electionId : Bytes} {env : BallotEnvelope}
    (h : b.envelope electionId = some env) : env.ciphertexts = b.ciphertexts := by
  rw [VBallot.envelope] at h
  split_ifs at h
  cases h
  rfl

omit [DecidableEq G₁] [DecidableEq G₂] in
theorem ballotPoint_congr {env env' : BallotEnvelope} (h : env.ciphertexts = env'.ciphertexts) (j : Nat) :
    ballotPoint S env j = ballotPoint S env' j := by
  simp only [ballotPoint, ballotPoints, ciphertextPairs, h]

/-- The terms at a candidate: one for each ballot that is counted. -/
theorem terms_eq (hsdk : sdk.Agrees S config mpk) {envs : List BallotEnvelope} {ballots : List VBallot}
    (hmap : List.Forall₂ (fun b env => VBallot.ofEnvelope env = some b) ballots envs) {j : Nat}
    (hj : j < config.numCandidates) :
    ((ballots.filter sdk.verifyBallot).mapM fun b => do
      let w ← attWeight b.wrAttestation
      let pts ← pointsAt S b.ciphertexts j
      pure (sdk.scalarMulCt w pts)) =
        some ((kept S config mpk envs).map fun env => rawWeight env • ballotPoint S env j) := by
  induction hmap with
  | nil => rfl
  | @cons b env ballots envs hb _ ih =>
    have hverify := hsdk.verifyBallot env b hb
    have hread : stillValid S config mpk env = (b.envelope config.electionId).filter (accepts S config mpk) := by
      rw [stillValid, hb, Option.bind_some]
    cases henv : b.envelope config.electionId with
    | none =>
      rw [henv, Option.any_none] at hverify
      rw [henv, Option.filter_none] at hread
      rw [List.filter_cons_of_neg (by simp [hverify]), ih, kept, kept, List.filterMap_cons_none hread]
    | some env' =>
      rw [henv, Option.any_some] at hverify
      by_cases haccepts : accepts S config mpk env' = true
      · rw [henv, Option.filter_some_pos haccepts] at hread
        have hpts : pointsAt S b.ciphertexts j = some (ballotPoint S env' j) := by
          rw [← ciphertexts_envelope henv]
          exact pointsAt_of_decodes (of_accepts haccepts) hj
        rw [List.filter_cons_of_pos (by rw [hverify, haccepts]), List.mapM_cons, ih, kept, kept,
          List.filterMap_cons_some hread, attWeight_of_envelope henv]
        simp only [hpts, Option.bind_eq_bind, Option.bind_some, Option.pure_def, hsdk.scalarMulCt]
        rfl
      · rw [henv, Option.filter_some_neg (Bool.eq_false_iff.mpr haccepts)] at hread
        rw [List.filter_cons_of_neg (by rw [hverify]; exact haccepts), ih, kept, kept,
          List.filterMap_cons_none hread]

/-- Over all ballots with the weights that are read the sum is the one over those that are counted. -/
theorem weightedSum_kept (S : Suite G₁ G₂) (config : ElectionConfig) (mpk : G₂) (envs : List BallotEnvelope) (j : Nat) :
    weightedSum S rawWeight (kept S config mpk envs) j = weightedSum S (readWeight S config mpk) envs j := by
  induction envs with
  | nil => simp [weightedSum, kept]
  | cons env envs ih =>
    rw [weightedSum, weightedSum] at ih
    rw [weightedSum, weightedSum, List.map_cons, List.sum_cons, ← ih, readWeight, kept]
    cases hread : stillValid S config mpk env with
    | none =>
      rw [List.filterMap_cons_none hread, Option.map_none, Option.getD_none, zero_smul, zero_add]
      rfl
    | some env' =>
      obtain ⟨hbind, -⟩ := Option.filter_eq_some_iff.mp hread
      obtain ⟨b, hb, henv⟩ := Option.bind_eq_some_iff.mp hbind
      have hsame := (ciphertexts_envelope henv).trans (ciphertexts_ofEnvelope hb)
      rw [List.filterMap_cons_some hread, List.map_cons, List.sum_cons, Option.map_some, Option.getD_some,
        ballotPoint_congr hsame]
      rfl

/-- The SDK's sum at a candidate. -/
theorem sumCts_kept (hsdk : sdk.Agrees S config mpk) {envs : List BallotEnvelope} {j : Nat} {C : G₂ × G₂} :
    sdk.sumCts ((kept S config mpk envs).map fun env => rawWeight env • ballotPoint S env j) = some C ↔
      HasTerms S sdk config mpk envs ∧ weightedSum S (readWeight S config mpk) envs j = C := by
  rw [← weightedSum_kept, HasTerms]
  cases kept S config mpk envs with
  | nil =>
    have hzero : weightedSum S rawWeight [] j = 0 := rfl
    rw [List.map_nil, hzero, imp_iff_right rfl]
    constructor
    · intro h
      obtain rfl := hsdk.sumCts_nil C h
      exact ⟨h, rfl⟩
    · rintro ⟨h, rfl⟩
      exact h
  | cons env envs =>
    rw [hsdk.sumCts _ (by simp), sum_pairs, Option.some.injEq, weightedSum]
    simp

/-- What the dashboard's check at a candidate compares. -/
theorem candidateAgrees_iff (hsdk : sdk.Agrees S config mpk) {envs : List BallotEnvelope} {ballots : List VBallot}
    (hmap : List.Forall₂ (fun b env => VBallot.ofEnvelope env = some b) ballots envs) {j : Nat}
    (hj : j < config.numCandidates) {aggregate : List Ciphertext} :
    candidateAgrees S sdk (ballots.filter sdk.verifyBallot) aggregate j = some true ↔
      HasTerms S sdk config mpk envs ∧
        pointsAt S aggregate j = some (weightedSum S (readWeight S config mpk) envs j) := by
  rw [candidateAgrees, terms_eq hsdk hmap hj]
  simp only [Option.bind_eq_bind, Option.bind_some, Option.bind_eq_some_iff, sumCts_kept hsdk, Option.pure_def,
    Option.some.injEq, Bool.and_eq_true, beq_iff_eq]
  constructor
  · rintro ⟨sum, ⟨hterms, rfl⟩, pub, hpub, h1, h2⟩
    exact ⟨hterms, hpub.trans (congrArg some (Prod.ext h1.symm h2.symm))⟩
  · rintro ⟨hterms, hpub⟩
    exact ⟨_, ⟨hterms, rfl⟩, _, hpub, rfl, rfl⟩

omit [DecidableEq G₁] in
theorem verifyCandidates_eq_ok {valid : List VBallot} {aggregate : List Ciphertext} {js : List Nat} :
    verifyCandidates S sdk valid aggregate js = some .ok ↔
      ∀ j ∈ js, candidateAgrees S sdk valid aggregate j = some true := by
  induction js with
  | nil => simp [verifyCandidates]
  | cons j js ih =>
    rw [verifyCandidates, List.forall_mem_cons, ← ih]
    cases candidateAgrees S sdk valid aggregate j with
    | none => simp
    | some agrees => cases agrees <;> simp

omit [DecidableEq G₁] [DecidableEq G₂] in
theorem pointsAt_eq_some (hcanonical : Canonical S) {aggregate : List Ciphertext} {j : Nat} {C : G₂ × G₂} :
    pointsAt S aggregate j = some C ↔ aggregate[j]? = some (encodeCt S C) := by
  cases hct : aggregate[j]? with
  | none => simp [pointsAt, hct]
  | some ct =>
    have hg2 : ∀ b P, g2 S b = some P ↔ b = S.g2.toCompressed P := by
      intro b P
      rw [g2, toOption_eq_some]
      constructor
      · exact hcanonical b P
      · intro h
        rw [h]
        exact S.g2.decodePoint_toCompressed _ _
    simp only [pointsAt, hct, Option.bind_eq_bind, Option.bind_some, Option.bind_eq_some_iff, hg2,
      Option.pure_def, Option.some.injEq, encodeCt]
    constructor
    · rintro ⟨c1, h1, c2, h2, rfl⟩
      cases ct
      exact congrArg₂ Ciphertext.mk h1 h2
    · intro h
      exact ⟨C.1, congrArg Ciphertext.c1 h, C.2, congrArg Ciphertext.c2 h, rfl⟩

/-- The dashboard accepts a list whose ciphertexts are its own sums. -/
theorem verifyAggregateOf_eq_ok (hsdk : sdk.Agrees S config mpk) (hcanonical : Canonical S)
    {envs : List BallotEnvelope} (hpacked : ∀ env ∈ envs, ∃ b, VBallot.ofEnvelope env = some b)
    {aggregate : List Ciphertext} :
    verifyAggregateOf S sdk config.numCandidates aggregate envs = some .ok ↔
      HasTerms S sdk config mpk envs ∧ ∀ j < config.numCandidates,
        aggregate[j]? = some (encodeCt S (weightedSum S (readWeight S config mpk) envs j)) := by
  obtain ⟨ballots, hballots⟩ := exists_mapM_option hpacked
  have hmap := mapM_option_eq_some.mp hballots
  have hcandidates : ∀ j ∈ List.range config.numCandidates,
      (candidateAgrees S sdk (ballots.filter sdk.verifyBallot) aggregate j = some true ↔
        HasTerms S sdk config mpk envs ∧
          aggregate[j]? = some (encodeCt S (weightedSum S (readWeight S config mpk) envs j))) := by
    intro j hj
    rw [candidateAgrees_iff hsdk hmap (List.mem_range.mp hj), pointsAt_eq_some hcanonical]
  rw [verifyAggregateOf, hballots, Option.bind_eq_bind, Option.bind_some, verifyAggregateLocal,
    verifyCandidates_eq_ok, forall₂_congr hcandidates]
  constructor
  · intro h
    have hfirst := h 0 (List.mem_range.mpr config.one_le_numCandidates)
    exact ⟨hfirst.1, fun j hj => (h j (List.mem_range.mpr hj)).2⟩
  · rintro ⟨hterms, h⟩ j hj
    exact ⟨hterms, h j (List.mem_range.mp hj)⟩

/-! ## The committee's sums -/

omit [DecidableEq G₁] [DecidableEq G₂] in
theorem addPoints_getD (S : Suite G₁ G₂) {w : Int} {accs pts : List (G₂ × G₂)} {j : Nat}
    (hlen : accs.length = pts.length) :
    (addPoints w accs pts).getD j 0 = accs.getD j 0 + w • pts.getD j 0 := by
  by_cases hj : j < pts.length
  · rw [addPoints, List.getD_eq_getElem _ _ (by simp; omega), List.getD_eq_getElem _ _ (by omega),
      List.getD_eq_getElem _ _ hj, List.getElem_zipWith, addCt, scalarMulCt, S.g2.mul_eq_zsmul,
      S.g2.mul_eq_zsmul]
    rfl
  · rw [addPoints, List.getD_eq_default _ _ (by simp; omega), List.getD_eq_default _ _ (by omega),
      List.getD_eq_default _ _ (by omega), smul_zero, add_zero]

omit [DecidableEq G₁] [DecidableEq G₂] in
/-- The loop over the ballots adds the scaled weight times the point of each. -/
theorem foldl_addAdmitted {scale n : Nat} {abs : List (BallotEnvelope × Int)}
    (hdecode : ∀ ab ∈ abs, Decodes S n ab.1) {accs : List (G₂ × G₂)} (hlen : accs.length = n) :
    (abs.foldl (addAdmitted S scale) accs).length = n ∧
    ∀ j, (abs.foldl (addAdmitted S scale) accs).getD j 0 =
      accs.getD j 0 + (abs.map fun ab => scaledWeight ab.2 scale • ballotPoint S ab.1 j).sum := by
  induction abs generalizing accs with
  | nil => exact ⟨hlen, fun j => by simp⟩
  | cons ab abs ih =>
    have htail : ∀ b ∈ abs, Decodes S n b.1 := fun b hb => hdecode b (List.mem_cons_of_mem ab hb)
    rw [List.foldl_cons]
    by_cases hw : scaledWeight ab.2 scale = 0
    · -- a weight that scales to zero is skipped
      have hstep : addAdmitted S scale accs ab = accs := if_pos hw
      obtain ⟨hlen', hsum⟩ := ih htail hlen
      rw [hstep]
      refine ⟨hlen', fun j => ?_⟩
      rw [hsum j, List.map_cons, List.sum_cons, hw, zero_smul, zero_add]
    · obtain ⟨pts, hpts, hcount⟩ := hdecode ab List.mem_cons_self
      have hpts' : ballotPoints S ab.1 = pts := by rw [ballotPoints, hpts]; rfl
      have hstep : addAdmitted S scale accs ab =
          addPoints (scaledWeight ab.2 scale) accs (ballotPoints S ab.1) := if_neg hw
      have hsame : accs.length = (ballotPoints S ab.1).length := by rw [hpts']; omega
      rw [hstep]
      have hadded : (addPoints (scaledWeight ab.2 scale) accs (ballotPoints S ab.1)).length = n := by
        simp only [addPoints, List.length_zipWith]
        omega
      obtain ⟨hlen', hsum⟩ := ih htail hadded
      refine ⟨hlen', fun j => ?_⟩
      rw [hsum j, addPoints_getD S hsame, List.map_cons, List.sum_cons, ← add_assoc]
      rfl

omit [DecidableEq G₁] [DecidableEq G₂] in
/-- The published aggregate is the sums with the scaled weights. -/
theorem aggregates_eq {admission : AdmissionResult} {A : AggregateArtifact}
    (hbuild : buildAggregateArtifact S config admission = .ok A)
    (hweight : ∀ ab ∈ admission.admitted, ab.weight = ab.envelope.attestation.weight)
    (hdecode : ∀ ab ∈ admission.admitted, Decodes S config.numCandidates ab.envelope) :
    A.aggregates = publishedSums S (countedWeight config)
      (admission.admitted.map AdmittedBallot.envelope) config.numCandidates := by
  rw [buildAggregateArtifact] at hbuild
  obtain ⟨points, hpoints, hbuild⟩ := bind_eq_ok.mp hbuild
  cases hbuild
  rw [aggregatePoints_eq hdecode, Except.ok.injEq] at hpoints
  have hdecodes : ∀ ab ∈ admission.admitted.map fun ab => (ab.envelope, ab.weight),
      Decodes S config.numCandidates ab.1 := by
    intro ab hab
    obtain ⟨b, hb, rfl⟩ := List.mem_map.mp hab
    exact hdecode b hb
  have hzeros : (List.replicate config.numCandidates ((0 : G₂), (0 : G₂))).length = config.numCandidates :=
    List.length_replicate
  obtain ⟨hlen, hsum⟩ := foldl_addAdmitted (n := config.numCandidates) hdecodes hzeros
  rw [hpoints] at hlen hsum
  apply List.ext_getElem?
  intro j
  by_cases hj : j < config.numCandidates
  · have hzero : (List.replicate config.numCandidates ((0 : G₂), (0 : G₂))).getD j 0 = 0 := by
      simp [List.getD_eq_getElem?_getD, hj]
    have hpoint : points[j]? = some (weightedSum S
        (countedWeight config)
        (admission.admitted.map AdmittedBallot.envelope) j) := by
      rw [List.getElem?_eq_getElem (by omega), ← List.getD_eq_getElem points 0 (by omega), hsum j, hzero,
        zero_add, weightedSum, List.map_map, List.map_map]
      congr 2
      apply List.map_congr_left
      intro ab hab
      simp only [Function.comp_apply, hweight ab hab, countedWeight]
    rw [List.getElem?_map, hpoint, publishedSums, List.getElem?_map, List.getElem?_range hj,
      Option.map_some, Option.map_some]
    rfl
  · rw [List.getElem?_eq_none (by simp; omega), List.getElem?_eq_none (by simpa [publishedSums] using hj)]

/-! ## Agreement -/

/-- The differences between the weights that are read and the scaled weights cancel out at every candidate. -/
def WeightsCancel (S : Suite G₁ G₂) (config : ElectionConfig) (mpk : G₂) (envs : List BallotEnvelope) : Prop :=
  ∀ j < config.numCandidates,
    weightedSum S (fun env => readWeight S config mpk env - countedWeight config env) envs j = 0

omit [DecidableEq G₁] [DecidableEq G₂] in
theorem weightedSum_sub (v w : BallotEnvelope → Int) (envs : List BallotEnvelope) (j : Nat) :
    weightedSum S (fun env => v env - w env) envs j = weightedSum S v envs j - weightedSum S w envs j := by
  induction envs with
  | nil => simp [weightedSum]
  | cons env envs ih =>
    simp only [weightedSum, List.map_cons, List.sum_cons] at ih ⊢
    rw [ih, sub_smul]
    abel

omit [DecidableEq G₁] [DecidableEq G₂] in
theorem encodeCt_inj {C D : G₂ × G₂} (h : encodeCt S C = encodeCt S D) : C = D :=
  Prod.ext (S.g2.toCompressed_inj (congrArg Ciphertext.c1 h))
    (S.g2.toCompressed_inj (congrArg Ciphertext.c2 h))

theorem accepts_of_valid {sb : StoredBallot} (h : validateBallot S sb config mpk = .ok none) :
    accepts S config mpk sb.envelope = true := by
  have htime : ∀ time, sb.submittedAt = some time → isVotingOpen config time = true := opened_of_validateBallot h
  have hnone : ∀ time, (none : Option Int) = some time → isVotingOpen config time = true := by
    intro time hnone
    cases hnone
  rw [accepts, decide_eq_true_eq, ← h]
  exact validateBallot_congr rfl hnone htime

/-- The admitted ballots are valid on their own. -/
theorem admitted_valid {ballots : List StoredBallot} {mpkBytes : Bytes} {admission : AdmissionResult}
    (hadmission : admitBallots S ballots config mpkBytes = .ok admission)
    (hkey : g2FromCompressed S.g2 mpkBytes = .ok mpk) :
    ∀ ab ∈ admission.admitted, ∃ sb, validateBallot S sb config mpk = .ok none ∧ ab = sb.admitted := by
  obtain ⟨mpk', hmpk, reasons, hreasons, rfl⟩ := admitBallots_eq_ok hadmission
  obtain rfl : mpk' = mpk := Except.ok.inj (hmpk.symm.trans hkey)
  intro ab hab
  obtain ⟨sb, -, hsb, rfl⟩ := of_mem_admitted hreasons hab
  exact ⟨sb, hsb, rfl⟩

/-- The aggregate of the admitted ballots is built, and it is the sums with the scaled weights. -/
theorem published_of_admitted {ballots : List StoredBallot} {mpkBytes : Bytes} {admission : AdmissionResult}
    (hadmission : admitBallots S ballots config mpkBytes = .ok admission)
    (hkey : g2FromCompressed S.g2 mpkBytes = .ok mpk) :
    ∃ A, buildAggregateArtifact S config admission = .ok A ∧
      A.aggregates = publishedSums S (countedWeight config) (admission.admitted.map AdmittedBallot.envelope)
        config.numCandidates := by
  have hdecode : ∀ ab ∈ admission.admitted, Decodes S config.numCandidates ab.envelope := by
    intro ab hab
    obtain ⟨sb, hsb, rfl⟩ := admitted_valid hadmission hkey ab hab
    exact (of_validateBallot hsb).2.2
  have hweight : ∀ ab ∈ admission.admitted, ab.weight = ab.envelope.attestation.weight := by
    intro ab hab
    obtain ⟨sb, -, rfl⟩ := admitted_valid hadmission hkey ab hab
    rfl
  obtain ⟨A, hA⟩ : ∃ A, buildAggregateArtifact S config admission = .ok A := by
    rw [buildAggregateArtifact, aggregatePoints_eq hdecode, ok_bind]
    exact ⟨_, rfl⟩
  exact ⟨A, hA, aggregates_eq hA hweight hdecode⟩

/-- The credential of a valid ballot is packed. -/
theorem ofEnvelope_of_valid {sb : StoredBallot} (h : validateBallot S sb config mpk = .ok none) :
    ∃ b, VBallot.ofEnvelope sb.envelope = some b := by
  have hbig : ∀ n : Int, 0 ≤ n → n < 2 ^ 256 → ∃ m, bigIntOf n = some m := by
    intro n hn0 hn
    have hsmall : n.natAbs < 2 ^ 256 := by omega
    have hfinite : 2 ^ 256 ≤ 2 ^ (Double.maxExponent - 1) := Nat.pow_le_pow_right (by decide) (by decide)
    obtain ⟨d, hd⟩ := Double.exists_ofNat (hsmall.trans_le hfinite)
    exact ⟨_, by rw [bigIntOf, hd, Option.map_some]⟩
  obtain ⟨⟨hw0, hw⟩, hn0, hn⟩ := credential_bounds h
  obtain ⟨w, hweight⟩ := hbig _ hw0 hw
  obtain ⟨n, hnonce⟩ := hbig _ hn0 hn
  exact ⟨_, by rw [VBallot.ofEnvelope, packWrAttestation, hweight, hnonce]; rfl⟩

/-- The dashboard's check agrees with the committee, accepting what it published and nothing else,
    exactly when it has ballots to count and the differences of the weights cancel out. -/
theorem browser_agrees_iff (hcanonical : Canonical S) {ballots : List StoredBallot} {mpkBytes : Bytes}
    {admission : AdmissionResult} (hadmission : admitBallots S ballots config mpkBytes = .ok admission)
    (hkey : g2FromCompressed S.g2 mpkBytes = .ok mpk) (hsdk : sdk.Agrees S config mpk) :
    (∃ A, buildAggregateArtifact S config admission = .ok A ∧
      ∀ aggregate : List Ciphertext, aggregate.length = config.numCandidates →
        (verifyAggregateOf S sdk config.numCandidates aggregate
          (admission.admitted.map AdmittedBallot.envelope) = some .ok ↔ aggregate = A.aggregates)) ↔
      HasTerms S sdk config mpk (admission.admitted.map AdmittedBallot.envelope) ∧
        WeightsCancel S config mpk (admission.admitted.map AdmittedBallot.envelope) := by
  obtain ⟨A, hA, haggregates⟩ := published_of_admitted hadmission hkey
  have hlen : A.aggregates.length = config.numCandidates := by rw [haggregates]; simp [publishedSums]
  have hpublished : ∀ j < config.numCandidates, A.aggregates[j]? = some (encodeCt S (weightedSum S
      (countedWeight config) (admission.admitted.map AdmittedBallot.envelope) j)) := by
    intro j hj
    rw [haggregates, publishedSums, List.getElem?_map, List.getElem?_range hj, Option.map_some]
  have hpacked : ∀ env ∈ admission.admitted.map AdmittedBallot.envelope, ∃ b, VBallot.ofEnvelope env = some b := by
    intro env henv
    obtain ⟨ab, hab, rfl⟩ := List.mem_map.mp henv
    obtain ⟨sb, hsb, rfl⟩ := admitted_valid hadmission hkey ab hab
    exact ofEnvelope_of_valid hsb
  have haccepted := fun aggregate : List Ciphertext =>
    @verifyAggregateOf_eq_ok _ _ _ _ _ _ S sdk config mpk hsdk hcanonical _ hpacked aggregate
  have hcancel : WeightsCancel S config mpk (admission.admitted.map AdmittedBallot.envelope) ↔
      ∀ j < config.numCandidates,
        weightedSum S (readWeight S config mpk) (admission.admitted.map AdmittedBallot.envelope) j =
          weightedSum S (countedWeight config) (admission.admitted.map AdmittedBallot.envelope) j := by
    refine forall₂_congr fun j _ => ?_
    rw [weightedSum_sub, sub_eq_zero]
  -- the dashboard accepts exactly the sums by the weights it reads, the committee publishes those
  -- by the weights it counts
  rw [hcancel]
  constructor
  · intro h
    obtain ⟨A', hA', hboth⟩ := h
    obtain rfl : A = A' := Except.ok.inj (hA.symm.trans hA')
    obtain ⟨hterms, hsums⟩ := (haccepted A.aggregates).mp ((hboth A.aggregates hlen).mpr rfl)
    refine ⟨hterms, fun j hj => ?_⟩
    exact encodeCt_inj (Option.some.inj ((hsums j hj).symm.trans (hpublished j hj)))
  · intro h
    obtain ⟨hterms, hsums⟩ := h
    refine ⟨A, hA, fun aggregate haggregate => ?_⟩
    rw [haccepted]
    constructor
    · rintro ⟨-, hsame⟩
      apply List.ext_getElem?
      intro j
      by_cases hj : j < config.numCandidates
      · rw [hsame j hj, hpublished j hj, hsums j hj]
      · rw [List.getElem?_eq_none (by omega), List.getElem?_eq_none (by omega)]
    · rintro rfl
      exact ⟨hterms, fun j hj => by rw [hsums j hj, hpublished j hj]⟩

/-! ## Weights and nonces that are doubles -/

omit [DecidableEq G₂] in
theorem length_signature {key signature : Bytes} {f : AttestedFields}
    (h : verifyAttestationSig S key f signature = true) : signature.length = schnorrBytes := by
  by_contra hlen
  have hdecode : ∃ msg, Schnorr.decode S signature = .error (.valueError msg) := ⟨_, if_pos hlen⟩
  obtain ⟨msg, hdecode⟩ := hdecode
  rw [verifyAttestationSig] at h
  split_ifs at h
  cases hkey : g1FromCompressed S.g1 key with
  | error e => simp [hkey] at h
  | ok vk => simp [hkey, hdecode] at h

/-- A valid ballot is read as it is when its weight and nonce are doubles. -/
theorem envelope_of_exact {sb : StoredBallot} (h : validateBallot S sb config mpk = .ok none)
    (hexact : Attestation.Exact sb.envelope.attestation) :
    ∃ b, VBallot.ofEnvelope sb.envelope = some b ∧ b.envelope config.electionId = some sb.envelope := by
  obtain ⟨⟨hw0, hw⟩, hn0, hn⟩ := credential_bounds h
  obtain ⟨hid, hattId, hpseudonym, hvk⟩ := binds_of_validateBallot h
  have hsig := length_signature (verifyAttestationSig_of_validateBallot h)
  obtain ⟨w, hweight⟩ := Int.eq_ofNat_of_zero_le hw0
  obtain ⟨n, hnonce⟩ := Int.eq_ofNat_of_zero_le hn0
  have hwlt : w < 2 ^ 256 := by rw [hweight] at hw; exact_mod_cast hw
  have hnlt : n < 2 ^ 256 := by rw [hnonce] at hn; exact_mod_cast hn
  obtain ⟨packed, hpacked, hread⟩ := packWrAttestation_exact hexact hweight hnonce hwlt hnlt
  refine ⟨_, by rw [VBallot.ofEnvelope, hpacked]; rfl, ?_⟩
  have hlong : ¬ (fromHex packed).length < 65 := by
    rw [hread]
    simp only [List.length_cons, List.length_append, length_beBytes]
    omega
  have hdropWeight : ((fromHex packed).drop 1).take 32 = beBytes 32 w := by
    rw [hread, List.drop_one, List.tail_cons, List.take_left' (length_beBytes 32 w)]
  have hdropNonce : ((fromHex packed).drop 33).take 32 = beBytes 32 n := by
    have hsplit : (fromHex packed).drop 33 = beBytes 32 n ++ sb.envelope.attestation.signature := by
      rw [hread]
      exact List.drop_left' (length_beBytes 32 w)
    rw [hsplit, List.take_left' (length_beBytes 32 n)]
  have hdropSig : ((fromHex packed).drop 65).take 80 = sb.envelope.attestation.signature := by
    have hsplit : (fromHex packed).drop 65 = sb.envelope.attestation.signature := by
      rw [hread, ← List.append_assoc]
      exact List.drop_left' (by rw [List.length_append, length_beBytes, length_beBytes])
    rw [hsplit]
    exact List.take_of_length_le hsig.le
  rw [VBallot.envelope]
  simp only [hlong, if_false, hdropWeight, hdropNonce, hdropSig, beNat_beBytes 32 w (by omega),
    beNat_beBytes 32 n (by omega), ← hweight, ← hnonce]
  cases henv : sb.envelope with
  | mk electionId pseudonym vk ciphertexts zkProof voterSignature attestation =>
    rw [henv] at hid hattId hpseudonym hvk
    cases attestation with
    | mk attId attPseudonym attVk weight signature scheme nonce =>
      cases scheme
      simp only at hid hattId hpseudonym hvk
      rw [hid, hattId, hpseudonym, hvk]

theorem stillValid_of_exact {sb : StoredBallot} (h : validateBallot S sb config mpk = .ok none)
    (hexact : Attestation.Exact sb.envelope.attestation) :
    stillValid S config mpk sb.envelope = some sb.envelope := by
  obtain ⟨b, hb, hread⟩ := envelope_of_exact h hexact
  rw [stillValid, hb, Option.bind_some, hread, Option.filter_some_pos (accepts_of_valid h)]

theorem hasTerms_of_exact {sb : StoredBallot} {envs : List BallotEnvelope} (hmem : sb.envelope ∈ envs)
    (h : validateBallot S sb config mpk = .ok none) (hexact : Attestation.Exact sb.envelope.attestation) :
    HasTerms S sdk config mpk envs := by
  intro hnone
  have hkept : sb.envelope ∈ kept S config mpk envs :=
    List.mem_filterMap.mpr ⟨_, hmem, stillValid_of_exact h hexact⟩
  rw [hnone] at hkept
  cases hkept

theorem readWeight_of_exact {sb : StoredBallot} (h : validateBallot S sb config mpk = .ok none)
    (hexact : Attestation.Exact sb.envelope.attestation) :
    readWeight S config mpk sb.envelope = rawWeight sb.envelope := by
  rw [readWeight, stillValid_of_exact h hexact, Option.map_some, Option.getD_some]

/-- Without scaling there is nothing to cancel where all weights and nonces are doubles. -/
theorem weightsCancel_of_unscaled (hscale : config.scale = 1) {envs : List BallotEnvelope}
    (hvalid : ∀ env ∈ envs, ∃ sb : StoredBallot, sb.envelope = env ∧ validateBallot S sb config mpk = .ok none ∧
      Attestation.Exact env.attestation) :
    WeightsCancel S config mpk envs := by
  intro j _
  rw [weightedSum, List.sum_eq_zero]
  intro P hP
  obtain ⟨env, henv, rfl⟩ := List.mem_map.mp hP
  obtain ⟨sb, rfl, hsb, hexact⟩ := hvalid env henv
  rw [readWeight_of_exact hsb hexact, rawWeight, countedWeight, hscale, scaledWeight]
  simp

end

/-! ## A ballot of weight one -/

namespace AggregateSample

def scaledConfig (scale : Nat) (h : 1 ≤ scale) : ElectionConfig :=
  { smallConfig with scale := scale, one_le_scale := h }

/-- The SDK as it is assumed to be. -/
def sdk (config : ElectionConfig) (mpk : Residue) : Sdk Residue where
  verifyBallot b := (b.envelope config.electionId).any (accepts Residue.suite config mpk)
  scalarMulCt k ct := (k • ct.1, k • ct.2)
  sumCts cts := some ((cts.map Prod.fst).sum, (cts.map Prod.snd).sum)

theorem sdk_agrees (config : ElectionConfig) (mpk : Residue) : (sdk config mpk).Agrees Residue.suite config mpk where
  verifyBallot _ _ _ := rfl
  scalarMulCt _ _ := rfl
  sumCts _ _ := rfl
  sumCts_nil _ h := (Option.some.inj h).symm

theorem canonical : Canonical Residue.suite := by
  intro b P h
  have hlen : b.length = g2Bytes := decodePoint_length h
  have hfrom : (if h : beNat b < curveOrder then some (⟨beNat b, h⟩ : Residue) else none) = some P := by
    rw [g2FromCompressed, decodePoint, if_neg (not_not.mpr hlen)] at h
    split at h
    · cases h
    · rename_i Q hQ
      cases h
      exact hQ
  have hval : P.val = beNat b := by
    split at hfrom
    · cases hfrom
      rfl
    · cases hfrom
  have hlt := beNat_lt b
  rw [hlen] at hlt
  show b = beBytes g2Bytes P.val
  rw [hval]
  exact beNat_inj (by rw [hlen, length_beBytes]) (beNat_beBytes _ _ hlt).symm

def ballots : List StoredBallot := [⟨0, sampleBallot 1, some 150⟩]

def admission : AdmissionResult := ⟨[⟨0, sampleBallot 1, 1⟩], [], 1⟩

theorem admitted (scale : Nat) (h : 1 ≤ scale) :
    admitBallots Residue.suite ballots (scaledConfig scale h) (beBytes 96 17) = .ok admission := by
  -- admission does not look at the scale
  show admitBallots Residue.suite ballots smallConfig (beBytes 96 17) = .ok admission
  decide +kernel

theorem key : g2FromCompressed Residue.suite.g2 (beBytes 96 17) = .ok (Residue.ofNat 17) := by decide +kernel

/-- The ballot is valid, and its weight and nonce are one. -/
theorem valid (scale : Nat) (h : 1 ≤ scale) : ∀ env ∈ admission.admitted.map AdmittedBallot.envelope,
    ∃ sb : StoredBallot, sb.envelope = env ∧
      validateBallot Residue.suite sb (scaledConfig scale h) (Residue.ofNat 17) = .ok none ∧
        Attestation.Exact env.attestation := by
  intro env henv
  obtain ⟨ab, hab, rfl⟩ := List.mem_map.mp henv
  obtain ⟨sb, hsb, rfl⟩ := admitted_valid (admitted scale h) key ab hab
  refine ⟨sb, rfl, hsb, ?_⟩
  obtain hone := List.mem_singleton.mp henv
  rw [hone]
  exact ⟨bigIntOf_small (by decide), bigIntOf_small (by decide)⟩

theorem hasTerms (scale : Nat) (h : 1 ≤ scale) :
    HasTerms Residue.suite (sdk (scaledConfig scale h) (Residue.ofNat 17)) (scaledConfig scale h) (Residue.ofNat 17)
      (admission.admitted.map AdmittedBallot.envelope) := fun _ => rfl

end AggregateSample

open AggregateSample in
/-- Counted in units of three, a weight of one rounds to zero: the committee publishes the
    identity, and the dashboard rejects it. -/
theorem browser_rejects_scaled_aggregate :
    admitBallots Residue.suite ballots (scaledConfig 3 (by omega)) (beBytes 96 17) = .ok admission ∧
    ∃ A, buildAggregateArtifact Residue.suite (scaledConfig 3 (by omega)) admission = .ok A ∧
      verifyAggregateOf Residue.suite (sdk (scaledConfig 3 (by omega)) (Residue.ofNat 17)) 1 A.aggregates
        (admission.admitted.map AdmittedBallot.envelope) ≠ some .ok := by
  have hadmitted := admitted 3 (by omega)
  have hagrees := sdk_agrees (scaledConfig 3 (by omega)) (Residue.ofNat 17)
  obtain ⟨A, hA, haggregates⟩ := published_of_admitted hadmitted key
  refine ⟨hadmitted, A, hA, fun haccepted => ?_⟩
  have hpacked : ∀ env ∈ admission.admitted.map AdmittedBallot.envelope, ∃ b, VBallot.ofEnvelope env = some b := by
    intro env henv
    obtain ⟨sb, rfl, hsb, -⟩ := valid 3 (by omega) env henv
    exact ofEnvelope_of_valid hsb
  obtain ⟨-, hsums⟩ := (verifyAggregateOf_eq_ok hagrees canonical hpacked).mp haccepted
  have hfirst := hsums 0 (by decide)
  -- the dashboard counts the ballot with its weight of one
  have hweight : readWeight Residue.suite (scaledConfig 3 (by omega)) (Residue.ofNat 17) (sampleBallot 1) = 1 := by
    obtain ⟨sb, hsb, hvalid, hexact⟩ := valid 3 (by omega) (sampleBallot 1) List.mem_cons_self
    rw [← hsb] at hexact ⊢
    rw [readWeight_of_exact hvalid hexact, hsb]
    rfl
  rw [haggregates, weightedSum] at hfirst
  simp only [admission, List.map_cons, List.map_nil, hweight] at hfirst
  exact absurd hfirst (by decide +kernel)

open AggregateSample in
/-- Without scaling the dashboard accepts what the committee publishes for the ballot, and
    nothing else. -/
theorem browser_agrees_unscaled :
    ∃ A, buildAggregateArtifact Residue.suite (scaledConfig 1 le_rfl) admission = .ok A ∧
      ∀ aggregate : List Ciphertext, aggregate.length = 1 →
        (verifyAggregateOf Residue.suite (sdk (scaledConfig 1 le_rfl) (Residue.ofNat 17)) 1 aggregate
          (admission.admitted.map AdmittedBallot.envelope) = some .ok ↔ aggregate = A.aggregates) :=
  (browser_agrees_iff canonical (admitted 1 le_rfl) key (sdk_agrees _ _)).mpr
    ⟨hasTerms 1 le_rfl, weightsCancel_of_unscaled rfl (valid 1 le_rfl)⟩

end Frontend
end ElGamalVoting
