import ElGamalVoting.Crypto.Transcript

/- Single-point Schnorr signatures over G1 (`crypto/schnorr.py`), used for the
   voter's ballot signature and for the eligibility credential. -/
namespace ElGamalVoting.Schnorr
open Lib

variable {G₁ G₂ : Type} [AddCommGroup G₁] [AddCommGroup G₂] [DecidableEq G₁] (S : Suite G₁ G₂)

omit [DecidableEq G₁] in
def challenge (R vk : G₁) (msg : Bytes) : Int :=
  hashToScalar S dstSchnorr [S.g1.toCompressed R, S.g1.toCompressed vk, msg]

def keygen (sk : Int) : Py (Int × G₁) :=
  let sk := sk % curveOrder
  if sk = 0 then .error (.valueError "schnorr keygen: sk must be non-zero mod CURVE_ORDER")
  else .ok (sk, mul S.g1.gen sk)

/-- `(R, s)`; the nonce is an argument. -/
def sign (sk : Int) (vk : G₁) (msg : Bytes) (k : Int) : G₁ × Int :=
  let k := k % curveOrder
  let R := mul S.g1.gen k
  let e := challenge S R vk msg
  (R, (k + e * (sk % curveOrder)) % curveOrder)

/-- `s * P1 = R + e * vk`; the identity as a key is refused. -/
def verify (vk : G₁) (msg : Bytes) (R : G₁) (s : Int) : Bool :=
  if vk = 0 then false
  else
    let e := challenge S R vk msg
    mul S.g1.gen s = R + mul vk e

def encode (R : G₁) (s : Int) : Bytes := S.g1.toCompressed R ++ scalarToBytes s

def decode (b : Bytes) : Py (G₁ × Int) :=
  if b.length ≠ schnorrBytes then
    .error (.valueError s!"Expected {schnorrBytes}-byte Schnorr signature, got {b.length}")
  else do
    let R ← g1FromCompressed S.g1 (b.take 48)
    let s ← scalarFromBytes (b.drop 48) "schnorr s"
    pure (R, s)

end ElGamalVoting.Schnorr
