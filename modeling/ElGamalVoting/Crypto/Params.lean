import ElGamalVoting.Core.Errors
import ElGamalVoting.Lib.Bytes
import ElGamalVoting.Lib.Except
import ElGamalVoting.Lib.PowMod

/- Fixed parameters of the protocol-v1 crypto suite (`crypto/params.py`): the
   BLS12-381 scalar field order, the byte sizes, the domain-separation tags and
   the integer encodings shared by the crypto modules.

   Python integers are unbounded, and `int.to_bytes` raises `OverflowError` when
   the value does not fit; `toBytes` raises in the same cases. `scalarToBytes`
   never raises: it reduces modulo the curve order first. -/
namespace ElGamalVoting
open Lib

def curveOrder : Nat :=
  52435875175126190479447740508185965837690552500527637822603658699938581184513

def g1Bytes : Nat := 48
def g2Bytes : Nat := 96
def scalarBytes : Nat := 32
def schnorrBytes : Nat := 80
def dleqBytes : Nat := 64

def dstFiatShamir : Bytes := utf8 "SHUTTER-VOTE-FS-v1"
def dstSchnorr : Bytes := utf8 "SHUTTER-VOTE-SCHNORR-v1"

def ballotMessageLabel : String := "SHUTTER-VOTE-BALLOT-v2"
def ballotProofTranscriptLabel : String := "SHUTTER-VOTE-BALLOT-PROOF-v1"
def onchainDecryptLabel : String := "SHUTTER-VOTE-DECRYPT-v1"
def attestationLabel : String := "SHUTTER-VOTE-ATTEST-v1"

def bvpVersion : UInt8 := 0x01
def variantAByte : UInt8 := 0x41
def budgetExactTag : UInt8 := 0x00

/-! The curve order is prime, by Lucas's test with base 7. -/

/-- The prime factors of `curveOrder - 1`, with their exponents. -/
def orderFactors : List (Nat × Nat) :=
  [(2, 32), (3, 1), (11, 1), (19, 1), (10177, 1), (125527, 1), (859267, 1), (906349, 2),
   (2508409, 1), (2529403, 1), (52437899, 1), (254760293, 2)]

theorem orderFactors_prime : ∀ f ∈ orderFactors, f.1.Prime := by
  simp only [orderFactors, List.forall_mem_cons]
  norm_num

theorem curveOrder_prime : curveOrder.Prime := by
  have hone : powMod curveOrder 256 7 (curveOrder - 1) = 1 := by decide +kernel
  have hsize : 2 ≤ curveOrder ∧ curveOrder ≤ 2 ^ 256 ∧ curveOrder - 1 = factored orderFactors := by
    decide +kernel
  exact prime_of_powMod orderFactors_prime hsize hone (by decide +kernel)

instance : Fact curveOrder.Prime := ⟨curveOrder_prime⟩

theorem curveOrder_lt : curveOrder < 2 ^ 256 := by decide +kernel

/-! Encoding helpers. -/

/-- Python's `int.to_bytes(w, "big")`. -/
def toBytes (n : Int) (w : Nat) : Py Bytes :=
  if n < 0 then .error (.overflowError "can't convert negative int to unsigned")
  else if n < 256 ^ w then .ok (beBytes w n.toNat)
  else .error (.overflowError "int too big to convert")

def u16be (n : Int) : Py Bytes := toBytes n 2
def u32be (n : Int) : Py Bytes := toBytes n 4

def scalarToBytes (s : Int) : Bytes := beBytes scalarBytes (s % curveOrder).toNat

def scalarFromBytes (b : Bytes) (field : String) : Py Int :=
  if b.length ≠ scalarBytes then
    .error (.valueError s!"{field}: expected {scalarBytes} bytes, got {b.length}")
  else if curveOrder ≤ beNat b then
    .error (.valueError s!"{field}: non-canonical scalar (>= CURVE_ORDER)")
  else .ok (beNat b)

def wideReduce (b : Bytes) : Int := (beNat b % curveOrder : Nat)

theorem toBytes_ok {n : Int} {w : Nat} (h0 : 0 ≤ n) (h : n < 256 ^ w) :
    toBytes n w = .ok (beBytes w n.toNat) := by
  rw [toBytes, if_neg (by omega), if_pos h]

theorem toBytes_eq_ok {n : Int} {w : Nat} {b : Bytes} (h : toBytes n w = .ok b) :
    0 ≤ n ∧ n < 256 ^ w ∧ b = beBytes w n.toNat := by
  rw [toBytes] at h
  split at h
  · cases h
  · split at h
    · cases h
      exact ⟨by omega, by assumption, rfl⟩
    · cases h

@[simp] theorem length_scalarToBytes (s : Int) : (scalarToBytes s).length = 32 := length_beBytes _ _

theorem emod_curveOrder_bounds (s : Int) : 0 ≤ s % curveOrder ∧ s % curveOrder < curveOrder :=
  ⟨Int.emod_nonneg _ (by decide), Int.emod_lt_of_pos _ (by decide)⟩

theorem toNat_emod_lt (s : Int) : (s % curveOrder).toNat < 256 ^ 32 := by
  have h := emod_curveOrder_bounds s
  have hq : curveOrder < 256 ^ 32 := by decide +kernel
  omega

/-- Two integers share a scalar encoding exactly when they are congruent. -/
theorem scalarToBytes_eq_iff (x y : Int) :
    scalarToBytes x = scalarToBytes y ↔ x % curveOrder = y % curveOrder := by
  constructor
  · intro h
    have := beBytes_inj (toNat_emod_lt x) (toNat_emod_lt y) h
    have hx := emod_curveOrder_bounds x
    have hy := emod_curveOrder_bounds y
    omega
  · intro h
    rw [scalarToBytes, scalarToBytes, h]

theorem scalarFromBytes_scalarToBytes (s : Int) (field : String) :
    scalarFromBytes (scalarToBytes s) field = .ok (s % curveOrder) := by
  have hs := emod_curveOrder_bounds s
  have hb : beNat (scalarToBytes s) = (s % curveOrder).toNat := beNat_beBytes _ _ (toNat_emod_lt s)
  have hlt : ¬ curveOrder ≤ (s % curveOrder).toNat := by omega
  rw [scalarFromBytes, hb, if_neg (by simp [scalarBytes]), if_neg hlt, Int.toNat_of_nonneg hs.1]

/-! Reading a concatenation from the left. -/

section
variable {x y r r' : Bytes}

/-- A number behind which the rest of the string stands. -/
theorem toBytes_split {n m : Int} {w : Nat} (hn : toBytes n w = .ok x) (hm : toBytes m w = .ok y)
    (h : x ++ r = y ++ r') : n = m ∧ r = r' := by
  obtain ⟨hn0, hn1, rfl⟩ := toBytes_eq_ok hn
  obtain ⟨hm0, hm1, rfl⟩ := toBytes_eq_ok hm
  obtain ⟨hnum, hrest⟩ := List.append_inj h (by rw [length_beBytes, length_beBytes])
  have hcast : ((256 : Int) ^ w) = ((256 ^ w : Nat) : Int) := by push_cast; rfl
  rw [hcast] at hn1 hm1
  have hsame := beBytes_inj (by omega) (by omega) hnum
  exact ⟨by omega, hrest⟩

/-- A string behind its length, before the rest. -/
theorem framed_split {b b' : Bytes} {w : Nat} (hx : toBytes b.length w = .ok x)
    (hy : toBytes b'.length w = .ok y) (h : x ++ (b ++ r) = y ++ (b' ++ r')) : b = b' ∧ r = r' := by
  obtain ⟨hlen, hrest⟩ := toBytes_split hx hy h
  exact List.append_inj hrest (by exact_mod_cast hlen)

theorem scalarToBytes_inj {s t : Int} (hs : 0 ≤ s ∧ s < curveOrder) (ht : 0 ≤ t ∧ t < curveOrder)
    (h : scalarToBytes s = scalarToBytes t) : s = t := by
  have hmod := (scalarToBytes_eq_iff s t).mp h
  rwa [Int.emod_eq_of_lt hs.1 hs.2, Int.emod_eq_of_lt ht.1 ht.2] at hmod

end

end ElGamalVoting
