import ElGamalVoting.Crypto.Points

/- Linearly homomorphic exponential ElGamal in G2 (`crypto/elgamal.py`).

   A ciphertext is a pair of points. `Encrypts` is what a ciphertext means: it
   encrypts `v` under `mpk` when some randomness explains both components. The
   operations act on what is encrypted as their names say, and this does not
   depend on the randomness. -/
namespace ElGamalVoting
open Lib

section
variable {G₂ : Type} [AddCommGroup G₂]

/-- `(C1, C2)`; the randomness is an argument, as an explicit `r` is in the source. -/
def encrypt (g : PointGroup g2Bytes G₂) (mpk : G₂) (m r : Int) : G₂ × G₂ :=
  (mul g.gen r, mul mpk r + mul g.gen m)

def addCt (a b : G₂ × G₂) : G₂ × G₂ := (a.1 + b.1, a.2 + b.2)

def scalarMulCt (k : Int) (a : G₂ × G₂) : G₂ × G₂ := (mul a.1 k, mul a.2 k)

/-- The homomorphic sum of a list of ciphertexts. -/
def sumCts (cts : List (G₂ × G₂)) : G₂ × G₂ := cts.foldl addCt (0, 0)

end

section
variable {G₂ : Type} [AddCommGroup G₂] (g : PointGroup g2Bytes G₂) (mpk : G₂)

/-- Some randomness makes `ct` the encryption of `v` under `mpk`. -/
def Encrypts (v : Int) (ct : G₂ × G₂) : Prop := ∃ r : Int, ct = encrypt g mpk v r

theorem encrypts_zero : Encrypts g mpk 0 (0, 0) := by
  refine ⟨0, ?_⟩
  simp [encrypt, mul]

/-- The sum of ciphertexts encrypts the sum of the votes, under the sum of the randomness. -/
theorem sumCts_encrypt (openings : List (Int × Int)) :
    sumCts (openings.map fun vr => encrypt g mpk vr.1 vr.2) =
      encrypt g mpk (openings.map Prod.fst).sum (openings.map Prod.snd).sum := by
  have hloop : ∀ v r : Int,
      (openings.map fun vr => encrypt g mpk vr.1 vr.2).foldl addCt (encrypt g mpk v r) =
        encrypt g mpk (v + (openings.map Prod.fst).sum) (r + (openings.map Prod.snd).sum) := by
    induction openings with
    | nil =>
      intro v r
      simp
    | cons vr openings ih =>
      intro v r
      have hadd : addCt (encrypt g mpk v r) (encrypt g mpk vr.1 vr.2) =
          encrypt g mpk (v + vr.1) (r + vr.2) := by
        simp only [addCt, encrypt, g.mul_eq_zsmul, add_smul, Prod.mk.injEq, true_and]
        abel
      rw [List.map_cons, List.foldl_cons, hadd, ih, List.map_cons, List.map_cons, List.sum_cons,
        List.sum_cons, add_assoc, add_assoc]
  have hzero : ((0, 0) : G₂ × G₂) = encrypt g mpk 0 0 := by simp [encrypt, mul]
  rw [sumCts, hzero, hloop, zero_add, zero_add]

variable {g mpk}

theorem Encrypts.addCt {u v : Int} {a b : G₂ × G₂} (ha : Encrypts g mpk u a)
    (hb : Encrypts g mpk v b) : Encrypts g mpk (u + v) (addCt a b) := by
  obtain ⟨r, rfl⟩ := ha
  obtain ⟨s, rfl⟩ := hb
  refine ⟨r + s, ?_⟩
  simp only [encrypt, ElGamalVoting.addCt, g.mul_eq_zsmul, add_smul, Prod.mk.injEq, true_and]
  abel

theorem Encrypts.scalarMulCt {v : Int} {a : G₂ × G₂} (k : Int) (ha : Encrypts g mpk v a) :
    Encrypts g mpk (k * v) (scalarMulCt k a) := by
  obtain ⟨r, rfl⟩ := ha
  refine ⟨k * r, ?_⟩
  simp only [encrypt, ElGamalVoting.scalarMulCt, g.mul_eq_zsmul, mul_smul, smul_add]

/-- Decryption with the secret behind `mpk`: what is left of the second component
    is the plaintext in the exponent. -/
theorem Encrypts.sub_smul {v msk : Int} {ct : G₂ × G₂} (hct : Encrypts g mpk v ct)
    (hmpk : mpk = msk • g.gen) : ct.2 - msk • ct.1 = v • g.gen := by
  obtain ⟨r, rfl⟩ := hct
  simp only [encrypt, g.mul_eq_zsmul, hmpk]
  rw [smul_comm r msk, add_sub_cancel_left]

end
end ElGamalVoting
