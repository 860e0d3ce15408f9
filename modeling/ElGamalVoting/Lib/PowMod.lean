import Mathlib.Data.List.Prime
import Mathlib.FieldTheory.Finite.Basic
import Mathlib.NumberTheory.LucasPrimality
import Mathlib.Tactic.NormNum.Prime

/- Modular powers by repeated squaring, in a form the kernel evaluates, and the
   two uses this development has for them: inverses modulo a prime (Fermat) and
   primality from a factorization of `p - 1` (Lucas). -/
namespace Lib

/-- `a ^ n % m`, squaring over the low `bits` bits of `n`. -/
def powMod (m : Nat) : Nat → Nat → Nat → Nat
  | 0, _, _ => 1 % m
  | bits + 1, a, n =>
    if n % 2 = 1 then powMod m bits (a * a % m) (n / 2) * a % m
    else powMod m bits (a * a % m) (n / 2)

theorem powMod_eq (m bits a n : Nat) (h : n < 2 ^ bits) : powMod m bits a n = a ^ n % m := by
  induction bits generalizing a n with
  | zero =>
    have : n = 0 := by simpa using h
    subst this
    rfl
  | succ bits ih =>
    have hn : n / 2 < 2 ^ bits := by rw [pow_succ] at h; omega
    have hsq : powMod m bits (a * a % m) (n / 2) = a ^ (2 * (n / 2)) % m := by
      rw [ih _ _ hn, ← Nat.pow_mod, ← pow_two, pow_mul]
    rw [powMod, hsq]
    split
    · rename_i hodd
      rw [Nat.mod_mul_mod, ← pow_succ]
      congr 2
      omega
    · congr 2
      omega

theorem powMod_lt (m bits a n : Nat) (hm : 0 < m) (h : n < 2 ^ bits) : powMod m bits a n < m := by
  rw [powMod_eq _ _ _ _ h]
  exact Nat.mod_lt _ hm

/-- Fermat: the power `p - 2` of a number that `p` does not divide inverts it. -/
theorem mul_powMod_inv {p bits a : Nat} (hp : p.Prime) (hb : p < 2 ^ bits) (ha : ¬ p ∣ a) :
    a * powMod p bits a (p - 2) % p = 1 := by
  have h2 := hp.two_le
  rw [powMod_eq _ _ _ _ (by omega), Nat.mul_mod_mod, ← pow_succ', show p - 2 + 1 = p - 1 by omega,
    ← Nat.totient_prime hp]
  have hc : Nat.Coprime a p := ((Nat.Prime.coprime_iff_not_dvd hp).mpr ha).symm
  have h := Nat.ModEq.pow_totient hc
  rw [Nat.ModEq, Nat.mod_eq_of_lt (by omega : 1 < p)] at h
  exact h

/-- Reading a modular power in `ZMod m`. -/
theorem cast_powMod (m bits a n : Nat) (h : n < 2 ^ bits) :
    ((powMod m bits a n : Nat) : ZMod m) = (a : ZMod m) ^ n := by
  rw [powMod_eq _ _ _ _ h, ZMod.natCast_mod, Nat.cast_pow]

/-- The number with the listed prime factors, each with its exponent. -/
def factored (fs : List (Nat × Nat)) : Nat := (fs.map fun f => f.1 ^ f.2).prod

theorem prime_dvd_factored {fs : List (Nat × Nat)} (hf : ∀ f ∈ fs, f.1.Prime) {r : Nat}
    (hr : r.Prime) (h : r ∣ factored fs) : r ∈ fs.map Prod.fst := by
  induction fs with
  | nil => exact absurd (Nat.dvd_one.mp h) hr.one_lt.ne'
  | cons f fs ih =>
    rw [factored, List.map_cons, List.prod_cons, hr.dvd_mul] at h
    rcases h with h | h
    · have := (Nat.prime_dvd_prime_iff_eq hr (hf f List.mem_cons_self)).mp (hr.dvd_of_dvd_pow h)
      simp [this]
    · exact List.mem_cons_of_mem _ (ih (fun g hg => hf g (List.mem_cons_of_mem f hg)) h)

/-- Lucas's test, evaluated: `a` has order exactly `p - 1` modulo `p`, as no
    power of it by `(p - 1) / r` with `r` a prime factor is one. -/
theorem prime_of_powMod {p bits a : Nat} {fs : List (Nat × Nat)} (hf : ∀ f ∈ fs, f.1.Prime)
    (hp : 2 ≤ p ∧ p ≤ 2 ^ bits ∧ p - 1 = factored fs) (hone : powMod p bits a (p - 1) = 1)
    (hne : ∀ r ∈ fs.map Prod.fst, powMod p bits a ((p - 1) / r) ≠ 1) : p.Prime := by
  obtain ⟨h2, hbits, hprod⟩ := hp
  have : Fact (1 < p) := ⟨by omega⟩
  have hlt (n : Nat) (hn : n ≤ p - 1) : n < 2 ^ bits := by omega
  apply lucas_primality p (a : ZMod p)
  · rw [← cast_powMod p bits a _ (hlt _ le_rfl), hone, Nat.cast_one]
  · intro r hr hdvd hpow
    have hsmall := hlt _ (Nat.div_le_self (p - 1) r)
    rw [← cast_powMod p bits a _ hsmall] at hpow
    have hval := congrArg ZMod.val hpow
    rw [ZMod.val_natCast_of_lt (powMod_lt _ _ _ _ (by omega) hsmall), ZMod.val_one] at hval
    exact hne r (prime_dvd_factored hf hr (hprod ▸ hdvd)) hval

end Lib
