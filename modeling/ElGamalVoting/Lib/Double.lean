import Mathlib.Algebra.Group.Nat.Defs
import Mathlib.Data.Nat.Log

/- IEEE 754 binary64, as far as reading a number from a text and writing its shortest text go.

   `ofNat` and `ofDecimal` round to the nearest double, ties to the even significand. `shortest` is
   the decimal of the fewest digits that rounds to a given double, the nearest of these. -/
namespace Lib.Double

/-- The quotient of two natural numbers as a natural number, ties to the even one. -/
def halfEven (n d : Nat) : Nat :=
  let q := n / d
  let r := n % d
  if 2 * r < d then q else if d < 2 * r then q + 1 else q + q % 2

theorem halfEven_one (n : Nat) : halfEven n 1 = n := by
  simp [halfEven, Nat.mod_one]

/-! Natural numbers. -/

/-- The bits of a natural number beyond the 53 of a significand. -/
def excess (n : Nat) : Nat := Nat.log2 n - 52

/-- The doubles are below two to this power. -/
def maxExponent : Nat := 1024

/-- The double nearest to a natural number, `none` for infinity. -/
def ofNat (n : Nat) : Option Nat :=
  let x := halfEven n (2 ^ excess n) * 2 ^ excess n
  if x < 2 ^ maxExponent then some x else none

/-- A natural number of at most 53 bits is a double. -/
theorem ofNat_eq_self {n : Nat} (h : n < 2 ^ 53) : ofNat n = some n := by
  have hlog : Nat.log2 n < 53 := by
    by_cases hn : n = 0
    · subst hn
      decide
    · exact (Nat.log2_lt hn).mpr h
  have hexcess : excess n = 0 := by
    rw [excess]
    omega
  have hfinite : 2 ^ 53 < 2 ^ maxExponent := Nat.pow_lt_pow_right (by decide) (by decide)
  rw [ofNat, hexcess, Nat.pow_zero, halfEven_one, Nat.mul_one, if_pos (Nat.lt_trans h hfinite)]

theorem halfEven_mul_le (n d : Nat) : halfEven n d * d ≤ n + d := by
  have hround : halfEven n d ≤ n / d + 1 := by
    simp only [halfEven]
    split_ifs <;> omega
  calc halfEven n d * d ≤ (n / d + 1) * d := Nat.mul_le_mul_right d hround
    _ = n / d * d + d := Nat.succ_mul _ _
    _ ≤ n + d := Nat.add_le_add_right (Nat.div_mul_le_self n d) d

/-- Rounding at most doubles a number, so half the range of the doubles is finite. -/
theorem exists_ofNat {n : Nat} (h : n < 2 ^ (maxExponent - 1)) : ∃ x, ofNat n = some x := by
  have hunit : 2 ^ excess n ≤ n + 1 := by
    by_cases hn : n = 0
    · subst hn
      decide
    · calc 2 ^ excess n ≤ 2 ^ Nat.log2 n := Nat.pow_le_pow_right (by decide) (Nat.sub_le _ _)
        _ ≤ n := Nat.log2_self_le hn
        _ ≤ n + 1 := Nat.le_succ n
  have hround := halfEven_mul_le n (2 ^ excess n)
  have hexponent : maxExponent - 1 + 1 = maxExponent := rfl
  have htop : 2 ^ (maxExponent - 1) * 2 = 2 ^ maxExponent := by
    rw [← pow_succ, hexponent]
  rw [ofNat]
  exact ⟨_, if_pos (by omega)⟩

/-- The first natural number that is no double. -/
example : ofNat (2 ^ 53 + 1) = some (2 ^ 53) := by decide +kernel

/-! Decimals. -/

/-- A finite double that is not negative: `significand * 2 ^ exponent`. -/
structure Finite where
  significand : Nat
  exponent : Int
  deriving DecidableEq

def Finite.numerator (x : Finite) : Nat := x.significand * 2 ^ x.exponent.toNat
def Finite.denominator (x : Finite) : Nat := 2 ^ (-x.exponent).toNat

/-- The largest `e` with `b ^ e ≤ n / d`, for a positive quotient. -/
def floorLog (b n d : Nat) : Int :=
  if d ≤ n then Nat.log b (n / d) else -(Nat.clog b ((d + n - 1) / n) : Int)

/-- The double nearest to a quotient, `none` for infinity. -/
def nearest (n d : Nat) : Option Finite :=
  if n = 0 then some ⟨0, -1074⟩
  else
    let e := max (floorLog 2 n d - 52) (-1074)
    let m := halfEven (n * 2 ^ (-e).toNat) (d * 2 ^ e.toNat)
    -- a significand that was rounded to 54 bits is a power of two
    let x : Finite := if m < 2 ^ 53 then ⟨m, e⟩ else ⟨m / 2, e + 1⟩
    if x.exponent ≤ maxExponent - 53 then some x else none

/-- The double nearest to `n * 10 ^ e`. Far from the range of the doubles nothing is computed. -/
def ofDecimal (n : Nat) (e : Int) : Option Finite :=
  let magnitude := (Nat.log 10 n : Int) + e
  if n = 0 ∨ magnitude < -330 then some ⟨0, -1074⟩
  else if 310 < magnitude then none
  else nearest (n * 10 ^ e.toNat) (10 ^ (-e).toNat)

/-- The decimal `n * 10 ^ e` of at most `count` digits that rounds to the double, the nearer of the two
    candidates. -/
def withDigits (x : Finite) (count : Nat) : Option (Nat × Int) :=
  let e := floorLog 10 x.numerator x.denominator + 1 - count
  let n := x.numerator * 10 ^ (-e).toNat
  let d := x.denominator * 10 ^ e.toNat
  let lower := n / d
  let rounds (m : Nat) : Bool := ofDecimal m e = some x
  let near := halfEven n d
  let far := if near = lower then lower + 1 else lower
  if rounds near then some (near, e) else if rounds far then some (far, e) else none

/-- The shortest decimal that rounds to a positive double: seventeen digits are enough for every one. -/
def shortest (x : Finite) : Nat × Int :=
  (((List.range 17).map (· + 1)).findSome? (withDigits x)).getD (x.numerator, 0)

example : (nearest 1 10).map shortest = some (1, -1) := by decide +kernel
example : (ofDecimal 5 (-324)).map shortest = some (5, -324) := by decide +kernel
example : ofDecimal 1 400 = none := by decide +kernel

end Lib.Double
