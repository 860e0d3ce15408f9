import Mathlib.GroupTheory.OrderOfElement
import Mathlib.Tactic.LinearCombination
import ElGamalVoting.Crypto.Params

/- BLS12-381 point arithmetic and compressed codecs (`crypto/points.py`).

   The curve library itself is outside the repository. `PointGroup` is what the
   code relies on: a commutative group of order `curveOrder` with the library's
   generator, a compressed encoding of a fixed size, and a decoder that inverts
   it. `fromCompressed` is the library's decoder followed by its subgroup check;
   on bytes that are no encoding it may do anything. `Suite` adds the second
   group and keccak256, a function about which nothing is assumed here.

   `mul` reduces the scalar modulo the curve order before multiplying, as
   `_scalar` does, so it is integer scalar multiplication in any such group
   (`PointGroup.mul_eq_zsmul`). -/
namespace ElGamalVoting
open Lib

structure PointGroup (size : Nat) (G : Type) [AddCommGroup G] where
  gen : G
  toCompressed : G → Bytes
  fromCompressed : Bytes → Option G
  addOrderOf_gen : addOrderOf gen = curveOrder
  generates : ∀ P : G, ∃ k : Int, P = k • gen
  length_toCompressed : ∀ P, (toCompressed P).length = size
  from_to : ∀ P, fromCompressed (toCompressed P) = some P

structure Suite (G₁ G₂ : Type) [AddCommGroup G₁] [AddCommGroup G₂] where
  g1 : PointGroup g1Bytes G₁
  g2 : PointGroup g2Bytes G₂
  keccak : Bytes → Bytes

section Arithmetic
variable {size : Nat} {G : Type} [AddCommGroup G]

/-- Scalar multiplication `scalar * P`. -/
def mul (P : G) (scalar : Int) : G := (scalar % curveOrder) • P

/-- The checks of `g1_from_compressed` and `g2_from_compressed`, which differ in
    the group, the size and the name in their messages. -/
def decodePoint (g : PointGroup size G) (name : String) (b : Bytes) : Py G :=
  if b.length ≠ size then
    .error (.valueError s!"Expected {size}-byte {name} compressed point, got {b.length}")
  else match g.fromCompressed b with
    | none => .error (.valueError s!"Invalid {name} compressed encoding")
    | some P => .ok P

def g1FromCompressed (g : PointGroup g1Bytes G) (b : Bytes) : Py G := decodePoint g "G1" b
def g2FromCompressed (g : PointGroup g2Bytes G) (b : Bytes) : Py G := decodePoint g "G2" b

theorem decodePoint_length {g : PointGroup size G} {name : String} {b : Bytes} {P : G}
    (h : decodePoint g name b = .ok P) : b.length = size := by
  by_contra hl
  rw [decodePoint, if_pos hl] at h
  cases h

namespace PointGroup
variable (g : PointGroup size G)

theorem decodePoint_toCompressed (name : String) (P : G) :
    decodePoint g name (g.toCompressed P) = .ok P := by
  simp [decodePoint, g.length_toCompressed, g.from_to]

theorem toCompressed_inj {P Q : G} (h : g.toCompressed P = g.toCompressed Q) : P = Q := by
  have := congrArg g.fromCompressed h
  rwa [g.from_to, g.from_to, Option.some.injEq] at this

include g in
theorem order_zsmul (P : G) : (curveOrder : Int) • P = 0 := by
  obtain ⟨k, rfl⟩ := g.generates P
  have h : (curveOrder : Int) • g.gen = 0 := by
    rw [natCast_zsmul, ← g.addOrderOf_gen]
    exact addOrderOf_nsmul_eq_zero g.gen
  rw [smul_comm, h, smul_zero]

include g in
/-- Congruent scalars multiply a point to the same point. -/
theorem zsmul_congr {a b : Int} (h : (a : ZMod curveOrder) = b) (P : G) : a • P = b • P := by
  rw [ZMod.intCast_eq_intCast_iff_dvd_sub] at h
  obtain ⟨c, hc⟩ := h
  have hb : b = a + c * curveOrder := by rw [mul_comm]; omega
  rw [hb, add_smul, mul_smul, g.order_zsmul, smul_zero, add_zero]

theorem cast_emod (s : Int) : ((s % curveOrder : Int) : ZMod curveOrder) = s :=
  ZMod.intCast_mod s curveOrder

include g in
theorem mul_eq_zsmul (P : G) (s : Int) : mul P s = s • P := g.zsmul_congr (cast_emod s) P

/-- Multiples of the generator are equal exactly for congruent scalars. -/
theorem gen_zsmul_inj {a b : Int} : a • g.gen = b • g.gen ↔ (a : ZMod curveOrder) = b := by
  refine ⟨fun h => ?_, fun h => g.zsmul_congr h g.gen⟩
  have hmod := zsmul_eq_zsmul_iff_modEq.mp h
  rwa [g.addOrderOf_gen, ← ZMod.intCast_eq_intCast_iff] at hmod

/-! Points as their discrete logarithms: an equation between points holds
    exactly when it holds between the logarithms, in the scalar field. -/

theorem exists_log (P : G) : ∃ x : ZMod curveOrder, P = (x.val : Int) • g.gen := by
  obtain ⟨k, hk⟩ := g.generates P
  refine ⟨(k : ZMod curveOrder), ?_⟩
  rw [hk, g.gen_zsmul_inj]
  simp

noncomputable def log (P : G) : ZMod curveOrder := (g.exists_log P).choose

theorem log_spec (P : G) : P = ((g.log P).val : Int) • g.gen := (g.exists_log P).choose_spec

theorem log_zsmul_gen (k : Int) : g.log (k • g.gen) = k := by
  have h := g.gen_zsmul_inj.mp (g.log_spec (k • g.gen))
  simpa using h.symm

theorem log_injective : Function.Injective g.log := by
  intro P Q h
  rw [g.log_spec P, g.log_spec Q, h]

@[simp] theorem log_gen : g.log g.gen = 1 := by simpa using g.log_zsmul_gen 1

@[simp] theorem log_zero : g.log 0 = 0 := by simpa using g.log_zsmul_gen 0

@[simp] theorem log_add (P Q : G) : g.log (P + Q) = g.log P + g.log Q := by
  have h := g.log_zsmul_gen ((g.log P).val + (g.log Q).val)
  rw [add_smul, ← g.log_spec P, ← g.log_spec Q] at h
  simpa using h

@[simp] theorem log_neg (P : G) : g.log (-P) = -g.log P := by
  have h := g.log_add P (-P)
  rw [add_neg_cancel, log_zero] at h
  linear_combination -h

@[simp] theorem log_zsmul (k : Int) (P : G) : g.log (k • P) = k * g.log P := by
  have h := g.log_zsmul_gen (k * (g.log P).val)
  rw [mul_smul, ← g.log_spec P] at h
  simpa using h

@[simp] theorem log_mul (P : G) (k : Int) : g.log (mul P k) = k * g.log P := by
  rw [g.mul_eq_zsmul, log_zsmul]

end PointGroup
end Arithmetic

/-! The assumptions are satisfied by the integers modulo the curve order, with
    their fixed-width big-endian encoding. -/

/-- A residue modulo the curve order. -/
structure Residue where
  val : Nat
  lt : val < curveOrder
  deriving DecidableEq

namespace Residue

def ofNat (n : Nat) : Residue := ⟨n % curveOrder, Nat.mod_lt _ (by decide)⟩

instance : Zero Residue := ⟨ofNat 0⟩
instance : Add Residue := ⟨fun a b => ofNat (a.val + b.val)⟩
instance : Neg Residue := ⟨fun a => ofNat (curveOrder - a.val)⟩
instance : Sub Residue := ⟨fun a b => ofNat (a.val + (curveOrder - b.val))⟩
instance : SMul Nat Residue := ⟨fun n a => ofNat (n * a.val)⟩
instance : SMul Int Residue := ⟨fun n a => ofNat ((n % curveOrder).toNat * a.val)⟩

def toZMod (a : Residue) : ZMod curveOrder := (a.val : ZMod curveOrder)

@[simp] theorem toZMod_ofNat (n : Nat) : (ofNat n).toZMod = (n : ZMod curveOrder) := by
  simp [toZMod, ofNat]

theorem toZMod_injective : Function.Injective toZMod := by
  rintro ⟨a, ha⟩ ⟨b, hb⟩ h
  have := congrArg ZMod.val h
  simp only [toZMod, ZMod.val_natCast_of_lt ha, ZMod.val_natCast_of_lt hb] at this
  subst this
  rfl

theorem cast_sub_val (a : Residue) : ((curveOrder - a.val : Nat) : ZMod curveOrder) = -a.toZMod := by
  rw [Nat.cast_sub a.lt.le, ZMod.natCast_self, zero_sub]
  rfl

theorem toZMod_neg (a : Residue) : (-a).toZMod = -a.toZMod :=
  (toZMod_ofNat _).trans (cast_sub_val a)

theorem toZMod_sub (a b : Residue) : (a - b).toZMod = a.toZMod - b.toZMod := by
  have h : (a - b).toZMod = ((a.val + (curveOrder - b.val) : Nat) : ZMod curveOrder) := toZMod_ofNat _
  rw [h, Nat.cast_add, cast_sub_val, sub_eq_add_neg]
  rfl

theorem toZMod_zsmul (a : Residue) (n : Int) : (n • a).toZMod = n • a.toZMod := by
  have h : (n • a).toZMod = (((n % curveOrder).toNat * a.val : Nat) : ZMod curveOrder) := toZMod_ofNat _
  have hn : (((n % curveOrder).toNat : Int) : ZMod curveOrder) = n := by
    rw [Int.toNat_of_nonneg (emod_curveOrder_bounds n).1, PointGroup.cast_emod]
  rw [h, Nat.cast_mul, ← Int.cast_natCast, hn, zsmul_eq_mul]
  rfl

instance : AddCommGroup Residue :=
  toZMod_injective.addCommGroup toZMod (by exact toZMod_ofNat 0 |>.trans Nat.cast_zero)
    (fun a b => (toZMod_ofNat _).trans (Nat.cast_add _ _)) toZMod_neg toZMod_sub
    (fun a n => (toZMod_ofNat _).trans (by rw [Nat.cast_mul, nsmul_eq_mul]; rfl)) toZMod_zsmul

theorem zsmul_one_eq (k : Nat) : ((k : Int) • ofNat 1) = ofNat k := by
  apply toZMod_injective
  rw [toZMod_zsmul, toZMod_ofNat, toZMod_ofNat]
  simp

/-- The residues as a point group, for an encoding wide enough to hold them. -/
def pointGroup (size : Nat) (hsize : curveOrder ≤ 256 ^ size) : PointGroup size Residue where
  gen := ofNat 1
  toCompressed P := beBytes size P.val
  fromCompressed b := if h : beNat b < curveOrder then some ⟨beNat b, h⟩ else none
  addOrderOf_gen := by
    have h := addOrderOf_injective
      (⟨⟨toZMod, toZMod_ofNat 0 |>.trans Nat.cast_zero⟩,
        fun a b => (toZMod_ofNat _).trans (Nat.cast_add _ _)⟩ : Residue →+ ZMod curveOrder)
      toZMod_injective (ofNat 1)
    rw [← h]
    show addOrderOf (ofNat 1).toZMod = curveOrder
    rw [toZMod_ofNat, Nat.cast_one, ZMod.addOrderOf_one]
  generates P := ⟨P.val, by
    rw [zsmul_one_eq]
    apply toZMod_injective
    rw [toZMod_ofNat]
    rfl⟩
  length_toCompressed P := length_beBytes _ _
  from_to P := by
    have h := beNat_beBytes size P.val (lt_of_lt_of_le P.lt hsize)
    simp [h, P.lt]

theorem curveOrder_le_g1 : curveOrder ≤ 256 ^ g1Bytes := by decide +kernel

theorem curveOrder_le_g2 : curveOrder ≤ 256 ^ g2Bytes := by decide +kernel

/-- A suite over the residues, with a reduction modulo a prime as its hash. -/
def suite : Suite Residue Residue where
  g1 := pointGroup g1Bytes curveOrder_le_g1
  g2 := pointGroup g2Bytes curveOrder_le_g2
  keccak b := beBytes 32 (beNat b % (2 ^ 255 - 19))

end Residue
end ElGamalVoting
