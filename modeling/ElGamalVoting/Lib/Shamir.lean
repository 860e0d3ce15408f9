import Mathlib.LinearAlgebra.Lagrange

/- Secret sharing over a field: a secret is the value at zero of a polynomial,
   and a share its value at a nonzero node. Lagrange coefficients are taken over
   a list of nodes, with multiplicity, as a loop over the nodes computes them.

   `interpolate_at_zero`: over distinct nodes, at least as many as the
   polynomial has coefficients, the weighted sum of the shares is the secret.
   `exists_vanishing`: over fewer distinct nodes than that, the shares at those
   nodes do not determine the secret: some sharing is zero at each of them and
   not at zero. -/
namespace Lib.Shamir
open Polynomial

variable {F : Type} [Field F]

/-- The polynomial with the given coefficients, lowest first. -/
noncomputable def polyOf : List F → F[X]
  | [] => 0
  | c :: cs => C c + X * polyOf cs

theorem degree_polyOf_lt (cs : List F) : (polyOf cs).degree < cs.length := by
  induction cs with
  | nil => simp [polyOf]
  | cons c cs ih =>
    rw [polyOf, List.length_cons]
    have hC : (C c : F[X]).degree < ((cs.length + 1 : Nat) : WithBot Nat) :=
      lt_of_le_of_lt degree_C_le (by exact_mod_cast Nat.succ_pos _)
    have hX : (X * polyOf cs).degree < ((cs.length + 1 : Nat) : WithBot Nat) := by
      rw [degree_mul, degree_X, add_comm, Nat.cast_add, Nat.cast_one]
      exact WithBot.add_lt_add_right (by decide) ih
    exact lt_of_le_of_lt (degree_add_le _ _) (max_lt hC hX)

/-- A sharing of `secret` with threshold `t`: the shares at the nodes in `nodes`
    are the values of one polynomial with at most `t` coefficients. -/
def IsSharing (t : Nat) (secret : F) (nodes : Set F) (share : F → F) : Prop :=
  ∃ p : F[X], p.degree < t ∧ p.eval 0 = secret ∧ ∀ i ∈ nodes, share i = p.eval i

variable [DecidableEq F]

/-- The Lagrange coefficient at zero of node `j` among `ids`. -/
def lagrangeAtZero (ids : List F) (j : F) : F :=
  ((ids.filter (· ≠ j)).map fun k => (0 - k) / (j - k)).prod

theorem eval_zero_basis (ids : List F) (hn : ids.Nodup) (j : F) :
    (Lagrange.basis ids.toFinset id j).eval 0 = lagrangeAtZero ids j := by
  have herase : ids.toFinset.erase j = (ids.filter (· ≠ j)).toFinset := by
    ext k
    simp [and_comm]
  rw [Lagrange.basis, herase, eval_prod, List.prod_toFinset _ (hn.filter _), lagrangeAtZero]
  congr 1
  apply List.map_congr_left
  intro k _
  simp [Lagrange.basisDivisor, div_eq_mul_inv, mul_comm]

theorem interpolate_at_zero {ids : List F} (hn : ids.Nodup) {p : F[X]}
    (hp : p.degree < ids.length) :
    (ids.map fun j => lagrangeAtZero ids j * p.eval j).sum = p.eval 0 := by
  have hcard : p.degree < ids.toFinset.card := by rwa [List.toFinset_card_of_nodup hn]
  have hinterp : p = Lagrange.interpolate ids.toFinset id fun i => p.eval i :=
    Lagrange.eq_interpolate_of_eval_eq _ (Set.injOn_id _) hcard fun i _ => rfl
  have hzero := congrArg (eval 0) hinterp
  rw [Lagrange.interpolate_apply, eval_finsetSum, List.sum_toFinset _ hn] at hzero
  rw [hzero]
  congr 1
  apply List.map_congr_left
  intro j _
  rw [eval_mul, eval_C, eval_zero_basis ids hn j, mul_comm]

/-- The weighted sum of a sharing's shares over distinct nodes, at least the
    threshold of them, is the secret. -/
theorem IsSharing.recover {t : Nat} {secret : F} {nodes : Set F} {share : F → F}
    (hs : IsSharing t secret nodes share) {ids : List F} (hn : ids.Nodup) (ht : t ≤ ids.length)
    (hmem : ∀ i ∈ ids, i ∈ nodes) :
    (ids.map fun j => lagrangeAtZero ids j * share j).sum = secret := by
  obtain ⟨p, hdeg, hzero, hshare⟩ := hs
  rw [← hzero, ← interpolate_at_zero hn (lt_of_lt_of_le hdeg (by exact_mod_cast ht))]
  congr 1
  apply List.map_congr_left
  intro j hj
  rw [hshare j (hmem j hj)]

theorem exists_vanishing {ids : List F} (hz : (0 : F) ∉ ids) {t : Nat}
    (ht : ids.toFinset.card < t) :
    ∃ p : F[X], p.degree < t ∧ (∀ i ∈ ids, p.eval i = 0) ∧ p.eval 0 ≠ 0 := by
  refine ⟨∏ i ∈ ids.toFinset, (X - C i), ?_, ?_, ?_⟩
  · rw [degree_prod]
    simp only [degree_X_sub_C, Finset.sum_const, nsmul_eq_mul, mul_one]
    exact_mod_cast ht
  · intro i hi
    rw [eval_prod]
    exact Finset.prod_eq_zero (List.mem_toFinset.mpr hi) (by simp)
  · rw [eval_prod, Finset.prod_ne_zero_iff]
    intro i hi h0
    rw [eval_sub, eval_X, eval_C, zero_sub, neg_eq_zero] at h0
    exact hz (h0 ▸ List.mem_toFinset.mp hi)

end Lib.Shamir
