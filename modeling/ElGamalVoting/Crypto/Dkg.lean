import Mathlib.Data.List.Sort
import ElGamalVoting.Crypto.Points
import ElGamalVoting.Lib.Dict
import ElGamalVoting.Lib.Shamir

/- Feldman VSS distributed key generation over G2 (`crypto/dkg.py`).

   A keyper's state machine starts with round 1, so the state type is the state
   after it; the polynomial's coefficients are the draws of `random_scalar`, an
   argument. Commitments and shares are dictionaries keyed by the dealer, as
   they arrive, and the loops over dealers that add points run over the sorted
   dealers.

   Every point has a discrete logarithm, so a commitment vector stands for one
   polynomial whoever chose it (`dealtPoly`): the Feldman check pins a share to
   its value (`verifyShare_iff`), and the derived keys are the values of the sum
   of these polynomials over the dealers (`log_deriveJointMpk`,
   `log_deriveMpkShare`). -/
namespace ElGamalVoting
open Lib

structure KeyperDKGState (G₂ : Type) where
  keyperId : Int
  n : Nat
  quorum : Nat
  coefficients : Option (List Int)
  commitments : List G₂
  sharesForOthers : Dict Int Int
  combinedShare : Option Int
  publicKeyShare : Option G₂

/-- Share `φ(i)` of a polynomial: the inner loop of round 1. -/
def evalShare (coefficients : List Int) (i : Int) : Int :=
  (coefficients.foldl
    (fun (acc : Int × Int) c => ((acc.1 + c * acc.2) % curveOrder, acc.2 * i % curveOrder)) (0, 1)).1

/-- The keyper indices `1..n`. -/
def keyperIndices (n : Nat) : List Int := (List.range n).map fun i : Nat => (i : Int) + 1

theorem mem_keyperIndices {n : Nat} {i : Int} : i ∈ keyperIndices n ↔ 1 ≤ i ∧ i ≤ n := by
  simp only [keyperIndices, List.mem_map, List.mem_range]
  constructor
  · rintro ⟨k, hk, rfl⟩
    omega
  · rintro ⟨h1, h2⟩
    exact ⟨(i - 1).toNat, by omega, by omega⟩

theorem nodup_keyperIndices (n : Nat) : (keyperIndices n).Nodup :=
  (List.nodup_range).map fun a b h => by omega

@[simp] theorem length_keyperIndices (n : Nat) : (keyperIndices n).length = n := by
  simp [keyperIndices]

theorem sorted_keyperIndices (n : Nat) : (keyperIndices n).Pairwise (· ≤ ·) := by
  rw [keyperIndices, List.pairwise_map]
  exact List.pairwise_lt_range.imp fun h => by omega

/-- The entry of a list over the committee that Python's index `i - 1` reads. -/
theorem getD_map_keyperIndices {α : Type} {n : Nat} {i : Int} (hi : i ∈ keyperIndices n) (f : Int → α)
    (d : α) : ((keyperIndices n).map f).getD (i - 1).toNat d = f i := by
  have hb := mem_keyperIndices.mp hi
  have hget : (keyperIndices n)[(i - 1).toNat]? = some i := by
    rw [keyperIndices, List.getElem?_map, List.getElem?_range (by omega), Option.map_some]
    congr 1
    omega
  rw [List.getD_eq_getElem?_getD, List.getElem?_map, hget, Option.map_some, Option.getD_some]

section
variable {G₂ : Type} [AddCommGroup G₂]

/-- Adds `x^j * γ_j` over a commitment vector, the powers kept reduced. -/
def addCommitments (comms : List G₂) (x : Int) (start : G₂) : G₂ :=
  (comms.foldl (fun acc c => (acc.1 + mul c acc.2, acc.2 * x % curveOrder)) (start, (1 : Int))).1

/-- Feldman check of one dealt share. -/
def verifyShare [DecidableEq G₂] (g : PointGroup g2Bytes G₂) (commitments : List G₂)
    (recipientIndex share : Int) : Bool :=
  addCommitments commitments recipientIndex 0 = mul g.gen share

namespace KeyperDKGState

/-- Polynomial, Feldman commitments and the shares for keypers `1..n`. -/
def round1 (g : PointGroup g2Bytes G₂) (keyperId : Int) (n quorum : Nat) (randomScalar : Nat → Int) :
    KeyperDKGState G₂ :=
  let coefficients := (List.range quorum).map randomScalar
  { keyperId, n, quorum,
    coefficients := some coefficients,
    commitments := coefficients.map (mul g.gen),
    sharesForOthers := Dict.ofFn (keyperIndices n) (nodup_keyperIndices n) (evalShare coefficients),
    combinedShare := none,
    publicKeyShare := none }

/-- The dealers whose commitments are missing or of the wrong length, or whose
    share fails the Feldman check, in the order their shares arrived. -/
def roundTwoBadDealers [DecidableEq G₂] (g : PointGroup g2Bytes G₂) (st : KeyperDKGState G₂)
    (allCommitments : Dict Int (List G₂)) (receivedShares : Dict Int Int) : List Int :=
  (receivedShares.entries.filter fun e =>
    match allCommitments.get? e.1 with
    | none => true
    | some comms => comms.length ≠ st.quorum || !verifyShare g comms st.keyperId e.2).map Prod.fst

def round2 [DecidableEq G₂] (g : PointGroup g2Bytes G₂) (st : KeyperDKGState G₂)
    (allCommitments : Dict Int (List G₂)) (receivedShares : Dict Int Int) :
    Py (KeyperDKGState G₂ × Int × G₂) :=
  let bad := st.roundTwoBadDealers g allCommitments receivedShares
  if bad ≠ [] then
    .error (.badDealers s!"Keyper {st.keyperId}: Feldman VSS failed for dealers {listText bad}" bad)
  else
    let combined := receivedShares.values.sum % curveOrder
    let pk := mul g.gen combined
    .ok ({ st with combinedShare := some combined, publicKeyShare := some pk }, combined, pk)

/-- Drop the polynomial and the outbound shares; the combined share stays. -/
def zeroizeDealing (st : KeyperDKGState G₂) : KeyperDKGState G₂ :=
  { st with coefficients := none, sharesForOthers := ∅ }

def partialDecrypt (st : KeyperDKGState G₂) (C1 : G₂) : Py G₂ :=
  match st.combinedShare with
  | none => .error (.runtimeError "DKG not completed; cannot decrypt")
  | some share => .ok (mul C1 share)

end KeyperDKGState

def sortedKeys {V : Type} (d : Dict Int V) : List Int := d.keys.insertionSort (· ≤ ·)

def checkCommitmentLengths (allCommitments : Dict Int (List G₂)) (quorum : Nat) : Py Unit :=
  let bad := ((allCommitments.entries.filter fun e => e.2.length ≠ quorum).map Prod.fst).insertionSort
    (· ≤ ·)
  if bad ≠ [] then
    .error (.badDealers (s!"dealers {listText bad} published a commitment vector of the wrong length " ++
      s!"(expected {quorum} for a degree-{(quorum : Int) - 1} polynomial)") bad)
  else .ok ()

/-- Python's `all_commitments[dealer_id]`. -/
def commitmentsOf (allCommitments : Dict Int (List G₂)) (dealer : Int) : Py (List G₂) :=
  match allCommitments.get? dealer with
  | none => .error (.keyError (toString dealer))
  | some comms => .ok comms

/-- Joint master public key: the sum of the dealers' first commitments. -/
def deriveJointMpk (allCommitments : Dict Int (List G₂)) (quorum : Nat) : Py G₂ := do
  checkCommitmentLengths allCommitments quorum
  (sortedKeys allCommitments).foldlM (fun mpk dealer => do
    match (← commitmentsOf allCommitments dealer) with
    | [] => .error (.indexError "list index out of range")
    | c :: _ => .ok (mpk + c)) 0

/-- Public share of keyper `target`, published as `committee_pks[target - 1]`. -/
def deriveMpkShare (target : Int) (allCommitments : Dict Int (List G₂)) (quorum : Nat) : Py G₂ := do
  checkCommitmentLengths allCommitments quorum
  (sortedKeys allCommitments).foldlM (fun share dealer => do
    let comms ← commitmentsOf allCommitments dealer
    .ok (addCommitments comms target share)) 0

end

/-! ## What the commitments stand for -/

section
variable {G₂ : Type} [AddCommGroup G₂] (g : PointGroup g2Bytes G₂)

/-- The polynomial behind a commitment vector. -/
noncomputable def dealtPoly (comms : List G₂) : Polynomial (ZMod curveOrder) :=
  Shamir.polyOf (comms.map g.log)

/-- The polynomial the whole committee shares. -/
noncomputable def jointPoly (allCommitments : Dict Int (List G₂)) : Polynomial (ZMod curveOrder) :=
  (allCommitments.values.map (dealtPoly g)).sum

theorem degree_dealtPoly_lt (comms : List G₂) : (dealtPoly g comms).degree < comms.length := by
  simpa [dealtPoly] using Shamir.degree_polyOf_lt (comms.map g.log)

theorem log_addCommitments_aux (comms : List G₂) (x xPower : Int) (start : G₂) :
    g.log (comms.foldl (fun acc c => (acc.1 + mul c acc.2, acc.2 * x % curveOrder)) (start, xPower)).1
      = g.log start + xPower * (dealtPoly g comms).eval (x : ZMod curveOrder) := by
  induction comms generalizing start xPower with
  | nil => simp [dealtPoly, Shamir.polyOf]
  | cons c comms ih =>
    rw [List.foldl_cons, ih]
    simp only [dealtPoly, List.map_cons, Shamir.polyOf, Polynomial.eval_add, Polynomial.eval_C,
      Polynomial.eval_mul, Polynomial.eval_X, PointGroup.log_add, PointGroup.log_mul,
      PointGroup.cast_emod]
    push_cast
    ring

theorem log_addCommitments (comms : List G₂) (x : Int) (start : G₂) :
    g.log (addCommitments comms x start) =
      g.log start + (dealtPoly g comms).eval (x : ZMod curveOrder) := by
  rw [addCommitments, log_addCommitments_aux]
  simp

/-- The Feldman check passes exactly when the share is the value of the dealer's
    polynomial at the recipient's index. -/
theorem verifyShare_iff [DecidableEq G₂] (comms : List G₂) (i share : Int) :
    verifyShare g comms i share = true ↔
      (share : ZMod curveOrder) = (dealtPoly g comms).eval (i : ZMod curveOrder) := by
  rw [verifyShare, decide_eq_true_iff, ← g.log_injective.eq_iff, log_addCommitments]
  simp [eq_comm]

end

/-! ## What the checks and the loops return -/

section
variable {G₂ : Type} {allCommitments : Dict Int (List G₂)} {quorum : Nat}

theorem checkCommitmentLengths_iff :
    checkCommitmentLengths allCommitments quorum = .ok () ↔
      ∀ e ∈ allCommitments.entries, e.2.length = quorum := by
  have hnil : ((allCommitments.entries.filter fun e => e.2.length ≠ quorum).map
      Prod.fst).insertionSort (· ≤ ·) = [] ↔ ∀ e ∈ allCommitments.entries, e.2.length = quorum := by
    rw [← List.length_eq_zero_iff, List.length_insertionSort, List.length_eq_zero_iff,
      List.map_eq_nil_iff, List.filter_eq_nil_iff]
    simp
  rw [checkCommitmentLengths]
  split
  · rename_i h
    simpa using fun h' => h (hnil.mpr h')
  · rename_i h
    simpa using hnil.mp (not_not.mp h)

theorem commitmentsOf_ok {dealer : Int} {comms : List G₂}
    (h : allCommitments.get? dealer = some comms) : commitmentsOf allCommitments dealer = .ok comms := by
  rw [commitmentsOf, h]

/-- A sum over the sorted dealers is the sum over the entries as they arrived. -/
theorem sum_sortedKeys {V M : Type} [AddCommMonoid M] (d : Dict Int V) (f : Int → M) (f' : V → M)
    (h : ∀ e ∈ d.entries, f e.1 = f' e.2) :
    ((sortedKeys d).map f).sum = (d.values.map f').sum := by
  have hperm : (sortedKeys d).Perm d.keys := List.perm_insertionSort _ _
  rw [(hperm.map f).sum_eq, Dict.keys, Dict.values, List.map_map, List.map_map]
  congr 1
  exact List.map_congr_left h

theorem mem_sortedKeys {V : Type} {d : Dict Int V} {k : Int} : k ∈ sortedKeys d ↔ k ∈ d.keys :=
  (List.perm_insertionSort _ _).mem_iff

/-- A loop that adds a point for each dealer, when every step returns. -/
theorem foldlM_add_ok {step : G₂ → Int → Py G₂} {log : G₂ → ZMod curveOrder}
    {f : Int → ZMod curveOrder} {ds : List Int}
    (h : ∀ acc, ∀ d ∈ ds, ∃ P, step acc d = .ok P ∧ log P = log acc + f d) (acc : G₂) :
    ∃ P, ds.foldlM step acc = .ok P ∧ log P = log acc + (ds.map f).sum := by
  induction ds generalizing acc with
  | nil => exact ⟨acc, rfl, by simp⟩
  | cons d ds ih =>
    obtain ⟨P, hP, hlog⟩ := h acc d List.mem_cons_self
    obtain ⟨Q, hQ, hlogQ⟩ := ih (fun a e he => h a e (List.mem_cons_of_mem d he)) P
    refine ⟨Q, ?_, ?_⟩
    · rw [List.foldlM_cons, hP, ok_bind, hQ]
    · rw [hlogQ, hlog, List.map_cons, List.sum_cons, add_assoc]

variable [AddCommGroup G₂] (g : PointGroup g2Bytes G₂)

theorem eval_jointPoly (allCommitments : Dict Int (List G₂)) (x : ZMod curveOrder) :
    (jointPoly g allCommitments).eval x =
      (allCommitments.values.map fun comms => (dealtPoly g comms).eval x).sum := by
  rw [jointPoly]
  induction allCommitments.values with
  | nil => simp
  | cons c cs ih => simp [ih]

theorem degree_jointPoly_lt (hlen : ∀ e ∈ allCommitments.entries, e.2.length = quorum) :
    (jointPoly g allCommitments).degree < quorum := by
  have hv : ∀ c ∈ allCommitments.values, c.length = quorum := by
    intro c hc
    obtain ⟨e, he, rfl⟩ := List.mem_map.mp hc
    exact hlen e he
  rw [jointPoly]
  generalize allCommitments.values = vs at hv
  induction vs with
  | nil => simp
  | cons c cs ih =>
    rw [List.map_cons, List.sum_cons]
    refine lt_of_le_of_lt (Polynomial.degree_add_le _ _) (max_lt ?_ ?_)
    · simpa [hv c List.mem_cons_self] using degree_dealtPoly_lt g c
    · exact ih fun c' hc' => hv c' (List.mem_cons_of_mem c hc')

/-- The value at zero of a dealt polynomial is the first commitment. -/
theorem eval_zero_dealtPoly (c : G₂) (cs : List G₂) : (dealtPoly g (c :: cs)).eval 0 = g.log c := by
  simp [dealtPoly, Shamir.polyOf]

/-- With vectors of the right, nonzero, length the joint key is derived, and its
    logarithm is the joint polynomial's value at zero. -/
theorem deriveJointMpk_ok (hq : 0 < quorum)
    (hlen : ∀ e ∈ allCommitments.entries, e.2.length = quorum) :
    ∃ mpk, deriveJointMpk allCommitments quorum = .ok mpk ∧
      g.log mpk = (jointPoly g allCommitments).eval 0 := by
  have hstep : ∀ acc, ∀ d ∈ sortedKeys allCommitments, ∃ P,
      (do
        match (← commitmentsOf allCommitments d) with
        | [] => .error (.indexError "list index out of range")
        | c :: _ => .ok (acc + c) : Py G₂) = .ok P ∧
      g.log P = g.log acc + (dealtPoly g ((allCommitments.get? d).getD [])).eval 0 := by
    intro acc d hd
    obtain ⟨comms, hc⟩ := Dict.exists_get?_of_mem_keys (mem_sortedKeys.mp hd)
    have hl := hlen _ (Dict.get?_eq_some.mp hc)
    cases comms with
    | nil => simp only [List.length_nil] at hl; omega
    | cons c cs =>
      refine ⟨acc + c, by rw [commitmentsOf_ok hc]; rfl, ?_⟩
      rw [hc, Option.getD_some, eval_zero_dealtPoly, PointGroup.log_add]
  obtain ⟨mpk, hmpk, hlog⟩ := foldlM_add_ok hstep 0
  refine ⟨mpk, ?_, ?_⟩
  · rw [deriveJointMpk, checkCommitmentLengths_iff.mpr hlen, ok_bind, hmpk]
  · rw [hlog, g.log_zero, zero_add, eval_jointPoly]
    exact sum_sortedKeys _ _ _ fun e he => by rw [Dict.get?_eq_some.mpr he, Option.getD_some]

theorem deriveMpkShare_ok (target : Int)
    (hlen : ∀ e ∈ allCommitments.entries, e.2.length = quorum) :
    ∃ pk, deriveMpkShare target allCommitments quorum = .ok pk ∧
      g.log pk = (jointPoly g allCommitments).eval (target : ZMod curveOrder) := by
  have hstep : ∀ acc, ∀ d ∈ sortedKeys allCommitments, ∃ P,
      (do
        let comms ← commitmentsOf allCommitments d
        .ok (addCommitments comms target acc) : Py G₂) = .ok P ∧
      g.log P = g.log acc +
        (dealtPoly g ((allCommitments.get? d).getD [])).eval (target : ZMod curveOrder) := by
    intro acc d hd
    obtain ⟨comms, hc⟩ := Dict.exists_get?_of_mem_keys (mem_sortedKeys.mp hd)
    refine ⟨addCommitments comms target acc, by rw [commitmentsOf_ok hc]; rfl, ?_⟩
    rw [log_addCommitments, hc, Option.getD_some]
  obtain ⟨pk, hpk, hlog⟩ := foldlM_add_ok hstep 0
  refine ⟨pk, ?_, ?_⟩
  · rw [deriveMpkShare, checkCommitmentLengths_iff.mpr hlen, ok_bind, hpk]
  · rw [hlog, g.log_zero, zero_add, eval_jointPoly]
    exact sum_sortedKeys _ _ _ fun e he => by rw [Dict.get?_eq_some.mpr he, Option.getD_some]

/-- What a round 2 that returned has checked and computed. -/
theorem round2_eq_ok [DecidableEq G₂] {st st' : KeyperDKGState G₂} {receivedShares : Dict Int Int}
    {combined : Int} {pk : G₂}
    (h : st.round2 g allCommitments receivedShares = .ok (st', combined, pk)) :
    (∀ e ∈ receivedShares.entries, ∃ comms, allCommitments.get? e.1 = some comms ∧
      comms.length = st.quorum ∧ verifyShare g comms st.keyperId e.2 = true) ∧
    combined = receivedShares.values.sum % curveOrder ∧ pk = mul g.gen combined ∧
    st' = { st with combinedShare := some combined, publicKeyShare := some pk } := by
  rw [KeyperDKGState.round2] at h
  split at h
  · cases h
  · rename_i hbad
    simp only [Except.ok.injEq, Prod.mk.injEq] at h
    obtain ⟨rfl, rfl, rfl⟩ := h
    refine ⟨?_, rfl, rfl, rfl⟩
    intro e he
    have hnone := List.filter_eq_nil_iff.mp (List.map_eq_nil_iff.mp (not_not.mp hbad)) e he
    cases hget : allCommitments.get? e.1 with
    | none => simp [hget] at hnone
    | some comms =>
      rw [hget] at hnone
      simp only [ne_eq, decide_not, Bool.or_eq_true, Bool.not_eq_true', decide_eq_false_iff_not,
        not_or, not_not, Bool.not_eq_false] at hnone
      exact ⟨comms, rfl, hnone.1, hnone.2⟩

theorem roundTwoBadDealers_of_ok [DecidableEq G₂] {st : KeyperDKGState G₂}
    {receivedShares : Dict Int Int} {out : KeyperDKGState G₂ × Int × G₂}
    (h : st.round2 g allCommitments receivedShares = .ok out) :
    st.roundTwoBadDealers g allCommitments receivedShares = [] := by
  rw [KeyperDKGState.round2] at h
  split at h
  · cases h
  · rename_i hbad
    exact not_not.mp hbad

end
end ElGamalVoting
