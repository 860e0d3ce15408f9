import ElGamalVoting.Crypto.Recovery

/- The key a committee holds after the DKG, for dealers that may deal anything.

   `DkgComplete` is a run of the DKG in which every keyper of `1..n` completed
   round 2 on one share from each dealer. Nothing is assumed of the dealers: the
   commitments are arbitrary points and each share is whatever the dealer sent
   to that recipient. The Feldman check alone makes the combined shares a sharing
   of one secret (`DkgComplete.isSharing`), whose multiple of the generator is
   the joint key. A run of honest dealers is complete
   (`honest_dkgComplete`). -/
namespace ElGamalVoting
open Lib

section
variable {G₂ : Type} [AddCommGroup G₂] [DecidableEq G₂]

/-- Every keyper of `1..n` completed round 2 on one share from each dealer. -/
structure DkgComplete (g : PointGroup g2Bytes G₂) (n t : Nat) (allCommitments : Dict Int (List G₂))
    (st : Int → KeyperDKGState G₂) (received : Int → Dict Int Int)
    (out : Int → KeyperDKGState G₂ × Int × G₂) : Prop where
  dealers : allCommitments.keys.Perm (keyperIndices n)
  lengths : ∀ e ∈ allCommitments.entries, e.2.length = t
  parties : ∀ i ∈ keyperIndices n, (st i).keyperId = i ∧ (st i).quorum = t
  senders : ∀ i ∈ keyperIndices n, (received i).keys.Perm (keyperIndices n)
  completes : ∀ i ∈ keyperIndices n, (st i).round2 g allCommitments (received i) = .ok (out i)

variable {g : PointGroup g2Bytes G₂} {allCommitments : Dict Int (List G₂)}

/-- A share that passed its check is the value of the dealer's polynomial, so shares of
    all the dealers add up to the value of the joint polynomial. -/
theorem sum_verified {received : Dict Int Int} {keyperId : Int}
    (hshares : ∀ e ∈ received.entries, ∃ comms, allCommitments.get? e.1 = some comms ∧
      verifyShare g comms keyperId e.2 = true)
    (hperm : received.keys.Perm allCommitments.keys) :
    ((received.values.sum % curveOrder : Int) : ZMod curveOrder) =
      (jointPoly g allCommitments).eval (keyperId : ZMod curveOrder) := by
  let f : Int → ZMod curveOrder := fun d =>
    (dealtPoly g ((allCommitments.get? d).getD [])).eval (keyperId : ZMod curveOrder)
  have hvalues : (received.values.map (Int.cast : Int → ZMod curveOrder)) = received.keys.map f := by
    rw [Dict.values, Dict.keys, List.map_map, List.map_map]
    apply List.map_congr_left
    intro e he
    obtain ⟨comms, hget, hverify⟩ := hshares e he
    simp only [Function.comp_apply, f, hget, Option.getD_some]
    exact (verifyShare_iff g comms keyperId e.2).mp hverify
  have hkeys : allCommitments.keys.map f = allCommitments.values.map fun comms =>
      (dealtPoly g comms).eval (keyperId : ZMod curveOrder) := by
    rw [Dict.values, Dict.keys, List.map_map, List.map_map]
    apply List.map_congr_left
    intro e he
    simp only [Function.comp_apply, f, Dict.get?_eq_some.mpr he, Option.getD_some]
  rw [PointGroup.cast_emod, Int.cast_list_sum, hvalues, (hperm.map f).sum_eq, hkeys, eval_jointPoly]

theorem round2_combined {st st' : KeyperDKGState G₂} {received : Dict Int Int} {combined : Int}
    {pk : G₂} (h : st.round2 g allCommitments received = .ok (st', combined, pk))
    (hperm : received.keys.Perm allCommitments.keys) :
    (combined : ZMod curveOrder) = (jointPoly g allCommitments).eval (st.keyperId : ZMod curveOrder) := by
  obtain ⟨hshares, rfl, -, -⟩ := round2_eq_ok g h
  refine sum_verified (fun e he => ?_) hperm
  obtain ⟨comms, hget, -, hverify⟩ := hshares e he
  exact ⟨comms, hget, hverify⟩

namespace DkgComplete
variable {n t : Nat} {st : Int → KeyperDKGState G₂} {received : Int → Dict Int Int}
  {out : Int → KeyperDKGState G₂ × Int × G₂}

theorem combined_eq (h : DkgComplete g n t allCommitments st received out) {i : Int}
    (hi : i ∈ keyperIndices n) :
    ((out i).2.1 : ZMod curveOrder) = (jointPoly g allCommitments).eval (i : ZMod curveOrder) := by
  have hround := round2_combined (h.completes i hi) ((h.senders i hi).trans h.dealers.symm)
  rwa [(h.parties i hi).1] at hround

/-- The secret behind the joint key, as an integer. -/
noncomputable def secret (g : PointGroup g2Bytes G₂) (allCommitments : Dict Int (List G₂)) : Int :=
  ((jointPoly g allCommitments).eval 0).val

omit [DecidableEq G₂] in
theorem cast_secret (g : PointGroup g2Bytes G₂) (allCommitments : Dict Int (List G₂)) :
    (secret g allCommitments : ZMod curveOrder) = (jointPoly g allCommitments).eval 0 := by
  simp [secret]

/-- The combined shares are a sharing, of threshold `t`, of the secret. -/
theorem isSharing (h : DkgComplete g n t allCommitments st received out) :
    Shamir.IsSharing t (secret g allCommitments : ZMod curveOrder)
      {x | ∃ i ∈ keyperIndices n, x = (i : ZMod curveOrder)}
      (fun x => (jointPoly g allCommitments).eval x) :=
  ⟨jointPoly g allCommitments, degree_jointPoly_lt g h.lengths, (cast_secret g allCommitments).symm,
    fun _ _ => rfl⟩

omit [DecidableEq G₂] in
theorem eq_mul_of_log {P : G₂} {s : Int} (h : g.log P = s) : P = mul g.gen s :=
  g.log_injective (by rw [h, g.log_mul, g.log_gen, mul_one])

theorem jointMpk (h : DkgComplete g n t allCommitments st received out) (ht : 1 ≤ t) :
    deriveJointMpk allCommitments t = .ok (mul g.gen (secret g allCommitments)) := by
  obtain ⟨mpk, hmpk, hlog⟩ := deriveJointMpk_ok g ht h.lengths
  rw [hmpk, eq_mul_of_log (hlog.trans (cast_secret g allCommitments).symm)]

theorem mpkShare (h : DkgComplete g n t allCommitments st received out) {i : Int}
    (hi : i ∈ keyperIndices n) :
    deriveMpkShare i allCommitments t = .ok (mul g.gen (out i).2.1) := by
  obtain ⟨pk, hpk, hlog⟩ := deriveMpkShare_ok g i h.lengths
  rw [hpk, eq_mul_of_log (hlog.trans (h.combined_eq hi).symm)]

/-- The committee as a keyper publishes it, in the order of the indices. -/
theorem committee (h : DkgComplete g n t allCommitments st received out) :
    (sortedKeys allCommitments).mapM (fun i : Int => deriveMpkShare i allCommitments t) =
      .ok ((keyperIndices n).map fun i => mul g.gen (out i).2.1) := by
  have hsorted : sortedKeys allCommitments = keyperIndices n :=
    ((List.perm_insertionSort _ _).trans h.dealers).eq_of_pairwise' (List.pairwise_insertionSort _ _)
      (sorted_keyperIndices n)
  rw [hsorted]
  exact mapM_ok_of fun i hi => h.mpkShare hi

theorem partialDecrypt (h : DkgComplete g n t allCommitments st received out) {i : Int}
    (hi : i ∈ keyperIndices n) (C1 : G₂) :
    (out i).1.partialDecrypt C1 = .ok (mul C1 (out i).2.1) := by
  obtain ⟨-, -, -, hst⟩ := round2_eq_ok g (h.completes i hi)
  rw [KeyperDKGState.partialDecrypt, hst]

/-- The state a keyper is left with holds its share and the multiple of it. -/
theorem held (h : DkgComplete g n t allCommitments st received out) {i : Int}
    (hi : i ∈ keyperIndices n) :
    (out i).1.combinedShare = some (out i).2.1 ∧
      (out i).1.publicKeyShare = some (mul g.gen (out i).2.1) := by
  obtain ⟨-, -, hpk, hst⟩ := round2_eq_ok g (h.completes i hi)
  rw [hst, ← hpk]
  exact ⟨rfl, rfl⟩

omit [DecidableEq G₂] in
/-- Indices of a committee smaller than the order are distinct modulo it. -/
theorem separated_indices {ids : List Int} (hn : n < curveOrder)
    (hids : ∀ i ∈ ids, i ∈ keyperIndices n) : Separated ids :=
  separated_of_bounds fun i hi => by
    have := mem_keyperIndices.mp (hids i hi)
    omega

theorem combine (h : DkgComplete g n t allCommitments st received out) (hn : n < curveOrder)
    {ids : List Int} (hnodup : ids.Nodup) (hids : ∀ i ∈ ids, i ∈ keyperIndices n)
    (hlen : t ≤ ids.length) (C1 : G₂) :
    combineShares (ids.map fun i => (i, mul C1 (out i).2.1)) =
      .ok (mul C1 (secret g allCommitments)) := by
  have hfst : (ids.map fun i => (i, mul C1 (out i).2.1)).map Prod.fst = ids := by
    rw [List.map_map]
    exact List.map_id ids
  rw [g.mul_eq_zsmul C1]
  refine combineShares_recover g h.isSharing ?_ (hfst.symm ▸ hnodup) (by simpa using hlen) ?_
  · rw [hfst]
    exact separated_indices hn hids
  · intro s hs
    obtain ⟨i, hi, rfl⟩ := List.mem_map.mp hs
    exact ⟨⟨i, hids i hi, rfl⟩, by rw [g.log_mul, h.combined_eq (hids i hi)]⟩

end DkgComplete

end

/-! ## Honest dealers -/

section
variable {G₂ : Type} [AddCommGroup G₂] (g : PointGroup g2Bytes G₂) (n t : Nat)
  (coeff : Int → Nat → Int)

/-- Dealer `d` after round 1, with `coeff d` its random draws. -/
def honestDealer (d : Int) : KeyperDKGState G₂ := KeyperDKGState.round1 g d n t (coeff d)

def honestCommitments : Dict Int (List G₂) :=
  Dict.ofFn (keyperIndices n) (nodup_keyperIndices n) fun d => (honestDealer g n t coeff d).commitments

/-- The shares keyper `i` receives, one from each dealer. -/
def honestShares (i : Int) : Dict Int Int :=
  Dict.ofFn (keyperIndices n) (nodup_keyperIndices n) fun d =>
    ((honestDealer g n t coeff d).sharesForOthers.get? i).getD 0

theorem evalShare_loop (cs : List Int) (i val xPower : Int) :
    ((cs.foldl (fun (acc : Int × Int) c =>
      ((acc.1 + c * acc.2) % curveOrder, acc.2 * i % curveOrder)) (val, xPower)).1 : ZMod curveOrder)
      = val + xPower * (Shamir.polyOf (cs.map (Int.cast : Int → ZMod curveOrder))).eval
          (i : ZMod curveOrder) := by
  induction cs generalizing val xPower with
  | nil => simp [Shamir.polyOf]
  | cons c cs ih =>
    rw [List.foldl_cons, ih]
    simp only [PointGroup.cast_emod, List.map_cons, Shamir.polyOf, Polynomial.eval_add,
      Polynomial.eval_C, Polynomial.eval_mul, Polynomial.eval_X]
    push_cast
    ring

theorem dealtPoly_map_mul (cs : List Int) :
    dealtPoly g (cs.map (mul g.gen)) = Shamir.polyOf (cs.map (Int.cast : Int → ZMod curveOrder)) := by
  rw [dealtPoly, List.map_map]
  congr 2
  funext c
  simp

/-- The share round 1 deals is the value of the dealt polynomial. -/
theorem evalShare_eq (cs : List Int) (i : Int) :
    (evalShare cs i : ZMod curveOrder) =
      (dealtPoly g (cs.map (mul g.gen))).eval (i : ZMod curveOrder) := by
  rw [evalShare, evalShare_loop, dealtPoly_map_mul]
  simp

variable {t}

theorem honest_share (d : Int) {i : Int} (hi : i ∈ keyperIndices n) :
    (honestDealer g n t coeff d).sharesForOthers.get? i =
      some (evalShare ((List.range t).map (coeff d)) i) :=
  Dict.get?_ofFn (h := nodup_keyperIndices n) hi

variable (t) [DecidableEq G₂]

theorem honest_round2 {i : Int} (hi : i ∈ keyperIndices n) :
    (honestDealer g n t coeff i).round2 g (honestCommitments g n t coeff) (honestShares g n t coeff i) =
      .ok ({ honestDealer g n t coeff i with
          combinedShare := some ((honestShares g n t coeff i).values.sum % curveOrder),
          publicKeyShare := some (mul g.gen ((honestShares g n t coeff i).values.sum % curveOrder)) },
        (honestShares g n t coeff i).values.sum % curveOrder,
        mul g.gen ((honestShares g n t coeff i).values.sum % curveOrder)) := by
  rw [KeyperDKGState.round2, if_neg]
  rw [not_not, KeyperDKGState.roundTwoBadDealers, List.map_eq_nil_iff, List.filter_eq_nil_iff]
  intro e he
  obtain ⟨d, hd, rfl⟩ := List.mem_map.mp he
  have hget : (honestCommitments g n t coeff).get? d = some (honestDealer g n t coeff d).commitments :=
    Dict.get?_ofFn hd
  have hverify : verifyShare g (honestDealer g n t coeff d).commitments i
      (evalShare ((List.range t).map (coeff d)) i) = true :=
    (verifyShare_iff g _ _ _).mpr (evalShare_eq g _ i)
  have hlen : (honestDealer g n t coeff d).commitments.length = t := by
    simp [honestDealer, KeyperDKGState.round1]
  have hquorum : (honestDealer g n t coeff i).quorum = t := rfl
  have hid : (honestDealer g n t coeff i).keyperId = i := rfl
  simp [hget, honest_share g n coeff d hi, hverify, hlen, hquorum, hid]

/-- What keyper `i` holds after round 2 among honest dealers. -/
def honestOut (i : Int) : KeyperDKGState G₂ × Int × G₂ :=
  let combined := (honestShares g n t coeff i).values.sum % curveOrder
  ({ honestDealer g n t coeff i with
      combinedShare := some combined, publicKeyShare := some (mul g.gen combined) },
    combined, mul g.gen combined)

theorem honest_dkgComplete :
    DkgComplete g n t (honestCommitments g n t coeff) (honestDealer g n t coeff)
      (honestShares g n t coeff) (honestOut g n t coeff) where
  dealers := by rw [honestCommitments, Dict.keys_ofFn]
  lengths := by
    intro e he
    obtain ⟨d, -, rfl⟩ := List.mem_map.mp he
    simp [honestDealer, KeyperDKGState.round1]
  parties := fun i _ => ⟨rfl, rfl⟩
  senders := fun i _ => by rw [honestShares, Dict.keys_ofFn]
  completes := fun i hi => honest_round2 g n t coeff hi

end

/-! ## The committee's key -/

section
variable {G₂ : Type} [AddCommGroup G₂] [DecidableEq G₂] {g : PointGroup g2Bytes G₂}
  {allCommitments : Dict Int (List G₂)}

/-- Threshold key correctness: whatever the dealers committed to, a committee that
    completed round 2 shares one secret, published as the joint key and the
    keypers' public shares, and any quorum of partial decryptions combines to it. -/
theorem threshold_key_correct {n t : Nat} (ht : 1 ≤ t ∧ t ≤ n) (hn : n < curveOrder)
    {st : Int → KeyperDKGState G₂} {received : Int → Dict Int Int}
    {out : Int → KeyperDKGState G₂ × Int × G₂}
    (h : DkgComplete g n t allCommitments st received out) :
    ∃ msk : Int, deriveJointMpk allCommitments t = .ok (mul g.gen msk) ∧
      (∀ i ∈ keyperIndices n, deriveMpkShare i allCommitments t = .ok (mul g.gen (out i).2.1)) ∧
      ∀ ids : List Int, ids.Nodup → (∀ i ∈ ids, i ∈ keyperIndices n) → t ≤ ids.length → ∀ C1 : G₂,
        (∀ i ∈ ids, (out i).1.partialDecrypt C1 = .ok (mul C1 (out i).2.1)) ∧
        combineShares (ids.map fun i => (i, mul C1 (out i).2.1)) = .ok (mul C1 msk) := by
  refine ⟨DkgComplete.secret g allCommitments, h.jointMpk ht.1, fun i hi => h.mpkShare hi, ?_⟩
  intro ids hnodup hids hlen C1
  exact ⟨fun i hi => h.partialDecrypt (hids i hi) C1, h.combine hn hnodup hids hlen C1⟩

end

/-- Three keypers, any two of which decrypt, with the residues as the group. -/
theorem threshold_key_correct_three :
    let g := Residue.pointGroup g2Bytes (by decide +kernel)
    let coeff : Int → Nat → Int := fun d j => 5 * d + j
    ∃ msk : Int, deriveJointMpk (honestCommitments g 3 2 coeff) 2 = .ok (mul g.gen msk) ∧
      (∀ i ∈ keyperIndices 3, deriveMpkShare i (honestCommitments g 3 2 coeff) 2 =
        .ok (mul g.gen (honestOut g 3 2 coeff i).2.1)) ∧
      ∀ ids : List Int, ids.Nodup → (∀ i ∈ ids, i ∈ keyperIndices 3) → 2 ≤ ids.length →
        ∀ C1 : Residue,
        (∀ i ∈ ids, (honestOut g 3 2 coeff i).1.partialDecrypt C1 =
          .ok (mul C1 (honestOut g 3 2 coeff i).2.1)) ∧
        combineShares (ids.map fun i => (i, mul C1 (honestOut g 3 2 coeff i).2.1)) =
          .ok (mul C1 msk) :=
  threshold_key_correct (by decide) (by decide +kernel) (honest_dkgComplete _ 3 2 _)

end ElGamalVoting
