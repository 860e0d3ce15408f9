import ElGamalVoting.Core.DecryptionShares

/- What `deriveTaus` makes of an arbitrary list of share envelopes.

   A `ShareInput` is a list handed to the recovery for an aggregate with
   decodable ciphertexts, under a committee of decodable keys, together with the
   sharing behind the committee: every share of the list that passes its check is
   the keyper's share times `C1`. The list itself is arbitrary.

   The loop counts and slices the accepted envelopes without looking at their
   indices, so whether the slice determines the secret depends on the order of the
   accepted indices alone, the `pattern` of the input. A slice with a repeated index
   has fewer nodes than the threshold, and some sharing vanishes at all of them
   and not at zero (`Shamir.exists_vanishing`): the recovered point is then wrong. -/
namespace ElGamalVoting
open Lib

/-- `mskShare 1 .. mskShare n` are a sharing of `msk` with threshold `t`. -/
def SharesSecret (t n : Nat) (msk : Int) (mskShare : Int → Int) : Prop :=
  ∃ p : Polynomial (ZMod curveOrder), p.degree < t ∧ p.eval 0 = msk ∧
    ∀ i ∈ keyperIndices n, (mskShare i : ZMod curveOrder) = p.eval (i : ZMod curveOrder)

/-- No candidate's first `quorum` accepted indices repeat, or some candidate has
    too few of them. -/
def PatternOk (quorum : Nat) (pattern : List (List Int)) : Prop :=
  (∀ l ∈ pattern, quorum ≤ l.length) → ∀ l ∈ pattern, (l.take quorum).Nodup

section
variable {G₁ G₂ : Type} [AddCommGroup G₁] [AddCommGroup G₂]

/-- Over distinct indices the accepted shares combine to the secret's multiple of `C1`. -/
theorem combine_accepted {S : Suite G₁ G₂} {electionId : Bytes} {committeePks : List Bytes}
    {quorum : Nat} {shares : List DecryptionShareEnvelope} {msk : Int} {mskShare : Int → Int}
    (hsharing : SharesSecret quorum committeePks.length msk mskShare) {p : (G₂ × G₂) × Nat}
    (hsound : ∀ share ∈ shares, ∀ s, acceptedShare S electionId committeePks p.2 p.1 share = some s →
      s.2 = mskShare s.1 • p.1.1)
    (hlen : quorum ≤ (acceptedShares S electionId committeePks p.2 p.1 shares).length)
    (hnodup : (((acceptedShares S electionId committeePks p.2 p.1 shares).map Prod.fst).take
      quorum).Nodup) :
    combineShares ((acceptedShares S electionId committeePks p.2 p.1 shares).take quorum) =
      .ok (msk • p.1.1) := by
  obtain ⟨poly, hdeg, hzero, heval⟩ := hsharing
  have hs : Shamir.IsSharing quorum (msk : ZMod curveOrder) Set.univ fun x => poly.eval x :=
    ⟨poly, hdeg, hzero, fun _ _ => rfl⟩
  refine combineShares_recover S.g2 hs (separated_acceptedShares quorum) (by rwa [List.map_take])
    (by simp [hlen]) ?_
  intro s hs
  have hmem := List.mem_of_mem_take hs
  obtain ⟨share, hshare, hacc⟩ := mem_acceptedShares.mp hmem
  rw [hsound share hshare s hacc, S.g2.log_zsmul, heval s.1 (acceptedShares_bounds hmem).1]
  exact ⟨trivial, rfl⟩

/-- A completed loop over distinct indices leaves the plaintexts in the exponent. -/
theorem taus_eq {S : Suite G₁ G₂} {electionId : Bytes} {committeePks : List Bytes} {quorum : Nat}
    {shares : List DecryptionShareEnvelope} {msk : Int} {mskShare : Int → Int}
    {points : List (G₂ × G₂)} {steps : List (G₂ × List Int)}
    (hsteps : List.Forall₂ (IsTau S electionId committeePks shares quorum) points.zipIdx steps)
    (hsharing : SharesSecret quorum committeePks.length msk mskShare)
    (hsound : ∀ p ∈ points.zipIdx, ∀ share ∈ shares, ∀ s,
      acceptedShare S electionId committeePks p.2 p.1 share = some s → s.2 = mskShare s.1 • p.1.1)
    (hnodup : ∀ p ∈ points.zipIdx,
      (((acceptedShares S electionId committeePks p.2 p.1 shares).map Prod.fst).take quorum).Nodup) :
    steps.map Prod.fst = points.map fun C => C.2 - msk • C.1 := by
  rw [← List.zipIdx_map_fst 0 points, List.map_map]
  refine map_eq_of_forall₂ hsteps fun p hp tau htau => ?_
  obtain ⟨valid, sigma, hvalid, hlen, hsigma, rfl⟩ := htau
  rw [validShares_eq_ok hvalid] at hlen hsigma
  have hcombine := combine_accepted hsharing (hsound p hp) hlen (hnodup p hp)
  rw [hsigma, Except.ok.injEq] at hcombine
  rw [hcombine, ← sub_eq_add_neg]
  rfl

structure ShareInput (S : Suite G₁ G₂) where
  config : ElectionConfig
  aggregate : AggregateArtifact
  points : List (G₂ × G₂)
  committeePks : List Bytes
  quorum : Nat
  shares : List DecryptionShareEnvelope
  msk : Int
  mskShare : Int → Int
  decodes : aggregate.aggregates.mapM (fun ct => decodeCiphertext S (ct.c1, ct.c2)) = .ok points
  keys_decode : ∀ pk ∈ committeePks, Returns (g2FromCompressed S.g2 pk)
  length_committeePks : committeePks.length < 2 ^ 16
  one_le_quorum : 1 ≤ quorum
  sharing : SharesSecret quorum committeePks.length msk mskShare
  sound : ∀ p ∈ points.zipIdx, ∀ share ∈ shares, ∀ s,
    acceptedShare S config.electionId committeePks p.2 p.1 share = some s →
      s.2 = mskShare s.1 • p.1.1

namespace ShareInput
variable {S : Suite G₁ G₂} (I : ShareInput S)

/-- The shares that count at a candidate, in the order of the list. -/
def accepted (p : (G₂ × G₂) × Nat) : List (Int × G₂) :=
  acceptedShares S I.config.electionId I.committeePks p.2 p.1 I.shares

/-- The keyper indices that count at each candidate, in the order of the list. -/
def pattern : List (List Int) := I.points.zipIdx.map fun p => (I.accepted p).map Prod.fst

def run : Py (Option (List G₂ × List Int)) :=
  deriveTaus S I.config I.aggregate I.shares I.committeePks I.quorum

/-- What recovery owes its callers on this input: a right answer when it gives one,
    and an answer when enough different keypers' envelopes count. -/
def Robust : Prop :=
  (∀ taus used, I.run = .ok (some (taus, used)) →
    taus = I.points.map fun C => C.2 - I.msk • C.1) ∧
  ((∀ l ∈ I.pattern, I.quorum ≤ l.toFinset.card) → ∃ r, I.run = .ok (some r))

/-! ## The loop on an input -/

theorem run_eq_some {taus : List G₂} {used : List Int} (h : I.run = .ok (some (taus, used))) :
    ∃ steps : List (G₂ × List Int), taus = steps.map Prod.fst ∧
      List.Forall₂ (IsTau S I.config.electionId I.committeePks I.shares I.quorum)
        I.points.zipIdx steps :=
  deriveTaus_eq_some I.decodes h

theorem run_of_steps {steps : List (G₂ × List Int)}
    (h : List.Forall₂ (IsTau S I.config.electionId I.committeePks I.shares I.quorum)
      I.points.zipIdx steps) :
    I.run = .ok (some (steps.map Prod.fst, (steps.head?.map Prod.snd).getD [])) := by
  rw [run, deriveTaus, (deriveTausFrom_eq_some I.decodes).mpr h]
  rfl

/-- Interpolating the first `quorum` accepted shares always returns: indices of a
    committee are distinct modulo the order unless they are equal. -/
theorem combine_returns (p : (G₂ × G₂) × Nat) :
    ∃ sigma, combineShares ((I.accepted p).take I.quorum) = .ok sigma ∧
      S.g2.log sigma = (((I.accepted p).take I.quorum).map fun s =>
        Shamir.lagrangeAtZero ((((I.accepted p).take I.quorum).map Prod.fst).map
          (Int.cast : Int → ZMod curveOrder)) s.1 * S.g2.log s.2).sum := by
  exact combineShares_ok S.g2 (separated_acceptedShares I.quorum)

/-- Enough accepted envelopes at every candidate, from whomever, make it return. -/
theorem run_returns (h : ∀ p ∈ I.points.zipIdx, I.quorum ≤ (I.accepted p).length) :
    ∃ r, I.run = .ok (some r) := by
  have hstep : ∀ p ∈ I.points.zipIdx, ∃ tau,
      IsTau S I.config.electionId I.committeePks I.shares I.quorum p tau := by
    intro p hp
    have hlen := h p hp
    obtain ⟨s, hs⟩ := List.exists_mem_of_length_pos (lt_of_lt_of_le I.one_le_quorum hlen)
    obtain ⟨share, -, hshare⟩ := mem_acceptedShares.mp hs
    obtain ⟨-, -, -, -, he, hj⟩ := checkEntry_eq_some (acceptedShare_eq_some.mp hshare)
    obtain ⟨sigma, hsigma, -⟩ := I.combine_returns p
    exact ⟨_, I.accepted p, sigma, validShares_ok he hj I.length_committeePks, hlen, hsigma, rfl⟩
  choose! f hf using hstep
  exact ⟨_, I.run_of_steps (List.forall₂_map_right_iff.mpr (List.forall₂_same.mpr hf))⟩

theorem mem_pattern {p : (G₂ × G₂) × Nat} (hp : p ∈ I.points.zipIdx) :
    (I.accepted p).map Prod.fst ∈ I.pattern :=
  List.mem_map.mpr ⟨p, hp, rfl⟩

theorem robust_of_pattern (h : PatternOk I.quorum I.pattern) : I.Robust := by
  constructor
  · intro taus used hrun
    obtain ⟨steps, rfl, hsteps⟩ := I.run_eq_some hrun
    have hlen : ∀ p ∈ I.points.zipIdx, I.quorum ≤ (I.accepted p).length := by
      intro p hp
      obtain ⟨tau, -, valid, sigma, hvalid, hlen, -⟩ := forall₂_exists_right hsteps hp
      rwa [validShares_eq_ok hvalid] at hlen
    have hnodup : ∀ l ∈ I.pattern, (l.take I.quorum).Nodup := by
      apply h
      intro l hl
      obtain ⟨p, hp, rfl⟩ := List.mem_map.mp hl
      rw [List.length_map]
      exact hlen p hp
    exact taus_eq hsteps I.sharing I.sound fun p hp => hnodup _ (I.mem_pattern hp)
  · intro hcard
    refine I.run_returns fun p hp => ?_
    have hl := hcard _ (I.mem_pattern hp)
    have := List.toFinset_card_le ((I.accepted p).map Prod.fst)
    rw [List.length_map] at this
    omega

/-- On a robust input with enough accepted shares, the interpolation at every
    candidate is the secret's multiple of `C1`. -/
theorem Robust.combine (h : I.Robust)
    (hlen : ∀ p ∈ I.points.zipIdx, I.quorum ≤ (I.accepted p).length) {p : (G₂ × G₂) × Nat}
    (hp : p ∈ I.points.zipIdx) :
    combineShares ((I.accepted p).take I.quorum) = .ok (I.msk • p.1.1) := by
  obtain ⟨⟨taus, used⟩, hrun⟩ := I.run_returns hlen
  have htaus := h.1 taus used hrun
  obtain ⟨steps, rfl, hsteps⟩ := I.run_eq_some hrun
  rw [← List.zipIdx_map_fst 0 I.points, List.map_map] at htaus
  obtain ⟨tau, ⟨valid, sigma, hvalid, -, hsigma, rfl⟩, heq⟩ := exists_right_of_map_eq hsteps htaus hp
  rw [validShares_eq_ok hvalid] at hsigma
  rw [accepted, hsigma]
  congr 1
  rw [Function.comp_apply, ← sub_eq_add_neg, sub_right_inj] at heq
  exact heq

end ShareInput

/-! ## Every order of accepted indices occurs, under any sharing -/

section Realise
variable (S : Suite G₁ G₂) (n quorum : Nat) (poly : Polynomial (ZMod curveOrder))
  (pattern : List (List Int))

/-- Keyper `i`'s share of the secret `poly(0)`. -/
noncomputable def polyShare (i : Int) : Int := (poly.eval (i : ZMod curveOrder)).val

theorem cast_polyShare (i : Int) :
    (polyShare poly i : ZMod curveOrder) = poly.eval (i : ZMod curveOrder) := by
  simp [polyShare]

/-- A keyper that completed the DKG with that share. -/
noncomputable def polyKeyper (i : Int) : KeyperDKGState G₂ where
  keyperId := i
  n := n
  quorum := quorum
  coefficients := none
  commitments := []
  sharesForOthers := ∅
  combinedShare := some (polyShare poly i)
  publicKeyShare := some (mul S.g2.gen (polyShare poly i))

noncomputable def polyCommittee : List Bytes :=
  (keyperIndices n).map fun i => S.g2.toCompressed (mul S.g2.gen (polyShare poly i))

/-- The ciphertext of every candidate: the generator, and the identity. -/
def unitCiphertext : Ciphertext := ⟨S.g2.toCompressed S.g2.gen, S.g2.toCompressed 0⟩

/-- An entry that does not decode. -/
def junkEntry : DecryptionShareEntry := ⟨[], []⟩

/-- An envelope of keyper `i` that counts at candidate `j` only. -/
noncomputable def envelopeAt (j : Nat) (i : Int) : DecryptionShareEnvelope where
  electionId := smallConfig.electionId
  keyperIndex := i
  entries := List.replicate j junkEntry ++
    [(decryptEntry S (polyKeyper S n quorum poly i) i smallConfig.electionId j (unitCiphertext S)
      0).toOption.getD junkEntry]

noncomputable def envelopesOf : List DecryptionShareEnvelope :=
  pattern.zipIdx.flatMap fun l => l.1.map (envelopeAt S n quorum poly l.2)

variable {S n quorum poly pattern}

theorem decode_unitCiphertext :
    decodeCiphertext S ((unitCiphertext S).c1, (unitCiphertext S).c2) = .ok (S.g2.gen, 0) := by
  simp only [decodeCiphertext, unitCiphertext, g2FromCompressed, S.g2.decodePoint_toCompressed,
    ok_bind, pure_eq_ok]

theorem polyCommittee_get {i : Int} (hi : i ∈ keyperIndices n) :
    (polyCommittee S n poly).getD (i - 1).toNat [] =
      S.g2.toCompressed (mul S.g2.gen (polyShare poly i)) :=
  getD_map_keyperIndices hi _ []

theorem decodeEntry_junkEntry (pk : Bytes) : ∃ e, decodeEntry S junkEntry pk = .error e := by
  cases h : decodeEntry S junkEntry pk with
  | error e => exact ⟨e, rfl⟩
  | ok r =>
    obtain ⟨sigma, hsigma, -⟩ := bind_eq_ok.mp h
    exact absurd (decodePoint_length hsigma) (by decide)

theorem checkEntry_envelopeAt_ne {committeePks : List Bytes} {j k : Nat} (hjk : j ≠ k) (C : G₂ × G₂)
    (i : Int) :
    checkEntry S smallConfig.electionId committeePks j C.1 C.2 (envelopeAt S n quorum poly k i) =
      .ok none := by
  unfold checkEntry
  by_cases hlt : j < k
  · have hjunk : (envelopeAt S n quorum poly k i).entries[j]? = some junkEntry := by
      rw [envelopeAt, List.getElem?_append_left (by simpa using hlt), List.getElem?_replicate,
        if_pos hlt]
    rw [hjunk]
    obtain ⟨e, he⟩ := decodeEntry_junkEntry (S := S)
      (committeePks.getD ((envelopeAt S n quorum poly k i).keyperIndex - 1).toNat [])
    simp only [he, ite_self]
  · have hnone : (envelopeAt S n quorum poly k i).entries[j]? = none := by
      rw [List.getElem?_eq_none_iff, envelopeAt, List.length_append, List.length_replicate,
        List.length_singleton]
      omega
    rw [hnone]

theorem checkEntry_envelopeAt_self {j : Nat} (hj : j < 2 ^ 16) (hn : n < 2 ^ 16) {i : Int}
    (hi : i ∈ keyperIndices n) :
    checkEntry S smallConfig.electionId (polyCommittee S n poly) j S.g2.gen 0
      (envelopeAt S n quorum poly j i) = .ok (some (i, mul S.g2.gen (polyShare poly i))) := by
  have hlen : (polyCommittee S n poly).length = n := by simp [polyCommittee]
  have hb := mem_keyperIndices.mp hi
  have hshare : (polyKeyper S n quorum poly i).combinedShare = some (polyShare poly i) := rfl
  have hbounds : 1 ≤ i ∧ i ≤ (polyCommittee S n poly).length := by omega
  have hkey : g2FromCompressed S.g2 ((polyCommittee S n poly).getD (i - 1).toNat []) =
      .ok (mul S.g2.gen (polyShare poly i)) := by
    rw [polyCommittee_get hi]
    exact S.g2.decodePoint_toCompressed _ _
  obtain ⟨entry, hentry, hcheck⟩ := checkEntry_decryptEntry (w := 0) hshare rfl
    decode_unitCiphertext (by decide : smallConfig.electionId.length = 32) hj (by omega) hbounds hkey
  refine hcheck _ rfl ?_
  rw [envelopeAt, hentry, List.getElem?_append_right (by simp)]
  simp [Except.toOption]

theorem acceptedShares_map_envelopeAt {j k : Nat} (hj : j < 2 ^ 16) (hn : n < 2 ^ 16) {l : List Int}
    (hl : ∀ i ∈ l, i ∈ keyperIndices n) :
    acceptedShares S smallConfig.electionId (polyCommittee S n poly) j (S.g2.gen, 0)
      (l.map (envelopeAt S n quorum poly k)) =
      if k = j then l.map fun i => (i, mul S.g2.gen (polyShare poly i)) else [] := by
  rw [acceptedShares, List.filterMap_map]
  by_cases hjk : k = j
  · subst hjk
    rw [if_pos rfl, ← List.filterMap_eq_map]
    apply List.filterMap_congr
    intro i hi
    exact acceptedShare_of_ok (checkEntry_envelopeAt_self hj hn (hl i hi))
  · rw [if_neg hjk, List.filterMap_eq_nil_iff]
    intro i _
    exact acceptedShare_of_ok (C := (S.g2.gen, 0)) (checkEntry_envelopeAt_ne (Ne.symm hjk) _ i)

/-- Only the list at position `j` is kept. -/
theorem flatMap_zipIdx_single {X : Type} (f : List Int → List X) (k j : Nat) :
    ((pattern.zipIdx k).flatMap fun l => if l.2 = j then f l.1 else []) =
      if k ≤ j then ((pattern[j - k]?).map f).getD [] else [] := by
  induction pattern generalizing k with
  | nil => simp
  | cons l pattern ih =>
    rw [List.zipIdx_cons, List.flatMap_cons, ih (k + 1)]
    by_cases hlt : k < j
    · rw [if_neg (by omega), if_pos (by omega), if_pos (by omega), List.nil_append,
        show j - k = (j - (k + 1)) + 1 by omega, List.getElem?_cons_succ]
    · rw [if_neg (show ¬ k + 1 ≤ j by omega), List.append_nil]
      by_cases heq : k = j
      · subst heq
        simp
      · rw [if_neg heq, if_neg (by omega)]

theorem acceptedShares_envelopesOf (hn : n < 2 ^ 16) {j : Nat} (hj : j < 2 ^ 16)
    (hidx : ∀ l ∈ pattern, ∀ i ∈ l, i ∈ keyperIndices n) :
    acceptedShares S smallConfig.electionId (polyCommittee S n poly) j (S.g2.gen, 0)
      (envelopesOf S n quorum poly pattern) =
      ((pattern[j]?).map fun l => l.map fun i => (i, mul S.g2.gen (polyShare poly i))).getD [] := by
  have hsplit : acceptedShares S smallConfig.electionId (polyCommittee S n poly) j (S.g2.gen, 0)
      (envelopesOf S n quorum poly pattern) = pattern.zipIdx.flatMap fun l =>
        if l.2 = j then l.1.map fun i => (i, mul S.g2.gen (polyShare poly i)) else [] := by
    rw [acceptedShares, envelopesOf, List.filterMap_flatMap]
    apply List.flatMap_congr
    intro l hl
    have hmem : l.1 ∈ pattern := List.mem_of_getElem? (List.mem_zipIdx_iff_getElem?.mp hl)
    exact acceptedShares_map_envelopeAt hj hn (hidx l.1 hmem)
  rw [hsplit, flatMap_zipIdx_single, if_pos (Nat.zero_le j), Nat.sub_zero]

variable (S n quorum poly pattern)

/-- A list of envelopes that count in the given order, under the sharing `poly`. -/
noncomputable def realise (hn : n < 2 ^ 16) (hq : 1 ≤ quorum) (hdeg : poly.degree < quorum)
    (hcands : pattern.length ≤ 2 ^ 16) (hidx : ∀ l ∈ pattern, ∀ i ∈ l, i ∈ keyperIndices n) :
    ShareInput S where
  config := smallConfig
  aggregate := {
    electionId := smallConfig.electionId
    aggregates := List.replicate pattern.length (unitCiphertext S)
    admitted := []
    exclusions := []
    totalAdmittedWeight := 0 }
  points := List.replicate pattern.length (S.g2.gen, 0)
  committeePks := polyCommittee S n poly
  quorum := quorum
  shares := envelopesOf S n quorum poly pattern
  msk := (poly.eval 0).val
  mskShare := polyShare poly
  decodes := by
    rw [mapM_eq_ok, List.forall₂_iff_get]
    refine ⟨by simp, fun j h₁ h₂ => ?_⟩
    simpa using decode_unitCiphertext
  keys_decode := by
    intro pk hpk
    obtain ⟨i, -, rfl⟩ := List.mem_map.mp hpk
    exact ⟨_, S.g2.decodePoint_toCompressed _ _⟩
  length_committeePks := by simpa [polyCommittee] using hn
  one_le_quorum := hq
  sharing := by
    refine ⟨poly, hdeg, by simp, fun i _ => cast_polyShare poly i⟩
  sound := by
    intro p hp share hshare s hs
    obtain ⟨-, hlt, hC⟩ := List.mem_zipIdx hp
    rw [List.length_replicate] at hlt
    rw [List.getElem_replicate] at hC
    rw [hC] at hs ⊢
    have hmem := mem_acceptedShares.mpr ⟨share, hshare, hs⟩
    rw [acceptedShares_envelopesOf hn (by omega) hidx, List.getElem?_eq_getElem (by omega)] at hmem
    obtain ⟨i, -, rfl⟩ := List.mem_map.mp hmem
    exact S.g2.mul_eq_zsmul _ _

variable {S n quorum poly pattern} {hn : n < 2 ^ 16} {hq : 1 ≤ quorum} {hdeg : poly.degree < quorum}
  {hcands : pattern.length ≤ 2 ^ 16} {hidx : ∀ l ∈ pattern, ∀ i ∈ l, i ∈ keyperIndices n}

theorem realise_accepted {p : (G₂ × G₂) × Nat}
    (hp : p ∈ (realise S n quorum poly pattern hn hq hdeg hcands hidx).points.zipIdx) :
    p.1 = (S.g2.gen, 0) ∧ ∃ l, pattern[p.2]? = some l ∧
      (realise S n quorum poly pattern hn hq hdeg hcands hidx).accepted p =
        l.map fun i => (i, mul S.g2.gen (polyShare poly i)) := by
  obtain ⟨-, hlt, hC⟩ := List.mem_zipIdx hp
  simp only [realise, List.length_replicate, zero_add] at hlt
  simp only [realise, List.getElem_replicate] at hC
  have hl := List.getElem?_eq_getElem hlt
  refine ⟨hC, pattern[p.2], hl, ?_⟩
  rw [ShareInput.accepted, hC]
  exact (acceptedShares_envelopesOf hn (by omega) hidx).trans (by rw [hl]; rfl)

theorem realise_pattern :
    (realise S n quorum poly pattern hn hq hdeg hcands hidx).pattern = pattern := by
  rw [ShareInput.pattern]
  apply List.ext_getElem?
  intro j
  by_cases hj : j < pattern.length
  · have hp : ((S.g2.gen, 0), j) ∈
        (realise S n quorum poly pattern hn hq hdeg hcands hidx).points.zipIdx := by
      rw [List.mem_zipIdx_iff_getElem?]
      simp [realise, hj]
    obtain ⟨-, l, hl, hacc⟩ := realise_accepted hp
    rw [List.getElem?_map, List.getElem?_zipIdx, hl]
    simp only [realise, List.getElem?_replicate, hj, if_true, Option.map_some, zero_add]
    simp only [realise] at hacc
    rw [hacc, List.map_map]
    exact congrArg some (List.map_id l)
  · rw [List.getElem?_eq_none (by simpa [realise] using hj), List.getElem?_eq_none (by omega)]

/-- A sharing that vanishes on the slice of some candidate, and not at zero, is
    recovered wrongly. -/
theorem realise_not_robust (hlen : ∀ l ∈ pattern, quorum ≤ l.length) {l : List Int} (hl : l ∈ pattern)
    (hvanish : ∀ i ∈ l.take quorum, poly.eval (i : ZMod curveOrder) = 0) (hne : poly.eval 0 ≠ 0) :
    ¬ (realise S n quorum poly pattern hn hq hdeg hcands hidx).Robust := by
  intro hrobust
  set I := realise S n quorum poly pattern hn hq hdeg hcands hidx with hI
  obtain ⟨j, hj, hlj⟩ := List.getElem_of_mem hl
  have hp : ((S.g2.gen, 0), j) ∈ I.points.zipIdx := by
    rw [List.mem_zipIdx_iff_getElem?]
    simp [hI, realise, hj]
  have hcount : ∀ p ∈ I.points.zipIdx, I.quorum ≤ (I.accepted p).length := by
    intro p hp
    obtain ⟨-, l', hl', hacc⟩ := realise_accepted hp
    rw [hacc, List.length_map]
    exact hlen l' (List.mem_of_getElem? hl')
  -- the chosen shares all vanish, so their combination does, and it should be the secret's multiple
  obtain ⟨sigma, hsigma, hlog⟩ := I.combine_returns ((S.g2.gen, 0), j)
  have hsum := hrobust.combine I hcount hp
  rw [hsigma, Except.ok.injEq] at hsum
  obtain ⟨-, l', hl', hacc⟩ := realise_accepted hp
  obtain rfl : l' = l := by
    rw [List.getElem?_eq_getElem hj, hlj, Option.some.injEq] at hl'
    exact hl'.symm
  have hzero : S.g2.log sigma = 0 := by
    rw [hlog, hacc, ← List.map_take, List.sum_eq_zero]
    intro x hx
    obtain ⟨s, hs, rfl⟩ := List.mem_map.mp hx
    obtain ⟨i, hi, rfl⟩ := List.mem_map.mp hs
    rw [S.g2.log_mul, cast_polyShare, hvanish i hi]
    ring
  rw [hsum, S.g2.log_zsmul, S.g2.log_gen, mul_one] at hzero
  exact hne (by simpa [hI, realise] using hzero)

/-- A slice with a repeated index is not robust under every sharing. -/
theorem exists_not_robust (hn : n < 2 ^ 16) (hcands : pattern.length ≤ 2 ^ 16)
    (hidx : ∀ l ∈ pattern, ∀ i ∈ l, i ∈ keyperIndices n) (hbad : ¬ PatternOk quorum pattern) :
    ∃ I : ShareInput S, I.committeePks.length = n ∧ I.quorum = quorum ∧ I.pattern = pattern ∧
      ¬ I.Robust := by
  rw [PatternOk, Classical.not_imp] at hbad
  obtain ⟨hlen, hrepeat⟩ := hbad
  simp only [not_forall] at hrepeat
  obtain ⟨l, hl, hrepeat⟩ := hrepeat
  set ids := (l.take quorum).map (Int.cast : Int → ZMod curveOrder) with hids
  have hsep : Separated (0 :: l) := separated_of_bounds fun i hi => by
    rcases List.mem_cons.mp hi with rfl | hi
    · exact ⟨le_rfl, by decide⟩
    · have := mem_keyperIndices.mp (hidx l hl i hi)
      have : (n : Int) < curveOrder := by exact_mod_cast lt_trans hn (by decide)
      omega
  have hz : (0 : ZMod curveOrder) ∉ ids := by
    intro h0
    obtain ⟨i, hi, hcast⟩ := List.mem_map.mp h0
    have hmem := List.mem_of_mem_take hi
    have := hsep i (List.mem_cons_of_mem _ hmem) 0 List.mem_cons_self (by rw [hcast, Int.cast_zero])
    have := mem_keyperIndices.mp (hidx l hl i hmem)
    omega
  have hcard : ids.toFinset.card < quorum := by
    have hle : ids.toFinset.card ≤ ids.length := List.toFinset_card_le ids
    have hne : ids.toFinset.card ≠ ids.length := by
      intro heq
      have hnodup : ids.Nodup := Multiset.toFinset_card_eq_card_iff_nodup.mp heq
      exact hrepeat hnodup.of_map
    have hshort : ids.length ≤ quorum := by simp [hids]
    omega
  obtain ⟨poly, hdeg, hvanish, hne⟩ := Shamir.exists_vanishing hz hcard
  have hq : 1 ≤ quorum := by omega
  refine ⟨realise S n quorum poly pattern hn hq hdeg hcands hidx, by simp [realise, polyCommittee], rfl,
    realise_pattern, realise_not_robust hlen hl (fun i hi => ?_) hne⟩
  exact hvanish i (List.mem_map.mpr ⟨i, hi, rfl⟩)

end Realise

/-- Recovery is robust, whatever the sharing and the envelopes, exactly for the orders of
    accepted indices in which no candidate's interpolated slice repeats one. -/
theorem share_list_robust_iff (S : Suite G₁ G₂) {n quorum : Nat} (hn : n < 2 ^ 16)
    {pattern : List (List Int)} (hcands : pattern.length ≤ 2 ^ 16)
    (hidx : ∀ l ∈ pattern, ∀ i ∈ l, i ∈ keyperIndices n) :
    (∀ I : ShareInput S, I.committeePks.length = n → I.quorum = quorum → I.pattern = pattern →
      I.Robust) ↔ PatternOk quorum pattern := by
  constructor
  · intro hall
    by_contra hbad
    obtain ⟨I, hpks, hquorum, hpattern, hnot⟩ := exists_not_robust (S := S) hn hcands hidx hbad
    exact hnot (hall I hpks hquorum hpattern)
  · intro hok I _ hquorum hpattern
    apply I.robust_of_pattern
    rwa [hquorum, hpattern]

end

/-- Three keypers, a threshold of two, one candidate: two different accepted indices
    in front are robust. -/
theorem share_list_robust_on_distinct : PatternOk 2 [[3, 1, 1]] ∧
    ∀ I : ShareInput Residue.suite, I.committeePks.length = 3 → I.quorum = 2 →
      I.pattern = [[3, 1, 1]] → I.Robust := by
  have hok : PatternOk 2 [[3, 1, 1]] := by
    intro _
    decide
  exact ⟨hok, (share_list_robust_iff Residue.suite (by decide) (by decide) (by decide)).mpr hok⟩

/-- Three keypers with the shares `0, 1, 2` of the secret `-1`, and a list in which the
    first keyper's envelope stands twice before the others'. -/
noncomputable def repeatedInput : ShareInput Residue.suite :=
  realise Residue.suite 3 2 (Polynomial.X - Polynomial.C 1) [[1, 1, 2, 3]] (by decide) Nat.two_pos
    (by rw [Polynomial.degree_X_sub_C]; decide) (by decide) (by decide)

/-- The slice is `1, 1`, whose shares are both zero, so the recovered point is the
    ciphertext's own second component. -/
theorem share_list_misled_by_repetition :
    repeatedInput.pattern = [[1, 1, 2, 3]] ∧ ¬ repeatedInput.Robust := by
  refine ⟨realise_pattern, realise_not_robust (by decide) List.mem_cons_self ?_ (by simp)⟩
  intro i hi
  simp only [List.take_succ_cons, List.take_zero, List.mem_cons, List.not_mem_nil, or_false,
    or_self] at hi
  simp [hi]

end ElGamalVoting
