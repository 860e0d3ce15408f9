import ElGamalVoting.Core.Config
import ElGamalVoting.Crypto.BallotCompleteness

/- The wire form of the ballot validity proof (`crypto/ballot.py`).

   The decoder slices the buffer at a running offset, and a slice at the end is silently
   short. What it accepts determines the length of the buffer, hence that no slice was
   short; and each slice is then the encoding of what was read from it, so the buffer is
   the encoding of the proof. -/
namespace ElGamalVoting
open Lib

/-- The library's decoder takes no bytes but the encoding of the point it returns. -/
def PointGroup.DecodesCanonical {size : Nat} {G : Type} [AddCommGroup G] (g : PointGroup size G) : Prop :=
  ∀ b P, b.length = size → g.fromCompressed b = some P → g.toCompressed P = b

theorem scalarFromBytes_eq_ok {b : Bytes} {field : String} {s : Int} (h : scalarFromBytes b field = .ok s) :
    b = scalarToBytes s ∧ Canonical s := by
  rw [scalarFromBytes] at h
  split at h
  · cases h
  · rename_i hlen
    split at h
    · cases h
    · rename_i hlt
      cases h
      have hcanonical : Canonical (beNat b) := ⟨by omega, by omega⟩
      refine ⟨?_, hcanonical⟩
      rw [scalarToBytes, Int.emod_eq_of_lt hcanonical.1 hcanonical.2, Int.toNat_natCast]
      apply beNat_inj
      · rw [length_beBytes]
        exact not_not.mp hlen
      · rw [beNat_beBytes]
        have hq : curveOrder < 256 ^ 32 := by decide +kernel
        show beNat b < 256 ^ 32
        omega

section
variable {G₁ G₂ : Type} [AddCommGroup G₁] [AddCommGroup G₂] {S : Suite G₁ G₂} {buf : Bytes}

theorem g2FromCompressed_eq_ok (hpoints : S.g2.DecodesCanonical) {b : Bytes} {P : G₂}
    (h : g2FromCompressed S.g2 b = .ok P) : b = S.g2.toCompressed P := by
  have hlen : b.length = g2Bytes := decodePoint_length h
  rw [g2FromCompressed, decodePoint, if_neg (not_not.mpr hlen)] at h
  split at h
  · cases h
  · rename_i hread
    cases h
    exact (hpoints b P hlen hread).symm

/-- A slice, and what is behind it. -/
theorem drop_eq_slice (buf : Bytes) (o w : Nat) : buf.drop o = slice buf o w ++ buf.drop (o + w) := by
  rw [slice, ← List.drop_drop, List.take_append_drop]

/-- A branch was read from its own bytes. -/
theorem decodeBranch_eq_ok (hpoints : S.g2.DecodesCanonical) {o o' : Nat} {br : ORBranch G₂}
    (h : decodeBranch S buf o = .ok (br, o')) :
    buf.drop o = branchBytes S br ++ buf.drop o' ∧ Canonical br.e ∧ Canonical br.z := by
  rw [decodeBranch] at h
  obtain ⟨a1, ha1, h⟩ := bind_eq_ok.mp h
  obtain ⟨a2, ha2, h⟩ := bind_eq_ok.mp h
  obtain ⟨e, he, h⟩ := bind_eq_ok.mp h
  obtain ⟨z, hz, h⟩ := bind_eq_ok.mp h
  cases h
  obtain ⟨he, hecanonical⟩ := scalarFromBytes_eq_ok he
  obtain ⟨hz, hzcanonical⟩ := scalarFromBytes_eq_ok hz
  refine ⟨?_, hecanonical, hzcanonical⟩
  rw [drop_eq_slice buf o 96, drop_eq_slice buf (o + 96) 96, drop_eq_slice buf (o + 192) 32,
    drop_eq_slice buf (o + 224) 32, g2FromCompressed_eq_ok hpoints ha1, g2FromCompressed_eq_ok hpoints ha2,
    he, hz, branchBytes]
  simp only [List.append_assoc]

theorem decodeBranches_eq_ok (hpoints : S.g2.DecodesCanonical) {count o o' : Nat} {brs : List (ORBranch G₂)}
    (h : decodeBranches S buf count o = .ok (brs, o')) :
    buf.drop o = (brs.map (branchBytes S)).flatten ++ buf.drop o' ∧ ProvedBranches count brs := by
  induction count generalizing o brs with
  | zero =>
    cases h
    exact ⟨rfl, rfl, List.forall_mem_nil _⟩
  | succ count ih =>
    rw [decodeBranches] at h
    obtain ⟨⟨br, o1⟩, hbr, h⟩ := bind_eq_ok.mp h
    obtain ⟨⟨brs', o2⟩, hbrs, h⟩ := bind_eq_ok.mp h
    cases h
    obtain ⟨hhead, hcanonical⟩ := decodeBranch_eq_ok hpoints hbr
    obtain ⟨htail, hproved⟩ := ih hbrs
    refine ⟨?_, congrArg (· + 1) hproved.length, List.forall_mem_cons.mpr ⟨hcanonical, hproved.canonical⟩⟩
    rw [hhead, htail, List.map_cons, List.flatten_cons, List.append_assoc]

theorem decodeRangeProofs_eq_ok (hpoints : S.g2.DecodesCanonical) {count n o o' : Nat}
    {proofs : List (List (ORBranch G₂))}
    (h : decodeRangeProofs S buf (List.replicate count n) o = .ok (proofs, o')) :
    buf.drop o = (proofs.map fun p => (p.map (branchBytes S)).flatten).flatten ++ buf.drop o' ∧
      ∀ p ∈ proofs, ProvedBranches n p := by
  induction count generalizing o proofs with
  | zero =>
    cases h
    exact ⟨rfl, List.forall_mem_nil _⟩
  | succ count ih =>
    rw [List.replicate_succ, decodeRangeProofs] at h
    obtain ⟨⟨brs, o1⟩, hbrs, h⟩ := bind_eq_ok.mp h
    obtain ⟨⟨ps, o2⟩, hps, h⟩ := bind_eq_ok.mp h
    cases h
    obtain ⟨hhead, hproved⟩ := decodeBranches_eq_ok hpoints hbrs
    obtain ⟨htail, hrest⟩ := ih hps
    refine ⟨?_, List.forall_mem_cons.mpr ⟨hproved, hrest⟩⟩
    rw [hhead, htail, List.map_cons, List.flatten_cons, List.append_assoc]

/-- A two-byte number that lies inside the buffer. -/
theorem slice_eq_beBytes {o n : Nat} (hlen : o + 2 ≤ buf.length) (h : beNat (slice buf o 2) = n) :
    slice buf o 2 = beBytes 2 n := by
  have hslice : (slice buf o 2).length = 2 := by
    rw [slice, List.length_take, List.length_drop]
    omega
  apply beNat_inj
  · rw [hslice, length_beBytes]
  · have hlt := beNat_lt (slice buf o 2)
    rw [hslice, h] at hlt
    rw [h, beNat_beBytes 2 n hlt]

theorem decodeBranchCounts_eq_ok {expected count o o' : Nat} {counts : List Nat}
    (hlen : o + 2 * count ≤ buf.length) (h : decodeBranchCounts buf expected count o = .ok (counts, o')) :
    buf.drop o = (List.replicate count (beBytes 2 expected)).flatten ++ buf.drop o' := by
  induction count generalizing o counts with
  | zero =>
    cases h
    rfl
  | succ count ih =>
    rw [decodeBranchCounts] at h
    dsimp only at h
    split at h
    · cases h
    · rename_i hbc
      obtain ⟨⟨cs, o1⟩, hcs, h⟩ := bind_eq_ok.mp h
      cases h
      rw [drop_eq_slice buf o 2, slice_eq_beBytes (by omega) (not_not.mp hbc), ih (by omega) hcs,
        List.replicate_succ, List.flatten_cons, List.append_assoc]

theorem decodeBudget_eq_ok {o : Nat} {eB zB : Int} (h : decodeBudget buf o = .ok (eB, zB)) :
    buf.drop o = budgetExactTag :: (scalarToBytes eB ++ scalarToBytes zB) ∧ Canonical eB ∧ Canonical zB := by
  have hlen := decodeBudget_length h
  rw [decodeBudget] at h
  split at h
  · cases h
  · rename_i tag htag
    split at h
    · cases h
    · rename_i hexact
      obtain ⟨e, he, h⟩ := bind_eq_ok.mp h
      obtain ⟨z, hz, h⟩ := bind_eq_ok.mp h
      split at h
      · cases h
      · cases h
        obtain ⟨he, hecanonical⟩ := scalarFromBytes_eq_ok he
        obtain ⟨hz, hzcanonical⟩ := scalarFromBytes_eq_ok hz
        refine ⟨?_, hecanonical, hzcanonical⟩
        have hhead : buf.drop o = tag :: buf.drop (o + 1) := by
          obtain ⟨hlt, hget⟩ := List.getElem?_eq_some_iff.mp htag
          rw [List.drop_eq_getElem_cons hlt, hget]
        have hend : buf.drop (o + 33 + 32) = [] := List.drop_eq_nil_of_le (by omega)
        rw [hhead, not_not.mp hexact, drop_eq_slice buf (o + 1) 32, drop_eq_slice buf (o + 33) 32, he, hz, hend,
          List.append_nil]

/-- What was accepted is, byte for byte, the wire form of what was read. -/
theorem decodeBallotValidityProof_eq_ok (hpoints : S.g2.DecodesCanonical) {numCandidates budget : Nat}
    {proofs : List (List (ORBranch G₂))} {eB zB : Int}
    (h : decodeBallotValidityProof S buf numCandidates budget = .ok (proofs, eB, zB)) :
    buf = validityBytes S proofs budget eB zB ∧ (∀ p ∈ proofs, ProvedBranches (budget + 1) p) ∧
      Canonical eB ∧ Canonical zB := by
  -- the length comes first: it is what makes every slice of the header full
  obtain ⟨hlen, hproofs⟩ := decodeBallotValidityProof_shape h
  unfold decodeBallotValidityProof at h
  split at h
  · rename_i version variant x y tail
    dsimp only at h
    split at h
    · cases h
    · rename_i hversion
      split at h
      · cases h
      · rename_i hvariant
        split at h
        · cases h
        · rename_i hn
          generalize hbuf : version :: variant :: x :: y :: tail = buf at h hlen hn ⊢
          rw [not_not.mp hn] at h
          obtain ⟨⟨counts, o1⟩, hcounts, h⟩ := bind_eq_ok.mp h
          obtain ⟨⟨ps, o2⟩, hps, h⟩ := bind_eq_ok.mp h
          obtain ⟨⟨e, z⟩, hbudget, h⟩ := bind_eq_ok.mp h
          cases h
          have hreplicate := (decodeBranchCounts_offset hcounts).2
          rw [hreplicate] at hps
          obtain ⟨hranges, hproved⟩ := decodeRangeProofs_eq_ok hpoints hps
          obtain ⟨htail, he, hz⟩ := decodeBudget_eq_ok hbudget
          refine ⟨?_, hproved, he, hz⟩
          have hheader : buf = version :: variant :: buf.drop 2 := by
            rw [← hbuf]
            rfl
          rw [hheader, not_not.mp hversion, not_not.mp hvariant, validityBytes, validityBody, hproofs,
            drop_eq_slice buf 2 2, slice_eq_beBytes (by omega) (not_not.mp hn),
            decodeBranchCounts_eq_ok (by omega) hcounts, hranges, htail]
  · cases h

/-- The validity proof has one wire form: the decoder inverts the encoder, and accepts nothing but
    encodings, so neither a shorter nor a longer buffer than an accepted one. -/
theorem validity_proof_one_wire_form (S : Suite G₁ G₂) (hpoints : S.g2.DecodesCanonical)
    (config : ElectionConfig) :
    (∀ (proofs : List (List (ORBranch G₂))) (eB zB : Int), proofs.length = config.numCandidates →
      (∀ p ∈ proofs, p.length = config.budget + 1 ∧ ∀ br ∈ p, Canonical br.e ∧ Canonical br.z) →
      Canonical eB → Canonical zB →
      ∃ buf, encodeBallotValidityProof S proofs eB zB = .ok buf ∧
        decodeBallotValidityProof S buf config.numCandidates config.budget = .ok (proofs, eB, zB)) ∧
    (∀ (buf : Bytes) (proofs : List (List (ORBranch G₂))) (eB zB : Int),
      decodeBallotValidityProof S buf config.numCandidates config.budget = .ok (proofs, eB, zB) →
      encodeBallotValidityProof S proofs eB zB = .ok buf) ∧
    (∀ (buf buf' : Bytes) (proof : List (List (ORBranch G₂)) × Int × Int),
      decodeBallotValidityProof S buf config.numCandidates config.budget = .ok proof →
      decodeBallotValidityProof S buf' config.numCandidates config.budget = .ok proof → buf = buf') ∧
    ∀ (buf : Bytes) (proof : List (List (ORBranch G₂)) × Int × Int),
      decodeBallotValidityProof S buf config.numCandidates config.budget = .ok proof →
      (∀ k < buf.length, ∀ proof',
        decodeBallotValidityProof S (buf.take k) config.numCandidates config.budget ≠ .ok proof') ∧
      ∀ more, more ≠ [] → ∀ proof',
        decodeBallotValidityProof S (buf ++ more) config.numCandidates config.budget ≠ .ok proof' := by
  have hn1 : 1 ≤ config.numCandidates := config.one_le_numCandidates
  have hn : config.numCandidates ≤ 0xFFFF := config.numCandidates_le
  have hb : config.budget ≤ 0xFFFE := config.budget_le
  have hlength {buf : Bytes} {proof : List (List (ORBranch G₂)) × Int × Int}
      (h : decodeBallotValidityProof S buf config.numCandidates config.budget = .ok proof) :=
    (decodeBallotValidityProof_shape h).1
  -- the length of a proof is fixed by the config, which also settles truncation and extension
  refine ⟨?_, ?_, ?_, ?_⟩
  · intro proofs eB zB hlen hproofs he hz
    have hproved : ∀ p ∈ proofs, ProvedBranches (config.budget + 1) p :=
      fun p hp => ⟨(hproofs p hp).1, (hproofs p hp).2⟩
    refine ⟨validityBytes S proofs config.budget eB zB, ?_, ?_⟩
    · exact encodeBallotValidityProof_eq S eB zB (fun p hp => (hproofs p hp).1)
        (List.ne_nil_of_length_pos (by omega)) (by omega) hb
    · rw [← hlen]
      exact decodeBallotValidityProof_validityBytes S hproved (by omega) hb he hz
  · intro buf proofs eB zB h
    have hlen := (decodeBallotValidityProof_shape h).2
    obtain ⟨hbuf, hproved, -⟩ := decodeBallotValidityProof_eq_ok hpoints h
    rw [hbuf]
    exact encodeBallotValidityProof_eq S eB zB (fun p hp => (hproved p hp).length)
      (List.ne_nil_of_length_pos (by omega)) (by omega) hb
  · intro buf buf' proof h h'
    obtain ⟨proofs, eB, zB⟩ := proof
    rw [(decodeBallotValidityProof_eq_ok hpoints h).1, (decodeBallotValidityProof_eq_ok hpoints h').1]
  · intro buf proof h
    have hbuf := hlength h
    refine ⟨?_, ?_⟩
    · intro k hk proof' h'
      have hshort := hlength h'
      rw [List.length_take] at hshort
      omega
    · intro more hmore proof' h'
      have hlong := hlength h'
      rw [List.length_append] at hlong
      have hpos := List.length_pos_of_ne_nil hmore
      omega

end

theorem Residue.decodesCanonical {size : Nat} (hsize : curveOrder ≤ 256 ^ size) :
    (Residue.pointGroup size hsize).DecodesCanonical := by
  intro b P hb h
  have hread : (if h : beNat b < curveOrder then some (⟨beNat b, h⟩ : Residue) else none) = some P := h
  split at hread
  · rename_i hlt
    cases hread
    show beBytes size (beNat b) = b
    apply beNat_inj
    · rw [length_beBytes, hb]
    · exact beNat_beBytes size _ (lt_of_lt_of_le hlt hsize)
  · cases hread

instance (s : Int) : Decidable (Canonical s) := inferInstanceAs (Decidable (0 ≤ s ∧ s < curveOrder))

/-- A proof for the single candidate of the small election, with a budget of one. -/
def sampleValidityProof : List (List (ORBranch Residue)) :=
  [[⟨.ofNat 1, .ofNat 2, 3, 4⟩, ⟨.ofNat 5, .ofNat 6, 7, 8⟩]]

theorem validity_proof_one_wire_form_small :
    ∃ buf, encodeBallotValidityProof Residue.suite sampleValidityProof 9 10 = .ok buf ∧
      decodeBallotValidityProof Residue.suite buf 1 1 = .ok (sampleValidityProof, 9, 10) ∧
      ∀ proof, decodeBallotValidityProof Residue.suite (buf.take 70) 1 1 ≠ .ok proof := by
  obtain ⟨hround, -, -, hlength⟩ := validity_proof_one_wire_form Residue.suite
    (Residue.decodesCanonical (by decide +kernel)) smallConfig
  obtain ⟨buf, hencode, hdecode⟩ := hround sampleValidityProof 9 10 rfl (by decide +kernel)
    (by decide +kernel) (by decide +kernel)
  refine ⟨buf, hencode, hdecode, (hlength buf _ hdecode).1 70 ?_⟩
  rw [(decodeBallotValidityProof_shape hdecode).1]
  decide

end ElGamalVoting
