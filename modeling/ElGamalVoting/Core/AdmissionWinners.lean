import ElGamalVoting.Core.Aggregation
import ElGamalVoting.Crypto.BallotMessage
import ElGamalVoting.Crypto.BallotReturns

/- Which ballots admission keeps, and what the aggregate takes from them
   (`core/admission.py`, `core/aggregation.py`).

   The loop over the valid ballots remembers a best one for each pseudonym
   (`WinnersOk`), so a valid ballot is admitted exactly when no valid ballot of its
   pseudonym beats it (`mem_admittedBallots_iff`), and of each pseudonym one
   is. The aggregate adds the admitted ballots up, so it depends on their
   envelopes and not on their order or sequence numbers
   (`aggregatePoints_perm`). -/
namespace ElGamalVoting
open Lib

/-! ## The winner of a pseudonym -/

theorem rankLt_iff {a b : Int × Int} : rankLt a b = true ↔ a.1 < b.1 ∨ (a.1 = b.1 ∧ a.2 < b.2) := by
  simp [rankLt]

section
variable {policy : DuplicatePolicy} {a b c : Int × Int}

theorem not_beats_self : ¬ beats policy a a = true := by
  cases policy <;> simp only [beats, rankLt_iff] <;> omega

/-- What does not beat a rank does not beat one that does. -/
theorem not_beats_of_beats (h : beats policy b c = true) (h' : ¬ beats policy a c = true) :
    ¬ beats policy a b = true := by
  cases policy <;> simp only [beats, rankLt_iff] at * <;> omega

theorem eq_of_not_beats (h : ¬ beats policy a b = true) (h' : ¬ beats policy b a = true) : a = b := by
  have hparts : a.1 = b.1 ∧ a.2 = b.2 := by
    cases policy <;> simp only [beats, rankLt_iff] at * <;> omega
  exact Prod.ext hparts.1 hparts.2

end

/-- No valid ballot of its pseudonym beats the ballot. -/
def Best (policy : DuplicatePolicy) (valid : List StoredBallot) (sb : StoredBallot) : Prop :=
  sb ∈ valid ∧ ∀ sb' ∈ valid, sb'.envelope.pseudonym = sb.envelope.pseudonym →
    ¬ beats policy (ballotRank sb') (ballotRank sb) = true

/-- What the loop holds after the ballots `done`: a winner of each pseudonym, and nothing else. -/
structure WinnersOk (policy : DuplicatePolicy) (done : List StoredBallot)
    (won : Dict Bytes ((Int × Int) × Int)) : Prop where
  covered : ∀ sb ∈ done, ∃ w, won.get? sb.envelope.pseudonym = some w
  wins : ∀ p w, won.get? p = some w →
    ∃ sb, Best policy done sb ∧ sb.envelope.pseudonym = p ∧ w = (ballotRank sb, sb.sequenceNumber)

/-- One turn of the loop. -/
def keepBest (policy : DuplicatePolicy) (won : Dict Bytes ((Int × Int) × Int)) (sb : StoredBallot) :
    Dict Bytes ((Int × Int) × Int) :=
  match won.get? sb.envelope.pseudonym with
  | none => won.set sb.envelope.pseudonym (ballotRank sb, sb.sequenceNumber)
  | some (cur, _) =>
    if beats policy (ballotRank sb) cur then
      won.set sb.envelope.pseudonym (ballotRank sb, sb.sequenceNumber)
    else won

theorem winners_eq (policy : DuplicatePolicy) (valid : List StoredBallot) :
    winners policy valid = valid.foldl (keepBest policy) ∅ := rfl

section
variable {policy : DuplicatePolicy}

/-- A ballot that wins among the earlier ones still wins when the next is of another pseudonym
    or does not beat it. -/
theorem Best.append {done : List StoredBallot} {sb next : StoredBallot} (h : Best policy done sb)
    (hnext : next.envelope.pseudonym = sb.envelope.pseudonym →
      ¬ beats policy (ballotRank next) (ballotRank sb) = true) : Best policy (done ++ [next]) sb := by
  refine ⟨List.mem_append_left _ h.1, ?_⟩
  intro sb' hsb' hp
  rcases List.mem_append.mp hsb' with hsb' | hsb'
  · exact h.2 sb' hsb' hp
  · cases List.mem_singleton.mp hsb'
    exact hnext hp

/-- The next ballot wins where no earlier one of its pseudonym beats it. -/
theorem best_last {done : List StoredBallot} {next : StoredBallot}
    (h : ∀ sb ∈ done, sb.envelope.pseudonym = next.envelope.pseudonym →
      ¬ beats policy (ballotRank sb) (ballotRank next) = true) : Best policy (done ++ [next]) next := by
  refine ⟨List.mem_append_right _ (List.mem_singleton.mpr rfl), ?_⟩
  intro sb' hsb' hp
  rcases List.mem_append.mp hsb' with hsb' | hsb'
  · exact h sb' hsb' hp
  · cases List.mem_singleton.mp hsb'
    exact not_beats_self

/-- Setting the next ballot as its pseudonym's winner, where it does win. -/
theorem WinnersOk.set {done : List StoredBallot} {won : Dict Bytes ((Int × Int) × Int)}
    (h : WinnersOk policy done won) {next : StoredBallot} (hwins : Best policy (done ++ [next]) next) :
    WinnersOk policy (done ++ [next])
      (won.set next.envelope.pseudonym (ballotRank next, next.sequenceNumber)) := by
  refine ⟨?_, ?_⟩
  · intro sb hsb
    rw [Dict.get?_set]
    split
    · exact ⟨_, rfl⟩
    · rename_i hne
      rcases List.mem_append.mp hsb with hsb | hsb
      · exact h.covered sb hsb
      · cases List.mem_singleton.mp hsb
        exact absurd rfl hne
  · intro p w hw
    rw [Dict.get?_set] at hw
    split at hw
    · rename_i hp
      cases hw
      exact ⟨next, hwins, hp.symm, rfl⟩
    · rename_i hne
      obtain ⟨sb, hsb, hp, hw⟩ := h.wins p w hw
      refine ⟨sb, hsb.append ?_, hp, hw⟩
      intro hsame
      exact absurd (hp.symm.trans hsame.symm) hne

theorem WinnersOk.keepBest {done : List StoredBallot} {won : Dict Bytes ((Int × Int) × Int)}
    (h : WinnersOk policy done won) (next : StoredBallot) :
    WinnersOk policy (done ++ [next]) (keepBest policy won next) := by
  unfold ElGamalVoting.keepBest
  split
  · rename_i hnone
    apply h.set
    apply best_last
    intro sb' hsb' hp
    obtain ⟨w, hw⟩ := h.covered sb' hsb'
    rw [hp, hnone] at hw
    cases hw
  · rename_i cur n hcur
    obtain ⟨best, hbest, hp, hw⟩ := h.wins _ _ hcur
    cases hw
    split
    · rename_i hbeats
      apply h.set
      apply best_last
      intro sb' hsb' hsame
      exact not_beats_of_beats hbeats (hbest.2 sb' hsb' (hsame.trans hp.symm))
    · rename_i hbeats
      refine ⟨?_, ?_⟩
      · intro sb hsb
        rcases List.mem_append.mp hsb with hsb | hsb
        · exact h.covered sb hsb
        · cases List.mem_singleton.mp hsb
          exact ⟨_, hcur⟩
      · intro p w hw
        obtain ⟨sb, hsb, hpsb, hw'⟩ := h.wins p w hw
        refine ⟨sb, hsb.append ?_, hpsb, hw'⟩
        intro hsame
        -- the ballot of this pseudonym that won so far is the one the loop compared with
        rw [← hpsb, ← hsame, hcur] at hw
        have hrank : ballotRank best = ballotRank sb := congrArg Prod.fst ((Option.some.inj hw).trans hw')
        rw [← hrank]
        exact hbeats

theorem winnersOk (policy : DuplicatePolicy) (valid : List StoredBallot) :
    WinnersOk policy valid (winners policy valid) := by
  have hloop : ∀ (rest done : List StoredBallot) (won : Dict Bytes ((Int × Int) × Int)),
      WinnersOk policy done won → WinnersOk policy (done ++ rest) (rest.foldl (keepBest policy) won) := by
    intro rest
    induction rest with
    | nil =>
      intro done won h
      rwa [List.append_nil]
    | cons next rest ih =>
      intro done won h
      rw [List.append_cons, List.foldl_cons]
      exact ih _ _ (h.keepBest next)
  rw [winners_eq]
  exact hloop valid [] ∅ ⟨by simp, by simp⟩

end

/-! ## The admitted ballots -/

/-- The valid ballots that are not duplicates. -/
def admittedBallots (valid : List StoredBallot) (policy : DuplicatePolicy) : List StoredBallot :=
  valid.filter fun sb => sb.sequenceNumber ∉ duplicateLosers valid policy

theorem eq_of_sequenceNumber {valid : List StoredBallot}
    (hnodup : (valid.map StoredBallot.sequenceNumber).Nodup) {sb sb' : StoredBallot} (hsb : sb ∈ valid)
    (hsb' : sb' ∈ valid) (h : sb.sequenceNumber = sb'.sequenceNumber) : sb = sb' :=
  List.inj_on_of_nodup_map hnodup hsb hsb' h

section
variable {policy : DuplicatePolicy} {valid : List StoredBallot}

/-- Two winners of one pseudonym are one ballot. -/
theorem Best.unique (hnodup : (valid.map StoredBallot.sequenceNumber).Nodup)
    {sb sb' : StoredBallot} (h : Best policy valid sb) (h' : Best policy valid sb')
    (hp : sb.envelope.pseudonym = sb'.envelope.pseudonym) : sb = sb' := by
  have hrank : ballotRank sb = ballotRank sb' := eq_of_not_beats (h'.2 sb h.1 hp) (h.2 sb' h'.1 hp.symm)
  exact eq_of_sequenceNumber hnodup h.1 h'.1 (congrArg Prod.snd hrank)

/-- The sequence number of a valid ballot is a winning one where the ballot wins. -/
theorem mem_winners_iff_best (hnodup : (valid.map StoredBallot.sequenceNumber).Nodup) {sb : StoredBallot}
    (hsb : sb ∈ valid) :
    sb.sequenceNumber ∈ (winners policy valid).values.map Prod.snd ↔ Best policy valid sb := by
  have hok := winnersOk policy valid
  constructor
  · intro h
    obtain ⟨w, hw, hseq⟩ := List.mem_map.mp h
    obtain ⟨⟨p, w'⟩, hentry, rfl⟩ := List.mem_map.mp hw
    obtain ⟨best, hbest, -, rfl⟩ := hok.wins p w' (Dict.get?_eq_some.mpr hentry)
    rwa [← eq_of_sequenceNumber hnodup hbest.1 hsb hseq]
  · intro h
    obtain ⟨w, hw⟩ := hok.covered sb hsb
    obtain ⟨best, hbest, hp, rfl⟩ := hok.wins _ w hw
    obtain rfl := hbest.unique hnodup h hp
    exact List.mem_map.mpr ⟨_, List.mem_map.mpr ⟨_, Dict.get?_eq_some.mp hw, rfl⟩, rfl⟩

/-- A valid ballot loses where it does not win. -/
theorem mem_duplicateLosers_iff (hnodup : (valid.map StoredBallot.sequenceNumber).Nodup) {sb : StoredBallot}
    (hsb : sb ∈ valid) : sb.sequenceNumber ∈ duplicateLosers valid policy ↔ ¬ Best policy valid sb := by
  rw [← mem_winners_iff_best hnodup hsb]
  constructor
  · intro hlose
    obtain ⟨sb', hsb', hseq⟩ := List.mem_map.mp hlose
    obtain ⟨-, hnot⟩ := List.mem_filter.mp hsb'
    rw [← hseq]
    simpa using hnot
  · intro hnot
    exact List.mem_map.mpr ⟨sb, List.mem_filter.mpr ⟨hsb, by simpa using hnot⟩, rfl⟩

/-- The admitted ballots are the winners. -/
theorem mem_admittedBallots_iff (hnodup : (valid.map StoredBallot.sequenceNumber).Nodup)
    {sb : StoredBallot} : sb ∈ admittedBallots valid policy ↔ Best policy valid sb := by
  rw [admittedBallots, List.mem_filter, decide_eq_true_eq]
  constructor
  · intro h
    have hlose := h.2
    rw [mem_duplicateLosers_iff hnodup h.1] at hlose
    exact not_not.mp hlose
  · intro h
    refine ⟨h.1, ?_⟩
    rw [mem_duplicateLosers_iff hnodup h.1]
    exact not_not.mpr h

/-- Of every pseudonym with a valid ballot one wins. -/
theorem exists_best (policy : DuplicatePolicy) {sb : StoredBallot} (hsb : sb ∈ valid) :
    ∃ best, Best policy valid best ∧ best.envelope.pseudonym = sb.envelope.pseudonym := by
  obtain ⟨w, hw⟩ := (winnersOk policy valid).covered sb hsb
  obtain ⟨best, hbest, hp, -⟩ := (winnersOk policy valid).wins _ w hw
  exact ⟨best, hbest, hp⟩

end

/-- What admission records of a ballot it admits. -/
def StoredBallot.admitted (sb : StoredBallot) : AdmittedBallot :=
  ⟨sb.sequenceNumber, sb.envelope, sb.envelope.attestation.weight⟩

theorem resolveDuplicates_admitted (policy : DuplicatePolicy)
    (reasons : List (StoredBallot × Option ExclusionReason)) :
    (resolveDuplicates policy reasons).admitted =
      (admittedBallots ((reasons.filter fun sr => sr.2.isNone).map Prod.fst) policy).map
        StoredBallot.admitted := rfl

/-- One ballot of each pseudonym is admitted. -/
theorem admitted_of_pseudonym {policy : DuplicatePolicy} {valid : List StoredBallot}
    (hnodup : (valid.map StoredBallot.sequenceNumber).Nodup) {best : StoredBallot}
    (hbest : Best policy valid best) :
    ((admittedBallots valid policy).map StoredBallot.admitted).filter
      (fun ab => ab.envelope.pseudonym = best.envelope.pseudonym) = [best.admitted] := by
  have hfilter : (admittedBallots valid policy).filter
      (fun sb => sb.envelope.pseudonym = best.envelope.pseudonym) = [best] := by
    have hmem : ∀ sb, sb ∈ (admittedBallots valid policy).filter
        (fun sb => sb.envelope.pseudonym = best.envelope.pseudonym) ↔ sb ∈ [best] := by
      intro sb
      rw [List.mem_filter, mem_admittedBallots_iff hnodup, List.mem_singleton, decide_eq_true_eq]
      constructor
      · intro hsb
        exact hsb.1.unique hnodup hbest hsb.2
      · intro heq
        rw [heq]
        exact ⟨hbest, rfl⟩
    have hvalid : valid.Nodup := hnodup.of_map
    have hperm := (List.perm_ext_iff_of_nodup ((hvalid.filter _).filter _) (List.nodup_singleton best)).mpr hmem
    exact List.perm_singleton.mp hperm
  rw [List.filter_map]
  show ((admittedBallots valid policy).filter
    (fun sb => sb.envelope.pseudonym = best.envelope.pseudonym)).map StoredBallot.admitted = _
  rw [hfilter]
  rfl

/-! ## The aggregate -/

section
variable {G₁ G₂ : Type} [AddCommGroup G₁] [AddCommGroup G₂] (S : Suite G₁ G₂)

/-- The points of a ballot's ciphertexts, where they decode. -/
def ballotPoints (env : BallotEnvelope) : List (G₂ × G₂) :=
  ((ciphertextPairs env.ciphertexts).mapM (decodeCiphertext S)).toOption.getD []

/-- The accumulators with one ballot's weighted ciphertexts added. -/
def addPoints (w : Int) (accs pts : List (G₂ × G₂)) : List (G₂ × G₂) :=
  List.zipWith (fun acc pt => addCt acc (scalarMulCt w pt)) accs pts

/-- A ballot has as many decodable ciphertexts as there are candidates. -/
def Decodes (numCandidates : Nat) (env : BallotEnvelope) : Prop :=
  ∃ pts, (ciphertextPairs env.ciphertexts).mapM (decodeCiphertext S) = .ok pts ∧
    pts.length = numCandidates

variable {S}

theorem addBallot_eq {w : Int} {accs pts : List (G₂ × G₂)} {cts : List Ciphertext}
    (hpts : (ciphertextPairs cts).mapM (decodeCiphertext S) = .ok pts) (hlen : accs.length ≤ pts.length) :
    addBallot S w accs cts = .ok (addPoints w accs pts) := by
  induction accs generalizing cts pts with
  | nil => rfl
  | cons acc accs ih =>
    cases cts with
    | nil =>
      cases hpts
      cases hlen
    | cons ct cts =>
      rw [ciphertextPairs, List.map_cons, List.mapM_cons] at hpts
      obtain ⟨pt, hpt, hpts⟩ := bind_eq_ok.mp hpts
      obtain ⟨rest, hrest, hpts⟩ := bind_eq_ok.mp hpts
      cases hpts
      rw [addBallot, hpt, ok_bind, ih hrest (by simpa using hlen), ok_bind]
      rfl

/-- One turn of the loop over the ballots, on decodable ballots. -/
def addAdmitted (S : Suite G₁ G₂) (scale : Nat) (accs : List (G₂ × G₂)) (ab : BallotEnvelope × Int) :
    List (G₂ × G₂) :=
  if scaledWeight ab.2 scale = 0 then accs
  else addPoints (scaledWeight ab.2 scale) accs (ballotPoints S ab.1)

theorem aggregatePoints_eq {numCandidates scale : Nat} {admitted : List AdmittedBallot}
    (h : ∀ ab ∈ admitted, Decodes S numCandidates ab.envelope) :
    aggregatePoints S admitted numCandidates scale =
      .ok ((admitted.map fun ab => (ab.envelope, ab.weight)).foldl (addAdmitted S scale)
        (List.replicate numCandidates (0, 0))) := by
  have hloop : ∀ accs : List (G₂ × G₂), accs.length ≤ numCandidates →
      (admitted.foldlM (fun acc ab =>
        let w := scaledWeight ab.weight scale
        if w = 0 then pure acc else addBallot S w acc ab.envelope.ciphertexts : _ → _ → Py _) accs) =
        .ok ((admitted.map fun ab => (ab.envelope, ab.weight)).foldl (addAdmitted S scale) accs) := by
    induction admitted with
    | nil =>
      intro accs _
      rfl
    | cons ab admitted ih =>
      intro accs hlen
      obtain ⟨pts, hpts, hcount⟩ := h ab List.mem_cons_self
      have hih := ih fun b hb => h b (List.mem_cons_of_mem ab hb)
      rw [List.foldlM_cons, List.map_cons, List.foldl_cons, addAdmitted]
      dsimp only
      split
      · rw [pure_eq_ok, ok_bind]
        exact hih accs hlen
      · have hpoints : ballotPoints S ab.envelope = pts := by
          rw [ballotPoints, hpts]
          rfl
        rw [addBallot_eq hpts (by omega), ok_bind, hpoints]
        refine hih _ ?_
        rw [addPoints, List.length_zipWith]
        omega
  exact hloop _ (by rw [List.length_replicate])

theorem addPoints_comm (w w' : Int) (accs pts pts' : List (G₂ × G₂)) :
    addPoints w' (addPoints w accs pts) pts' = addPoints w (addPoints w' accs pts') pts := by
  unfold addPoints
  induction accs generalizing pts pts' with
  | nil => rfl
  | cons acc accs ih =>
    cases pts with
    | nil =>
      cases pts' with
      | nil => rfl
      | cons pt' pts' => rfl
    | cons pt pts =>
      cases pts' with
      | nil => rfl
      | cons pt' pts' =>
        simp only [List.zipWith_cons_cons, List.cons.injEq]
        refine ⟨?_, ih pts pts'⟩
        simp only [addCt, Prod.mk.injEq]
        exact ⟨add_right_comm _ _ _, add_right_comm _ _ _⟩

instance (scale : Nat) : RightCommutative (addAdmitted S scale) where
  right_comm := by
    intro accs ab ab'
    unfold addAdmitted
    split
    · rfl
    · split
      · rfl
      · exact addPoints_comm _ _ _ _ _

/-- The sums do not depend on the order of the ballots, nor on their sequence numbers. -/
theorem aggregatePoints_perm {numCandidates scale : Nat} {admitted admitted' : List AdmittedBallot}
    (h : ∀ ab ∈ admitted, Decodes S numCandidates ab.envelope)
    (h' : ∀ ab ∈ admitted', Decodes S numCandidates ab.envelope)
    (hperm : (admitted.map fun ab => (ab.envelope, ab.weight)).Perm
      (admitted'.map fun ab => (ab.envelope, ab.weight))) :
    aggregatePoints S admitted numCandidates scale = aggregatePoints S admitted' numCandidates scale := by
  rw [aggregatePoints_eq h, aggregatePoints_eq h', hperm.foldl_eq]

end

/-! ## Validity -/

section
variable {G₁ G₂ : Type} [AddCommGroup G₁] [AddCommGroup G₂] [DecidableEq G₁] [DecidableEq G₂]
  {S : Suite G₁ G₂} {config : ElectionConfig} {mpk : G₂}

/-- A ballot whose canonical message exists is verified without an exception. -/
theorem verifyBallotCrypto_returns_of_message {env : BallotEnvelope} {numCandidates budget : Nat}
    (hbranches : numCandidates * (budget + 1) ≤ 2500)
    (hmessage : Returns (canonicalBallotMessage env.electionId env.pseudonym
      (ciphertextPairs env.ciphertexts) env.zkProof env.attestation)) :
    Returns (verifyBallotCrypto S mpk env numCandidates budget) := by
  unfold verifyBallotCrypto
  cases hdec : decodeBallotCrypto S mpk env numCandidates budget with
  | none => exact .ok _
  | some d =>
    have hd := decodeBallotCrypto_some hdec
    obtain ⟨ok, hok⟩ := verifyBallotProofs_returns mpk hd
    obtain ⟨body, hbody⟩ := ballotMessageBody_returns hd hbranches
    dsimp only
    rw [hok, ok_bind]
    split
    · split
      · exact .ok _
      · exact (verifyBallotSignature_returns_iff d.vk _ _ hbody).mpr hmessage
    · exact .ok _

theorem validateBallot_returns_of_message {sb : StoredBallot}
    (hmessage : Returns (canonicalBallotMessage sb.envelope.electionId sb.envelope.pseudonym
      (ciphertextPairs sb.envelope.ciphertexts) sb.envelope.zkProof sb.envelope.attestation)) :
    Returns (validateBallot S sb config mpk) := by
  unfold validateBallot
  dsimp only
  split
  · exact .ok _
  · exact (verifyBallotCrypto_returns_of_message config.branches_le hmessage).bind fun _ _ => .ok _

theorem decodes_of_decodeBallotCrypto {env : BallotEnvelope} {numCandidates budget : Nat}
    {d : DecodedBallot G₁ G₂} (h : decodeBallotCrypto S mpk env numCandidates budget = some d) :
    Decodes S numCandidates env := by
  have hlen := (decodeBallotCrypto_some h).ctsPts
  unfold decodeBallotCrypto at h
  -- past the seven checks before the ciphertexts
  iterate 7
    split at h
    · cases h
  split at h
  · cases h
  · rename_i pts hpts
    split at h
    · cases h
    · cases h
      exact ⟨pts, hpts, hlen⟩

/-- A ballot that passes the first checks is of the election, with a credential for its own pseudonym and
    key. -/
theorem binds_of_validateBallot {sb : StoredBallot} (h : validateBallot S sb config mpk = .ok none) :
    sb.envelope.electionId = config.electionId ∧ sb.envelope.attestation.electionId = config.electionId ∧
      sb.envelope.attestation.pseudonym = sb.envelope.pseudonym ∧ sb.envelope.attestation.vk = sb.envelope.vk := by
  unfold validateBallot at h
  dsimp only at h
  split at h
  · cases h
  · rename_i hpre
    unfold precheckBallot at hpre
    dsimp only at hpre
    split_ifs at hpre with hid _ hatt
    push Not at hatt
    exact ⟨not_not.mp hid, hatt⟩

/-- What a valid ballot has: its credential is for its own election and pseudonym, and its
    ciphertexts decode. -/
theorem of_validateBallot {sb : StoredBallot} (h : validateBallot S sb config mpk = .ok none) :
    sb.envelope.attestation.electionId = config.electionId ∧
      sb.envelope.attestation.pseudonym = sb.envelope.pseudonym ∧
      Decodes S config.numCandidates sb.envelope := by
  obtain ⟨-, helection, hpseudonym, -⟩ := binds_of_validateBallot h
  refine ⟨helection, hpseudonym, ?_⟩
  unfold validateBallot at h
  dsimp only at h
  split at h
  · cases h
  obtain ⟨reason, hreason, h⟩ := bind_eq_ok.mp h
  obtain rfl : reason = none := by simpa using h
  unfold verifyBallotCrypto at hreason
  split at hreason
  · cases hreason
  · rename_i d hdec
    exact decodes_of_decodeBallotCrypto hdec

/-- The message of a ballot valid on its own is built: its signature is over it. -/
theorem message_of_validateBallot {sb : StoredBallot} (h : validateBallot S sb config mpk = .ok none) :
    ∃ msg, canonicalBallotMessage sb.envelope.electionId sb.envelope.pseudonym
      (ciphertextPairs sb.envelope.ciphertexts) sb.envelope.zkProof sb.envelope.attestation = .ok msg := by
  unfold validateBallot at h
  dsimp only at h
  split at h
  · cases h
  obtain ⟨reason, hreason, h⟩ := bind_eq_ok.mp h
  obtain rfl : reason = none := by simpa using h
  unfold verifyBallotCrypto at hreason
  split at hreason
  · cases hreason
  obtain ⟨ok, -, hreason⟩ := bind_eq_ok.mp hreason
  split at hreason
  · split at hreason
    · cases hreason
    · obtain ⟨msg, hmsg, -⟩ := bind_eq_ok.mp hreason
      exact ⟨msg, hmsg⟩
  · cases hreason

/-- Weight and nonce of a ballot valid on its own fit the 32 bytes each has in its message. -/
theorem credential_bounds {sb : StoredBallot} (h : validateBallot S sb config mpk = .ok none) :
    (0 ≤ sb.envelope.attestation.weight ∧ sb.envelope.attestation.weight < 2 ^ 256) ∧
      0 ≤ sb.envelope.attestation.nonce ∧ sb.envelope.attestation.nonce < 2 ^ 256 := by
  obtain ⟨msg, hmsg⟩ := message_of_validateBallot h
  obtain ⟨_, _, weight, nonce, _, hfields⟩ := canonicalBallotMessage_eq_ok hmsg
  have hbound : (256 : Int) ^ 32 = 2 ^ 256 := by norm_num
  obtain ⟨hw0, hw, -⟩ := toBytes_eq_ok hfields.weight_eq
  obtain ⟨hn0, hn, -⟩ := toBytes_eq_ok hfields.nonce_eq
  exact ⟨⟨hw0, hw.trans_eq hbound⟩, hn0, hn.trans_eq hbound⟩

/-- A valid ballot came inside the window. -/
theorem opened_of_validateBallot {sb : StoredBallot} (h : validateBallot S sb config mpk = .ok none) :
    ∀ time, sb.submittedAt = some time → isVotingOpen config time = true := by
  intro time htime
  unfold validateBallot at h
  dsimp only at h
  split at h
  · cases h
  · rename_i hpre
    unfold precheckBallot at hpre
    dsimp only at hpre
    split_ifs at hpre with _ hwindow
    rw [htime, Option.any_some] at hwindow
    simpa using hwindow

/-- Validity asks of the storage time only that it is inside the window. -/
theorem validateBallot_congr {sb sb' : StoredBallot} (henv : sb.envelope = sb'.envelope)
    (htime : ∀ time, sb.submittedAt = some time → isVotingOpen config time = true)
    (htime' : ∀ time, sb'.submittedAt = some time → isVotingOpen config time = true) :
    validateBallot S sb config mpk = validateBallot S sb' config mpk := by
  have hopen : ∀ b : StoredBallot, (∀ time, b.submittedAt = some time → isVotingOpen config time = true) →
      (b.submittedAt.any fun time => !isVotingOpen config time) = false := by
    intro b hb
    cases htime : b.submittedAt with
    | none => rfl
    | some time =>
      rw [Option.any_some, hb time htime]
      rfl
  unfold validateBallot precheckBallot
  rw [hopen sb htime, hopen sb' htime', henv]

/-- Admission over ballots whose validation returns: the duplicate policy runs over the valid
    ones, in their order. -/
theorem admitBallots_valid {mpkBytes : Bytes} (hkey : g2FromCompressed S.g2 mpkBytes = .ok mpk)
    {ballots : List StoredBallot}
    (hreturns : ∀ sb ∈ ballots, Returns (validateBallot S sb config mpk)) :
    ∃ valid : List StoredBallot, valid.Sublist ballots ∧
      (∀ sb, sb ∈ valid ↔ sb ∈ ballots ∧ validateBallot S sb config mpk = .ok none) ∧
      ∃ result, admitBallots S ballots config mpkBytes = .ok result ∧
        result.admitted = (admittedBallots valid config.duplicatePolicy).map StoredBallot.admitted ∧
        result.totalAdmittedWeight = (result.admitted.map AdmittedBallot.weight).sum := by
  obtain ⟨reasons, hreasons, hfst⟩ := exists_mapM_tagged hreturns
  refine ⟨(reasons.filter fun sr => sr.2.isNone).map Prod.fst, ?_, ?_,
    resolveDuplicates config.duplicatePolicy reasons, ?_, ?_, ?_⟩
  · rw [← hfst]
    exact List.filter_sublist.map Prod.fst
  · intro sb
    have hpair := (of_mapM_tagged hreasons).2
    rw [← hfst]
    constructor
    · intro h
      obtain ⟨sr, hsr, rfl⟩ := List.mem_map.mp h
      obtain ⟨hmem, hnone⟩ := List.mem_filter.mp hsr
      refine ⟨List.mem_map.mpr ⟨sr, hmem, rfl⟩, ?_⟩
      rw [hpair sr hmem, Option.isNone_iff_eq_none.mp hnone]
    · intro h
      obtain ⟨hmem, hvalid⟩ := h
      obtain ⟨sr, hsr, rfl⟩ := List.mem_map.mp hmem
      refine List.mem_map.mpr ⟨sr, List.mem_filter.mpr ⟨hsr, ?_⟩, rfl⟩
      rw [hpair sr hsr, Except.ok.injEq] at hvalid
      rw [hvalid]
      rfl
  · rw [admitBallots, hkey, ok_bind, hreasons, ok_bind]
    rfl
  · exact resolveDuplicates_admitted config.duplicatePolicy reasons
  · rfl

/-- Admission that returned decoded the key and validated every ballot. -/
theorem admitBallots_eq_ok {mpkBytes : Bytes} {ballots : List StoredBallot} {result : AdmissionResult}
    (h : admitBallots S ballots config mpkBytes = .ok result) :
    ∃ mpk, g2FromCompressed S.g2 mpkBytes = .ok mpk ∧
      ∃ reasons, (ballots.mapM fun sb => do
          let reason ← validateBallot S sb config mpk
          pure (sb, reason) : Py _) = .ok reasons ∧
        result = resolveDuplicates config.duplicatePolicy reasons := by
  rw [admitBallots] at h
  obtain ⟨mpk, hmpk, h⟩ := bind_eq_ok.mp h
  obtain ⟨reasons, hreasons, h⟩ := bind_eq_ok.mp h
  cases h
  exact ⟨mpk, hmpk, reasons, hreasons, rfl⟩

/-- An admitted ballot is one of the stored ones that is valid on its own. -/
theorem of_mem_admitted {ballots : List StoredBallot}
    {reasons : List (StoredBallot × Option ExclusionReason)}
    (hreasons : (ballots.mapM fun sb => do
      let reason ← validateBallot S sb config mpk
      pure (sb, reason) : Py _) = .ok reasons) {ab : AdmittedBallot}
    (hab : ab ∈ (resolveDuplicates config.duplicatePolicy reasons).admitted) :
    ∃ sb ∈ ballots, validateBallot S sb config mpk = .ok none ∧ ab = sb.admitted := by
  rw [resolveDuplicates_admitted] at hab
  obtain ⟨sb, hsb, rfl⟩ := List.mem_map.mp hab
  obtain ⟨sr, hsr, rfl⟩ := List.mem_map.mp (List.mem_filter.mp hsb).1
  obtain ⟨hmem, hnone⟩ := List.mem_filter.mp hsr
  obtain ⟨hfst, hreason⟩ := of_mapM_tagged hreasons
  refine ⟨sr.1, hfst ▸ List.mem_map_of_mem hmem, ?_, rfl⟩
  rw [hreason sr hmem, Option.isNone_iff_eq_none.mp hnone]

end
end ElGamalVoting
