import ElGamalVoting.Core.ShareList
import ElGamalVoting.Core.WeightedSum
import ElGamalVoting.Services.Keyper

/- The tally of an honest committee, from the DKG to the recovered totals.

   The pieces are those of the modules below: the committee's key
   (`DkgComplete`), what the aggregate encrypts (`aggregatePoints_encrypts`),
   that an honest share is accepted (`checkEntry_decryptEntry`), that the
   accepted shares decrypt (`ShareInput.robust_of_pattern`) and that the search
   within the bound is exact (`babyStepGiantStepWithTable_iff`). -/
namespace ElGamalVoting
open Lib

section
variable {G₁ G₂ : Type} [AddCommGroup G₁] [AddCommGroup G₂] {S : Suite G₁ G₂} {E : EthLib}

/-! ## An honestly produced share is accepted -/

theorem decryptEntry_eq_ok {dkg : KeyperDKGState G₂} {index w : Int} {electionId : Bytes} {j : Nat}
    {ct : Ciphertext} {entry : DecryptionShareEntry}
    (h : decryptEntry S dkg index electionId j ct w = .ok entry) :
    electionId.length = 32 ∧ j < 2 ^ 16 := by
  rw [decryptEntry] at h
  obtain ⟨_, _, h⟩ := bind_eq_ok.mp h
  obtain ⟨_, _, h⟩ := bind_eq_ok.mp h
  obtain ⟨_, _, h⟩ := bind_eq_ok.mp h
  obtain ⟨t, ht, -⟩ := bind_eq_ok.mp h
  obtain ⟨he, -, hj⟩ := of_makeDecryptTranscript ht
  exact ⟨he, by omega⟩

/-- What a produced share is: the entries of the published aggregate, in order. -/
theorem produceDecryptionShare_eq_some {keyper : KeyperService G₂} {dl : DataLayer}
    {electionId : Bytes} {now : Int} {nonce : Nat → Int} {share : DecryptionShareEnvelope} {sig : Bytes}
    {A : AggregateArtifact} (hagg : dl.getAggregate electionId = .ok (some A))
    (h : keyper.produceDecryptionShare S E dl electionId now nonce = .ok (some (share, sig))) :
    share.keyperIndex = keyper.index ∧
      keyper.decryptEntries S electionId A.aggregates nonce = .ok share.entries := by
  rw [KeyperService.produceDecryptionShare] at h
  obtain ⟨_, _, h⟩ := bind_eq_ok.mp h
  rw [hagg, ok_bind] at h
  obtain ⟨submitted, _, h⟩ := bind_eq_ok.mp h
  by_cases hany : submitted.any fun s => s.keyperIndex == keyper.index
  · rw [if_pos hany] at h
    cases h
  · rw [if_neg hany] at h
    obtain ⟨entries, hentries, h⟩ := bind_eq_ok.mp h
    obtain ⟨_, _, h⟩ := bind_eq_ok.mp h
    obtain ⟨_, _, h⟩ := bind_eq_ok.mp h
    cases h
    exact ⟨rfl, hentries⟩

/-- A share of `A` that keyper `i`, with DKG state `dkg i`, produced for some data layer that
    published `A`. -/
def HonestShare (S : Suite G₁ G₂) (E : EthLib) (dkg : Int → KeyperDKGState G₂) (electionId : Bytes)
    (A : AggregateArtifact) (i : Int) (share : DecryptionShareEnvelope) : Prop :=
  ∃ (signer : Signer) (dl : DataLayer) (now : Int) (nonce : Nat → Int) (sig : Bytes),
    dl.getAggregate electionId = .ok (some A) ∧
    KeyperService.produceDecryptionShare S E ⟨i, signer, dkg i⟩ dl electionId now nonce =
      .ok (some (share, sig))

/-- An envelope that counts at no candidate of `A`. -/
def FailsEverywhere (S : Suite G₁ G₂) (electionId : Bytes) (committeePks : List Bytes)
    (A : AggregateArtifact) (share : DecryptionShareEnvelope) : Prop :=
  ∀ j ct C, A.aggregates[j]? = some ct → decodeCiphertext S (ct.c1, ct.c2) = .ok C →
    checkEntry S electionId committeePks j C.1 C.2 share = .ok none

variable {electionId : Bytes} {A : AggregateArtifact} {points : List (G₂ × G₂)}
  {committeePks : List Bytes} {dkg : Int → KeyperDKGState G₂} {i s : Int}
  {share : DecryptionShareEnvelope}

theorem HonestShare.keyperIndex (h : HonestShare S E dkg electionId A i share) :
    share.keyperIndex = i := by
  obtain ⟨signer, dl, now, nonce, sig, hagg, h⟩ := h
  exact (produceDecryptionShare_eq_some hagg h).1

theorem HonestShare.checkEntry (h : HonestShare S E dkg electionId A i share)
    (hs : (dkg i).combinedShare = some s) (hpk : (dkg i).publicKeyShare = some (mul S.g2.gen s))
    (hn : committeePks.length < 2 ^ 16) (hi : 1 ≤ i ∧ i ≤ committeePks.length)
    (hkey : g2FromCompressed S.g2 (committeePks.getD (i - 1).toNat []) = .ok (mul S.g2.gen s))
    {j : Nat} {ct : Ciphertext} {C : G₂ × G₂} (hct : A.aggregates[j]? = some ct)
    (hC : decodeCiphertext S (ct.c1, ct.c2) = .ok C) :
    checkEntry S electionId committeePks j C.1 C.2 share = .ok (some (i, mul C.1 s)) := by
  obtain ⟨signer, dl, now, nonce, sig, hagg, h⟩ := h
  obtain ⟨hindex, hentries⟩ := produceDecryptionShare_eq_some hagg h
  have hzip : A.aggregates.zipIdx[j]? = some (ct, j) := by
    rw [List.getElem?_zipIdx, hct, Option.map_some, zero_add]
  obtain ⟨entry, hentry, hok⟩ := forall₂_getElem? (mapM_eq_ok.mp hentries) hzip
  obtain ⟨he, hj⟩ := decryptEntry_eq_ok hok
  obtain ⟨entry', hok', hcheck⟩ := checkEntry_decryptEntry hs hpk hC he hj hn hi hkey
  obtain rfl : entry = entry' := Except.ok.inj (hok.symm.trans hok')
  exact hcheck share hindex hentry

/-! ## The list an honest quorum leaves -/

section Committee
variable [DecidableEq G₂] {config : ElectionConfig} {comms : Dict Int (List G₂)}
  {st : Int → KeyperDKGState G₂} {received : Int → Dict Int Int}
  {out : Int → KeyperDKGState G₂ × Int × G₂} {honest bad shares : List DecryptionShareEnvelope}

/-- The committee keys as published after the DKG. -/
def publishedCommittee (g : PointGroup g2Bytes G₂) (n : Nat) (out : Int → KeyperDKGState G₂ × Int × G₂) :
    List Bytes :=
  (keyperIndices n).map fun i => g.toCompressed (mul g.gen (out i).2.1)

/-- A share list of an honest quorum among envelopes that count at no candidate: their entries are
    missing, malformed or fail the check. A partly valid copy of a keyper's envelope is not among
    them; its valid entries would repeat an accepted index. -/
structure QuorumList (S : Suite G₁ G₂) (E : EthLib) (config : ElectionConfig) (A : AggregateArtifact)
    (out : Int → KeyperDKGState G₂ × Int × G₂) (committeePks : List Bytes)
    (honest bad shares : List DecryptionShareEnvelope) : Prop where
  perm : shares.Perm (honest ++ bad)
  distinct : (honest.map DecryptionShareEnvelope.keyperIndex).Nodup
  quorum : config.threshold.t ≤ honest.length
  produced : ∀ share ∈ honest, ∃ i ∈ keyperIndices config.threshold.n,
    HonestShare S E (fun i => (out i).1) config.electionId A i share
  rejected : ∀ share ∈ bad, FailsEverywhere S config.electionId committeePks A share

namespace QuorumList

/-- At every candidate, an honest share counts with the keyper's own index and partial
    decryption, and the others do not count. -/
theorem accepted (hdkg : DkgComplete S.g2 config.threshold.n config.threshold.t comms st received out)
    (hn : config.threshold.n < 2 ^ 16)
    (hlist : QuorumList S E config A out (publishedCommittee S.g2 config.threshold.n out) honest bad
      shares)
    (hpoints : A.aggregates.mapM (fun ct => decodeCiphertext S (ct.c1, ct.c2)) = .ok points)
    {p : (G₂ × G₂) × Nat} (hp : p ∈ points.zipIdx) :
    (acceptedShares S config.electionId (publishedCommittee S.g2 config.threshold.n out) p.2 p.1
      shares).Perm (honest.map fun share =>
        (share.keyperIndex, mul p.1.1 (out share.keyperIndex).2.1)) := by
  have hget := List.mem_zipIdx_iff_getElem?.mp hp
  obtain ⟨ct, hct, hC⟩ := forall₂_getElem? (List.Forall₂.flip (mapM_eq_ok.mp hpoints)) hget
  have hlen : (publishedCommittee S.g2 config.threshold.n out).length = config.threshold.n := by
    simp [publishedCommittee]
  have hhonest : ∀ share ∈ honest,
      acceptedShare S config.electionId (publishedCommittee S.g2 config.threshold.n out) p.2 p.1 share =
        some (share.keyperIndex, mul p.1.1 (out share.keyperIndex).2.1) := by
    intro share hshare
    obtain ⟨i, hi, hprod⟩ := hlist.produced share hshare
    obtain ⟨hcombined, hpublic⟩ := hdkg.held hi
    have hb := mem_keyperIndices.mp hi
    rw [hprod.keyperIndex]
    refine acceptedShare_of_ok (hprod.checkEntry hcombined hpublic (by omega) (by omega) ?_ hct hC)
    rw [publishedCommittee, getD_map_keyperIndices hi]
    exact S.g2.decodePoint_toCompressed _ _
  have hbad : ∀ share ∈ bad,
      acceptedShare S config.electionId (publishedCommittee S.g2 config.threshold.n out) p.2 p.1 share =
        none :=
    fun share hshare => acceptedShare_of_ok (hlist.rejected share hshare p.2 ct p.1 hct hC)
  have hsplit := hlist.perm.filterMap
    (acceptedShare S config.electionId (publishedCommittee S.g2 config.threshold.n out) p.2 p.1)
  rw [List.filterMap_append, List.filterMap_eq_nil_iff.mpr hbad, List.append_nil,
    List.filterMap_congr hhonest, List.filterMap_eq_map'] at hsplit
  exact hsplit

/-- The input of the recovery that such a list makes. -/
noncomputable def input
    (hdkg : DkgComplete S.g2 config.threshold.n config.threshold.t comms st received out)
    (hn : config.threshold.n < 2 ^ 16)
    (hlist : QuorumList S E config A out (publishedCommittee S.g2 config.threshold.n out) honest bad
      shares)
    (hpoints : A.aggregates.mapM (fun ct => decodeCiphertext S (ct.c1, ct.c2)) = .ok points) :
    ShareInput S where
  config := config
  aggregate := A
  points := points
  committeePks := publishedCommittee S.g2 config.threshold.n out
  quorum := config.threshold.t
  shares := shares
  msk := DkgComplete.secret S.g2 comms
  mskShare := fun i => (out i).2.1
  decodes := hpoints
  keys_decode := by
    intro pk hpk
    obtain ⟨i, -, rfl⟩ := List.mem_map.mp hpk
    exact ⟨_, S.g2.decodePoint_toCompressed _ _⟩
  length_committeePks := by simpa [publishedCommittee] using hn
  one_le_quorum := config.threshold.one_le_t
  sharing := by
    refine ⟨jointPoly S.g2 comms, degree_jointPoly_lt S.g2 hdkg.lengths,
      (DkgComplete.cast_secret S.g2 comms).symm, fun i hi => hdkg.combined_eq ?_⟩
    simpa [publishedCommittee] using hi
  sound := by
    intro p hp share hshare s hs
    have hmem := mem_acceptedShares.mpr ⟨share, hshare, hs⟩
    obtain ⟨honestShare, -, rfl⟩ := List.mem_map.mp
      ((hlist.accepted hdkg hn hpoints hp).mem_iff.mp hmem)
    exact S.g2.mul_eq_zsmul _ _

/-- Recovery from such a list leaves the plaintexts in the exponent. -/
theorem taus
    (hdkg : DkgComplete S.g2 config.threshold.n config.threshold.t comms st received out)
    (hn : config.threshold.n < 2 ^ 16)
    (hlist : QuorumList S E config A out (publishedCommittee S.g2 config.threshold.n out) honest bad
      shares)
    (hpoints : A.aggregates.mapM (fun ct => decodeCiphertext S (ct.c1, ct.c2)) = .ok points) :
    ∃ used, deriveTaus S config A shares (publishedCommittee S.g2 config.threshold.n out)
      config.threshold.t =
        .ok (some (points.map fun C => C.2 - DkgComplete.secret S.g2 comms • C.1, used)) := by
  set I := hlist.input hdkg hn hpoints with hI
  have hperm : ∀ p ∈ I.points.zipIdx, ((I.accepted p).map Prod.fst).Perm
      (honest.map DecryptionShareEnvelope.keyperIndex) := by
    intro p hp
    have h := (hlist.accepted hdkg hn hpoints hp).map Prod.fst
    rwa [List.map_map] at h
  have hpattern : PatternOk I.quorum I.pattern := by
    intro _ l hl
    obtain ⟨p, hp, rfl⟩ := List.mem_map.mp hl
    exact ((hperm p hp).nodup_iff.mpr hlist.distinct).sublist (List.take_sublist _ _)
  obtain ⟨⟨taus, used⟩, hrun⟩ := I.run_returns fun p hp => by
    have hlen := (hperm p hp).length_eq
    rw [List.length_map, List.length_map] at hlen
    rw [hlen]
    exact hlist.quorum
  have htaus : taus = points.map fun C => C.2 - DkgComplete.secret S.g2 comms • C.1 :=
    (I.robust_of_pattern hpattern).1 taus used hrun
  subst htaus
  exact ⟨used, hrun⟩

end QuorumList

/-! ## The totals -/

/-- The ballots that are summed: encryptions under `mpk` of votes within the budget, with
    positive weights. -/
def CastUnder (S : Suite G₁ G₂) (mpk : G₂) (config : ElectionConfig) (admitted : List AdmittedBallot)
    (votes : List (List Int)) : Prop :=
  List.Forall₂ (fun ab vs => EncryptVotes S mpk ab.envelope.ciphertexts vs ∧ 1 ≤ ab.weight ∧
    WithinBudget config.budget vs) admitted votes

omit [DecidableEq G₂] in
/-- With the secret behind the key, what is left of the aggregate is the weighted sums in
    the exponent. -/
theorem decrypted_aggregate {msk : Int} {admission : AdmissionResult} {votes : List (List Int)}
    (hvotes : List.Forall₂ (fun ab vs => EncryptVotes S (mul S.g2.gen msk) ab.envelope.ciphertexts vs)
      admission.admitted votes)
    (hpoints : aggregatePoints S admission.admitted config.numCandidates config.scale = .ok points) :
    (points.map fun C => C.2 - msk • C.1) = (List.range config.numCandidates).map fun j =>
      candidateTotal config.scale admission.admitted votes j • S.g2.gen := by
  obtain ⟨henc, hlen⟩ := aggregatePoints_encrypts hvotes hpoints
  apply List.ext_getElem?
  intro j
  rw [List.getElem?_map, List.getElem?_map]
  by_cases hj : j < config.numCandidates
  · rw [List.getElem?_range hj, List.getElem?_eq_getElem (by omega), Option.map_some, Option.map_some]
    congr 1
    exact (henc j _ (List.getElem?_eq_getElem (by omega))).sub_smul (S.g2.mul_eq_zsmul _ _)
  · rw [List.getElem?_eq_none (by omega), List.getElem?_eq_none (by simpa using hj)]
    rfl

/-- Searching every candidate's point within the bound finds its total. -/
theorem recoverResult_of_taus {used : List Int} {total : Nat → Int} {quorum : Nat}
    {ceiling : Option Int}
    (hceiling : ∀ c ∈ ceiling, bsgsBound config A.totalScaledWeight ≤ c)
    (hbound : bsgsBound config A.totalScaledWeight < curveOrder)
    (htotal : ∀ j, 0 ≤ total j ∧ total j ≤ bsgsBound config A.totalScaledWeight)
    (htaus : deriveTaus S config A shares committeePks quorum =
      .ok (some ((List.range config.numCandidates).map fun j => total j • S.g2.gen, used))) :
    recoverResult S config A shares committeePks quorum ceiling = .ok (some {
      electionId := config.electionId
      totals := (List.range config.numCandidates).map total
      keyperIndices := used
      bsgsBound := bsgsBound config A.totalScaledWeight }) := by
  have hfilter : ceiling.filter (fun c => decide (c < bsgsBound config A.totalScaledWeight)) = none := by
    rw [Option.filter_eq_none_iff]
    intro c hc
    simpa using hceiling c hc
  have hsearch : ((List.range config.numCandidates).map fun j => total j • S.g2.gen).mapM
      (fun tau => babyStepGiantStepWithTable S.g2 tau
        (buildBabyStepTable S.g2 (bsgsBound config A.totalScaledWeight))) =
      some ((List.range config.numCandidates).map total) := by
    rw [List.mapM_map]
    apply mapM_some_of
    intro j _
    have h0 : 0 ≤ bsgsBound config A.totalScaledWeight := le_trans (htotal j).1 (htotal j).2
    exact (babyStepGiantStepWithTable_iff S.g2 h0 hbound _ _).mpr ⟨(htotal j).1, (htotal j).2, rfl⟩
  rw [recoverResult]
  simp only [hfilter]
  rw [htaus, ok_bind]
  simp only [hsearch]
  rfl

end Committee

/-- End-to-end tally correctness: from honest dealers, ballots that encrypt votes under the
    joint key and a share list with an honest quorum in it, the recovered totals are the
    weighted sums of the votes. -/
theorem tally_correct [DecidableEq G₂] (S : Suite G₁ G₂) (E : EthLib) {config : ElectionConfig}
    (hn : config.threshold.n < 2 ^ 16) (coeff : Int → Nat → Int) {mpk : G₂} {committee : List G₂}
    (hmpk : deriveJointMpk (honestCommitments S.g2 config.threshold.n config.threshold.t coeff)
      config.threshold.t = .ok mpk)
    (hcommittee :
      (sortedKeys (honestCommitments S.g2 config.threshold.n config.threshold.t coeff)).mapM
        (fun i : Int => deriveMpkShare i
          (honestCommitments S.g2 config.threshold.n config.threshold.t coeff) config.threshold.t) =
        .ok committee)
    {admission : AdmissionResult} {votes : List (List Int)}
    (hvotes : CastUnder S mpk config admission.admitted votes)
    {A : AggregateArtifact} (hbuild : buildAggregateArtifact S config admission = .ok A)
    (hbound : bsgsBound config A.totalScaledWeight < curveOrder)
    {honest bad shares : List DecryptionShareEnvelope}
    (hlist : QuorumList S E config A
      (honestOut S.g2 config.threshold.n config.threshold.t coeff)
      (committee.map S.g2.toCompressed) honest bad shares)
    {ceiling : Option Int} (hceiling : ∀ c ∈ ceiling, bsgsBound config A.totalScaledWeight ≤ c) :
    ∃ r, recoverResult S config A shares (committee.map S.g2.toCompressed) config.threshold.t ceiling =
        .ok (some r) ∧
      r.totals = (List.range config.numCandidates).map
        (candidateTotal config.scale admission.admitted votes) := by
  have hdkg := honest_dkgComplete S.g2 config.threshold.n config.threshold.t coeff
  have hpks : committee.map S.g2.toCompressed = publishedCommittee S.g2 config.threshold.n
      (honestOut S.g2 config.threshold.n config.threshold.t coeff) := by
    rw [hdkg.committee, Except.ok.injEq] at hcommittee
    rw [← hcommittee, List.map_map]
    rfl
  -- the committee and the key of the run are those of the secret the dealers share
  rw [hpks] at hlist ⊢
  rw [hdkg.jointMpk config.threshold.one_le_t, Except.ok.injEq] at hmpk
  subst hmpk
  obtain ⟨points, hpoints, hdecode, hscaled⟩ := buildAggregateArtifact_eq_ok hbuild
  obtain ⟨used, htaus⟩ := hlist.taus hdkg hn hdecode
  rw [decrypted_aggregate (hvotes.imp fun _ _ h => h.1) hpoints] at htaus
  -- each total is within the bound, so the search for the logarithm ends at it
  have htotal : ∀ j, 0 ≤ candidateTotal config.scale admission.admitted votes j ∧
      candidateTotal config.scale admission.admitted votes j ≤ bsgsBound config A.totalScaledWeight := by
    intro j
    rw [bsgsBound, hscaled]
    exact candidateTotal_bounds j (hvotes.imp fun _ _ h => ⟨by omega, h.2.2⟩)
  exact ⟨_, recoverResult_of_taus hceiling hbound htotal htaus, rfl⟩

end

/-! ## A small tally

    A committee of three, two of which decrypt, and one ballot of weight three for the one
    candidate. -/

namespace SampleTally

def coeff : Int → Nat → Int := fun d j => 5 * d + j

def ciphertext : Ciphertext :=
  ⟨Residue.suite.g2.toCompressed (mul Residue.suite.g2.gen 7),
    Residue.suite.g2.toCompressed
      (mul (mul Residue.suite.g2.gen 30) 7 + mul Residue.suite.g2.gen 1)⟩

def admission : AdmissionResult where
  admitted := [⟨0, ⟨smallConfig.electionId, [], [], [ciphertext], [], [],
    ⟨smallConfig.electionId, [], [], 3, [], .v1, 1⟩⟩, 3⟩]
  exclusions := []
  totalAdmittedWeight := 3

def aggregate : AggregateArtifact where
  electionId := smallConfig.electionId
  aggregates := [⟨Residue.suite.g2.toCompressed (mul Residue.suite.g2.gen 21),
    Residue.suite.g2.toCompressed (mul Residue.suite.g2.gen 633)⟩]
  admitted := [0]
  exclusions := []
  totalAdmittedWeight := 3
  totalScaledWeight := 3

@[irreducible] def committee : List Residue :=
  (keyperIndices 3).map fun i => mul Residue.suite.g2.gen (honestOut Residue.suite.g2 3 2 coeff i).2.1

/-- A data layer after the close of voting that published the aggregate. -/
def dataLayer : DataLayer where
  getElection _ := .ok ⟨smallConfig, false, some ⟨[], []⟩, false⟩
  getDkgSubmissions _ := .ok []
  getFinalizedKey _ := .ok none
  listBallots _ _ _ := .ok []
  countBallots _ := .ok 0
  getAggregate _ := .ok (some aggregate)
  listDecryptionShares _ := .ok []
  getResult _ := .ok none

def produced (i : Int) : Py (Option (DecryptionShareEnvelope × Bytes)) :=
  KeyperService.produceDecryptionShare Residue.suite plainEth
    ⟨i, ⟨i⟩, (honestOut Residue.suite.g2 3 2 coeff i).1⟩ dataLayer smallConfig.electionId 250 fun _ => 9

@[irreducible] def share (i : Int) : DecryptionShareEnvelope :=
  match produced i with
  | .ok (some (share, _)) => share
  | _ => ⟨[], 0, []⟩

@[irreducible] def signature (i : Int) : Bytes :=
  match produced i with
  | .ok (some (_, signature)) => signature
  | _ => []

/-- The first keyper's entries under the second's index. -/
@[irreducible] def junk : DecryptionShareEnvelope := { share 1 with keyperIndex := 2 }

theorem junk_fails : FailsEverywhere Residue.suite smallConfig.electionId
    (committee.map Residue.suite.g2.toCompressed) aggregate junk := by
  have hchecked : decodeCiphertext Residue.suite (Residue.suite.g2.toCompressed (mul Residue.suite.g2.gen 21),
      Residue.suite.g2.toCompressed (mul Residue.suite.g2.gen 633)) =
        .ok (mul Residue.suite.g2.gen 21, mul Residue.suite.g2.gen 633) ∧
      checkEntry Residue.suite smallConfig.electionId (committee.map Residue.suite.g2.toCompressed) 0
        (mul Residue.suite.g2.gen 21) (mul Residue.suite.g2.gen 633) junk = .ok none := by
    decide +kernel
  intro j ct C hct hC
  cases j with
  | zero =>
    cases hct
    cases hchecked.1.symm.trans hC
    exact hchecked.2
  | succ j => cases hct

theorem produced_eq : produced 1 = .ok (some (share 1, signature 1)) ∧
    produced 3 = .ok (some (share 3, signature 3)) := by
  decide +kernel

theorem quorumList : QuorumList Residue.suite plainEth smallConfig aggregate
    (honestOut Residue.suite.g2 3 2 coeff) (committee.map Residue.suite.g2.toCompressed)
    [share 3, share 1] [junk] [share 3, junk, share 1] where
  perm := List.Perm.cons _ (List.Perm.swap _ _ _)
  distinct := by decide +kernel
  quorum := by decide
  produced := by
    intro s hs
    rcases List.mem_cons.mp hs with rfl | hs
    · exact ⟨3, by decide, ⟨3⟩, dataLayer, 250, fun _ => 9, signature 3, rfl, produced_eq.2⟩
    · obtain rfl := List.mem_singleton.mp hs
      exact ⟨1, by decide, ⟨1⟩, dataLayer, 250, fun _ => 9, signature 1, rfl, produced_eq.1⟩
  rejected := by
    intro s hs
    obtain rfl := List.mem_singleton.mp hs
    exact junk_fails

theorem castUnder : CastUnder Residue.suite (mul Residue.suite.g2.gen 30) smallConfig
    admission.admitted [[1]] := by
  refine .cons ⟨.cons ⟨encrypt Residue.suite.g2 (mul Residue.suite.g2.gen 30) 1 7, ?_, 7, rfl⟩ .nil,
    by decide, by decide, by decide⟩ .nil
  decide +kernel

end SampleTally

open SampleTally in
/-- The ballot's three votes are recovered from two of the shares, the other being refused. -/
theorem tally_correct_three : ∃ r,
    recoverResult Residue.suite smallConfig aggregate [share 3, junk, share 1]
      (committee.map Residue.suite.g2.toCompressed) smallConfig.threshold.t none = .ok (some r) ∧
      r.totals = (List.range smallConfig.numCandidates).map
        (candidateTotal smallConfig.scale admission.admitted [[1]]) ∧
      candidateTotal smallConfig.scale admission.admitted [[1]] 0 = 3 := by
  obtain ⟨r, hr, htotals⟩ := tally_correct Residue.suite plainEth (by decide) coeff (by decide +kernel)
    (by decide +kernel) castUnder (by decide +kernel : buildAggregateArtifact Residue.suite smallConfig
      admission = .ok aggregate) (by decide +kernel) quorumList
      (by simp : ∀ c ∈ (none : Option Int), bsgsBound smallConfig aggregate.totalScaledWeight ≤ c)
  exact ⟨r, hr, htotals, by decide⟩

end ElGamalVoting
