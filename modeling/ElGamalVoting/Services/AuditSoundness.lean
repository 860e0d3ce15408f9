import ElGamalVoting.Core.AdmissionReturns
import ElGamalVoting.Core.ResultAgreement
import ElGamalVoting.Core.WeightedSum
import ElGamalVoting.Services.Auditor

/- What an audit without findings establishes.

   `AuditView` collects what the data layer answered to one audit. Nothing is assumed
   about it: the reads may be absent, inconsistent or made up. An audit whose
   report is `ok` has read all of it, and each of its links was checked: the
   signed key, the recomputed aggregate and the published totals.

   Outside the code are three assumptions. A recovered signer signed the digest
   of a submission (`Unforgeable`); an accepted share is the keyper's share of the secret times `C1`,
   and no keyper index occurs twice among the shares (`AuditView.Shared`). -/
namespace ElGamalVoting
open Lib

structure AuditView where
  config : ElectionConfig
  submissions : List DKGResultSubmission
  key : FinalizedKey
  total : Int
  ballots : List StoredBallot
  aggregate : AggregateArtifact
  shares : List DecryptionShareEnvelope
  result : ResultArtifact

/-- The view is what the data layer answers, every published value present. -/
structure AuditView.ReadFrom (v : AuditView) (dl : DataLayer) (electionId : Bytes) : Prop where
  config : (dl.getElection electionId).map ElectionRecord.config = .ok v.config
  submissions : dl.getDkgSubmissions electionId = .ok v.submissions
  key : dl.getFinalizedKey electionId = .ok (some v.key)
  total : dl.countBallots electionId = .ok v.total
  ballots : readAllBallots dl electionId = .ok v.ballots
  aggregate : dl.getAggregate electionId = .ok (some v.aggregate)
  shares : dl.listDecryptionShares electionId = .ok v.shares
  result : dl.getResult electionId = .ok (some v.result)

/-- The answers of a data layer make one view. -/
theorem AuditView.ReadFrom.unique {v w : AuditView} {dl : DataLayer} {electionId : Bytes}
    (hv : v.ReadFrom dl electionId) (hw : w.ReadFrom dl electionId) : v = w := by
  cases v
  cases w
  simp only [AuditView.mk.injEq]
  refine ⟨Except.ok.inj (hv.config.symm.trans hw.config),
    Except.ok.inj (hv.submissions.symm.trans hw.submissions),
    Option.some.inj (Except.ok.inj (hv.key.symm.trans hw.key)),
    Except.ok.inj (hv.total.symm.trans hw.total), Except.ok.inj (hv.ballots.symm.trans hw.ballots),
    Option.some.inj (Except.ok.inj (hv.aggregate.symm.trans hw.aggregate)),
    Except.ok.inj (hv.shares.symm.trans hw.shares),
    Option.some.inj (Except.ok.inj (hv.result.symm.trans hw.result))⟩

/-- Whoever is recovered from the signature of a submission has signed its content. -/
def Unforgeable (E : EthLib) (signed : Bytes → Bytes → Prop) (electionId : Bytes)
    (submissions : List DKGResultSubmission) : Prop :=
  ∀ sub ∈ submissions, ∀ key,
    E.recoverMessage (dkgResultDigest E electionId sub.pkElection sub.committeePks)
      sub.keyperSignature = some key →
    signed key (dkgResultDigest E electionId sub.pkElection sub.committeePks)

/-! ## The report -/

theorem AuditReport.ok_iff {report : AuditReport} : report.ok = true ↔
    report.dkgOk = true ∧ report.aggregateOk = true ∧ report.sharesOk = true ∧
      report.resultOk = true ∧ report.discrepancies = [] := by
  simp only [AuditReport.ok, Bool.and_eq_true, beq_iff_eq, and_assoc]

/-- A noted discrepancy is final. -/
theorem AuditReport.ok_note (report : AuditReport) (reason : String) :
    (report.note reason).ok = false := by
  rw [Bool.eq_false_iff]
  intro h
  have hnil := (AuditReport.ok_iff.mp h).2.2.2.2
  rw [AuditReport.note] at hnil
  exact absurd hnil (by simp)

/-! ## The key -/

section Key
variable {E : EthLib} {cfg : ElectionConfig} {electionId : Bytes}
  {submissions : List DKGResultSubmission} {publishedKey : Option FinalizedKey}

theorem recomputedKey_of_auditDkg
    (h : (auditDkg E cfg electionId submissions publishedKey).dkgOk = true) :
    ∃ key, publishedKey = some key ∧
      recomputedKey E cfg electionId submissions = some (key.pkElection, key.committeePks) := by
  rw [auditDkg] at h
  cases hrecomputed : recomputedKey E cfg electionId submissions with
  | none =>
    rw [hrecomputed] at h
    cases h
  | some finalized =>
    simp only [hrecomputed] at h
    by_cases hpublished : publishedKey.map (fun key => (key.pkElection, key.committeePks)) =
        some finalized
    · obtain ⟨key, hkey, rfl⟩ := Option.map_eq_some_iff.mp hpublished
      exact ⟨key, hkey, rfl⟩
    · rw [if_pos hpublished] at h
      cases h

theorem mem_signedVotes {i : Int} {content value : Bytes × List Bytes}
    (h : (i, content, value) ∈ signedVotes E cfg electionId submissions) :
    ∃ sub ∈ submissions, content = (sub.pkElection, sub.committeePks) ∧ ∃ key,
      E.recoverMessage (dkgResultDigest E electionId sub.pkElection sub.committeePks)
        sub.keyperSignature = some key ∧ memberIndex cfg key = some i := by
  obtain ⟨sub, hmem, hsub⟩ := List.mem_filterMap.mp h
  obtain ⟨idx, hidx, heq⟩ := Option.map_eq_some_iff.mp hsub
  cases heq
  obtain ⟨key, hrecover, hmember⟩ := Option.bind_eq_some_iff.mp hidx
  exact ⟨sub, hmem, rfl, key, hrecover, hmember⟩

/-- At least the threshold of distinct members of the committee signed the content. -/
def SignedByQuorum (E : EthLib) (signed : Bytes → Bytes → Prop) (cfg : ElectionConfig)
    (electionId pk : Bytes) (committeePks : List Bytes) : Prop :=
  ∃ signers : List Int, signers.Nodup ∧ cfg.threshold.t ≤ signers.length ∧
    ∀ i ∈ signers, ∃ key, memberIndex cfg key = some i ∧
      signed key (dkgResultDigest E electionId pk committeePks)

theorem signedByQuorum_of_recomputedKey {signed : Bytes → Bytes → Prop}
    (hunforgeable : Unforgeable E signed electionId submissions) {pk : Bytes} {committeePks : List Bytes}
    (h : recomputedKey E cfg electionId submissions = some (pk, committeePks)) :
    SignedByQuorum E signed cfg electionId pk committeePks := by
  obtain ⟨⟨content, group⟩, hfind, heq⟩ := Option.map_eq_some_iff.mp h
  cases heq
  have hgroup := Dict.get?_eq_some.mpr (List.mem_of_find?_eq_some hfind)
  have hgrouped := Quorum.grouped_groupVotes (signedVotes E cfg electionId submissions)
  refine ⟨group.2, hgrouped.nodup _ _ hgroup, by simpa using List.find?_some hfind, ?_⟩
  intro i hi
  obtain ⟨value, hvote⟩ := (hgrouped.voters _ _ hgroup i).mp hi
  obtain ⟨sub, hsub, hcontent, key, hrecover, hmember⟩ := mem_signedVotes hvote
  cases hcontent
  exact ⟨key, hmember, hunforgeable sub hsub key hrecover⟩

end Key

/-! ## The totals -/

section
variable {G₁ G₂ : Type} [AddCommGroup G₁] [AddCommGroup G₂] [DecidableEq G₂] {S : Suite G₁ G₂}

theorem auditResult_ok {report report' : AuditReport} {cfg : ElectionConfig} {agg : AggregateArtifact}
    {shares : List DecryptionShareEnvelope} {committeePks : List Bytes} {published : ResultArtifact}
    (h : auditResult S report cfg agg shares committeePks published = .ok report')
    (hok : report'.ok = true) :
    checkResult S cfg agg shares committeePks cfg.threshold.t published.totals = .ok none ∧
      report.dkgOk = true ∧ report.aggregateOk = true := by
  rw [auditResult] at h
  obtain ⟨reason, hreason, h⟩ := bind_eq_ok.mp h
  cases reason with
  | some reason =>
    cases h
    rw [AuditReport.ok_note] at hok
    cases hok
  | none =>
    refine ⟨hreason, ?_⟩
    simp only at h
    split at h
    · cases h
      rw [AuditReport.ok_note] at hok
      cases hok
    · cases h
      obtain ⟨hdkg, hagg, -⟩ := AuditReport.ok_iff.mp hok
      exact ⟨hdkg, hagg⟩

theorem recomputed_of_auditAggregate {report : AuditReport} (hreport : report.aggregateOk = false)
    {recomputed published : AggregateArtifact}
    (h : (auditAggregate report recomputed published).aggregateOk = true) : recomputed = published := by
  by_contra hne
  rw [auditAggregate, if_neg hne, hreport] at h
  cases h

theorem auditAggregate_dkgOk (report : AuditReport) (recomputed published : AggregateArtifact) :
    (auditAggregate report recomputed published).dkgOk = report.dkgOk := by
  rw [auditAggregate]
  split <;> rfl

theorem auditDkg_aggregateOk (E : EthLib) (cfg : ElectionConfig) (electionId : Bytes)
    (submissions : List DKGResultSubmission) (publishedKey : Option FinalizedKey) :
    (auditDkg E cfg electionId submissions publishedKey).aggregateOk = false := by
  simp only [auditDkg]
  split
  · rfl
  · split <;> rfl

/-! ## The audit -/

/-- The secret behind the committee of the view: the keypers' shares of it, of which every
    accepted envelope carries the right multiple, one envelope a keyper. -/
structure AuditView.Shared (v : AuditView) (S : Suite G₁ G₂) (msk : Int) (mskShare : Int → Int) :
    Prop where
  sharing : SharesSecret v.config.threshold.t v.key.committeePks.length msk mskShare
  sound : ∀ points,
    v.aggregate.aggregates.mapM (fun ct => decodeCiphertext S (ct.c1, ct.c2)) = .ok points →
    ∀ p ∈ points.zipIdx, ∀ share ∈ v.shares, ∀ s,
      acceptedShare S v.config.electionId v.key.committeePks p.2 p.1 share = some s →
        s.2 = mskShare s.1 • p.1.1
  distinct : (v.shares.map DecryptionShareEnvelope.keyperIndex).Nodup

variable [DecidableEq G₁] {E : EthLib} {dl : DataLayer} {electionId : Bytes}

/-- The links of an audit without findings, in the order it makes them. -/
theorem audit_links {report : AuditReport} (h : audit S E dl electionId = .ok report)
    (hok : report.ok = true) :
    ∃ v : AuditView, v.ReadFrom dl electionId ∧
      recomputedKey E v.config electionId v.submissions =
        some (v.key.pkElection, v.key.committeePks) ∧
      (∃ admission, admitBallots S v.ballots v.config v.key.pkElection = .ok admission ∧
        buildAggregateArtifact S v.config admission = .ok v.aggregate) ∧
      checkResult S v.config v.aggregate v.shares v.key.committeePks v.config.threshold.t
        v.result.totals = .ok none := by
  rw [audit] at h
  obtain ⟨record, hrecord, h⟩ := bind_eq_ok.mp h
  obtain ⟨submissions, hsubmissions, h⟩ := bind_eq_ok.mp h
  obtain ⟨publishedKey, hkey, h⟩ := bind_eq_ok.mp h
  -- each early return leaves a flag down or notes a discrepancy
  cases publishedKey with
  | none =>
    cases h
    obtain ⟨hdkg, -⟩ := AuditReport.ok_iff.mp hok
    obtain ⟨key, hnone, -⟩ := recomputedKey_of_auditDkg hdkg
    cases hnone
  | some key =>
    obtain ⟨ballots, hballots, h⟩ := bind_eq_ok.mp h
    obtain ⟨admission, hadmission, h⟩ := bind_eq_ok.mp h
    obtain ⟨recomputed, hrecomputed, h⟩ := bind_eq_ok.mp h
    obtain ⟨aggregate, haggregate, h⟩ := bind_eq_ok.mp h
    cases aggregate with
    | none =>
      cases h
      rw [AuditReport.ok_note] at hok
      cases hok
    | some aggregate =>
      obtain ⟨shares, hshares, h⟩ := bind_eq_ok.mp h
      obtain ⟨result, hresult, h⟩ := bind_eq_ok.mp h
      cases result with
      | none =>
        cases h
        rw [AuditReport.ok_note] at hok
        cases hok
      | some result =>
        obtain ⟨hcheck, hdkg, hagg⟩ := auditResult_ok h hok
        rw [auditAggregate_dkgOk] at hdkg
        obtain rfl := recomputed_of_auditAggregate (auditDkg_aggregateOk _ _ _ _ _) hagg
        obtain ⟨_, hpublished, hfinalized⟩ := recomputedKey_of_auditDkg hdkg
        obtain rfl := Option.some.inj hpublished
        obtain ⟨total, htotal, -⟩ := readAllBallots_contiguous hballots
        refine ⟨⟨record.config, submissions, key, total, ballots, recomputed, shares, result⟩, ?_,
          hfinalized, ⟨admission, hadmission, hrecomputed⟩, hcheck⟩
        exact ⟨by rw [hrecord]; rfl, hsubmissions, hkey, htotal, hballots, haggregate, hshares, hresult⟩

omit [DecidableEq G₁] in
/-- Checked totals are the only ones in range that decrypt the aggregate. -/
theorem AuditView.Shared.totals {v : AuditView} {msk : Int} {mskShare : Int → Int}
    (hshared : v.Shared S msk mskShare)
    (hbound : bsgsBound v.config v.aggregate.totalScaledWeight < curveOrder) {points : List (G₂ × G₂)}
    (hpoints : v.aggregate.aggregates.mapM (fun ct => decodeCiphertext S (ct.c1, ct.c2)) = .ok points)
    (hcheck : checkResult S v.config v.aggregate v.shares v.key.committeePks v.config.threshold.t
      v.result.totals = .ok none) :
    List.Forall₂ (fun total C => ∀ x,
      (0 ≤ x ∧ x ≤ bsgsBound v.config v.aggregate.totalScaledWeight ∧
        x • S.g2.gen = C.2 - msk • C.1) ↔ x = total) v.result.totals points := by
  obtain ⟨taus, used, htaus, hfound, -⟩ := checkResult_eq_none.mp hcheck
  obtain ⟨steps, rfl, hsteps⟩ := deriveTaus_eq_some hpoints htaus
  have hnodup : ∀ p ∈ points.zipIdx, (((acceptedShares S v.config.electionId v.key.committeePks p.2
      p.1 v.shares).map Prod.fst).take v.config.threshold.t).Nodup := by
    intro p _
    exact (hshared.distinct.sublist (acceptedShares_sublist v.shares)).sublist (List.take_sublist _ _)
  rw [taus_eq hsteps hshared.sharing (hshared.sound points hpoints) hnodup] at hfound
  refine (List.forall₂_map_right_iff.mp hfound).imp ?_
  intro total C htotal x
  obtain ⟨h0, h1, heq⟩ := htotal
  constructor
  · intro hx
    exact gen_zsmul_unique hbound ⟨hx.1, hx.2.1⟩ ⟨h0, h1⟩ (hx.2.2.trans heq.symm)
  · intro hx
    subst hx
    exact ⟨h0, h1, heq⟩

/-- Audit soundness: whatever the data layer answered, an audit without findings read every
    published value; the key was signed by a quorum, the aggregate is the recomputed one
    of a contiguous ballot list, and the totals are the only ones that decrypt it. -/
theorem audit_sound {signed : Bytes → Bytes → Prop} {msk : Int} {mskShare : Int → Int}
    (hunforgeable : ∀ v : AuditView, v.ReadFrom dl electionId →
      Unforgeable E signed electionId v.submissions)
    (hshared : ∀ v : AuditView, v.ReadFrom dl electionId → v.Shared S msk mskShare)
    (hbound : ∀ v : AuditView, v.ReadFrom dl electionId →
      bsgsBound v.config v.aggregate.totalScaledWeight < curveOrder)
    {report : AuditReport} (h : audit S E dl electionId = .ok report) (hok : report.ok = true) :
    ∃ v : AuditView, v.ReadFrom dl electionId ∧
      SignedByQuorum E signed v.config electionId v.key.pkElection v.key.committeePks ∧
      v.ballots.map StoredBallot.sequenceNumber = pyRange v.total ∧
      (∃ admission, admitBallots S v.ballots v.config v.key.pkElection = .ok admission ∧
        buildAggregateArtifact S v.config admission = .ok v.aggregate) ∧
      ∃ points, v.aggregate.aggregates.mapM (fun ct => decodeCiphertext S (ct.c1, ct.c2)) = .ok points ∧
        List.Forall₂ (fun total C => ∀ x,
          (0 ≤ x ∧ x ≤ bsgsBound v.config v.aggregate.totalScaledWeight ∧
            x • S.g2.gen = C.2 - msk • C.1) ↔ x = total) v.result.totals points := by
  obtain ⟨v, hread, hkey, ⟨admission, hadmission, hbuild⟩, hcheck⟩ := audit_links h hok
  obtain ⟨points, -, hpoints, -⟩ := buildAggregateArtifact_eq_ok hbuild
  refine ⟨v, hread, signedByQuorum_of_recomputedKey (hunforgeable v hread) hkey, ?_,
    ⟨admission, hadmission, hbuild⟩, points, hpoints,
    (hshared v hread).totals (hbound v hread) hpoints hcheck⟩
  obtain ⟨total, htotal, hcontiguous⟩ := readAllBallots_contiguous hread.ballots
  rw [hread.total, Except.ok.injEq] at htotal
  rw [htotal, hcontiguous]

end

/-! ## A small audit

    One ballot of weight one under the key `17`, decrypted by the first and the third of
    three keypers with the shares `19, 21, 23`. -/

namespace SampleAudit

def mskShare (i : Int) : Int := 17 + 2 * i

def committeePks : List Bytes :=
  (keyperIndices 3).map fun i => Residue.suite.g2.toCompressed (mul Residue.suite.g2.gen (mskShare i))

def key : FinalizedKey := ⟨beBytes 96 17, committeePks⟩

def submission (i : Int) : DKGResultSubmission where
  electionId := smallConfig.electionId
  pkElection := key.pkElection
  committeePks
  keyperSignature := plainEth.signMessage [UInt8.ofNat i.toNat]
    (dkgResultDigest plainEth smallConfig.electionId key.pkElection committeePks)

def ballots : List StoredBallot := [⟨0, sampleBallot 1, some 150⟩]

def aggregate : AggregateArtifact where
  electionId := smallConfig.electionId
  aggregates := [⟨beBytes 96 6, beBytes 96 103⟩]
  admitted := [0]
  exclusions := []
  totalAdmittedWeight := 1
  totalScaledWeight := 1

def dkgState (i : Int) : KeyperDKGState Residue where
  keyperId := i
  n := 3
  quorum := 2
  coefficients := none
  commitments := []
  sharesForOthers := ∅
  combinedShare := some (mskShare i)
  publicKeyShare := some (mul Residue.suite.g2.gen (mskShare i))

@[irreducible] def share (i : Int) : DecryptionShareEnvelope where
  electionId := smallConfig.electionId
  keyperIndex := i
  entries := (aggregate.aggregates.mapM fun ct =>
    decryptEntry Residue.suite (dkgState i) i smallConfig.electionId 0 ct 9).toOption.getD []

def view : AuditView where
  config := smallConfig
  submissions := [submission 1, submission 3]
  key
  total := 1
  ballots
  aggregate
  shares := [share 3, share 1]
  result := ⟨smallConfig.electionId, [1], [3, 1], 1⟩

def dataLayer : DataLayer where
  getElection _ := .ok ⟨smallConfig, false, some key, false⟩
  getDkgSubmissions _ := .ok view.submissions
  getFinalizedKey _ := .ok (some key)
  listBallots _ _ _ := .ok ballots
  countBallots _ := .ok 1
  getAggregate _ := .ok (some aggregate)
  listDecryptionShares _ := .ok view.shares
  getResult _ := .ok (some view.result)

theorem readFrom : view.ReadFrom dataLayer smallConfig.electionId where
  config := rfl
  submissions := rfl
  key := rfl
  total := rfl
  ballots := rfl
  aggregate := rfl
  shares := rfl
  result := rfl

/-- The two keypers that signed, and what. -/
def signed (key digest : Bytes) : Prop :=
  (key = [1] ∨ key = [3]) ∧
    digest = dkgResultDigest plainEth smallConfig.electionId view.key.pkElection view.key.committeePks

theorem unforgeable : Unforgeable plainEth signed smallConfig.electionId view.submissions := by
  intro sub hsub signer hsigner
  rcases List.mem_cons.mp hsub with rfl | hsub
  · have hrecover : plainEth.recoverMessage (dkgResultDigest plainEth smallConfig.electionId
        (submission 1).pkElection (submission 1).committeePks) (submission 1).keyperSignature =
        some [1] := by decide +kernel
    rw [hrecover, Option.some.injEq] at hsigner
    exact ⟨.inl hsigner.symm, rfl⟩
  · obtain rfl := List.mem_singleton.mp hsub
    have hrecover : plainEth.recoverMessage (dkgResultDigest plainEth smallConfig.electionId
        (submission 3).pkElection (submission 3).committeePks) (submission 3).keyperSignature =
        some [3] := by decide +kernel
    rw [hrecover, Option.some.injEq] at hsigner
    exact ⟨.inr hsigner.symm, rfl⟩

theorem sharing : SharesSecret 2 3 17 mskShare := by
  refine ⟨Polynomial.C 2 * Polynomial.X + Polynomial.C 17, ?_, by simp, fun i _ => ?_⟩
  · exact lt_of_le_of_lt Polynomial.degree_linear_le (by decide)
  · simp only [mskShare, Polynomial.eval_add, Polynomial.eval_mul, Polynomial.eval_C, Polynomial.eval_X]
    push_cast
    ring

def points : List (Residue × Residue) := [(Residue.ofNat 6, Residue.ofNat 103)]

theorem accepted : ∀ p ∈ points.zipIdx, ∀ share ∈ view.shares,
    acceptedShare Residue.suite smallConfig.electionId committeePks p.2 p.1 share =
      some (share.keyperIndex, mul p.1.1 (mskShare share.keyperIndex)) := by
  decide +kernel

theorem shared : view.Shared Residue.suite 17 mskShare where
  sharing := sharing
  sound := by
    intro pts hpts p hp share hshare s hs
    have hpoints : view.aggregate.aggregates.mapM
        (fun ct => decodeCiphertext Residue.suite (ct.c1, ct.c2)) = .ok points := by decide +kernel
    obtain rfl := Except.ok.inj (hpts.symm.trans hpoints)
    obtain rfl := Option.some.inj (hs.symm.trans (accepted p hp share hshare))
    exact Residue.suite.g2.mul_eq_zsmul _ _
  distinct := by decide +kernel

end SampleAudit

open SampleAudit in
/-- The small audit has no findings, and so its total is the one that decrypts. -/
theorem audit_sound_of_three :
    (∃ report, audit Residue.suite plainEth dataLayer smallConfig.electionId = .ok report ∧
      report.ok = true) ∧
    SignedByQuorum plainEth signed smallConfig smallConfig.electionId view.key.pkElection
      view.key.committeePks ∧
    ∃ C : Residue × Residue, view.aggregate.aggregates.mapM
      (fun ct => decodeCiphertext Residue.suite (ct.c1, ct.c2)) = .ok [C] ∧ ∀ x : Int,
      (0 ≤ x ∧ x ≤ 1 ∧ x • Residue.suite.g2.gen = C.2 - (17 : Int) • C.1) ↔ x = 1 := by
  have hrun : (audit Residue.suite plainEth dataLayer smallConfig.electionId).map AuditReport.ok =
      .ok true := by decide +kernel
  cases hreport : audit Residue.suite plainEth dataLayer smallConfig.electionId with
  | error e =>
    rw [hreport] at hrun
    cases hrun
  | ok report =>
  rw [hreport] at hrun
  have hok : report.ok = true := Except.ok.inj hrun
  have hview : ∀ v : AuditView, v.ReadFrom dataLayer smallConfig.electionId → v = view :=
    fun v hv => hv.unique readFrom
  obtain ⟨v, hv, hsigned, -, -, points, hpoints, htotals⟩ := audit_sound
    (fun v hv => by rw [hview v hv]; exact unforgeable) (fun v hv => by rw [hview v hv]; exact shared)
    (fun v hv => by rw [hview v hv]; decide +kernel) hreport hok
  obtain rfl := hview v hv
  refine ⟨⟨report, rfl, hok⟩, hsigned, ?_⟩
  obtain ⟨C, rest, hC, hrest, rfl⟩ := List.forall₂_cons_left_iff.mp htotals
  obtain rfl := List.forall₂_nil_left_iff.mp hrest
  have hbound : bsgsBound view.config view.aggregate.totalScaledWeight = 1 := rfl
  rw [hbound] at hC
  exact ⟨C, hpoints, hC⟩

end ElGamalVoting
