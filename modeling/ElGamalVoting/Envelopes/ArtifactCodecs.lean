import ElGamalVoting.Envelopes.Codecs

/- The JSON codecs of the committee's artifacts (`envelopes/codecs.py`): DKG result,
   decryption share, aggregate and result.

   Each decoder enforces the sizes of the byte fields and that the integers are not
   negative (`WellSized`); what it accepts satisfies them, and an artifact that does
   is read back from its encoding unchanged. The encoders check nothing. -/
namespace ElGamalVoting
open Lib

/-! DKG result submission. -/

def encDkgResult (s : DKGResultSubmission) : Json :=
  .obj [(pyStr "electionId", encBytes s.electionId), (pyStr "pkElection", encBytes s.pkElection),
    (pyStr "committeePKs", .arr (s.committeePks.map encBytes)),
    (pyStr "keyperSignature", encBytes s.keyperSignature)]

def decDkgResult (d : Json) : Py DKGResultSubmission := do
  let pks ← decList (← req d "committeePKs") "committeePKs"
  let electionId ← decBytes (← req d "electionId") "electionId" (some 32)
  let pkElection ← decBytes (← req d "pkElection") "pkElection" (some g2Bytes)
  let committeePks ← pks.zipIdx.mapM fun p => decBytes p.1 s!"committeePKs[{p.2}]" (some g2Bytes)
  let keyperSignature ← decBytes (← req d "keyperSignature") "keyperSignature" none
  pure { electionId, pkElection, committeePks, keyperSignature }

/-! Decryption share. -/

def encShareEntry (e : DecryptionShareEntry) : Json :=
  .obj [(pyStr "sigma", encBytes e.sigma), (pyStr "proof", encBytes e.proof)]

def encDecryptionShare (s : DecryptionShareEnvelope) : Json :=
  .obj [(pyStr "electionId", encBytes s.electionId), (pyStr "keyperIndex", .int s.keyperIndex),
    (pyStr "entries", .arr (s.entries.map encShareEntry))]

def decShareEntry (d : Json) (i : Nat) : Py DecryptionShareEntry := do
  let sigma ← decBytes (← req d "sigma") s!"entries[{i}].sigma" (some g2Bytes)
  let proof ← decBytes (← req d "proof") s!"entries[{i}].proof" (some dleqBytes)
  pure ⟨sigma, proof⟩

def decDecryptionShare (d : Json) : Py DecryptionShareEnvelope := do
  let entries ← decList (← req d "entries") "entries"
  let electionId ← decBytes (← req d "electionId") "electionId" (some 32)
  let keyperIndex ← decInt (← req d "keyperIndex") "keyperIndex" (some 0)
  let entries ← entries.zipIdx.mapM fun e => decShareEntry e.1 e.2
  pure { electionId, keyperIndex, entries }

/-! Aggregate, with the admitted set. -/

def encExclusion (x : Exclusion) : Json :=
  .obj [(pyStr "sequenceNumber", .int x.sequenceNumber), (pyStr "reason", .str (pyStr x.reason.value))]

def encAggregate (a : AggregateArtifact) : Json :=
  .obj [(pyStr "electionId", encBytes a.electionId),
    (pyStr "aggregates", .arr (a.aggregates.map encCiphertext)),
    (pyStr "admitted", .arr (a.admitted.map Json.int)),
    (pyStr "exclusions", .arr (a.exclusions.map encExclusion)),
    (pyStr "totalAdmittedWeight", .int a.totalAdmittedWeight),
    (pyStr "totalScaledWeight", .int a.totalScaledWeight)]

def exclusionReasons : List ExclusionReason :=
  [.invalidProof, .invalidSignature, .invalidAttestation, .duplicatePseudonym, .malformed, .outOfWindow]

/-- `ExclusionReason(reason_raw)`, a member by its text. -/
def decReason (value : Json) (name : String) : Py ExclusionReason :=
  match value with
  | .str s =>
    match exclusionReasons.find? fun r => pyStr r.value = s with
    | some r => .ok r
    | none => .error (.codecError s!"{name}.reason: unknown reason code")
  | _ => .error (.codecError s!"{name}.reason: unknown reason code")

def decExclusion (d : Json) (name : String) : Py Exclusion := do
  let reason ← decReason (← req d "reason") name
  let sequenceNumber ← decInt (← req d "sequenceNumber") s!"{name}.sequenceNumber" (some 0)
  pure { sequenceNumber, reason }

/-- Python's `d.get(key, default)` on an object. -/
def getOr (d : Json) (key : String) (default : Json) : Json :=
  match d with
  | .obj fields => (Json.lookup fields key).getD default
  | _ => default

/-- An artifact from before the scaling has one total only. -/
def decAggregate (d : Json) : Py AggregateArtifact := do
  let aggs ← decList (← req d "aggregates") "aggregates"
  let admitted ← decList (← req d "admitted") "admitted"
  let exclusions ← decList (← req d "exclusions") "exclusions"
  let electionId ← decBytes (← req d "electionId") "electionId" (some 32)
  let aggregates ← aggs.zipIdx.mapM fun ct => decCiphertext ct.1 s!"aggregates[{ct.2}]"
  let admitted ← admitted.zipIdx.mapM fun s => decInt s.1 s!"admitted[{s.2}]" (some 0)
  let exclusions ← exclusions.zipIdx.mapM fun x => decExclusion x.1 s!"exclusions[{x.2}]"
  let total ← req d "totalAdmittedWeight"
  let totalAdmittedWeight ← decInt total "totalAdmittedWeight" (some 0)
  let totalScaledWeight ← decInt (getOr d "totalScaledWeight" total) "totalScaledWeight" (some 0)
  pure { electionId, aggregates, admitted, exclusions, totalAdmittedWeight, totalScaledWeight }

/-! Result. -/

def encResult (r : ResultArtifact) : Json :=
  .obj [(pyStr "electionId", encBytes r.electionId), (pyStr "totals", .arr (r.totals.map Json.int)),
    (pyStr "keyperIndices", .arr (r.keyperIndices.map Json.int)), (pyStr "bsgsBound", .int r.bsgsBound)]

def decResult (d : Json) : Py ResultArtifact := do
  let totals ← decList (← req d "totals") "totals"
  let indices ← decList (← req d "keyperIndices") "keyperIndices"
  let electionId ← decBytes (← req d "electionId") "electionId" (some 32)
  let totals ← totals.zipIdx.mapM fun t => decInt t.1 s!"totals[{t.2}]" (some 0)
  let keyperIndices ← indices.zipIdx.mapM fun k => decInt k.1 s!"keyperIndices[{k.2}]" (some 0)
  let bsgsBound ← decInt (← req d "bsgsBound") "bsgsBound" (some 0)
  pure { electionId, totals, keyperIndices, bsgsBound }

/-! ## The sizes -/

structure DKGResultSubmission.WellSized (s : DKGResultSubmission) : Prop where
  electionId : s.electionId.length = 32
  pkElection : s.pkElection.length = g2Bytes
  committeePks : ∀ pk ∈ s.committeePks, pk.length = g2Bytes

structure DecryptionShareEnvelope.WellSized (s : DecryptionShareEnvelope) : Prop where
  electionId : s.electionId.length = 32
  keyperIndex : 0 ≤ s.keyperIndex
  entries : ∀ e ∈ s.entries, e.sigma.length = g2Bytes ∧ e.proof.length = dleqBytes

structure AggregateArtifact.WellSized (a : AggregateArtifact) : Prop where
  electionId : a.electionId.length = 32
  aggregates : ∀ ct ∈ a.aggregates, ct.c1.length = g2Bytes ∧ ct.c2.length = g2Bytes
  admitted : ∀ s ∈ a.admitted, 0 ≤ s
  exclusions : ∀ x ∈ a.exclusions, 0 ≤ x.sequenceNumber
  totalAdmittedWeight : 0 ≤ a.totalAdmittedWeight
  totalScaledWeight : 0 ≤ a.totalScaledWeight

structure ResultArtifact.WellSized (r : ResultArtifact) : Prop where
  electionId : r.electionId.length = 32
  totals : ∀ t ∈ r.totals, 0 ≤ t
  keyperIndices : ∀ k ∈ r.keyperIndices, 0 ≤ k
  bsgsBound : 0 ≤ r.bsgsBound

/-! ## What is accepted is well sized -/

theorem decDkgResult_wellSized {d : Json} {s : DKGResultSubmission} (h : decDkgResult d = .ok s) :
    s.WellSized := by
  obtain ⟨_, -, h⟩ := bind_eq_ok.mp h
  obtain ⟨_, -, h⟩ := bind_eq_ok.mp h
  obtain ⟨_, -, h⟩ := bind_eq_ok.mp h
  obtain ⟨_, hid, h⟩ := bind_eq_ok.mp h
  obtain ⟨_, -, h⟩ := bind_eq_ok.mp h
  obtain ⟨_, hpk, h⟩ := bind_eq_ok.mp h
  obtain ⟨_, hpks, h⟩ := bind_eq_ok.mp h
  obtain ⟨_, -, h⟩ := bind_eq_ok.mp h
  obtain ⟨_, -, h⟩ := bind_eq_ok.mp h
  cases h
  refine ⟨decBytes_length hid, decBytes_length hpk, ?_⟩
  intro pk hmem
  obtain ⟨_, -, hread⟩ := mapM_ok_mem_right hpks hmem
  exact decBytes_length hread

theorem decShareEntry_sized {d : Json} {i : Nat} {e : DecryptionShareEntry}
    (h : decShareEntry d i = .ok e) : e.sigma.length = g2Bytes ∧ e.proof.length = dleqBytes := by
  obtain ⟨_, -, h⟩ := bind_eq_ok.mp h
  obtain ⟨_, hsigma, h⟩ := bind_eq_ok.mp h
  obtain ⟨_, -, h⟩ := bind_eq_ok.mp h
  obtain ⟨_, hproof, h⟩ := bind_eq_ok.mp h
  cases h
  exact ⟨decBytes_length hsigma, decBytes_length hproof⟩

theorem decDecryptionShare_wellSized {d : Json} {s : DecryptionShareEnvelope}
    (h : decDecryptionShare d = .ok s) : s.WellSized := by
  obtain ⟨_, -, h⟩ := bind_eq_ok.mp h
  obtain ⟨raw, -, h⟩ := bind_eq_ok.mp h
  obtain ⟨_, -, h⟩ := bind_eq_ok.mp h
  obtain ⟨_, hid, h⟩ := bind_eq_ok.mp h
  obtain ⟨_, -, h⟩ := bind_eq_ok.mp h
  obtain ⟨_, hindex, h⟩ := bind_eq_ok.mp h
  obtain ⟨entries, hentries, h⟩ := bind_eq_ok.mp h
  cases h
  refine ⟨decBytes_length hid, decInt_ge hindex, ?_⟩
  intro e he
  obtain ⟨_, -, hread⟩ := mapM_ok_mem_right hentries he
  exact decShareEntry_sized hread

theorem decExclusion_sized {d : Json} {name : String} {x : Exclusion}
    (h : decExclusion d name = .ok x) : 0 ≤ x.sequenceNumber := by
  obtain ⟨_, -, h⟩ := bind_eq_ok.mp h
  obtain ⟨_, -, h⟩ := bind_eq_ok.mp h
  obtain ⟨_, -, h⟩ := bind_eq_ok.mp h
  obtain ⟨_, hseq, h⟩ := bind_eq_ok.mp h
  cases h
  exact decInt_ge hseq

theorem decAggregate_wellSized {d : Json} {a : AggregateArtifact} (h : decAggregate d = .ok a) :
    a.WellSized := by
  obtain ⟨_, -, h⟩ := bind_eq_ok.mp h
  obtain ⟨_, -, h⟩ := bind_eq_ok.mp h
  obtain ⟨_, -, h⟩ := bind_eq_ok.mp h
  obtain ⟨_, -, h⟩ := bind_eq_ok.mp h
  obtain ⟨_, -, h⟩ := bind_eq_ok.mp h
  obtain ⟨_, -, h⟩ := bind_eq_ok.mp h
  obtain ⟨_, -, h⟩ := bind_eq_ok.mp h
  obtain ⟨_, hid, h⟩ := bind_eq_ok.mp h
  obtain ⟨aggregates, haggregates, h⟩ := bind_eq_ok.mp h
  obtain ⟨admitted, hadmitted, h⟩ := bind_eq_ok.mp h
  obtain ⟨exclusions, hexclusions, h⟩ := bind_eq_ok.mp h
  obtain ⟨_, -, h⟩ := bind_eq_ok.mp h
  obtain ⟨_, htotal, h⟩ := bind_eq_ok.mp h
  obtain ⟨_, hscaled, h⟩ := bind_eq_ok.mp h
  cases h
  refine ⟨decBytes_length hid, ?_, ?_, ?_, decInt_ge htotal, decInt_ge hscaled⟩
  · intro ct hct
    obtain ⟨_, -, hread⟩ := mapM_ok_mem_right haggregates hct
    exact decCiphertext_sized hread
  · intro s hs
    obtain ⟨_, -, hread⟩ := mapM_ok_mem_right hadmitted hs
    exact decInt_ge hread
  · intro x hx
    obtain ⟨_, -, hread⟩ := mapM_ok_mem_right hexclusions hx
    exact decExclusion_sized hread

theorem decResult_wellSized {d : Json} {r : ResultArtifact} (h : decResult d = .ok r) :
    r.WellSized := by
  obtain ⟨_, -, h⟩ := bind_eq_ok.mp h
  obtain ⟨_, -, h⟩ := bind_eq_ok.mp h
  obtain ⟨_, -, h⟩ := bind_eq_ok.mp h
  obtain ⟨_, -, h⟩ := bind_eq_ok.mp h
  obtain ⟨_, -, h⟩ := bind_eq_ok.mp h
  obtain ⟨_, hid, h⟩ := bind_eq_ok.mp h
  obtain ⟨totals, htotals, h⟩ := bind_eq_ok.mp h
  obtain ⟨indices, hindices, h⟩ := bind_eq_ok.mp h
  obtain ⟨_, -, h⟩ := bind_eq_ok.mp h
  obtain ⟨_, hbound, h⟩ := bind_eq_ok.mp h
  cases h
  refine ⟨decBytes_length hid, ?_, ?_, decInt_ge hbound⟩
  · intro t ht
    obtain ⟨_, -, hread⟩ := mapM_ok_mem_right htotals ht
    exact decInt_ge hread
  · intro k hk
    obtain ⟨_, -, hread⟩ := mapM_ok_mem_right hindices hk
    exact decInt_ge hread

/-! ## What is well sized is read back -/

/-- Decoding the encodings of a list, each under a name made from its position. -/
theorem mapM_zipIdx_map {α β : Type} {f : α → β} {g : β × Nat → Py α} {xs : List α}
    (h : ∀ x ∈ xs, ∀ i, g (f x, i) = .ok x) (k : Nat) : ((xs.map f).zipIdx k).mapM g = .ok xs := by
  rw [mapM_eq_ok]
  induction xs generalizing k with
  | nil => exact .nil
  | cons x xs ih =>
    exact .cons (h x List.mem_cons_self k) (ih (fun y hy => h y (List.mem_cons_of_mem x hy)) (k + 1))

theorem decInt_int {n : Int} (hn : 0 ≤ n) (name : String) :
    decInt (.int n) name (some 0) = .ok n := by
  simp [decInt, hn]

theorem decReason_enc (r : ExclusionReason) (name : String) :
    decReason (.str (pyStr r.value)) name = .ok r := by
  have hfind : exclusionReasons.find? (fun r' => pyStr r'.value = pyStr r.value) = some r := by
    cases r <;> decide +kernel
  simp only [decReason, hfind]

theorem decDkgResult_encDkgResult {s : DKGResultSubmission} (h : s.WellSized) :
    decDkgResult (encDkgResult s) = .ok s := by
  have hpks : req (encDkgResult s) "committeePKs" = .ok (.arr (s.committeePks.map encBytes)) := rfl
  have hlist : decList (.arr (s.committeePks.map encBytes)) "committeePKs" =
      .ok (s.committeePks.map encBytes) := rfl
  have hsig : req (encDkgResult s) "keyperSignature" = .ok (encBytes s.keyperSignature) := rfl
  rw [decDkgResult, hpks, ok_bind, hlist, ok_bind, read_encBytes (b := s.electionId) rfl h.electionId,
    read_encBytes (b := s.pkElection) rfl h.pkElection,
    mapM_zipIdx_map (fun pk hpk i => decBytes_encBytes_sized (h.committeePks pk hpk)), ok_bind, hsig,
    ok_bind, decBytes_encBytes _ _ (fun n hn => by cases hn), ok_bind]
  rfl

theorem decShareEntry_enc {e : DecryptionShareEntry} (i : Nat) (hsigma : e.sigma.length = g2Bytes)
    (hproof : e.proof.length = dleqBytes) : decShareEntry (encShareEntry e) i = .ok e := by
  rw [decShareEntry, read_encBytes (b := e.sigma) rfl hsigma, read_encBytes (b := e.proof) rfl hproof]
  rfl

theorem decDecryptionShare_encDecryptionShare {s : DecryptionShareEnvelope} (h : s.WellSized) :
    decDecryptionShare (encDecryptionShare s) = .ok s := by
  have hentries : req (encDecryptionShare s) "entries" = .ok (.arr (s.entries.map encShareEntry)) := rfl
  have hlist : decList (.arr (s.entries.map encShareEntry)) "entries" =
      .ok (s.entries.map encShareEntry) := rfl
  have hindex : req (encDecryptionShare s) "keyperIndex" = .ok (.int s.keyperIndex) := rfl
  rw [decDecryptionShare, hentries, ok_bind, hlist, ok_bind,
    read_encBytes (b := s.electionId) rfl h.electionId, hindex, ok_bind, decInt_int h.keyperIndex,
    ok_bind, mapM_zipIdx_map (fun e he i => decShareEntry_enc i (h.entries e he).1 (h.entries e he).2),
    ok_bind]
  rfl

theorem decExclusion_enc {x : Exclusion} (hx : 0 ≤ x.sequenceNumber) (name : String) :
    decExclusion (encExclusion x) name = .ok x := by
  have hreason : req (encExclusion x) "reason" = .ok (.str (pyStr x.reason.value)) := rfl
  have hseq : req (encExclusion x) "sequenceNumber" = .ok (.int x.sequenceNumber) := rfl
  rw [decExclusion, hreason, ok_bind, decReason_enc, ok_bind, hseq, ok_bind, decInt_int hx, ok_bind]
  rfl

theorem decAggregate_encAggregate {a : AggregateArtifact} (h : a.WellSized) :
    decAggregate (encAggregate a) = .ok a := by
  have haggs : req (encAggregate a) "aggregates" = .ok (.arr (a.aggregates.map encCiphertext)) := rfl
  have hadmitted : req (encAggregate a) "admitted" = .ok (.arr (a.admitted.map Json.int)) := rfl
  have hexclusions : req (encAggregate a) "exclusions" = .ok (.arr (a.exclusions.map encExclusion)) := rfl
  have hlist : ∀ items name, decList (.arr items) name = .ok items := fun _ _ => rfl
  have htotal : req (encAggregate a) "totalAdmittedWeight" = .ok (.int a.totalAdmittedWeight) := rfl
  have hscaled : ∀ d, getOr (encAggregate a) "totalScaledWeight" d = .int a.totalScaledWeight :=
    fun _ => rfl
  rw [decAggregate, haggs, ok_bind, hlist, ok_bind, hadmitted, ok_bind, hlist, ok_bind, hexclusions,
    ok_bind, hlist, ok_bind, read_encBytes (b := a.electionId) rfl h.electionId,
    mapM_zipIdx_map (fun ct hct i => decCiphertext_encCiphertext _ (h.aggregates ct hct).1
      (h.aggregates ct hct).2), ok_bind,
    mapM_zipIdx_map (fun s hs i => decInt_int (h.admitted s hs) _), ok_bind,
    mapM_zipIdx_map (fun x hx i => decExclusion_enc (h.exclusions x hx) _), ok_bind, htotal, ok_bind,
    decInt_int h.totalAdmittedWeight, ok_bind, hscaled, decInt_int h.totalScaledWeight, ok_bind]
  rfl

theorem decResult_encResult {r : ResultArtifact} (h : r.WellSized) :
    decResult (encResult r) = .ok r := by
  have htotals : req (encResult r) "totals" = .ok (.arr (r.totals.map Json.int)) := rfl
  have hindices : req (encResult r) "keyperIndices" = .ok (.arr (r.keyperIndices.map Json.int)) := rfl
  have hlist : ∀ items name, decList (.arr items) name = .ok items := fun _ _ => rfl
  have hbound : req (encResult r) "bsgsBound" = .ok (.int r.bsgsBound) := rfl
  rw [decResult, htotals, ok_bind, hlist, ok_bind, hindices, ok_bind, hlist, ok_bind,
    read_encBytes (b := r.electionId) rfl h.electionId,
    mapM_zipIdx_map (fun t ht i => decInt_int (h.totals t ht) _), ok_bind,
    mapM_zipIdx_map (fun k hk i => decInt_int (h.keyperIndices k hk) _), ok_bind, hbound, ok_bind,
    decInt_int h.bsgsBound, ok_bind]
  rfl

end ElGamalVoting
