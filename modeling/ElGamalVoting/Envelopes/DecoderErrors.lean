import ElGamalVoting.Envelopes.ConfigInversion

/- How the decoders fail (`envelopes/codecs.py`).

   Every helper turns what it rejects into a `CodecError`, and `dec_config` turns a `ValueError`
   of its checks into one. The fee of a configuration is the one field converted by `int`
   itself: of a non-empty array or object this is a `TypeError`, of an infinite float an
   `OverflowError`, and neither is a `ValueError`. The fee is read last, so these errors come
   out exactly when every field before it is in order (`FeeReached`). -/
namespace ElGamalVoting
open Lib

/-! ## The helpers raise codec errors -/

def IsCodecError (e : PyError) : Prop := ∃ msg, e = .codecError msg

theorem decBytes_raises (value : Json) (name : String) (size : Option Nat) :
    RaisesOnly IsCodecError (decBytes value name size) := by
  unfold decBytes
  split
  · split
    · exact .error ⟨_, rfl⟩
    · split
      · exact .error ⟨_, rfl⟩
      · split
        · exact .ok _
        · split
          · exact .error ⟨_, rfl⟩
          · exact .ok _
  · exact .error ⟨_, rfl⟩

theorem req_raises (d : Json) (key : String) : RaisesOnly IsCodecError (req d key) := by
  unfold req
  split
  · split
    · exact .error ⟨_, rfl⟩
    · exact .ok _
  · exact .error ⟨_, rfl⟩

theorem decInt_raises (value : Json) (name : String) (minimum : Option Int) :
    RaisesOnly IsCodecError (decInt value name minimum) := by
  unfold decInt
  split
  · split
    · exact .ok _
    · split
      · exact .error ⟨_, rfl⟩
      · exact .ok _
  · exact .error ⟨_, rfl⟩

theorem decList_raises (value : Json) (name : String) : RaisesOnly IsCodecError (decList value name) := by
  unfold decList
  split
  · exact .ok _
  · exact .error ⟨_, rfl⟩

theorem decEnum_raises {α : Type} (members : List α) (value : α → String) (cls : String) (raw : Json)
    (name : String) : RaisesOnly IsCodecError (decEnum members value cls raw name) := by
  unfold decEnum
  split
  · split
    · exact .ok _
    · exact .error ⟨_, rfl⟩
  · exact .error ⟨_, rfl⟩

section
variable {β : Type} {P : PyError → Prop} (hP : ∀ e, IsCodecError e → P e) {d : Json} {key : String}
include hP

/-- A required field, decoded. -/
theorem field_raises {α : Type} {dec : Json → Py α} {f : α → Py β} (hdec : ∀ v, RaisesOnly IsCodecError (dec v))
    (hf : ∀ a, RaisesOnly P (f a)) : RaisesOnly P (do let v ← req d key; let x ← dec v; f x) :=
  .bind ((req_raises d key).mono hP) fun v => .bind ((hdec v).mono hP) hf

end

/-- The same, where nothing but codec errors is raised behind it. -/
theorem codec_field_raises {α β : Type} {d : Json} {key : String} {dec : Json → Py α} {f : α → Py β}
    (hdec : ∀ v, RaisesOnly IsCodecError (dec v)) (hf : ∀ a, RaisesOnly IsCodecError (f a)) :
    RaisesOnly IsCodecError (do let v ← req d key; let x ← dec v; f x) :=
  field_raises (fun _ h => h) hdec hf

/-! ## The decoders of the artifacts -/

theorem decCiphertext_raises (d : Json) (name : String) : RaisesOnly IsCodecError (decCiphertext d name) := by
  refine codec_field_raises (fun v => decBytes_raises v _ _) fun c1 => ?_
  refine codec_field_raises (fun v => decBytes_raises v _ _) fun c2 => ?_
  exact .ok _

theorem decScheme_raises (value : Json) (name : String) : RaisesOnly IsCodecError (decScheme value name) := by
  unfold decScheme
  split
  · split
    · exact .ok _
    · exact .error ⟨_, rfl⟩
  · exact .error ⟨_, rfl⟩

theorem decAttestation_raises (d : Json) (name : String) : RaisesOnly IsCodecError (decAttestation d name) := by
  have hscheme : RaisesOnly IsCodecError (schemeField d name) := by
    unfold schemeField
    split
    · exact decScheme_raises _ _
    · exact .error ⟨_, rfl⟩
  have hnonce : RaisesOnly IsCodecError (nonceField d name) := by
    unfold nonceField
    split
    · split
      · exact decInt_raises _ _ _
      · exact .ok _
    · exact .ok _
  refine .bind hscheme fun scheme => .bind hnonce fun nonce => ?_
  refine codec_field_raises (fun v => decBytes_raises v _ _) fun electionId => ?_
  refine codec_field_raises (fun v => decBytes_raises v _ _) fun pseudonym => ?_
  refine codec_field_raises (fun v => decBytes_raises v _ _) fun vk => ?_
  refine codec_field_raises (fun v => decInt_raises v _ _) fun weight => ?_
  refine codec_field_raises (fun v => decBytes_raises v _ _) fun signature => ?_
  exact .ok _

theorem decBallot_raises (d : Json) : RaisesOnly IsCodecError (decBallot d) := by
  refine codec_field_raises (fun v => decList_raises v _) fun cts => ?_
  refine codec_field_raises (fun v => decBytes_raises v _ _) fun electionId => ?_
  refine codec_field_raises (fun v => decBytes_raises v _ _) fun pseudonym => ?_
  refine codec_field_raises (fun v => decBytes_raises v _ _) fun vk => ?_
  refine .bind (.mapM (fun ci => decCiphertext_raises _ _) _) fun ciphertexts => ?_
  refine codec_field_raises (fun v => decBytes_raises v _ _) fun zkProof => ?_
  refine codec_field_raises (fun v => decBytes_raises v _ _) fun voterSignature => ?_
  refine codec_field_raises (fun v => decAttestation_raises v _) fun attestation => ?_
  exact .ok _

theorem decDkgResult_raises (d : Json) : RaisesOnly IsCodecError (decDkgResult d) := by
  refine codec_field_raises (fun v => decList_raises v _) fun pks => ?_
  refine codec_field_raises (fun v => decBytes_raises v _ _) fun electionId => ?_
  refine codec_field_raises (fun v => decBytes_raises v _ _) fun pkElection => ?_
  refine .bind (.mapM (fun p => decBytes_raises _ _ _) _) fun committeePks => ?_
  refine codec_field_raises (fun v => decBytes_raises v _ _) fun keyperSignature => ?_
  exact .ok _

theorem decShareEntry_raises (d : Json) (i : Nat) : RaisesOnly IsCodecError (decShareEntry d i) := by
  refine codec_field_raises (fun v => decBytes_raises v _ _) fun sigma => ?_
  refine codec_field_raises (fun v => decBytes_raises v _ _) fun proof => ?_
  exact .ok _

theorem decDecryptionShare_raises (d : Json) : RaisesOnly IsCodecError (decDecryptionShare d) := by
  refine codec_field_raises (fun v => decList_raises v _) fun entries => ?_
  refine codec_field_raises (fun v => decBytes_raises v _ _) fun electionId => ?_
  refine codec_field_raises (fun v => decInt_raises v _ _) fun keyperIndex => ?_
  refine .bind (.mapM (fun e => decShareEntry_raises _ _) _) fun entries => ?_
  exact .ok _

theorem decExclusion_raises (d : Json) (name : String) : RaisesOnly IsCodecError (decExclusion d name) := by
  have hreason (v : Json) : RaisesOnly IsCodecError (decReason v name) := by
    unfold decReason
    split
    · split
      · exact .ok _
      · exact .error ⟨_, rfl⟩
    · exact .error ⟨_, rfl⟩
  refine codec_field_raises hreason fun reason => ?_
  refine codec_field_raises (fun v => decInt_raises v _ _) fun sequenceNumber => ?_
  exact .ok _

theorem decAggregate_raises (d : Json) : RaisesOnly IsCodecError (decAggregate d) := by
  refine codec_field_raises (fun v => decList_raises v _) fun aggs => ?_
  refine codec_field_raises (fun v => decList_raises v _) fun admitted => ?_
  refine codec_field_raises (fun v => decList_raises v _) fun exclusions => ?_
  refine codec_field_raises (fun v => decBytes_raises v _ _) fun electionId => ?_
  refine .bind (.mapM (fun ct => decCiphertext_raises _ _) _) fun aggregates => ?_
  refine .bind (.mapM (fun s => decInt_raises _ _ _) _) fun admitted => ?_
  refine .bind (.mapM (fun x => decExclusion_raises _ _) _) fun exclusions => ?_
  refine .bind (req_raises d _) fun total => ?_
  refine .bind (decInt_raises total _ _) fun totalAdmittedWeight => ?_
  refine .bind (decInt_raises _ _ _) fun totalScaledWeight => ?_
  exact .ok _

theorem decResult_raises (d : Json) : RaisesOnly IsCodecError (decResult d) := by
  refine codec_field_raises (fun v => decList_raises v _) fun totals => ?_
  refine codec_field_raises (fun v => decList_raises v _) fun indices => ?_
  refine codec_field_raises (fun v => decBytes_raises v _ _) fun electionId => ?_
  refine .bind (.mapM (fun t => decInt_raises _ _ _) _) fun totals => ?_
  refine .bind (.mapM (fun k => decInt_raises _ _ _) _) fun keyperIndices => ?_
  refine codec_field_raises (fun v => decInt_raises v _ _) fun bsgsBound => ?_
  exact .ok _

/-! ## The configuration -/

/-- What `dec_config` makes a codec error of. -/
def IsValueError (e : PyError) : Prop := IsCodecError e ∨ ∃ msg, e = .valueError msg

/-- A check that raises a `ValueError`, before the rest. -/
theorem guard_raises {α : Type} {p : Prop} [Decidable p] {msg : String} {x : ¬ p → Py α}
    (hx : ∀ hp, RaisesOnly IsValueError (x hp)) :
    RaisesOnly IsValueError (if hp : p then .error (.valueError msg) else x hp) := by
  by_cases hp : p
  · rw [dif_pos hp]
    exact .error (.inr ⟨msg, rfl⟩)
  · rw [dif_neg hp]
    exact hx hp

theorem mkThreshold_raises (t n : Int) : RaisesOnly IsValueError (mkThreshold t n) := by
  unfold mkThreshold
  iterate 3
    refine guard_raises fun _ => ?_
  exact .ok _

theorem check_raises (f : ConfigFields) : RaisesOnly IsValueError f.check := by
  unfold ConfigFields.check
  iterate 10
    refine guard_raises fun _ => ?_
  exact .ok _

section
variable {conv : PyConversions} {d th : Json} {keypers : List Json}

theorem decKeyper_raises (k : Json) (i : Nat) : RaisesOnly IsCodecError (decKeyper conv k i) := by
  refine codec_field_raises (fun v => decBytes_raises v _ _) fun signingKey => ?_
  exact .bind (req_raises k _) fun url => .ok _

theorem decConfigBeforeFee_raises : RaisesOnly IsValueError (decConfigBeforeFee conv d th keypers) := by
  have hcodec : ∀ e, IsCodecError e → IsValueError e := fun _ => .inl
  refine field_raises hcodec (fun v => decBytes_raises v _ _) fun electionId => ?_
  refine field_raises hcodec (fun v => decInt_raises v _ _) fun numCandidates => ?_
  refine field_raises hcodec (fun v => decInt_raises v _ _) fun budget => ?_
  refine field_raises hcodec (fun v => decEnum_raises _ _ _ v _) fun mode => ?_
  refine field_raises hcodec (fun v => decEnum_raises _ _ _ v _) fun variant => ?_
  refine .bind ((req_raises d _).mono hcodec) fun weighted => ?_
  refine .bind ((decInt_raises _ _ _).mono hcodec) fun scale => ?_
  refine field_raises hcodec (fun v => decEnum_raises _ _ _ v _) fun duplicatePolicy => ?_
  refine field_raises hcodec (fun v => decInt_raises v _ _) fun votingStart => ?_
  refine field_raises hcodec (fun v => decInt_raises v _ _) fun votingEnd => ?_
  refine field_raises hcodec (fun v => decInt_raises v _ _) fun t => ?_
  refine field_raises hcodec (fun v => decInt_raises v _ _) fun n => ?_
  refine .bind (mkThreshold_raises t n) fun threshold => ?_
  refine .bind ((RaisesOnly.mapM (fun k => decKeyper_raises _ _) _).mono hcodec) fun keypers => ?_
  refine field_raises hcodec (fun v => decBytes_raises v _ _) fun eligibilityKey => ?_
  refine field_raises hcodec (fun v => decBytes_raises v _ _) fun resultPublisherKey => ?_
  refine field_raises hcodec (fun v => decList_raises v _) fun gatewayKeys => ?_
  refine .bind ((RaisesOnly.mapM (fun g => decBytes_raises _ _ _) _).mono hcodec) fun gatewayKeys => ?_
  refine field_raises hcodec (fun v => decBytes_raises v _ _) fun adminKey => ?_
  exact .bind ((req_raises d _).mono hcodec) fun protocolVersion => .ok _

theorem asCodecError_raises {α : Type} {x : Py α} :
    RaisesOnly IsCodecError (asCodecError x) ↔ RaisesOnly IsValueError x := by
  unfold asCodecError
  split
  · rename_i msg
    exact ⟨fun _ => .error (.inr ⟨msg, rfl⟩), fun _ => .error ⟨_, rfl⟩⟩
  · rename_i hnot
    constructor
    · exact fun h => h.mono fun _ => .inl
    · intro h e he
      rcases h e he with hcodec | ⟨msg, rfl⟩
      · exact hcodec
      · exact absurd he (hnot msg)

/-! What `int` does with a float. -/

/-- A finite float has an integer part; of the others, infinities overflow and a `nan` is no value. -/
structure PyConversions.Documented (conv : PyConversions) : Prop where
  finite : ∀ text, text ≠ "inf" → text ≠ "-inf" → text ≠ "nan" → Returns (conv.truncate text)
  nan : ∃ msg, conv.truncate "nan" = .error (.valueError msg)
  infinite : ∀ text, text = "inf" ∨ text = "-inf" → ∃ msg, conv.truncate text = .error (.overflowError msg)

/-- The values `int` refuses with an error that is no `ValueError`; an empty array or object is
    false, and stands for zero. -/
def FeeUnread : Json → Prop
  | .arr items => items ≠ []
  | .obj fields => fields ≠ []
  | .float text => text = "inf" ∨ text = "-inf"
  | _ => False

/-- The fee as `dec_config` looks it up. -/
def feeOf (d : Json) : Json := getOr d "selfSubmitFee" (.int 0)

theorem decFee_raises (hconv : conv.Documented) (h : ¬ FeeUnread (feeOf d)) :
    RaisesOnly IsValueError (decFee conv d) := by
  show RaisesOnly IsValueError (if truthy (feeOf d) = true then intOf conv (feeOf d) else .ok 0)
  generalize feeOf d = fee at h
  split
  · rename_i htruthy
    cases fee with
    | null => cases htruthy
    | bool b => exact .ok _
    | int n => exact .ok _
    | float text =>
      rw [intOf]
      by_cases hnan : text = "nan"
      · obtain ⟨msg, hmsg⟩ := hconv.nan
        rw [hnan, hmsg]
        exact .error (.inr ⟨msg, rfl⟩)
      · obtain ⟨n, hn⟩ := hconv.finite text (fun hinf => h (.inl hinf)) (fun hinf => h (.inr hinf)) hnan
        rw [hn]
        exact .ok n
    | str s =>
      rw [intOf]
      split
      · exact .ok _
      · exact .error (.inr ⟨_, rfl⟩)
    | arr items =>
      have hne : items ≠ [] := by simpa [truthy] using htruthy
      exact absurd hne h
    | obj fields =>
      have hne : fields ≠ [] := by simpa [truthy] using htruthy
      exact absurd hne h
  · exact .ok 0

theorem decFee_escapes (hconv : conv.Documented) (h : FeeUnread (feeOf d)) :
    ∃ e, decFee conv d = .error e ∧ ¬ IsValueError e := by
  have hother : ∀ msg, ¬ IsValueError (.typeError msg) ∧ ¬ IsValueError (.overflowError msg) := by
    intro msg
    refine ⟨?_, ?_⟩ <;> rintro (⟨_, h⟩ | ⟨_, h⟩) <;> cases h
  have hfee : decFee conv d = if truthy (feeOf d) = true then intOf conv (feeOf d) else .ok 0 := rfl
  rw [hfee]
  generalize feeOf d = fee at h
  cases fee with
  | float text =>
    have htruthy : truthy (.float text) = true := by
      rcases h with rfl | rfl
      · decide
      · decide
    obtain ⟨msg, hmsg⟩ := hconv.infinite text h
    rw [if_pos htruthy, intOf, hmsg]
    exact ⟨_, rfl, (hother msg).2⟩
  | arr items =>
    have hne : items ≠ [] := h
    have htruthy : truthy (.arr items) = true := by simpa [truthy] using hne
    rw [if_pos htruthy]
    exact ⟨_, rfl, (hother _).1⟩
  | obj fields =>
    have hne : fields ≠ [] := h
    have htruthy : truthy (.obj fields) = true := by simpa [truthy] using hne
    rw [if_pos htruthy]
    exact ⟨_, rfl, (hother _).1⟩
  | null => cases h
  | bool b => cases h
  | int n => cases h
  | str s => cases h

/-- The errors of the fields are all converted unless the fee is reached and refused by `int`. -/
theorem decConfigFields_raises (hconv : conv.Documented) :
    RaisesOnly IsValueError (decConfigFields conv d th keypers) ↔
      ¬ (Returns (decConfigBeforeFee conv d th keypers) ∧ FeeUnread (feeOf d)) := by
  rw [decConfigFields]
  constructor
  · intro h hboth
    obtain ⟨⟨f, hf⟩, hfee⟩ := hboth
    obtain ⟨e, he, hnot⟩ := decFee_escapes hconv hfee
    rw [hf, ok_bind, he, error_bind] at h
    exact hnot (h e rfl)
  · intro h
    cases hf : decConfigBeforeFee conv d th keypers with
    | error e =>
      rw [error_bind]
      exact .error (decConfigBeforeFee_raises e hf)
    | ok f =>
      rw [ok_bind]
      have hfee : ¬ FeeUnread (feeOf d) := fun hfee => h ⟨⟨f, hf⟩, hfee⟩
      exact .bind (decFee_raises hconv hfee) fun fee => check_raises _

end

/-! ## When the fee is reached -/

/-- A text of `0x` and digits, of as many bytes as asked for. -/
def IsHex (size : Option Nat) (v : Json) : Prop :=
  ∃ s raw, v = .str s ∧ HexOf s raw ∧ ∀ n, size = some n → raw.length = n

/-- An integer that is no smaller than asked for. -/
def IsInt (minimum : Option Int) (v : Json) : Prop := ∃ n, v = .int n ∧ ∀ m, minimum = some m → m ≤ n

/-- The text of a member of an enumeration. -/
def IsMember {α : Type} (members : List α) (value : α → String) (v : Json) : Prop :=
  ∃ m ∈ members, v = .str (pyStr (value m))

/-- What is asked of one member of the committee. -/
def IsKeyper (k : Json) : Prop := ∃ kf, k = .obj kf ∧
  (∃ v, Json.lookup kf "signingKey" = some v ∧ IsHex none v) ∧ ∃ url, Json.lookup kf "url" = some url

/-- An object whose fields before the fee can all be read, each under its own type; the fee itself
    is free. -/
structure FeeReached (fields : List (PyStr × Json)) : Prop where
  threshold : ∃ th t n, Json.lookup fields "threshold" = some (.obj th) ∧
    Json.lookup th "t" = some (.int t) ∧ Json.lookup th "n" = some (.int n) ∧ 1 ≤ t ∧ t ≤ n ∧ n < t * 2
  keypers : ∃ items, Json.lookup fields "keypers" = some (.arr items) ∧ ∀ k ∈ items, IsKeyper k
  electionId : ∃ v, Json.lookup fields "electionId" = some v ∧ IsHex (some 32) v
  numCandidates : ∃ v, Json.lookup fields "numCandidates" = some v ∧ IsInt (some 1) v
  budget : ∃ v, Json.lookup fields "budget" = some v ∧ IsInt (some 1) v
  mode : ∃ v, Json.lookup fields "mode" = some v ∧ IsMember [Mode.exact, .atMost] Mode.value v
  variant : ∃ v, Json.lookup fields "variant" = some v ∧ IsMember [Variant.A, .B] Variant.value v
  weighted : ∃ v, Json.lookup fields "weighted" = some v
  scale : IsInt (some 1) ((Json.lookup fields "scale").getD (.int 1))
  duplicatePolicy : ∃ v, Json.lookup fields "duplicatePolicy" = some v ∧
    IsMember [DuplicatePolicy.firstWins, .lastWins] DuplicatePolicy.value v
  votingStart : ∃ v, Json.lookup fields "votingStart" = some v ∧ IsInt none v
  votingEnd : ∃ v, Json.lookup fields "votingEnd" = some v ∧ IsInt none v
  eligibilityKey : ∃ v, Json.lookup fields "eligibilityKey" = some v ∧ IsHex none v
  resultPublisherKey : ∃ v, Json.lookup fields "resultPublisherKey" = some v ∧ IsHex none v
  gatewayKeys : ∃ items, Json.lookup fields "gatewayKeys" = some (.arr items) ∧ ∀ g ∈ items, IsHex none g
  adminKey : ∃ v, Json.lookup fields "adminKey" = some v ∧ IsHex none v
  protocolVersion : ∃ v, Json.lookup fields "protocolVersion" = some v

theorem decBytes_returns_iff {v : Json} {name : String} {size : Option Nat} :
    Returns (decBytes v name size) ↔ IsHex size v := by
  constructor
  · intro h
    obtain ⟨raw, h⟩ := h
    obtain ⟨s, hv, hs⟩ := decBytes_eq_ok h
    refine ⟨s, raw, hv, hs, ?_⟩
    intro n hn
    rw [hn] at h
    exact decBytes_length h
  · intro h
    obtain ⟨s, raw, rfl, hs, hsize⟩ := h
    refine ⟨raw, ?_⟩
    rw [decBytes, if_neg (not_not.mpr hs.1), hs.2]
    cases size with
    | none => rfl
    | some n =>
      dsimp only
      rw [if_neg (not_not.mpr (hsize n rfl))]

theorem decInt_returns_iff {v : Json} {name : String} {minimum : Option Int} :
    Returns (decInt v name minimum) ↔ IsInt minimum v := by
  constructor
  · intro h
    obtain ⟨n, h⟩ := h
    refine ⟨n, decInt_eq_ok h, ?_⟩
    intro m hm
    rw [hm] at h
    exact decInt_ge h
  · intro h
    obtain ⟨n, rfl, hmin⟩ := h
    refine ⟨n, ?_⟩
    cases minimum with
    | none => rfl
    | some m =>
      have hge := hmin m rfl
      simp only [decInt, if_neg (Int.not_lt.mpr hge)]

theorem decEnum_returns_iff {α : Type} {members : List α} {value : α → String} {cls name : String} {v : Json} :
    Returns (decEnum members value cls v name) ↔ IsMember members value v := by
  constructor
  · intro h
    obtain ⟨m, h⟩ := h
    unfold decEnum at h
    split at h
    · split at h
      · rename_i m' hfind
        have hmember := List.find?_some hfind
        rw [decide_eq_true_eq] at hmember
        exact ⟨m', List.mem_of_find?_eq_some hfind, by rw [hmember]⟩
      · cases h
    · cases h
  · intro h
    obtain ⟨m, hm, rfl⟩ := h
    rw [decEnum]
    cases hfind : members.find? fun m' => pyStr (value m') = pyStr (value m) with
    | none =>
      have hnone := List.find?_eq_none.mp hfind m hm
      rw [decide_eq_true_eq] at hnone
      exact absurd rfl hnone
    | some m' => exact .ok m'

theorem mkThreshold_returns_iff {t n : Int} : Returns (mkThreshold t n) ↔ 1 ≤ t ∧ t ≤ n ∧ n < t * 2 := by
  constructor
  · intro h
    obtain ⟨th, h⟩ := h
    have h₁ := th.one_le_t
    have h₂ := th.t_le_n
    have h₃ := th.majority
    obtain ⟨rfl, rfl⟩ := mkThreshold_eq_ok h
    omega
  · intro h
    rw [mkThreshold, dif_neg (by omega), dif_neg (by omega), dif_neg (by omega)]
    exact .ok _

section
variable {fields : List (PyStr × Json)} {key : String}

theorem req_obj_eq_ok {v : Json} : req (.obj fields) key = .ok v ↔ Json.lookup fields key = some v := by
  constructor
  · exact lookup_of_req
  · intro h
    rw [req, h]

theorem req_returns_iff : Returns (req (.obj fields) key) ↔ ∃ v, Json.lookup fields key = some v := by
  simp only [Returns, req_obj_eq_ok]

/-- A required field can be read when it is there and its value can be. -/
theorem returns_field_iff {α β : Type} {dec : Json → Py α} {f : α → Py β} {R : Json → Prop} {Q : Prop}
    (hdec : ∀ v, Returns (dec v) ↔ R v) (hf : ∀ a, Returns (f a) ↔ Q) :
    Returns (do let v ← req (.obj fields) key; let x ← dec v; f x) ↔
      (∃ v, Json.lookup fields key = some v ∧ R v) ∧ Q := by
  constructor
  · intro h
    obtain ⟨b, hb⟩ := h
    obtain ⟨v, hv, hb⟩ := bind_eq_ok.mp hb
    obtain ⟨x, hx, hb⟩ := bind_eq_ok.mp hb
    exact ⟨⟨v, req_obj_eq_ok.mp hv, (hdec v).mp ⟨x, hx⟩⟩, (hf x).mp ⟨b, hb⟩⟩
  · intro h
    obtain ⟨⟨v, hv, hr⟩, hq⟩ := h
    rw [req_obj_eq_ok.mpr hv, ok_bind]
    exact ((hdec v).mpr hr).bind fun x _ => (hf x).mpr hq

theorem decKeyper_returns_iff {conv : PyConversions} {k : Json} {i : Nat} :
    Returns (decKeyper conv k i) ↔ IsKeyper k := by
  have hobject (kf : List (PyStr × Json)) : Returns (decKeyper conv (.obj kf) i) ↔
      (∃ v, Json.lookup kf "signingKey" = some v ∧ IsHex none v) ∧ (∃ url, Json.lookup kf "url" = some url) ∧
        True := by
    refine returns_field_iff (fun v => decBytes_returns_iff) fun signingKey => ?_
    rw [← req_returns_iff]
    exact returns_bind_iff fun url => iff_true_intro (.ok _)
  constructor
  · intro h
    obtain ⟨kp, hk⟩ := h
    obtain ⟨v, hv, -⟩ := bind_eq_ok.mp hk
    obtain ⟨kf, rfl, -⟩ := req_eq_ok hv
    obtain ⟨hkey, hurl, -⟩ := (hobject kf).mp ⟨kp, hk⟩
    exact ⟨kf, rfl, hkey, hurl⟩
  · intro h
    obtain ⟨kf, rfl, hkey, hurl⟩ := h
    exact (hobject kf).mpr ⟨hkey, hurl, trivial⟩

theorem mapM_zipIdx_returns_iff {α β : Type} {g : α × Nat → Py β} {R : α → Prop}
    (hg : ∀ x i, Returns (g (x, i)) ↔ R x) {xs : List α} : Returns (xs.zipIdx.mapM g) ↔ ∀ x ∈ xs, R x := by
  rw [mapM_returns_iff]
  constructor
  · intro h x hx
    obtain ⟨i, hi, rfl⟩ := List.getElem_of_mem hx
    exact (hg _ _).mp (h (xs[i], i) (List.mk_mem_zipIdx_iff_getElem?.mpr (List.getElem?_eq_getElem hi)))
  · intro h xi hxi
    exact (hg _ _).mpr (h xi.1 (List.fst_mem_of_mem_zipIdx hxi))

/-- A list that is read element by element. -/
theorem returns_list_iff {α β : Type} {name : String} {g : Json × Nat → Py α} {f : List α → Py β}
    {R : Json → Prop} {Q : Prop} (hg : ∀ v i, Returns (g (v, i)) ↔ R v) (hf : ∀ x, Returns (f x) ↔ Q) :
    Returns (do
      let v ← req (.obj fields) key
      let items ← decList v name
      let x ← items.zipIdx.mapM g
      f x) ↔
    (∃ items, Json.lookup fields key = some (.arr items) ∧ ∀ v ∈ items, R v) ∧ Q := by
  constructor
  · intro h
    obtain ⟨b, hb⟩ := h
    obtain ⟨v, hv, hb⟩ := bind_eq_ok.mp hb
    obtain ⟨items, hitems, hb⟩ := bind_eq_ok.mp hb
    obtain ⟨x, hx, hrest⟩ := bind_eq_ok.mp hb
    rw [decList_eq_ok hitems] at hv
    exact ⟨⟨items, lookup_of_req hv, (mapM_zipIdx_returns_iff hg).mp ⟨x, hx⟩⟩, (hf x).mp ⟨b, hrest⟩⟩
  · intro h
    obtain ⟨⟨items, hitems, hall⟩, hq⟩ := h
    have hlist : decList (.arr items) name = .ok items := rfl
    rw [req_obj_eq_ok.mpr hitems, ok_bind, hlist, ok_bind]
    exact ((mapM_zipIdx_returns_iff hg).mpr hall).bind fun x _ => (hf x).mpr hq

/-- The threshold of a configuration object. -/
theorem returns_threshold_iff {β : Type} {th : Json} {f : Threshold → Py β} {Q : Prop}
    (hf : ∀ x, Returns (f x) ↔ Q) :
    Returns (do
      let v ← req th "t"
      let t ← decInt v "threshold.t" none
      let w ← req th "n"
      let n ← decInt w "threshold.n" none
      let x ← mkThreshold t n
      f x) ↔
    (∃ thf t n, th = .obj thf ∧ Json.lookup thf "t" = some (.int t) ∧ Json.lookup thf "n" = some (.int n) ∧
      1 ≤ t ∧ t ≤ n ∧ n < t * 2) ∧ Q := by
  constructor
  · intro h
    obtain ⟨b, hb⟩ := h
    obtain ⟨v, hv, hb⟩ := bind_eq_ok.mp hb
    obtain ⟨t, ht, hb⟩ := bind_eq_ok.mp hb
    obtain ⟨w, hw, hb⟩ := bind_eq_ok.mp hb
    obtain ⟨n, hn, hb⟩ := bind_eq_ok.mp hb
    obtain ⟨x, hx, hrest⟩ := bind_eq_ok.mp hb
    refine ⟨?_, (hf x).mp ⟨b, hrest⟩⟩
    obtain ⟨thf, rfl, -⟩ := req_eq_ok hv
    rw [decInt_eq_ok ht] at hv
    rw [decInt_eq_ok hn] at hw
    exact ⟨thf, t, n, rfl, lookup_of_req hv, lookup_of_req hw, mkThreshold_returns_iff.mp ⟨x, hx⟩⟩
  · intro h
    obtain ⟨⟨thf, t, n, rfl, ht, hn, hbounds⟩, hq⟩ := h
    rw [req_obj_eq_ok.mpr ht, ok_bind, decInt_any, ok_bind, req_obj_eq_ok.mpr hn, ok_bind, decInt_any, ok_bind]
    exact (mkThreshold_returns_iff.mpr hbounds).bind fun x _ => (hf x).mpr hq

end

section
variable {conv : PyConversions} {fields : List (PyStr × Json)}

theorem decConfigBeforeFee_returns_iff {th : Json} {keypers : List Json} :
    Returns (decConfigBeforeFee conv (.obj fields) th keypers) ↔
      (∃ v, Json.lookup fields "electionId" = some v ∧ IsHex (some 32) v) ∧
      (∃ v, Json.lookup fields "numCandidates" = some v ∧ IsInt (some 1) v) ∧
      (∃ v, Json.lookup fields "budget" = some v ∧ IsInt (some 1) v) ∧
      (∃ v, Json.lookup fields "mode" = some v ∧ IsMember [Mode.exact, .atMost] Mode.value v) ∧
      (∃ v, Json.lookup fields "variant" = some v ∧ IsMember [Variant.A, .B] Variant.value v) ∧
      (∃ v, Json.lookup fields "weighted" = some v) ∧
      IsInt (some 1) ((Json.lookup fields "scale").getD (.int 1)) ∧
      (∃ v, Json.lookup fields "duplicatePolicy" = some v ∧
        IsMember [DuplicatePolicy.firstWins, .lastWins] DuplicatePolicy.value v) ∧
      (∃ v, Json.lookup fields "votingStart" = some v ∧ IsInt none v) ∧
      (∃ v, Json.lookup fields "votingEnd" = some v ∧ IsInt none v) ∧
      (∃ thf t n, th = .obj thf ∧ Json.lookup thf "t" = some (.int t) ∧
        Json.lookup thf "n" = some (.int n) ∧ 1 ≤ t ∧ t ≤ n ∧ n < t * 2) ∧
      (∀ k ∈ keypers, IsKeyper k) ∧
      (∃ v, Json.lookup fields "eligibilityKey" = some v ∧ IsHex none v) ∧
      (∃ v, Json.lookup fields "resultPublisherKey" = some v ∧ IsHex none v) ∧
      (∃ items, Json.lookup fields "gatewayKeys" = some (.arr items) ∧ ∀ g ∈ items, IsHex none g) ∧
      (∃ v, Json.lookup fields "adminKey" = some v ∧ IsHex none v) ∧
      (∃ v, Json.lookup fields "protocolVersion" = some v) ∧ True := by
  have hreq (key : String) : Returns (req (.obj fields) key) ↔ ∃ v, Json.lookup fields key = some v :=
    req_returns_iff
  have hscale : Returns (decInt (getOr (.obj fields) "scale" (.int 1)) "scale" (some 1)) ↔
      IsInt (some 1) ((Json.lookup fields "scale").getD (.int 1)) := decInt_returns_iff
  have hkeypers : Returns (keypers.zipIdx.mapM fun k => decKeyper conv k.1 k.2) ↔ ∀ k ∈ keypers, IsKeyper k :=
    mapM_zipIdx_returns_iff fun k i => decKeyper_returns_iff
  refine returns_field_iff (fun v => decBytes_returns_iff) fun electionId => ?_
  refine returns_field_iff (fun v => decInt_returns_iff) fun numCandidates => ?_
  refine returns_field_iff (fun v => decInt_returns_iff) fun budget => ?_
  refine returns_field_iff (fun v => decEnum_returns_iff) fun mode => ?_
  refine returns_field_iff (fun v => decEnum_returns_iff) fun variant => ?_
  rw [← hreq "weighted"]
  refine returns_bind_iff fun weighted => ?_
  rw [← hscale]
  refine returns_bind_iff fun scale => ?_
  refine returns_field_iff (fun v => decEnum_returns_iff) fun duplicatePolicy => ?_
  refine returns_field_iff (fun v => decInt_returns_iff) fun votingStart => ?_
  refine returns_field_iff (fun v => decInt_returns_iff) fun votingEnd => ?_
  refine returns_threshold_iff fun threshold => ?_
  rw [← hkeypers]
  refine returns_bind_iff fun keypers => ?_
  refine returns_field_iff (fun v => decBytes_returns_iff) fun eligibilityKey => ?_
  refine returns_field_iff (fun v => decBytes_returns_iff) fun resultPublisherKey => ?_
  refine returns_list_iff (fun g i => decBytes_returns_iff) fun gatewayKeys => ?_
  refine returns_field_iff (fun v => decBytes_returns_iff) fun adminKey => ?_
  rw [← hreq "protocolVersion"]
  exact returns_bind_iff fun protocolVersion => iff_true_intro (.ok _)

theorem feeReached_iff : FeeReached fields ↔ ∃ th items, Json.lookup fields "threshold" = some th ∧
    Json.lookup fields "keypers" = some (.arr items) ∧
    Returns (decConfigBeforeFee conv (.obj fields) th items) := by
  constructor
  · intro h
    obtain ⟨th, t, n, hth, hbounds⟩ := h.threshold
    obtain ⟨items, hitems, hall⟩ := h.keypers
    refine ⟨.obj th, items, hth, hitems, decConfigBeforeFee_returns_iff.mpr ?_⟩
    exact ⟨h.electionId, h.numCandidates, h.budget, h.mode, h.variant, h.weighted, h.scale,
      h.duplicatePolicy, h.votingStart, h.votingEnd, ⟨th, t, n, rfl, hbounds⟩, hall, h.eligibilityKey,
      h.resultPublisherKey, h.gatewayKeys, h.adminKey, h.protocolVersion, trivial⟩
  · intro h
    obtain ⟨th, items, hth, hitems, h⟩ := h
    obtain ⟨h1, h2, h3, h4, h5, h6, h7, h8, h9, h10, ⟨thf, t, n, rfl, hbounds⟩, h12, h13, h14, h15, h16, h17, -⟩ :=
      decConfigBeforeFee_returns_iff.mp h
    exact {
      threshold := ⟨thf, t, n, hth, hbounds⟩
      keypers := ⟨items, hitems, h12⟩
      electionId := h1
      numCandidates := h2
      budget := h3
      mode := h4
      variant := h5
      weighted := h6
      scale := h7
      duplicatePolicy := h8
      votingStart := h9
      votingEnd := h10
      eligibilityKey := h13
      resultPublisherKey := h14
      gatewayKeys := h15
      adminKey := h16
      protocolVersion := h17 }

/-- The fields before the fee are in order, and `int` refuses the fee. -/
def FeeEscapes (d : Json) : Prop := ∃ fields, d = .obj fields ∧ FeeReached fields ∧ FeeUnread (feeOf d)

theorem decConfig_raises_iff (hconv : conv.Documented) (d : Json) :
    RaisesOnly IsCodecError (decConfig conv d) ↔ ¬ FeeEscapes d := by
  constructor
  · intro h hescapes
    obtain ⟨fields, rfl, hreached, hfee⟩ := hescapes
    obtain ⟨th, items, hth, hitems, hbefore⟩ := feeReached_iff.mp hreached
    have hlist : decList (.arr items) "keypers" = .ok items := rfl
    rw [decConfig, req_obj_eq_ok.mpr hth, ok_bind, req_obj_eq_ok.mpr hitems, ok_bind, hlist, ok_bind,
      asCodecError_raises, decConfigFields_raises hconv] at h
    exact h ⟨hbefore, hfee⟩
  · intro h e he
    rw [decConfig] at he
    rcases bind_eq_error.mp he with hreq | ⟨th, hth, he⟩
    · exact req_raises d _ e hreq
    · rcases bind_eq_error.mp he with hreq | ⟨v, hv, he⟩
      · exact req_raises d _ e hreq
      · rcases bind_eq_error.mp he with hlist | ⟨items, hitems, he⟩
        · exact decList_raises v _ e hlist
        · obtain ⟨fields, rfl, -⟩ := req_eq_ok hth
          rw [decList_eq_ok hitems] at hv
          refine asCodecError_raises.mpr ((decConfigFields_raises hconv).mpr ?_) e he
          intro hboth
          exact h ⟨fields, rfl, feeReached_iff.mpr ⟨th, items, lookup_of_req hth, lookup_of_req hv, hboth.1⟩,
            hboth.2⟩

/-- A decoder returns a value of the declared sizes or raises a codec error. -/
def CodecOutcome {α : Type} (Sized : α → Prop) (x : Py α) : Prop :=
  (∃ a, x = .ok a ∧ Sized a) ∨ ∃ msg, x = .error (.codecError msg)

omit conv fields in
theorem codecOutcome_iff {α : Type} {Sized : α → Prop} {x : Py α} (h : ∀ a, x = .ok a → Sized a) :
    CodecOutcome Sized x ↔ RaisesOnly IsCodecError x := by
  cases x with
  | ok a => exact iff_of_true (.inl ⟨a, rfl, h a rfl⟩) (.ok a)
  | error e =>
    constructor
    · intro hx
      rcases hx with ⟨a, ha, -⟩ | ⟨msg, hmsg⟩
      · cases ha
      · cases hmsg
        exact .error ⟨msg, rfl⟩
    · intro hx
      obtain ⟨msg, rfl⟩ := hx e rfl
      exact .inr ⟨msg, rfl⟩

theorem decConfig_electionId {d : Json} {c : ElectionConfig} (h : decConfig conv d = .ok c) :
    c.electionId.length = 32 := by
  obtain ⟨fields, rfl, hread⟩ := decConfig_reads h
  obtain ⟨s, hs, hhex⟩ := hread.electionId
  -- the id is the first field read, and no other value has its text
  obtain ⟨th, -, h⟩ := bind_eq_ok.mp h
  obtain ⟨v, -, h⟩ := bind_eq_ok.mp h
  obtain ⟨items, -, h⟩ := bind_eq_ok.mp h
  obtain ⟨f, hf, -⟩ := bind_eq_ok.mp (asCodecError_eq_ok h)
  obtain ⟨v, hv, hf⟩ := bind_eq_ok.mp hf
  obtain ⟨electionId, hdec, -⟩ := bind_eq_ok.mp hf
  obtain ⟨s', rfl, hhex'⟩ := decBytes_eq_ok hdec
  have htext := (lookup_of_req hv).symm.trans hs
  cases htext
  have hsame : electionId = c.electionId := Option.some.inj (hhex'.2.symm.trans hhex.2)
  rw [← hsame]
  exact decBytes_length hdec

end

/-- The decoders of the artifacts return a value of the declared sizes or raise a codec error, on
    every JSON value. The decoder of a configuration does exactly on those whose fee `int` does
    not refuse, or that fail before it. -/
theorem decoders_fail_with_codecError_iff {conv : PyConversions} (hconv : conv.Documented) (d : Json) :
    CodecOutcome BallotEnvelope.WellSized (decBallot d) ∧
    CodecOutcome (fun a : Attestation => a.electionId.length = 32 ∧ a.pseudonym.length = 32 ∧
      a.vk.length = g1Bytes ∧ a.signature.length = schnorrBytes) (decAttestation d "attestation") ∧
    CodecOutcome DKGResultSubmission.WellSized (decDkgResult d) ∧
    CodecOutcome DecryptionShareEnvelope.WellSized (decDecryptionShare d) ∧
    CodecOutcome AggregateArtifact.WellSized (decAggregate d) ∧
    CodecOutcome ResultArtifact.WellSized (decResult d) ∧
    (CodecOutcome (fun c : ElectionConfig => c.electionId.length = 32) (decConfig conv d) ↔ ¬ FeeEscapes d) := by
  refine ⟨?_, ?_, ?_, ?_, ?_, ?_, ?_⟩
  · exact (codecOutcome_iff fun b => decBallot_wellSized).mpr (decBallot_raises d)
  · refine (codecOutcome_iff ?_).mpr (decAttestation_raises d _)
    intro a ha
    obtain ⟨hid, hpseudonym, hvk, -, -, hsignature⟩ := decAttestation_sized ha
    exact ⟨hid, hpseudonym, hvk, hsignature⟩
  · exact (codecOutcome_iff fun s => decDkgResult_wellSized).mpr (decDkgResult_raises d)
  · exact (codecOutcome_iff fun s => decDecryptionShare_wellSized).mpr (decDecryptionShare_raises d)
  · exact (codecOutcome_iff fun a => decAggregate_wellSized).mpr (decAggregate_raises d)
  · exact (codecOutcome_iff fun r => decResult_wellSized).mpr (decResult_raises d)
  · rw [codecOutcome_iff fun c => decConfig_electionId, decConfig_raises_iff hconv]

namespace FeeSample

/-- The conversions of floats, on texts that are not numbers at least. -/
def conversions : PyConversions where
  repr _ := []
  truncate text :=
    if text = "inf" ∨ text = "-inf" then .error (.overflowError "cannot convert float infinity to integer")
    else if text = "nan" then .error (.valueError "cannot convert float NaN to integer")
    else .ok 0

theorem documented : conversions.Documented where
  finite text h₁ h₂ h₃ := ⟨0, by simp [conversions, h₁, h₂, h₃]⟩
  nan := ⟨_, rfl⟩
  infinite text h := ⟨_, if_pos h⟩

/-- The small election with another fee on the wire. -/
def withFee (fee : Json) : Json :=
  match encConfig smallConfig with
  | .obj fields => .obj (fields.dropLast ++ [(pyStr "selfSubmitFee", fee)])
  | d => d

theorem fee_escapes : decConfig conversions (withFee (.arr [.int 1])) = .error (.typeError
      "int() argument must be a string, a bytes-like object or a real number, not 'list'") ∧
    decConfig conversions (withFee (.float "inf")) =
      .error (.overflowError "cannot convert float infinity to integer") ∧
    ¬ CodecOutcome (fun c : ElectionConfig => c.electionId.length = 32)
      (decConfig conversions (withFee (.arr [.int 1]))) := by
  have harray : decConfig conversions (withFee (.arr [.int 1])) = .error (.typeError
      "int() argument must be a string, a bytes-like object or a real number, not 'list'") := by
    decide +kernel
  refine ⟨harray, by decide +kernel, ?_⟩
  rw [harray]
  intro h
  rcases h with ⟨c, hc, -⟩ | ⟨msg, hmsg⟩
  · cases hc
  · cases hmsg

/-- A `nan`, on the other hand, is refused with a codec error. -/
theorem nan_fee_refused : CodecOutcome (fun c : ElectionConfig => c.electionId.length = 32)
    (decConfig conversions (withFee (.float "nan"))) := by
  refine (decoders_fail_with_codecError_iff documented (withFee (.float "nan"))).2.2.2.2.2.2.mpr ?_
  intro h
  obtain ⟨fields, -, -, hfee⟩ := h
  have hnan : feeOf (withFee (.float "nan")) = .float "nan" := rfl
  rw [hnan] at hfee
  rcases hfee with h | h
  · exact absurd h (by decide)
  · exact absurd h (by decide)

end FeeSample
end ElGamalVoting
