import ElGamalVoting.Envelopes.DecoderErrors

/- The codecs read back what they write, and settle after one reading (`envelopes/codecs.py`).

   Five of the encoders are total. `enc_config` writes the fee as a decimal text, and Python
   converts no integer of more than 4300 digits to a text or back: `str` and `int` raise a
   `ValueError` there. The codec of a configuration is therefore taken with that limit here; below it
   the two are the codec of `ConfigCodec`. -/
namespace ElGamalVoting
open Lib

/-- The digit characters of a text; neither a sign nor an underscore counts. -/
def digitCount (s : PyStr) : Nat := s.countP fun c => (digitValue c).isSome

/-- The `ValueError` of an integer that is not converted to a text. -/
def tooManyDigits : PyError :=
  .valueError (s!"Exceeds the limit ({maxStrDigits} digits) for integer string conversion; " ++
    "use sys.set_int_max_str_digits() to increase the limit")

/-- `str` of an integer that is not negative. -/
def strOfNat (n : Nat) : Py PyStr :=
  if 10 ^ maxStrDigits ≤ n then .error tooManyDigits else .ok (pyStr (toString n))

/-- `enc_config`, of which the text of the fee is the one part that can raise. -/
def encConfigLimited (c : ElectionConfig) : Py Json := do
  let _ ← strOfNat c.selfSubmitFeeWei
  pure (encConfig c)

/-- The fee, where a text of too many digits is no number. -/
def decFeeLimited (conv : PyConversions) (d : Json) : Py Int :=
  match feeOf d with
  | .str s =>
    if maxStrDigits < digitCount s then
      .error (.valueError (s!"Exceeds the limit ({maxStrDigits} digits) for integer string conversion: " ++
        s!"value has {digitCount s} digits; use sys.set_int_max_str_digits() to increase the limit"))
    else decFee conv d
  | _ => decFee conv d

def decConfigLimited (conv : PyConversions) (d : Json) : Py ElectionConfig := do
  let th ← req d "threshold"
  let keypers ← decList (← req d "keypers") "keypers"
  asCodecError (do
    let f ← decConfigBeforeFee conv d th keypers
    let selfSubmitFeeWei ← decFeeLimited conv d
    ConfigFields.check { f with selfSubmitFeeWei })

/-! ## The limit -/

/-- The fee is no text, or one with few enough digits. -/
def FeeTextFits (d : Json) : Prop := ∀ s, feeOf d = .str s → digitCount s ≤ maxStrDigits

section
variable {conv : PyConversions} {d : Json} {c : ElectionConfig}

theorem decFeeLimited_of_fits (h : FeeTextFits d) : decFeeLimited conv d = decFee conv d := by
  unfold decFeeLimited
  split
  · rename_i s hs
    rw [if_neg (Nat.not_lt.mpr (h s hs))]
  · rfl

theorem fits_of_decFeeLimited {fee : Int} (h : decFeeLimited conv d = .ok fee) : FeeTextFits d := by
  intro s hs
  by_contra hlong
  rw [decFeeLimited, hs] at h
  dsimp only at h
  rw [if_pos (Nat.lt_of_not_le hlong)] at h
  cases h

/-- What is read under the limit is what is read without it. -/
theorem decConfigLimited_eq_ok :
    decConfigLimited conv d = .ok c ↔ decConfig conv d = .ok c ∧ FeeTextFits d := by
  have hsame (hfits : FeeTextFits d) : decConfigLimited conv d = decConfig conv d := by
    simp only [decConfigLimited, decConfig, decConfigFields, decFeeLimited_of_fits hfits]
  constructor
  · intro h
    have hfits : FeeTextFits d := by
      obtain ⟨th, -, h⟩ := bind_eq_ok.mp h
      obtain ⟨v, -, h⟩ := bind_eq_ok.mp h
      obtain ⟨items, -, h⟩ := bind_eq_ok.mp h
      obtain ⟨f, -, h⟩ := bind_eq_ok.mp (asCodecError_eq_ok h)
      obtain ⟨fee, hfee, -⟩ := bind_eq_ok.mp h
      exact fits_of_decFeeLimited hfee
    exact ⟨(hsame hfits).symm.trans h, hfits⟩
  · intro h
    exact (hsame h.2).trans h.1

theorem feeTextFits_encConfig (h : c.selfSubmitFeeWei < 10 ^ maxStrDigits) : FeeTextFits (encConfig c) := by
  intro s hs
  have htext : feeOf (encConfig c) = .str (pyStr (toString c.selfSubmitFeeWei)) := rfl
  rw [htext] at hs
  cases hs
  have hdigits : (pyStr (toString c.selfSubmitFeeWei)).length = (Nat.toDigits 10 c.selfSubmitFeeWei).length :=
    (congrArg List.length (congrArg (List.map Char.toNat) Nat.toList_repr)).trans (List.length_map _)
  calc digitCount (pyStr (toString c.selfSubmitFeeWei))
      ≤ (pyStr (toString c.selfSubmitFeeWei)).length := List.countP_le_length
    _ = (Nat.toDigits 10 c.selfSubmitFeeWei).length := hdigits
    _ ≤ maxStrDigits := (Nat.length_toDigits_le_iff (by decide) (by decide)).mpr h

/-- A configuration is encoded when its fee is below the limit. -/
theorem encConfigLimited_eq_ok {j : Json} :
    encConfigLimited c = .ok j ↔ encConfig c = j ∧ c.selfSubmitFeeWei < 10 ^ maxStrDigits := by
  rw [encConfigLimited, strOfNat]
  by_cases hfee : 10 ^ maxStrDigits ≤ c.selfSubmitFeeWei
  · rw [if_pos hfee, error_bind]
    exact iff_of_false (fun h => by cases h) (fun h => Nat.not_lt.mpr hfee h.2)
  · rw [if_neg hfee, ok_bind, pure_eq_ok, Except.ok.injEq]
    exact (and_iff_left (Nat.lt_of_not_le hfee)).symm

/-- A configuration is read back exactly when its fee is below the limit: above it nothing is written. -/
theorem config_round_trip_iff (hid : c.electionId.length = 32) :
    (∃ j, encConfigLimited c = .ok j ∧ decConfigLimited conv j = .ok c) ↔
      c.selfSubmitFeeWei < 10 ^ maxStrDigits := by
  constructor
  · intro h
    obtain ⟨j, hj, -⟩ := h
    exact (encConfigLimited_eq_ok.mp hj).2
  · intro h
    exact ⟨encConfig c, encConfigLimited_eq_ok.mpr ⟨rfl, h⟩,
      decConfigLimited_eq_ok.mpr ⟨decConfig_encConfig conv hid, feeTextFits_encConfig h⟩⟩

end

/-- Every codec reads back what it writes, from well-sized values and from what it read itself. -/
theorem codecs_round_trip (conv : PyConversions) :
    ((∀ b : BallotEnvelope, b.WellSized → decBallot (encBallot b) = .ok b) ∧
     (∀ s : DKGResultSubmission, s.WellSized → decDkgResult (encDkgResult s) = .ok s) ∧
     (∀ s : DecryptionShareEnvelope, s.WellSized → decDecryptionShare (encDecryptionShare s) = .ok s) ∧
     (∀ a : AggregateArtifact, a.WellSized → decAggregate (encAggregate a) = .ok a) ∧
     (∀ r : ResultArtifact, r.WellSized → decResult (encResult r) = .ok r) ∧
     ∀ c : ElectionConfig, c.electionId.length = 32 →
      ((∃ j, encConfigLimited c = .ok j ∧ decConfigLimited conv j = .ok c) ↔
        c.selfSubmitFeeWei < 10 ^ maxStrDigits)) ∧
    (∀ (d : Json) (b : BallotEnvelope), decBallot d = .ok b → decBallot (encBallot b) = .ok b) ∧
    (∀ (d : Json) (s : DKGResultSubmission), decDkgResult d = .ok s → decDkgResult (encDkgResult s) = .ok s) ∧
    (∀ (d : Json) (s : DecryptionShareEnvelope), decDecryptionShare d = .ok s →
      decDecryptionShare (encDecryptionShare s) = .ok s) ∧
    (∀ (d : Json) (a : AggregateArtifact), decAggregate d = .ok a → decAggregate (encAggregate a) = .ok a) ∧
    (∀ (d : Json) (r : ResultArtifact), decResult d = .ok r → decResult (encResult r) = .ok r) ∧
    ∀ (d : Json) (c : ElectionConfig), decConfigLimited conv d = .ok c →
      ((∃ j, encConfigLimited c = .ok j ∧ decConfigLimited conv j = .ok c) ↔
        c.selfSubmitFeeWei < 10 ^ maxStrDigits) := by
  refine ⟨⟨?_, ?_, ?_, ?_, ?_, ?_⟩, ?_, ?_, ?_, ?_, ?_, ?_⟩
  · exact fun b => decBallot_encBallot
  · exact fun s => decDkgResult_encDkgResult
  · exact fun s => decDecryptionShare_encDecryptionShare
  · exact fun a => decAggregate_encAggregate
  · exact fun r => decResult_encResult
  · exact fun c => config_round_trip_iff
  -- what a decoder accepts is well sized, so it is written and read back
  · exact fun d b h => decBallot_encBallot (decBallot_wellSized h)
  · exact fun d s h => decDkgResult_encDkgResult (decDkgResult_wellSized h)
  · exact fun d s h => decDecryptionShare_encDecryptionShare (decDecryptionShare_wellSized h)
  · exact fun d a h => decAggregate_encAggregate (decAggregate_wellSized h)
  · exact fun d r h => decResult_encResult (decResult_wellSized h)
  · intro d c h
    exact config_round_trip_iff (decConfig_electionId (decConfigLimited_eq_ok.mp h).1)

namespace FeeSample

/-- The small election with a fee of 4301 digits. -/
def costly : ElectionConfig := { smallConfig with selfSubmitFeeWei := 10 ^ maxStrDigits }

theorem costly_not_encoded : costly.electionId.length = 32 ∧
    encConfigLimited costly = .error (.valueError
      (s!"Exceeds the limit ({maxStrDigits} digits) for integer string conversion; " ++
        "use sys.set_int_max_str_digits() to increase the limit")) := by
  have hfee : strOfNat costly.selfSubmitFeeWei = .error (.valueError
      (s!"Exceeds the limit ({maxStrDigits} digits) for integer string conversion; " ++
        "use sys.set_int_max_str_digits() to increase the limit")) := if_pos le_rfl
  refine ⟨length_beBytes 32 1, ?_⟩
  rw [encConfigLimited, hfee, error_bind]

theorem codecs_round_trip_small :
    ∃ j, encConfigLimited smallConfig = .ok j ∧ decConfigLimited conversions j = .ok smallConfig := by
  have hround := (codecs_round_trip conversions).1.2.2.2.2.2 smallConfig (length_beBytes 32 1)
  exact hround.mpr (Nat.pow_pos (by decide))

end FeeSample
end ElGamalVoting
