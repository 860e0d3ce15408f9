import ElGamalVoting.Envelopes.JsonText
import ElGamalVoting.Envelopes.RoundTrips

/- Which values cross a wire as JSON texts.

   `json.dumps` raises on an integer of too many digits (`printable`). A value that is written is read
   back as it is when no text in it holds a surrogate pair as two code points and it is not nested too
   deep (`shaped`). The artifacts hold hexadecimal texts, so they are shaped for any interpreter whose
   stack allows eight levels; a configuration is when its own texts are well paired. -/
namespace ElGamalVoting
open Lib

namespace Json

mutual
/-- No floats, no two surrogates that make a pair, and no deeper than the stack allows. -/
def shaped (depth : Nat) : Json → Bool
  | null | bool _ | int _ => true
  | float _ => false
  | str s => WellPaired s
  | arr items => shapedItems depth items
  | obj fields => shapedFields depth fields

def shapedItems : Nat → List Json → Bool
  | 0, _ => false
  | _ + 1, [] => true
  | depth + 1, item :: items => shaped depth item && shapedItems (depth + 1) items

def shapedFields : Nat → List (PyStr × Json) → Bool
  | 0, _ => false
  | _ + 1, [] => true
  | depth + 1, field :: fields => shapedField depth field && shapedFields (depth + 1) fields

def shapedField (depth : Nat) : PyStr × Json → Bool
  | (name, value) => WellPaired name && shaped depth value
end

end Json

theorem printableItems_iff {items : List Json} :
    Json.printableItems items = true ↔ ∀ item ∈ items, item.printable = true := by
  induction items with
  | nil => simp [Json.printableItems]
  | cons item items ih => simp [Json.printableItems, ih]

theorem printableFields_iff {fields : List (PyStr × Json)} :
    Json.printableFields fields = true ↔ ∀ f ∈ fields, f.2.printable = true := by
  induction fields with
  | nil => simp [Json.printableFields]
  | cons f fields ih =>
    cases f
    simp [Json.printableFields, Json.printableField, ih]

theorem shapedItems_iff {depth : Nat} {items : List Json} :
    Json.shapedItems (depth + 1) items = true ↔ ∀ item ∈ items, item.shaped depth = true := by
  induction items with
  | nil => simp [Json.shapedItems]
  | cons item items ih => simp [Json.shapedItems, ih]

theorem shapedFields_iff {depth : Nat} {fields : List (PyStr × Json)} :
    Json.shapedFields (depth + 1) fields = true ↔
      ∀ f ∈ fields, WellPaired f.1 = true ∧ f.2.shaped depth = true := by
  induction fields with
  | nil => simp [Json.shapedFields]
  | cons f fields ih =>
    cases f
    simp [Json.shapedFields, Json.shapedField, ih]

/-- A shaped value that is printed is read. -/
theorem readable_of_shaped (depth : Nat) (j : Json) (hs : j.shaped depth = true) (hp : j.printable = true) :
    j.readable depth = true := by
  cases j with
  | null => rfl
  | bool b => rfl
  | int n =>
    rw [Json.printable] at hp
    rw [Json.readable]
    exact hp
  | float t => simp [Json.shaped] at hs
  | str s =>
    rw [Json.shaped] at hs
    rw [Json.readable]
    exact hs
  | arr items =>
    rw [Json.shaped] at hs
    rw [Json.printable, printableItems_iff] at hp
    rw [Json.readable]
    cases depth with
    | zero => simp [Json.shapedItems] at hs
    | succ depth =>
      rw [shapedItems_iff] at hs
      rw [readableItems_iff]
      exact fun item hmem => readable_of_shaped depth item (hs item hmem) (hp item hmem)
  | obj fields =>
    rw [Json.shaped] at hs
    rw [Json.printable, printableFields_iff] at hp
    rw [Json.readable]
    cases depth with
    | zero => simp [Json.shapedFields] at hs
    | succ depth =>
      rw [shapedFields_iff] at hs
      rw [readableFields_iff]
      exact fun f hmem => ⟨(hs f hmem).1, readable_of_shaped depth f.2 (hs f hmem).2 (hp f hmem)⟩
termination_by sizeOf j
decreasing_by
  · subst_vars
    have hlt := List.sizeOf_lt_of_mem hmem
    simp only [Json.arr.sizeOf_spec]
    omega
  · subst_vars
    have hlt := List.sizeOf_lt_of_mem hmem
    cases f
    simp only [Json.obj.sizeOf_spec, Prod.mk.sizeOf_spec] at hlt ⊢
    omega

/-! ## The artifacts are shaped -/

theorem wellPaired_hex (b : Bytes) : WellPaired (pyStr "0x" ++ pyStr (hex b)) = true := by
  have h := plain_encBytes b
  rwa [encBytes, Json.plain] at h

theorem shaped_encBytes (depth : Nat) (b : Bytes) : (encBytes b).shaped depth = true := by
  rw [encBytes, Json.shaped]
  exact wellPaired_hex b

theorem printable_encBytes (b : Bytes) : (encBytes b).printable = true := by
  rw [encBytes, Json.printable]
  all_goals simp

/-- The encodings of a list's items. -/
theorem shaped_arr {α : Type} {depth : Nat} {enc : α → Json} (h : ∀ a, (enc a).shaped depth = true) (l : List α) :
    Json.shapedItems (depth + 1) (l.map enc) = true := by
  rw [shapedItems_iff]
  intro j hj
  obtain ⟨a, -, rfl⟩ := List.mem_map.mp hj
  exact h a

theorem shaped_encCiphertext (depth : Nat) (ct : Ciphertext) : (encCiphertext ct).shaped (depth + 1) = true := by
  simp +decide [encCiphertext, Json.shaped, Json.shapedFields, Json.shapedField, shaped_encBytes]

theorem shaped_encAttestation (depth : Nat) (a : Attestation) : (encAttestation a).shaped (depth + 1) = true := by
  have hscheme : WellPaired (pyStr a.scheme.value) = true := by
    cases a.scheme
    decide
  simp +decide [encAttestation, Json.shaped, Json.shapedFields, Json.shapedField, shaped_encBytes, hscheme]

theorem shaped_encBallot (depth : Nat) (b : BallotEnvelope) : (encBallot b).shaped (depth + 3) = true := by
  have hcts := shaped_arr (shaped_encCiphertext depth) b.ciphertexts
  simp +decide [encBallot, Json.shaped, Json.shapedFields, Json.shapedField, shaped_encBytes, hcts,
    shaped_encAttestation]

theorem shaped_encExclusion (depth : Nat) (x : Exclusion) : (encExclusion x).shaped (depth + 1) = true := by
  have hreason : WellPaired (pyStr x.reason.value) = true := by cases x.reason <;> decide
  simp +decide [encExclusion, Json.shaped, Json.shapedFields, Json.shapedField, hreason]

theorem shaped_encAggregate (depth : Nat) (A : AggregateArtifact) : (encAggregate A).shaped (depth + 3) = true := by
  have hcts := shaped_arr (shaped_encCiphertext depth) A.aggregates
  have hadmitted : Json.shapedItems (depth + 2) (A.admitted.map Json.int) = true :=
    shaped_arr (fun n => by rw [Json.shaped]) A.admitted
  have hexclusions := shaped_arr (shaped_encExclusion depth) A.exclusions
  simp +decide [encAggregate, Json.shaped, Json.shapedFields, Json.shapedField, shaped_encBytes, hcts, hadmitted,
    hexclusions]

theorem shaped_encShareEntry (depth : Nat) (e : DecryptionShareEntry) : (encShareEntry e).shaped (depth + 1) = true := by
  simp +decide [encShareEntry, Json.shaped, Json.shapedFields, Json.shapedField, shaped_encBytes]

theorem shaped_encDecryptionShare (depth : Nat) (s : DecryptionShareEnvelope) :
    (encDecryptionShare s).shaped (depth + 3) = true := by
  have hentries := shaped_arr (shaped_encShareEntry depth) s.entries
  simp +decide [encDecryptionShare, Json.shaped, Json.shapedFields, Json.shapedField, shaped_encBytes, hentries]

theorem shaped_encResult (depth : Nat) (r : ResultArtifact) : (encResult r).shaped (depth + 2) = true := by
  have hints : ∀ l : List Int, Json.shapedItems (depth + 1) (l.map Json.int) = true :=
    shaped_arr fun n => by rw [Json.shaped]
  simp +decide [encResult, Json.shaped, Json.shapedFields, Json.shapedField, shaped_encBytes, hints]

theorem shaped_encConfig (depth : Nat) {c : ElectionConfig} (h : ∀ s ∈ c.texts, WellPaired s = true) :
    (encConfig c).shaped (depth + 3) = true := by
  have hkeypers : Json.shapedItems (depth + 2) (c.keypers.map fun k =>
      .obj [(pyStr "signingKey", encBytes k.signingKey), (pyStr "url", .str k.url)]) = true := by
    rw [shapedItems_iff]
    intro j hj
    obtain ⟨k, hk, rfl⟩ := List.mem_map.mp hj
    have hurl := h k.url (List.mem_cons_of_mem _ (List.mem_map_of_mem hk))
    simp +decide [Json.shaped, Json.shapedFields, Json.shapedField, shaped_encBytes, hurl]
  have hgateways := shaped_arr (shaped_encBytes (depth + 1)) c.gatewayKeys
  have hmode : WellPaired (pyStr c.mode.value) = true := by cases c.mode <;> decide
  have hvariant : WellPaired (pyStr c.variant.value) = true := by cases c.variant <;> decide
  have hpolicy : WellPaired (pyStr c.duplicatePolicy.value) = true := by
    cases c.duplicatePolicy <;> decide
  have hversion := h c.protocolVersion List.mem_cons_self
  have hfee := wellPaired_nat c.selfSubmitFeeWei
  rw [Nat.toString_eq_repr] at hfee
  simp +decide [encConfig, Json.shaped, Json.shapedFields, Json.shapedField, shaped_encBytes, hkeypers, hgateways,
    hmode, hvariant, hpolicy, hversion, hfee]

theorem printable_nat {n : Nat} : (Json.int n).printable = true ↔ n < 10 ^ maxStrDigits := by
  rw [Json.printable, decide_eq_true_eq, Int.natAbs_natCast, Nat.length_toDigits_le_iff (by decide) (by decide)]

end ElGamalVoting
