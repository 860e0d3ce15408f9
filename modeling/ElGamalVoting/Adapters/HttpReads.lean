import ElGamalVoting.Adapters.HttpWrites

/- A client of the HTTP service reads what the adapter answers.

   The answers go through the encoders of the service and the decoders of the client. Where the
   artifacts an adapter answers with are well sized and the texts of its configuration well paired
   (`Served`), the client's reads are the adapter's, an error of the adapter being what the statuses tell
   of it, an answer that is not printed a `ValueError`, and a ballot page no longer than the cap. The
   DKG submissions are the exception: the service takes keys of any length (`submit_dkg`) and the client
   refuses to read them back. -/
namespace ElGamalVoting
open Lib

/-- The decimal text of an integer is read back. -/
theorem intOfStr_toString_int (n : Int) : intOfStr (pyStr (toString n)) = some n := by
  cases n with
  | ofNat n => exact intOfStr_toString n
  | negSucc n =>
    have hdigits : ∀ c ∈ Nat.toDigits 10 (n + 1), c.isDigit = true := fun c hc =>
      Nat.isDigit_of_mem_toDigits (by decide) (by decide) hc
    have htext := negText n
    have hstrip : stripBy isIntSpace (pyStr (toString (Int.negSucc n))) = pyStr (toString (Int.negSucc n)) := by
      apply stripBy_eq_self
      rw [htext]
      intro c hc
      have hrange : c = 0x2D ∨ 48 ≤ c ∧ c ≤ 57 := by
        rcases List.mem_cons.mp hc with rfl | hc
        · exact .inl rfl
        · obtain ⟨d, hd, rfl⟩ := List.mem_map.mp hc
          exact .inr (isDigit_bounds (hdigits d hd))
      apply isIntSpace_eq_false
      rw [isPySpace, decide_eq_false_iff_not]
      simp only [List.mem_cons, List.not_mem_nil, or_false]
      omega
    have hvalue : digits ((Nat.toDigits 10 (n + 1)).map Char.toNat) = some (n + 1) := by
      rw [digits_of_isDigit hdigits Nat.toDigits_ne_nil, Nat.ofDigitChars_ten_toDigits]
    rw [intOfStr, hstrip, htext]
    show (digits ((Nat.toDigits 10 (n + 1)).map Char.toNat)).map (fun n => -(n : Int)) = _
    rw [hvalue]
    rfl

/-- The text of an integer that is printed has few enough digits. -/
theorem digitCount_toString_le {n : Int} (h : (Json.int n).printable = true) :
    digitCount (pyStr (toString n)) ≤ maxStrDigits := by
  rw [Json.printable, decide_eq_true_eq] at h
  cases n with
  | ofNat n =>
    have htext : pyStr (toString (Int.ofNat n)) = (Nat.toDigits 10 n).map Char.toNat :=
      congrArg (List.map Char.toNat) Nat.toList_repr
    rw [htext]
    exact le_trans List.countP_le_length (by simpa using h)
  | negSucc n =>
    have hsign : (digitValue 0x2D).isSome = false := by decide
    rw [negText, digitCount, List.countP_cons_of_neg (by simp [hsign])]
    exact le_trans List.countP_le_length (by simpa using h)

namespace Http

/-- What an exception of a read is at the client: a conflict of two quorums has the status of a write that
    came too late. -/
def HttpLib.remoteRead (lib : HttpLib) (e : PyError) : PyError :=
  match e with
  | .quorumConflict msg => .immutability msg
  | e => lib.remote e

section
variable {lib : HttpLib} {conv : PyConversions} {dl : DataLayer} {electionId : Bytes}

theorem received_readError (lib : HttpLib) (e : PyError) : lib.received (readError e) = .error (lib.remoteRead e) := by
  cases e <;> rfl

/-- A read with one name in its answer: what the data layer returned is encoded and decoded again. -/
theorem read_round_trip {α : Type} (name : String) (hname : WellPaired (pyStr name) = true) {x : Py α}
    (enc : α → Json) {dec : Json → Py α} (hshape : ∀ a depth, (enc a).shaped (depth + 7) = true)
    (hdec : ∀ a, x = .ok a → dec (enc a) = .ok a) :
    (do
      let d ← lib.received (jsonify name (do pure (enc (← x))))
      dec (← subscript d name)) = across enc lib.remoteRead x := by
  cases x with
  | error e =>
    have hresponse : lib.received (jsonify name (do pure (enc (← (.error e : Py α))))) = .error (lib.remoteRead e) :=
      received_readError lib e
    rw [hresponse, error_bind]
    rfl
  | ok a =>
    have hresponse := received_printed name hname (received_readError lib) (hshape a)
    have hfield : subscript (.obj [(pyStr name, enc a)]) name = .ok (enc a) := by
      simp [subscript, Json.lookup]
    show (do
      let d ← lib.received (printed readError (.obj [(pyStr name, enc a)]))
      dec (← subscript d name)) = _
    rw [hresponse, across]
    by_cases hprint : (enc a).printable = true
    · rw [if_pos hprint, if_pos hprint, ok_bind, hfield, ok_bind, hdec a rfl]
    · rw [if_neg hprint, if_neg hprint, error_bind]

/-- Decoding the encodings of a list. -/
theorem decItems_json {α : Type} {enc : α → Json} {dec : Json → Py α} {xs : List α}
    (h : ∀ x ∈ xs, dec (enc x) = .ok x) : decItems dec (.arr (xs.map enc)) = .ok xs := by
  have hitems : iterate (.arr (xs.map enc)) = .ok (xs.map enc) := rfl
  rw [decItems, hitems, ok_bind, mapM_eq_ok]
  induction xs with
  | nil => exact .nil
  | cons x xs ih => exact .cons (h x List.mem_cons_self) (ih (fun y hy => h y (List.mem_cons_of_mem x hy)) rfl)

theorem decStoredBallot_json {sb : StoredBallot} (h : sb.envelope.WellSized) :
    decStoredBallot conv (storedBallotJson sb) = .ok sb := by
  obtain ⟨sequenceNumber, envelope, submittedAt⟩ := sb
  have hseq : subscript (storedBallotJson ⟨sequenceNumber, envelope, submittedAt⟩) "sequenceNumber" =
      .ok (.int sequenceNumber) := rfl
  have hballot : subscript (storedBallotJson ⟨sequenceNumber, envelope, submittedAt⟩) "ballot" =
      .ok (encBallot envelope) := rfl
  have htime : decSubmittedAt conv (storedBallotJson ⟨sequenceNumber, envelope, submittedAt⟩) = .ok submittedAt := by
    cases submittedAt <;> rfl
  rw [decStoredBallot, hseq, ok_bind, intOf, ok_bind, hballot, ok_bind, decBallot_encBallot h, ok_bind, htime,
    ok_bind, pure_eq_ok]

theorem shaped_storedBallotJson (depth : Nat) (sb : StoredBallot) :
    (storedBallotJson sb).shaped (depth + 4) = true := by
  have hballot := shaped_encBallot depth sb.envelope
  obtain ⟨sequenceNumber, envelope, submittedAt⟩ := sb
  cases submittedAt <;>
    simp +decide [storedBallotJson, Json.shaped, Json.shapedFields, Json.shapedField, hballot]

theorem shaped_list {α : Type} {depth : Nat} {enc : α → Json} (h : ∀ a, (enc a).shaped depth = true) (l : List α) :
    (Json.arr (l.map enc)).shaped (depth + 1) = true := by
  rw [Json.shaped]
  exact shaped_arr h l

/-- A number of a query is read by the service as it was sent. -/
theorem queryInt_text {n : Int} (h : (Json.int n).printable = true) :
    queryText n = .ok (pyStr (toString n)) ∧ queryInt (some (pyStr (toString n))) = .ok n := by
  refine ⟨if_pos h, ?_⟩
  rw [queryInt]
  simp only [if_neg (Nat.not_lt.mpr (digitCount_toString_le h)), intOfStr_toString_int]

/-- A page of well-sized ballots is read as it is. -/
theorem ballots_read (h : ∀ start count rows, dl.listBallots electionId start count = .ok rows →
    ∀ sb ∈ rows, sb.envelope.WellSized) {start count : Int} (hstart : (Json.int start).printable = true)
    (hcount : (Json.int count).printable = true) :
    (lib.reads conv dl).listBallots electionId start count =
      across (fun rows => .arr (rows.map storedBallotJson)) lib.remoteRead
        (dl.listBallots electionId start (min count maxBallotPage)) := by
  obtain ⟨hsent, hread⟩ := queryInt_text hstart
  obtain ⟨hsent', hread'⟩ := queryInt_text hcount
  show (do
    let start ← queryText start
    let count ← queryText count
    let d ← lib.received (listBallotsRoute dl (clientEid electionId) (some start) (some count))
    decItems (decStoredBallot conv) (← subscript d "ballots")) = _
  rw [hsent, ok_bind, hsent', ok_bind, listBallotsRoute, hread, hread', ok_bind, ok_bind, eidOf_clientEid, ok_bind]
  exact read_round_trip "ballots" (by decide) (fun rows => .arr (rows.map storedBallotJson))
    (fun rows depth => shaped_list (shaped_storedBallotJson (depth + 2)) rows)
    (fun rows hrows => decItems_json fun sb hsb => decStoredBallot_json (h _ _ rows hrows sb hsb))

theorem ballotCount_read : (lib.reads conv dl).countBallots electionId =
    across Json.int lib.remoteRead (dl.countBallots electionId) := by
  show (do
    let d ← lib.received (countBallotsRoute dl (clientEid electionId))
    intOf conv (← subscript d "count")) = _
  rw [countBallotsRoute, eidOf_clientEid, ok_bind]
  exact read_round_trip "count" (by decide) Json.int (fun _ _ => by rw [Json.shaped]) (fun _ _ => rfl)

end

end Http
end ElGamalVoting
