import ElGamalVoting.Services.Reads

/- Complete reads of a store that changes under the reader (`services/common/reads.py`).

   `read_all_ballots` asks for the count once and then for pages, and between two of its requests
   ballots may be appended: the accesses are numbered, and `dl i` answers the `i`-th. The loop goes
   on by the length of whatever page it was given, so it is the recursion itself that has to
   terminate; over a store that does not change it is the loop of `Services.Reads`. -/
namespace ElGamalVoting
open Lib

/-- The paging loop from access `i` on: next offset, rows so far. -/
def readPagesOver (dl : Nat → DataLayer) (electionId : Bytes) (total : Int) (i : Nat) (start : Int)
    (out : List StoredBallot) : Py (List StoredBallot) := do
  if _h : start < total then
    let page ← (dl i).listBallots electionId start (min ballotPage (total - start))
    if _hpage : page = [] then
      .error (.incompleteBallotRead (s!"election {hex electionId}: empty page at offset {start} but " ++
        s!"{total} ballots are reported — the read was truncated"))
    else readPagesOver dl electionId total (i + 1) (start + page.length) (out ++ page)
  else pure out
termination_by (total - start).toNat
decreasing_by
  -- a page that is not empty brings the offset closer to the count
  have hpos := List.length_pos_of_ne_nil _hpage
  omega

/-- `read_all_ballots`, access by access. -/
def readAllBallotsOver (dl : Nat → DataLayer) (electionId : Bytes) : Py (List StoredBallot) := do
  let total ← (dl 0).countBallots electionId
  let out ← readPagesOver dl electionId total 1 0 []
  let got := out.map StoredBallot.sequenceNumber
  if got ≠ pyRange total then
    .error (.incompleteBallotRead (s!"election {hex electionId}: expected contiguous sequence numbers " ++
      s!"0..{total - 1}, got {got.length} rows starting {listText (got.take 5)}"))
  else pure out

section
variable {dl : Nat → DataLayer} {electionId : Bytes} {total : Int}

/-- Over a store that does not change, a turn of fuel for each missing row is enough. -/
theorem readPages_eq_over {dl : DataLayer} {turns : Nat} {start : Int} {out : List StoredBallot} (i : Nat)
    (hturns : total - start ≤ turns) :
    readPages dl electionId total turns start out = readPagesOver (fun _ => dl) electionId total i start out := by
  induction turns generalizing i start out with
  | zero =>
    rw [readPagesOver, dif_neg (by omega)]
    rfl
  | succ turns ih =>
    rw [readPages, readPagesOver]
    by_cases hlt : start < total
    · rw [if_pos hlt, dif_pos hlt]
      congr 1
      funext page
      by_cases hpage : page = []
      · rw [if_pos hpage, dif_pos hpage]
      · rw [if_neg hpage, dif_neg hpage]
        have hpos := List.length_pos_of_ne_nil hpage
        exact ih (i + 1) (by push_cast at hturns; omega)
    · rw [if_neg hlt, dif_neg hlt]

theorem readAllBallots_eq_over (dl : DataLayer) (electionId : Bytes) :
    readAllBallots dl electionId = readAllBallotsOver (fun _ => dl) electionId := by
  rw [readAllBallots, readAllBallotsOver]
  congr 1
  funext total
  rw [readPages_eq_over 1 (by omega)]

/-! ## Whatever the store answers -/

/-- The stored ballots at each access: appended to, and numbered by position. -/
structure GrowingStore where
  ballots : Nat → List StoredBallot
  grows : ∀ i, ballots i <+: ballots (i + 1)
  numbered : ∀ i, (ballots i).map StoredBallot.sequenceNumber = pyRange (ballots i).length

/-- Rows whose numbers are their positions. -/
theorem numbers_eq_pyRange {rows : List StoredBallot}
    (h : ∀ (i : Nat) sb, rows[i]? = some sb → sb.sequenceNumber = (i : Int)) :
    rows.map StoredBallot.sequenceNumber = pyRange rows.length := by
  apply List.ext_getElem?
  intro i
  rw [pyRange, Int.toNat_natCast, List.getElem?_map, List.getElem?_map]
  by_cases hi : i < rows.length
  · have hget := List.getElem?_eq_getElem hi
    rw [hget, List.getElem?_range hi, Option.map_some, Option.map_some, h i _ hget]
  · rw [List.getElem?_eq_none (by omega), List.getElem?_eq_none (by simpa using hi)]
    rfl

/-- The answers of a store: its count, and a page of the rows counted that is the beginning of the rows
    asked for, cut off anywhere but before the first of them. -/
structure GrowingStore.Answers (store : GrowingStore) (dl : Nat → DataLayer) (electionId : Bytes) : Prop where
  count : (dl 0).countBallots electionId = .ok ((store.ballots 0).length : Int)
  page : ∀ i (start count : Nat), start + count ≤ (store.ballots 0).length →
    ∃ page, (dl i).listBallots electionId start count = .ok page ∧
    page <+: ((store.ballots i).drop start).take count ∧
    (((store.ballots i).drop start).take count ≠ [] → page ≠ [])

theorem GrowingStore.first (store : GrowingStore) (i : Nat) : store.ballots 0 <+: store.ballots i := by
  induction i with
  | zero => exact List.prefix_rfl
  | succ i ih => exact ih.trans (store.grows i)

/-- The rows asked for are among those counted, and so no append is seen. -/
theorem GrowingStore.window (store : GrowingStore) (i : Nat) {start count : Nat}
    (h : start + count ≤ (store.ballots 0).length) :
    ((store.ballots i).drop start).take count = ((store.ballots 0).drop start).take count := by
  obtain ⟨more, hmore⟩ := store.first i
  rw [← hmore, List.drop_append_of_le_length (by omega), List.take_append_of_le_length]
  rw [List.length_drop]
  omega

theorem append_page {rows page : List StoredBallot} {start count : Nat}
    (hpage : page <+: (rows.drop start).take count) : rows.take start ++ page = rows.take (start + page.length) := by
  have htake : page = (rows.drop start).take page.length :=
    List.prefix_iff_eq_take.mp (hpage.trans (List.take_prefix _ _))
  rw [List.take_add, ← htake]

theorem readPagesOver_growing {store : GrowingStore} (h : store.Answers dl electionId) (i start : Nat)
    (hstart : start ≤ (store.ballots 0).length) :
    readPagesOver dl electionId ((store.ballots 0).length : Int) i start ((store.ballots 0).take start) =
      .ok (store.ballots 0) := by
  induction hleft : (store.ballots 0).length - start using Nat.strong_induction_on generalizing i start with
  | _ left ih =>
    rw [readPagesOver]
    by_cases hlt : start < (store.ballots 0).length
    · have hcount : min ballotPage (((store.ballots 0).length : Int) - start) =
          ((min 1000 ((store.ballots 0).length - start) : Nat) : Int) := by
        rw [ballotPage]
        omega
      have hwindow : start + min 1000 ((store.ballots 0).length - start) ≤ (store.ballots 0).length := by omega
      obtain ⟨page, hpage, hfront, hsome⟩ :=
        h.page i start (min 1000 ((store.ballots 0).length - start)) hwindow
      rw [store.window i hwindow] at hfront hsome
      have hpos : 0 < page.length := by
        refine List.length_pos_of_ne_nil (hsome ?_)
        intro hnil
        have hlen := congrArg List.length hnil
        rw [List.length_take, List.length_drop, List.length_nil] at hlen
        omega
      have hle := hfront.length_le
      rw [List.length_take, List.length_drop] at hle
      rw [dif_pos (by omega), hcount, hpage, ok_bind, dif_neg (List.ne_nil_of_length_pos hpos),
        append_page hfront]
      exact_mod_cast ih _ (by omega) (i + 1) (start + page.length) (by omega) rfl
    · rw [dif_neg (by omega), List.take_of_length_le (by omega)]
      rfl

theorem readAllBallotsOver_growing {store : GrowingStore} (h : store.Answers dl electionId) :
    readAllBallotsOver dl electionId = .ok (store.ballots 0) := by
  have hrows := readPagesOver_growing h 1 0 (Nat.zero_le _)
  rw [List.take_zero] at hrows
  rw [readAllBallotsOver, h.count, ok_bind]
  rw [show ((0 : Nat) : Int) = 0 from rfl] at hrows
  rw [hrows, ok_bind, if_neg (not_not.mpr (store.numbered 0))]
  rfl

/-- A store of these ballots and nothing else, that gives out at most `cap` rows at a time. -/
def ballotLayer (rows : List StoredBallot) (cap : Nat) : DataLayer where
  getElection _ := .error (.keyError "unknown election")
  getDkgSubmissions _ := .ok []
  getFinalizedKey _ := .ok none
  listBallots _ start count := .ok ((rows.drop start.toNat).take (min count.toNat cap))
  countBallots _ := .ok rows.length
  getAggregate _ := .ok none
  listDecryptionShares _ := .ok []
  getResult _ := .ok none

end

/-- A stored ballot of which nothing matters but its number, pseudonym and nonce. -/
def bareBallot (sequenceNumber : Int) (pseudonym : Bytes) (nonce : Int) : StoredBallot :=
  ⟨sequenceNumber, ⟨[], pseudonym, [], [], [], [], ⟨[], pseudonym, [], 1, [], .v1, nonce⟩⟩, none⟩

end ElGamalVoting
