import ElGamalVoting.Ports.DataLayer

/- The complete ballot list behind the paged read (`services/common/reads.py`).

   A page is never empty when the loop goes on, so `total` turns are enough to
   reach the reported count (`readPages_length`); what is returned carries exactly
   the sequence numbers `0..total-1`, whatever the store answers. -/
namespace ElGamalVoting
open Lib

/-- Rows per request. -/
def ballotPage : Int := 1000

/-- The paging loop: turns left, next offset, rows so far. -/
def readPages (dl : DataLayer) (electionId : Bytes) (total : Int) :
    Nat → Int → List StoredBallot → Py (List StoredBallot)
  | 0, _, out => pure out
  | turns + 1, start, out =>
    if start < total then do
      let page ← dl.listBallots electionId start (min ballotPage (total - start))
      if page = [] then
        .error (.incompleteBallotRead (s!"election {hex electionId}: empty page at offset {start} but " ++
          s!"{total} ballots are reported — the read was truncated"))
      else readPages dl electionId total turns (start + page.length) (out ++ page)
    else pure out

/-- Python's `list(range(total))`. -/
def pyRange (total : Int) : List Int := (List.range total.toNat).map fun i : Nat => (i : Int)

def readAllBallots (dl : DataLayer) (electionId : Bytes) : Py (List StoredBallot) := do
  let total ← dl.countBallots electionId
  let out ← readPages dl electionId total total.toNat 0 []
  let got := out.map StoredBallot.sequenceNumber
  if got ≠ pyRange total then
    .error (.incompleteBallotRead (s!"election {hex electionId}: expected contiguous sequence numbers " ++
      s!"0..{total - 1}, got {got.length} rows starting {listText (got.take 5)}"))
  else pure out

/-- With as many turns as rows are missing, the loop returns at the count or past it. -/
theorem readPages_length {dl : DataLayer} {electionId : Bytes} {total : Int} {turns : Nat} {start : Int}
    {out rows : List StoredBallot} (hturns : total - start ≤ turns) (hstart : start = out.length)
    (h : readPages dl electionId total turns start out = .ok rows) : total ≤ rows.length := by
  induction turns generalizing start out with
  | zero =>
    rw [readPages, pure_eq_ok, Except.ok.injEq] at h
    subst h
    omega
  | succ turns ih =>
    rw [readPages] at h
    by_cases hlt : start < total
    · rw [if_pos hlt] at h
      obtain ⟨page, -, h⟩ := bind_eq_ok.mp h
      by_cases hpage : page = []
      · rw [if_pos hpage] at h
        cases h
      · rw [if_neg hpage] at h
        have hpos := List.length_pos_of_ne_nil hpage
        refine ih ?_ ?_ h
        · push_cast at hturns
          omega
        · rw [List.length_append, hstart]
          push_cast
          ring
    · rw [if_neg hlt, pure_eq_ok, Except.ok.injEq] at h
      subst h
      omega

/-- What is returned is contiguous from zero. -/
theorem readAllBallots_contiguous {dl : DataLayer} {electionId : Bytes} {stored : List StoredBallot}
    (h : readAllBallots dl electionId = .ok stored) :
    ∃ total, dl.countBallots electionId = .ok total ∧
      stored.map StoredBallot.sequenceNumber = pyRange total := by
  rw [readAllBallots] at h
  obtain ⟨total, htotal, h⟩ := bind_eq_ok.mp h
  obtain ⟨out, -, h⟩ := bind_eq_ok.mp h
  refine ⟨total, htotal, ?_⟩
  by_cases hgot : out.map StoredBallot.sequenceNumber ≠ pyRange total
  · rw [if_pos hgot] at h
    cases h
  · rw [if_neg hgot, pure_eq_ok, Except.ok.injEq] at h
    subst h
    exact not_not.mp hgot

end ElGamalVoting
