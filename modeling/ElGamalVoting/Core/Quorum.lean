import Mathlib.Data.List.Sort
import ElGamalVoting.Core.Errors
import ElGamalVoting.Lib.Bytes
import ElGamalVoting.Lib.Except
import ElGamalVoting.Lib.Quorum

/- Quorum resolution of the off-chain stores (`core/quorum.py`). -/
namespace ElGamalVoting
open Lib

/-- The single artifact that reached `needed` keypers, if any; raises when more than
    one did. -/
def resolveUnique {T : Type} (groups : List (T × List Int)) (needed : Nat) (artifact : String)
    (electionId : Bytes) : Py (Option T) :=
  let finalized := groups.filter fun g => needed ≤ g.2.length
  if 1 < finalized.length then
    let detail := "; ".intercalate (finalized.map fun g =>
      "keypers " ++ listText (g.2.insertionSort (· ≤ ·)))
    .error (.quorumConflict (s!"{artifact}: {finalized.length} distinct artifacts each reached the " ++
      s!"quorum of {needed} for election {hex electionId} ({detail}). The committee has " ++
      "split; refusing to pick one by iteration order."))
  else .ok (finalized.head?.map Prod.fst)

variable {K V : Type} [DecidableEq K]

/-- Among votes of distinct keypers, fewer than two quorums, the resolution is the winner. -/
theorem resolveUnique_groupVotes {needed : Nat} {votes : List (Int × K × V)} (hpos : 0 < needed)
    (hvoters : (votes.map Prod.fst).Nodup) (hlen : votes.length < needed * 2) (artifact : String)
    (electionId : Bytes) :
    resolveUnique (Quorum.groupVotes votes).values needed artifact electionId =
      .ok (Quorum.winner needed votes) := by
  have hfinal := Quorum.finalized_groupVotes hpos hvoters hlen
  rw [resolveUnique]
  dsimp only
  set finalized := (Quorum.groupVotes votes).values.filter fun g => decide (needed ≤ g.2.length)
  have hone : finalized.length ≤ 1 := by
    rw [← List.length_map Prod.fst, hfinal]
    exact Option.length_toList_le
  rw [if_neg (by omega), ← List.head?_map, hfinal, Option.head?_toList]

end ElGamalVoting
