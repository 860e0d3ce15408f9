import Mathlib.Order.Bounds.Basic
import ElGamalVoting.Services.CompleteReads
import ElGamalVoting.Services.Gateway

/- The gateway's scan for the highest stored nonce (`_max_stored_nonce` of
   `services/gateway/gateway.py`).

   The pages start at multiples of the page size and are clamped to a floor that need not be one,
   so the last page may overlap the one before it. Each page starts at most one page size below the
   previous one, which is why no ballot of the window is skipped. The scan starts from zero: no
   nonce below that is ever returned. -/
namespace ElGamalVoting
open Lib

/-- The nonces of a pseudonym's ballots. -/
def noncesOf (pseudonym : Bytes) (rows : List StoredBallot) : List Int :=
  (rows.filter fun sb => sb.envelope.pseudonym = pseudonym).map fun sb => sb.envelope.attestation.nonce

/-- The latest ballots, as far back as the scan reaches. -/
def latestBallots (rows : List StoredBallot) : List StoredBallot := rows.drop (rows.length - 1000)

/-- A store of these ballots that answers with its count and with the pages asked for. -/
structure ServesPages (rows : List StoredBallot) (dl : Nat → DataLayer) (electionId : Bytes) : Prop where
  count : ∀ i, (dl i).countBallots electionId = .ok (rows.length : Int)
  page : ∀ i (start count : Nat), (dl i).listBallots electionId start count = .ok ((rows.drop start).take count)

section
variable {pseudonym electionId : Bytes} {rows : List StoredBallot} {dl : Nat → DataLayer} {best : Int} {cap : Nat}

theorem noncesOf_append (first second : List StoredBallot) :
    noncesOf pseudonym (first ++ second) = noncesOf pseudonym first ++ noncesOf pseudonym second := by
  rw [noncesOf, List.filter_append, List.map_append]
  rfl

theorem mem_noncesOf_drop {n : Int} {a b : Nat} (h : n ∈ noncesOf pseudonym (rows.drop a)) (hab : b ≤ a) :
    n ∈ noncesOf pseudonym (rows.drop b) :=
  (((List.drop_sublist_drop_left rows hab).filter _).map _).subset h

/-- A page leaves the greatest of what there was and of its own nonces. -/
theorem pageNonce_isGreatest (page : List StoredBallot) :
    IsGreatest {n | n = best ∨ n ∈ noncesOf pseudonym page} (pageNonce pseudonym best page) := by
  induction page generalizing best with
  | nil => exact ⟨.inl rfl, fun n hn => hn.elim le_of_eq fun h => absurd h List.not_mem_nil⟩
  | cons sb page ih =>
    by_cases hsame : sb.envelope.pseudonym = pseudonym
    · -- the nonce is taken where it is higher
      have hnonces : noncesOf pseudonym (sb :: page) =
          sb.envelope.attestation.nonce :: noncesOf pseudonym page := by
        simp [noncesOf, hsame]
      have hstep : pageNonce pseudonym best (sb :: page) =
          pageNonce pseudonym (max best sb.envelope.attestation.nonce) page := by
        simp only [pageNonce, List.foldl_cons, hsame, true_and]
        congr 1
        split <;> omega
      obtain ⟨hmem, hupper⟩ := @ih (max best sb.envelope.attestation.nonce)
      rw [hstep, hnonces]
      refine ⟨?_, ?_⟩
      · rcases hmem with hmax | hpage
        · rw [hmax]
          rcases max_choice best sb.envelope.attestation.nonce with h | h
          · exact .inl h
          · exact .inr (by rw [h]; exact List.mem_cons_self)
        · exact .inr (List.mem_cons_of_mem _ hpage)
      · have hbound := hupper (.inl rfl)
        rintro n (rfl | hn)
        · exact (le_max_left _ _).trans hbound
        · rcases List.mem_cons.mp hn with rfl | hn
          · exact (le_max_right _ _).trans hbound
          · exact hupper (.inr hn)
    · have hnonces : noncesOf pseudonym (sb :: page) = noncesOf pseudonym page := by
        simp [noncesOf, hsame]
      have hstep : pageNonce pseudonym best (sb :: page) = pageNonce pseudonym best page := by
        simp [pageNonce, hsame]
      rw [hstep, hnonces]
      exact ih

/-- The page at an offset is the next two hundred ballots, as far as there are any. -/
theorem ServesPages.page_at (h : ServesPages rows dl electionId) (i : Nat) {off : Nat} (hoff : off ≤ rows.length) :
    (dl i).listBallots electionId off (min nonceScanPage ((rows.length : Int) - off)) =
      .ok ((rows.drop off).take 200) := by
  have hcount : min nonceScanPage ((rows.length : Int) - off) = ((min 200 (rows.length - off) : Nat) : Int) := by
    rw [nonceScanPage]
    omega
  rw [hcount, h.page i off, List.take_eq_take_iff.mpr]
  rw [List.length_drop]
  omega

/-- From an offset on whose pages above have been scanned, the scan ends with the greatest nonce of
    the window. -/
theorem scanNonces_isGreatest (h : ServesPages rows dl electionId) {floor off : Nat} (i : Nat)
    (hfloor : floor ≤ off) (hoff : off ≤ rows.length)
    (horigin : best = 0 ∨ best ∈ noncesOf pseudonym (rows.drop floor)) (hzero : 0 ≤ best)
    (hscanned : ∀ n ∈ noncesOf pseudonym (rows.drop (off + 200)), n ≤ best) :
    ∃ result, scanNonces dl electionId pseudonym rows.length floor i off best = .ok result ∧
      IsGreatest {n | n = 0 ∨ n ∈ noncesOf pseudonym (rows.drop floor)} result := by
  -- on the pages left; of those read, the best so far is the greatest
  induction hleft : off - floor using Nat.strong_induction_on generalizing i off best with
  | _ left ih =>
    rw [scanNonces, if_neg (by omega), h.page_at i hoff, ok_bind]
    obtain ⟨hmem, hupper⟩ := @pageNonce_isGreatest pseudonym best ((rows.drop off).take 200)
    set best' := pageNonce pseudonym best ((rows.drop off).take 200) with hbest'
    have hsplit : noncesOf pseudonym (rows.drop off) =
        noncesOf pseudonym ((rows.drop off).take 200) ++ noncesOf pseudonym (rows.drop (off + 200)) := by
      rw [← noncesOf_append, ← List.drop_drop, List.take_append_drop]
    have hle : best ≤ best' := hupper (.inl rfl)
    have hscanned' : ∀ n ∈ noncesOf pseudonym (rows.drop off), n ≤ best' := by
      intro n hn
      rw [hsplit, List.mem_append] at hn
      exact hn.elim (fun hn => hupper (.inr hn)) fun hn => (hscanned n hn).trans hle
    have horigin' : best' = 0 ∨ best' ∈ noncesOf pseudonym (rows.drop floor) := by
      rcases hmem with hsame | hpage
      · rwa [hsame]
      · refine .inr (mem_noncesOf_drop ?_ hfloor)
        rw [hsplit]
        exact List.mem_append_left _ hpage
    by_cases hend : off = floor
    · subst hend
      rw [if_pos rfl]
      refine ⟨best', rfl, horigin', ?_⟩
      rintro n (rfl | hn)
      · exact hzero.trans hle
      · exact hscanned' n hn
    · -- the next page starts at most one page size lower
      have hnext : max (floor : Int) (off - nonceScanPage) = ((max floor (off - 200) : Nat) : Int) := by
        rw [nonceScanPage]
        omega
      rw [if_neg (by omega), hnext]
      refine ih _ (by omega) (i + 1) (by omega) (by omega) horigin' (hzero.trans hle) ?_ rfl
      intro n hn
      exact hscanned' n (mem_noncesOf_drop hn (by omega))

theorem maxStoredNonce_isGreatest (h : ServesPages rows dl electionId) (i : Nat) (pseudonym : Bytes) :
    ∃ result, maxStoredNonce dl i electionId pseudonym = .ok result ∧
      IsGreatest {n | n = 0 ∨ n ∈ noncesOf pseudonym (latestBallots rows)} result := by
  rw [maxStoredNonce, h.count i, ok_bind]
  by_cases hempty : (rows.length : Int) = 0
  · refine ⟨0, if_pos hempty, .inl rfl, ?_⟩
    have hnil : rows = [] := List.length_eq_zero_iff.mp (by omega)
    rintro n (rfl | hn)
    · exact le_rfl
    · rw [hnil] at hn
      exact absurd hn List.not_mem_nil
  · have hfloor : max 0 ((rows.length : Int) - nonceScanLimit) = ((rows.length - 1000 : Nat) : Int) := by
      rw [nonceScanLimit]
      omega
    have hoff : max ((rows.length - 1000 : Nat) : Int) (((rows.length : Int) - 1) / nonceScanPage * nonceScanPage) =
        ((max (rows.length - 1000) ((rows.length - 1) / 200 * 200) : Nat) : Int) := by
      rw [nonceScanPage]
      omega
    simp only [hfloor, hoff]
    rw [if_neg hempty]
    -- the first page reaches the end, so nothing above it is left to scan
    refine scanNonces_isGreatest h (i + 1) (by omega) (by omega) (.inl rfl) le_rfl ?_
    intro n hn
    rw [List.drop_eq_nil_of_le (by omega)] at hn
    exact absurd hn List.not_mem_nil

/-- The scan returns the greatest of zero and of the pseudonym's nonces among the latest ballots; so
    it is their maximum where one of them is not negative, and zero where there is none. -/
theorem max_stored_nonce_exact (h : ServesPages rows dl electionId) (i : Nat) (pseudonym : Bytes) :
    ∃ result, maxStoredNonce dl i electionId pseudonym = .ok result ∧
      IsGreatest {n | n = 0 ∨ n ∈ noncesOf pseudonym (latestBallots rows)} result ∧
      (noncesOf pseudonym (latestBallots rows) = [] → result = 0) ∧
      ((∃ n ∈ noncesOf pseudonym (latestBallots rows), 0 ≤ n) →
        IsGreatest {n | n ∈ noncesOf pseudonym (latestBallots rows)} result) := by
  obtain ⟨result, hresult, hgreatest⟩ := maxStoredNonce_isGreatest h i pseudonym
  refine ⟨result, hresult, hgreatest, ?_, ?_⟩
  · intro hnone
    rcases hgreatest.1 with hzero | hn
    · exact hzero
    · rw [hnone] at hn
      exact absurd hn List.not_mem_nil
  · rintro ⟨n, hn, hpos⟩
    refine ⟨?_, fun m hm => hgreatest.2 (.inr hm)⟩
    rcases hgreatest.1 with hzero | hmem
    · have hle := hgreatest.2 (.inr hn)
      have heq : result = n := by omega
      rw [heq]
      exact hn
    · exact hmem

theorem servesPages_ballotLayer (hcap : rows.length ≤ cap) :
    ServesPages rows (fun _ => ballotLayer rows cap) electionId := by
  refine ⟨fun _ => rfl, ?_⟩
  intro i start count
  show Except.ok ((rows.drop start).take (min count cap)) = _
  rw [List.take_eq_take_iff.mpr]
  rw [List.length_drop]
  omega

end

/-- The highest of two nonces of a pseudonym is found behind another's. -/
theorem max_stored_nonce_of_three : ∃ result,
    maxStoredNonce (fun _ => ballotLayer [bareBallot 0 [1] 4, bareBallot 1 [1] 3, bareBallot 2 [2] 9] 200) 0 [] [1] =
      .ok result ∧ result = 4 := by
  obtain ⟨result, hresult, hgreatest, -⟩ := max_stored_nonce_exact
    (servesPages_ballotLayer (show [bareBallot 0 [1] 4, bareBallot 1 [1] 3, bareBallot 2 [2] 9].length ≤ 200 by decide))
    0 [1]
  refine ⟨result, hresult, hgreatest.unique ⟨.inr (by decide), ?_⟩⟩
  rintro n (rfl | hn)
  · decide
  · revert n
    decide

/-- A pseudonym whose one stored ballot has a negative nonce: its maximum is not what is returned. -/
theorem max_stored_nonce_negative :
    noncesOf [1] (latestBallots [bareBallot 0 [1] (-5)]) = [-5] ∧
    ServesPages [bareBallot 0 [1] (-5)] (fun _ => ballotLayer [bareBallot 0 [1] (-5)] 200) [] ∧
    maxStoredNonce (fun _ => ballotLayer [bareBallot 0 [1] (-5)] 200) 0 [] [1] = .ok 0 ∧
    ¬ IsGreatest {n | n ∈ noncesOf [1] (latestBallots [bareBallot 0 [1] (-5)])} 0 := by
  have hserves : ServesPages [bareBallot 0 [1] (-5)] (fun _ => ballotLayer [bareBallot 0 [1] (-5)] 200) [] :=
    servesPages_ballotLayer (by decide)
  have hnonces : noncesOf [1] (latestBallots [bareBallot 0 [1] (-5)]) = [-5] := by decide
  refine ⟨hnonces, hserves, ?_, ?_⟩
  · obtain ⟨result, hresult, hgreatest⟩ := maxStoredNonce_isGreatest hserves 0 [1]
    have hzero : IsGreatest {n | n = 0 ∨ n ∈ noncesOf [1] (latestBallots [bareBallot 0 [1] (-5)])} 0 := by
      rw [hnonces]
      refine ⟨.inl rfl, ?_⟩
      rintro n (rfl | hn)
      · exact le_rfl
      · rw [List.mem_singleton.mp hn]
        decide
    rw [hresult, hgreatest.unique hzero]
  · rw [hnonces]
    rintro ⟨hmem, -⟩
    exact absurd hmem (by decide)

end ElGamalVoting
