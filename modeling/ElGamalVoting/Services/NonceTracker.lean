import Mathlib.Data.Rat.Defs
import Mathlib.Algebra.Order.Field.Rat
import Mathlib.Tactic.Linarith
import ElGamalVoting.Core.Config
import ElGamalVoting.Core.Errors
import ElGamalVoting.Lib.Dict
import ElGamalVoting.Lib.Run

/- The replay guard of bootstrap payloads (`NonceTracker` of
   `services/keyper/keyper_bootstrap.py`).

   A payload is judged by its sender's timestamp, and its nonce is forgotten by the time it
   was recorded. A timestamp ahead of the clock outlives the record. A reading of
   `time.time()` is a rational, and the differences that decide are exact. -/
namespace ElGamalVoting
open Lib

structure NonceTracker where
  windowS : ℚ
  seen : Dict PyStr ℚ := ∅

def nonceWindowS : ℚ := 300

/-- The integers from which on a conversion to a float raises. -/
def floatOverflow : Int := 2 ^ 1024 - 2 ^ 970

namespace NonceTracker

/-- Entries recorded more than the window ago go. -/
def prune (t : NonceTracker) (now : ℚ) : NonceTracker :=
  { t with seen := t.seen.filter fun e => ¬ t.windowS < now - e.2 }

def checkAndRecord (t : NonceTracker) (now : ℚ) (nonce : PyStr) (timestamp : Int) : NonceTracker × Py Bool :=
  let t := t.prune now
  if nonce = [] then (t, .ok false)
  else if floatOverflow ≤ |timestamp| then (t, .error (.overflowError "int too large to convert to float"))
  else if t.windowS < |now - timestamp| then (t, .ok false)
  else if nonce ∈ t.seen.keys then (t, .ok false)
  else ({ t with seen := t.seen.set nonce now }, .ok true)

end NonceTracker

/-- A call with the clock's reading. -/
structure NonceCall where
  now : ℚ
  nonce : PyStr
  timestamp : Int

def NonceCall.run (call : NonceCall) (t : NonceTracker) : NonceTracker × Py Bool :=
  t.checkAndRecord call.now call.nonce call.timestamp

/-- The tracker after the calls. -/
def NonceTracker.after (windowS : ℚ) (calls : List NonceCall) : NonceTracker :=
  calls.foldl (fun t call => (call.run t).1) { windowS }

/-- The call returns `True` after the calls `before`. -/
def NonceCall.Accepted (windowS : ℚ) (before : List NonceCall) (call : NonceCall) : Prop :=
  (call.run (NonceTracker.after windowS before)).2 = .ok true

def Nondecreasing (calls : List NonceCall) : Prop := (calls.map NonceCall.now).Pairwise (· ≤ ·)

/-- No pair of nonce and timestamp is accepted twice. -/
def AcceptedOnce (windowS : ℚ) (calls : List NonceCall) : Prop :=
  ∀ before call middle again after, calls = before ++ call :: middle ++ again :: after →
    again.nonce = call.nonce → again.timestamp = call.timestamp →
    call.Accepted windowS before → ¬ again.Accepted windowS (before ++ call :: middle)

/-! ## One call -/

section
variable {t : NonceTracker} {call : NonceCall} {nonce : PyStr} {recorded : ℚ}

@[simp] theorem NonceCall.run_windowS : (call.run t).1.windowS = t.windowS := by
  unfold NonceCall.run NonceTracker.checkAndRecord
  dsimp only
  split_ifs <;> rfl

theorem NonceTracker.get?_prune {now : ℚ} : (t.prune now).seen.get? nonce = some recorded ↔
    t.seen.get? nonce = some recorded ∧ now - recorded ≤ t.windowS := by
  unfold NonceTracker.prune
  rw [Dict.get?_filter, decide_eq_true_eq, not_lt]

/-- An accepted call: its timestamp is in the window, and its nonce was not there and is. -/
theorem NonceCall.run_eq_true (h : (call.run t).2 = .ok true) :
    call.nonce ≠ [] ∧ |call.timestamp| < floatOverflow ∧ |call.now - call.timestamp| ≤ t.windowS ∧
      call.nonce ∉ (t.prune call.now).seen.keys ∧
      (call.run t).1.seen = (t.prune call.now).seen.set call.nonce call.now := by
  unfold NonceCall.run NonceTracker.checkAndRecord at h ⊢
  dsimp only at h ⊢
  split_ifs at h ⊢ with hempty hfloat hwindow hseen
  · cases h
  · cases h
  · cases h
  · exact ⟨hempty, not_le.mp hfloat, not_lt.mp hwindow, hseen, rfl⟩

theorem NonceCall.run_of_fresh (hempty : call.nonce ≠ []) (hfloat : |call.timestamp| < floatOverflow)
    (hwindow : |call.now - call.timestamp| ≤ t.windowS) (hseen : call.nonce ∉ (t.prune call.now).seen.keys) :
    (call.run t).2 = .ok true := by
  unfold NonceCall.run NonceTracker.checkAndRecord
  dsimp only
  rw [if_neg hempty, if_neg (not_le.mpr hfloat), if_neg (show ¬ (t.prune call.now).windowS < _ from not_lt.mpr hwindow),
    if_neg hseen]

/-- A record stays while it is within the window. -/
theorem NonceCall.run_keeps (h : t.seen.get? nonce = some recorded) (hwithin : call.now - recorded ≤ t.windowS) :
    (call.run t).1.seen.get? nonce = some recorded := by
  have hpruned : (t.prune call.now).seen.get? nonce = some recorded := NonceTracker.get?_prune.mpr ⟨h, hwithin⟩
  unfold NonceCall.run NonceTracker.checkAndRecord
  dsimp only
  split_ifs with _ _ _ hseen
  · exact hpruned
  · exact hpruned
  · exact hpruned
  · exact hpruned
  · show ((t.prune call.now).seen.set call.nonce call.now).get? nonce = some recorded
    rw [Dict.get?_set_ne]
    · exact hpruned
    · intro heq
      exact hseen (heq ▸ Dict.mem_keys_of_get? hpruned)

end

/-! ## Runs -/

section
variable {windowS : ℚ} {before middle : List NonceCall} {call again : NonceCall}

theorem NonceTracker.after_append (calls more : List NonceCall) : NonceTracker.after windowS (calls ++ more) =
    more.foldl (fun t call => (call.run t).1) (NonceTracker.after windowS calls) := List.foldl_append

theorem NonceTracker.after_windowS (calls : List NonceCall) : (NonceTracker.after windowS calls).windowS = windowS :=
  run_invariant (fun t : NonceTracker => t.windowS = windowS) (fun _ _ h => NonceCall.run_windowS.trans h) rfl calls

/-- Through calls within the window of a record, the record stays. -/
theorem NonceTracker.run_keeps {t : NonceTracker} {nonce : PyStr} {recorded : ℚ}
    (h : t.seen.get? nonce = some recorded) {calls : List NonceCall}
    (hwithin : ∀ call ∈ calls, call.now - recorded ≤ t.windowS) :
    (calls.foldl (fun t call => (call.run t).1) t).seen.get? nonce = some recorded := by
  induction calls generalizing t with
  | nil => exact h
  | cons call calls ih =>
    apply ih
    · exact NonceCall.run_keeps h (hwithin call List.mem_cons_self)
    · intro c hc
      rw [NonceCall.run_windowS]
      exact hwithin c (List.mem_cons_of_mem _ hc)

/-- What an accepted call left is there for as long as the window lasts. -/
theorem recorded_after (haccepted : call.Accepted windowS before)
    (hwithin : ∀ c ∈ middle, c.now - call.now ≤ windowS) :
    (NonceTracker.after windowS (before ++ call :: middle)).seen.get? call.nonce = some call.now := by
  obtain ⟨-, -, -, -, hset⟩ := NonceCall.run_eq_true haccepted
  rw [NonceTracker.after_append, List.foldl_cons]
  apply NonceTracker.run_keeps
  · rw [hset, Dict.get?_set_self]
  · rw [NonceCall.run_windowS, NonceTracker.after_windowS]
    exact hwithin

theorem Nondecreasing.le_last {calls : List NonceCall} {last : NonceCall} (h : Nondecreasing (calls ++ [last])) :
    ∀ c ∈ calls, c.now ≤ last.now := by
  intro c hc
  rw [Nondecreasing, List.map_append, List.pairwise_append] at h
  exact h.2.2 c.now (List.mem_map_of_mem hc) last.now (List.mem_singleton.mpr rfl)

/-- A timestamp that is not ahead of the clock is not accepted again. -/
theorem not_accepted_again (hclock : Nondecreasing (before ++ call :: middle ++ [again]))
    (hnonce : again.nonce = call.nonce) (htimestamp : again.timestamp = call.timestamp)
    (haccepted : call.Accepted windowS before) (hpast : (call.timestamp : ℚ) ≤ call.now) :
    ¬ again.Accepted windowS (before ++ call :: middle) := by
  intro hagain
  obtain ⟨-, -, hwindow, hnot, -⟩ := NonceCall.run_eq_true hagain
  rw [NonceTracker.after_windowS, htimestamp, abs_le] at hwindow
  -- every call since then is no later than `again`, hence within the window of the record
  have hlast : again.now - call.now ≤ windowS := by linarith
  have hwithin : ∀ c ∈ middle, c.now - call.now ≤ windowS := by
    intro c hc
    have hle := hclock.le_last c (List.mem_append_right _ (List.mem_cons_of_mem _ hc))
    linarith
  have hrecorded := recorded_after haccepted hwithin
  apply hnot
  apply Dict.mem_keys_of_get? (v := call.now)
  rw [hnonce, NonceTracker.get?_prune, NonceTracker.after_windowS]
  exact ⟨hrecorded, hlast⟩

/-- A timestamp ahead of the clock is accepted again when its own window ends. -/
theorem accepted_again (haccepted : call.Accepted windowS before) (hahead : call.now < call.timestamp) :
    (⟨call.timestamp + windowS, call.nonce, call.timestamp⟩ : NonceCall).Accepted windowS (before ++ [call]) := by
  obtain ⟨hempty, hfloat, hwindow, -, hset⟩ := NonceCall.run_eq_true haccepted
  rw [NonceTracker.after_windowS] at hwindow
  have hpos : 0 ≤ windowS := le_trans (abs_nonneg _) hwindow
  have hrecorded : (NonceTracker.after windowS (before ++ [call])).seen.get? call.nonce = some call.now :=
    recorded_after haccepted (List.forall_mem_nil _)
  refine NonceCall.run_of_fresh hempty hfloat ?_ ?_
  · show |(call.timestamp : ℚ) + windowS - call.timestamp| ≤ _
    rw [NonceTracker.after_windowS, add_sub_cancel_left, abs_of_nonneg hpos]
  · intro hseen
    obtain ⟨recorded, hget⟩ := Dict.exists_get?_of_mem_keys hseen
    obtain ⟨hget, hle⟩ := NonceTracker.get?_prune.mp hget
    cases Option.some.inj (hrecorded.symm.trans hget)
    rw [NonceTracker.after_windowS] at hle
    linarith

end

/-- In every run under a nondecreasing clock whose calls carry no timestamp ahead of the clock and
    inside the window, a pair of nonce and timestamp is accepted once at most. The condition is the
    exact one: an accepted pair is accepted by no continuation of the run precisely where its timestamp
    was not ahead of the clock. -/
theorem bootstrap_accepted_once (windowS : ℚ) :
    (∀ calls, Nondecreasing calls →
      (∀ call ∈ calls, ¬ (call.now < call.timestamp ∧ call.timestamp ≤ call.now + windowS)) →
      AcceptedOnce windowS calls) ∧
    ∀ before call, Nondecreasing (before ++ [call]) → call.Accepted windowS before →
      ((∀ middle again, Nondecreasing (before ++ call :: middle ++ [again]) →
          again.nonce = call.nonce → again.timestamp = call.timestamp →
          ¬ again.Accepted windowS (before ++ call :: middle)) ↔
        (call.timestamp : ℚ) ≤ call.now) := by
  refine ⟨?_, ?_⟩
  · intro calls hclock hpast before call middle again after hsplit hnonce htimestamp haccepted
    have hshorter : Nondecreasing (before ++ call :: middle ++ [again]) := by
      rw [hsplit, List.append_cons] at hclock
      rw [Nondecreasing, List.map_append] at hclock
      exact (List.pairwise_append.mp hclock).1
    refine not_accepted_again hshorter hnonce htimestamp haccepted ?_
    obtain ⟨-, -, hwindow, -, -⟩ := NonceCall.run_eq_true haccepted
    rw [NonceTracker.after_windowS, abs_le] at hwindow
    by_contra hahead
    refine hpast call (by simp [hsplit]) ⟨not_le.mp hahead, ?_⟩
    linarith
  · intro before call hclock haccepted
    constructor
    · intro honce
      by_contra hahead
      have hagain := accepted_again haccepted (not_le.mp hahead)
      refine honce [] ⟨call.timestamp + windowS, call.nonce, call.timestamp⟩ ?_ rfl rfl hagain
      obtain ⟨-, -, hwindow, -, -⟩ := NonceCall.run_eq_true haccepted
      rw [NonceTracker.after_windowS] at hwindow
      have hpos : 0 ≤ windowS := le_trans (abs_nonneg _) hwindow
      -- the clock of the replay is past every reading so far
      have hlater : ∀ c ∈ before ++ [call], c.now ≤ call.timestamp + windowS := by
        intro c hc
        have hcall : c.now ≤ call.now := by
          rcases List.mem_append.mp hc with hc | hc
          · exact hclock.le_last c hc
          · rw [List.mem_singleton.mp hc]
        linarith [not_le.mp hahead]
      rw [Nondecreasing, List.map_append, List.pairwise_append]
      refine ⟨hclock, List.pairwise_singleton _ _, ?_⟩
      intro a ha b hb
      obtain ⟨c, hc, rfl⟩ := List.mem_map.mp ha
      cases List.mem_singleton.mp hb
      exact hlater c hc
    · intro hpast middle again hagain hnonce htimestamp
      exact not_accepted_again hagain hnonce htimestamp haccepted hpast

/-- A payload stamped ten seconds ago is accepted, and not again while it is fresh nor when it is stale. -/
theorem bootstrap_once_when_stamped_before :
    let first : NonceCall := ⟨1000, [110], 990⟩
    let second : NonceCall := ⟨1290, [110], 990⟩
    let third : NonceCall := ⟨1301, [110], 990⟩
    first.Accepted nonceWindowS [] ∧ AcceptedOnce nonceWindowS [first, second, third] := by
  intro first second third
  have haccepted : first.Accepted nonceWindowS [] := by
    unfold NonceCall.Accepted
    decide +kernel
  have hclock : Nondecreasing [first, second, third] := by
    unfold Nondecreasing
    decide +kernel
  refine ⟨haccepted, (bootstrap_accepted_once nonceWindowS).1 [first, second, third] hclock ?_⟩
  decide +kernel

/-- A payload stamped five minutes ahead is accepted, and again five minutes and a second later. -/
theorem bootstrap_replayed :
    let first : NonceCall := ⟨1000, [110], 1300⟩
    let second : NonceCall := ⟨1301, [110], 1300⟩
    Nondecreasing [first, second] ∧ first.Accepted nonceWindowS [] ∧ second.Accepted nonceWindowS [first] ∧
      ¬ AcceptedOnce nonceWindowS [first, second] := by
  intro first second
  have hfirst : first.Accepted nonceWindowS [] := by
    unfold NonceCall.Accepted
    decide +kernel
  have hsecond : second.Accepted nonceWindowS [first] := by
    unfold NonceCall.Accepted
    decide +kernel
  refine ⟨?_, hfirst, hsecond, ?_⟩
  · unfold Nondecreasing
    decide +kernel
  · intro h
    exact h [] first [] second [] rfl rfl rfl hfirst hsecond

end ElGamalVoting
