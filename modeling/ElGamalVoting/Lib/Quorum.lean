import Mathlib.Data.List.Count
import ElGamalVoting.Lib.Dict

/- Agreement by majority. A ballot box is a list of votes, each a voter with the
   content voted for (its `key`) and a value that came with it. Voters vote
   once, so the number of votes for a content is the number of its voters.

   `groupVotes` is the usual loop: group the voters by content, in the order the
   contents first appear, and remember the first value of each. `winner` is what
   the groups are for: the value of the first vote whose content has enough
   votes. When fewer votes are cast than two quorums need, at most one content
   has a quorum (`support_agree`), the groups that reach it are at most one
   (`finalized_groupVotes`), and votes added later do not change the winner
   (`winner_append`). -/
namespace Lib.Quorum
variable {I K V : Type} [DecidableEq I] [DecidableEq K]

/-- The number of votes for a content. -/
def support (votes : List (I × K × V)) (k : K) : Nat := votes.countP fun e => e.2.1 = k

/-- The value of the first vote whose content has at least `needed` votes. -/
def winner (needed : Nat) (votes : List (I × K × V)) : Option V :=
  (votes.find? fun e => needed ≤ support votes e.2.1).map fun e => e.2.2

/-- One turn of the grouping loop. -/
def addVote (groups : Dict K (V × List I)) (e : I × K × V) : Dict K (V × List I) :=
  match groups.get? e.2.1 with
  | none => groups.set e.2.1 (e.2.2, [e.1])
  | some (first, voters) => groups.set e.2.1 (first, voters.insert e.1)

def groupVotes (votes : List (I × K × V)) : Dict K (V × List I) := votes.foldl addVote ∅

omit [DecidableEq I] [DecidableEq K] in
theorem find?_congr {α : Type} {p q : α → Bool} {l : List α} (h : ∀ x ∈ l, p x = q x) :
    l.find? p = l.find? q := by
  induction l with
  | nil => rfl
  | cons x l ih =>
    rw [List.find?_cons, List.find?_cons, h x List.mem_cons_self,
      ih fun y hy => h y (List.mem_cons_of_mem x hy)]

/-! ## Support -/

omit [DecidableEq I] in
theorem support_append (votes more : List (I × K × V)) (k : K) :
    support (votes ++ more) k = support votes k + support more k :=
  List.countP_append

omit [DecidableEq I] in
theorem support_pos_iff {votes : List (I × K × V)} {k : K} :
    0 < support votes k ↔ ∃ e ∈ votes, e.2.1 = k := by
  rw [support, List.countP_pos_iff]
  simp

omit [DecidableEq I] in
theorem support_add_le {votes : List (I × K × V)} {k k' : K} (h : k ≠ k') :
    support votes k + support votes k' ≤ votes.length := by
  induction votes with
  | nil => simp [support]
  | cons e votes ih =>
    simp only [support, List.countP_cons, List.length_cons, decide_eq_true_eq] at ih ⊢
    by_cases hk : e.2.1 = k
    · have hk' : e.2.1 ≠ k' := fun h' => h (hk.symm.trans h')
      rw [if_pos hk, if_neg hk']
      omega
    · rw [if_neg hk]
      split <;> omega

omit [DecidableEq I] in
/-- Two contents with a quorum are one, when two quorums are more than all votes. -/
theorem support_agree {needed : Nat} {votes : List (I × K × V)} (hlen : votes.length < needed * 2)
    {k k' : K} (hk : needed ≤ support votes k) (hk' : needed ≤ support votes k') : k = k' := by
  by_contra hne
  have hle : support votes k + support votes k' ≤ votes.length := support_add_le hne
  omega

omit [DecidableEq I] in
theorem winner_eq_some {needed : Nat} {votes : List (I × K × V)} {v : V}
    (h : winner needed votes = some v) :
    ∃ i k, (i, k, v) ∈ votes ∧ needed ≤ support votes k := by
  rw [winner, Option.map_eq_some_iff] at h
  obtain ⟨⟨i, k, v'⟩, hfind, rfl⟩ := h
  exact ⟨i, k, List.mem_of_find?_eq_some hfind, by simpa using List.find?_some hfind⟩

omit [DecidableEq I] in
/-- A content with a quorum has a winner. -/
theorem winner_isSome {needed : Nat} (hpos : 0 < needed) {votes : List (I × K × V)} {k : K}
    (h : needed ≤ support votes k) : (winner needed votes).isSome := by
  rw [winner, Option.isSome_map, List.find?_isSome]
  obtain ⟨e, he, hk⟩ := support_pos_iff.mp (Nat.lt_of_lt_of_le hpos h)
  exact ⟨e, he, by simpa [hk] using h⟩

omit [DecidableEq I] in
/-- Votes added later do not change the winner. -/
theorem winner_append {needed : Nat} {votes more : List (I × K × V)}
    (hlen : (votes ++ more).length < needed * 2) {v : V} (h : winner needed votes = some v) :
    winner needed (votes ++ more) = some v := by
  rw [winner, Option.map_eq_some_iff] at h
  obtain ⟨e, hfind, rfl⟩ := h
  have hwin : needed ≤ support votes e.2.1 := by simpa using List.find?_some hfind
  have hgrow : ∀ k, support votes k ≤ support (votes ++ more) k := fun k => by
    rw [support_append]
    omega
  -- an earlier vote with a quorum now would be for the same content, and so had one before
  have hsame : votes.find? (fun e => needed ≤ support (votes ++ more) e.2.1) =
      votes.find? (fun e => needed ≤ support votes e.2.1) := by
    apply find?_congr
    intro f _
    rw [decide_eq_decide]
    constructor
    · intro hf
      rwa [support_agree hlen hf (Nat.le_trans hwin (hgrow _))]
    · intro hf
      exact Nat.le_trans hf (hgrow _)
  rw [winner, List.find?_append, hsame, hfind]
  rfl

omit [DecidableEq I] in
theorem winner_eq_none {needed : Nat} (hpos : 0 < needed) {votes : List (I × K × V)} :
    winner needed votes = none ↔ ∀ k, support votes k < needed := by
  constructor
  · intro h k
    by_contra hk
    have := winner_isSome hpos (Nat.le_of_not_lt hk)
    rw [h] at this
    cases this
  · intro h
    rw [Option.eq_none_iff_forall_ne_some]
    intro v hv
    obtain ⟨i, k, -, hk⟩ := winner_eq_some hv
    exact absurd (h k) (Nat.not_lt.mpr hk)

omit [DecidableEq I] in
/-- When only one content gained votes and there was no winner, it wins exactly when
    it now has a quorum. -/
theorem winner_step {needed : Nat} (hpos : 0 < needed) {votes votes' : List (I × K × V)}
    (hnone : winner needed votes = none) (hlen : votes'.length < needed * 2) {k : K} {v : V}
    (hothers : ∀ k', k' ≠ k → support votes' k' ≤ support votes k')
    (hvalue : ∀ e ∈ votes', e.2.1 = k → e.2.2 = v) :
    winner needed votes' = if needed ≤ support votes' k then some v else none := by
  have hno := (winner_eq_none hpos).mp hnone
  split
  · rename_i hk
    obtain ⟨w, hw⟩ := Option.isSome_iff_exists.mp (winner_isSome hpos hk)
    obtain ⟨i, k', hmem, hk'⟩ := winner_eq_some hw
    obtain rfl : k' = k := support_agree hlen hk' hk
    rw [hw, ← hvalue _ hmem rfl]
  · rename_i hk
    rw [winner_eq_none hpos]
    intro k'
    by_cases hne : k' = k
    · rw [hne]
      exact Nat.lt_of_not_le hk
    · exact Nat.lt_of_le_of_lt (hothers k' hne) (hno k')

omit [DecidableEq I] in
/-- The winner depends on the contents and values in their order, not on who voted. -/
theorem winner_rel {J W : Type} {R : V → W → Prop} {needed : Nat} {votes : List (I × K × V)}
    {votes' : List (J × K × W)}
    (h : List.Forall₂ (fun e f => e.2.1 = f.2.1 ∧ R e.2.2 f.2.2) votes votes') :
    Option.Rel R (winner needed votes) (winner needed votes') := by
  have hsupport : ∀ k, support votes k = support votes' k := by
    intro k
    rw [support, support]
    induction h with
    | nil => rfl
    | cons hef _ ih => rw [List.countP_cons, List.countP_cons, ih, hef.1]
  have hpred : (fun e : I × K × V => decide (needed ≤ support votes e.2.1)) =
      fun e => decide (needed ≤ support votes' e.2.1) := by
    funext e
    rw [hsupport]
  rw [winner, winner, hpred]
  generalize support votes' = count
  clear hsupport hpred
  induction h with
  | nil => exact .none
  | @cons e f l l' hef _ ih =>
    rw [List.find?_cons, List.find?_cons, hef.1]
    cases decide (needed ≤ count f.2.1) with
    | true => exact .some hef.2
    | false => exact ih

omit [DecidableEq I] in
theorem winner_congr {J : Type} {needed : Nat} {votes : List (I × K × V)} {votes' : List (J × K × V)}
    (h : List.Forall₂ (fun e f => e.2 = f.2) votes votes') :
    winner needed votes = winner needed votes' := by
  have hrel : Option.Rel Eq (winner needed votes) (winner needed votes') := by
    apply winner_rel
    exact h.imp fun e f hef => ⟨congrArg Prod.fst hef, congrArg Prod.snd hef⟩
  generalize winner needed votes = w, winner needed votes' = w' at hrel ⊢
  cases hrel with
  | none => rfl
  | some heq => rw [heq]

omit [DecidableEq I] in
theorem support_perm {votes votes' : List (I × K × V)} (h : votes.Perm votes') (k : K) :
    support votes k = support votes' k :=
  h.countP_eq _

omit [DecidableEq I] in
/-- Whether there is a winner does not depend on the order of the votes. -/
theorem isSome_winner_perm {needed : Nat} (hpos : 0 < needed) {votes votes' : List (I × K × V)}
    (h : votes.Perm votes') : (winner needed votes).isSome = (winner needed votes').isSome := by
  have hnone : winner needed votes = none ↔ winner needed votes' = none := by
    rw [winner_eq_none hpos, winner_eq_none hpos]
    constructor
    · intro hno k
      rw [← support_perm h]
      exact hno k
    · intro hno k
      rw [support_perm h]
      exact hno k
  rw [Bool.eq_iff_iff, Option.isSome_iff_ne_none, Option.isSome_iff_ne_none, ne_eq, ne_eq, hnone]

omit [DecidableEq I] in
/-- Where a content comes with one value, nor does the winner. -/
theorem winner_perm {needed : Nat} (hpos : 0 < needed) {votes votes' : List (I × K × V)}
    (h : votes.Perm votes') (hlen : votes.length < needed * 2)
    (hvalue : ∀ e ∈ votes, ∀ f ∈ votes, e.2.1 = f.2.1 → e.2.2 = f.2.2) :
    winner needed votes = winner needed votes' := by
  cases hwin : winner needed votes with
  | none =>
    have hnone := isSome_winner_perm hpos h
    rw [hwin, Option.isSome_none, eq_comm, Option.isSome_eq_false_iff] at hnone
    exact (Option.isNone_iff_eq_none.mp hnone).symm
  | some v =>
    have hsome := isSome_winner_perm hpos h
    rw [hwin, Option.isSome_some, eq_comm] at hsome
    obtain ⟨w, hw⟩ := Option.isSome_iff_exists.mp hsome
    obtain ⟨i, k, hmem, hk⟩ := winner_eq_some hwin
    obtain ⟨j, k', hmem', hk'⟩ := winner_eq_some hw
    rw [← support_perm h] at hk'
    obtain rfl : k = k' := support_agree hlen hk hk'
    have hvw : v = w := hvalue _ hmem _ (h.mem_iff.mpr hmem') rfl
    rw [hw, hvw]

/-! ## The groups -/

/-- The groups are the contents with the value of their first vote and the set of
    their voters. -/
structure Grouped (votes : List (I × K × V)) (groups : Dict K (V × List I)) : Prop where
  first : ∀ k, (groups.get? k).map Prod.fst = (votes.find? fun e => e.2.1 = k).map fun e => e.2.2
  nodup : ∀ k g, groups.get? k = some g → g.2.Nodup
  voters : ∀ k g, groups.get? k = some g → ∀ i, i ∈ g.2 ↔ ∃ v, (i, k, v) ∈ votes

omit [DecidableEq I] in
theorem grouped_nil : Grouped ([] : List (I × K × V)) ∅ where
  first := fun _ => rfl
  nodup := by simp
  voters := by simp

omit [DecidableEq I] in
theorem find?_append_singleton (votes : List (I × K × V)) (e : I × K × V) (k : K) :
    (votes ++ [e]).find? (fun f => f.2.1 = k) =
      (votes.find? fun f => f.2.1 = k).or (if e.2.1 = k then some e else none) := by
  rw [List.find?_append, List.find?_singleton]
  simp

theorem Grouped.addVote {votes : List (I × K × V)} {groups : Dict K (V × List I)}
    (h : Grouped votes groups) (e : I × K × V) : Grouped (votes ++ [e]) (addVote groups e) := by
  obtain ⟨i, k, v⟩ := e
  -- the new group of the content voted for; every other group is as before
  have hstep : ∃ g, Quorum.addVote groups (i, k, v) = groups.set k g ∧
      some g.1 = ((votes.find? fun f => f.2.1 = k).or (some (i, k, v))).map (fun e => e.2.2) ∧
      g.2.Nodup ∧ ∀ j, j ∈ g.2 ↔ j = i ∨ ∃ w, (j, k, w) ∈ votes := by
    have hfirst := h.first k
    cases hk : groups.get? k with
    | none =>
      rw [hk, Option.map_none, eq_comm, Option.map_eq_none_iff] at hfirst
      refine ⟨(v, [i]), by rw [Quorum.addVote, hk], by rw [hfirst]; rfl, List.nodup_singleton i, ?_⟩
      intro j
      have hno : ¬ ∃ w, (j, k, w) ∈ votes := by
        rintro ⟨w, hw⟩
        exact absurd (List.find?_eq_none.mp hfirst _ hw) (by simp)
      simp [hno]
    | some g =>
      rw [hk, Option.map_some] at hfirst
      refine ⟨(g.1, g.2.insert i), by rw [Quorum.addVote, hk], ?_, (h.nodup k g hk).insert, ?_⟩
      · rw [hfirst]
        obtain ⟨f, hf, -⟩ := Option.map_eq_some_iff.mp hfirst.symm
        rw [hf]
        rfl
      · intro j
        rw [List.mem_insert_iff, h.voters k g hk]
  obtain ⟨g, hset, hg1, hg2, hg3⟩ := hstep
  rw [hset]
  constructor
  · intro k'
    rw [Dict.get?_set, find?_append_singleton]
    by_cases hk : k' = k
    · subst hk
      rw [if_pos rfl, if_pos rfl, Option.map_some, hg1]
    · rw [if_neg hk, if_neg (Ne.symm hk), Option.or_none, h.first k']
  · intro k' g' hg'
    rw [Dict.get?_set] at hg'
    split at hg'
    · cases hg'
      exact hg2
    · exact h.nodup k' g' hg'
  · intro k' g' hg' j
    rw [Dict.get?_set] at hg'
    split at hg'
    · cases hg'
      subst k'
      rw [hg3]
      constructor
      · rintro (rfl | ⟨w, hw⟩)
        · exact ⟨v, List.mem_append_right _ (List.mem_singleton.mpr rfl)⟩
        · exact ⟨w, List.mem_append_left _ hw⟩
      · rintro ⟨w, hw⟩
        rcases List.mem_append.mp hw with hw | hw
        · exact .inr ⟨w, hw⟩
        · cases List.mem_singleton.mp hw
          exact .inl rfl
    · rename_i hne
      rw [h.voters k' g' hg']
      constructor
      · rintro ⟨w, hw⟩
        exact ⟨w, List.mem_append_left _ hw⟩
      · rintro ⟨w, hw⟩
        rcases List.mem_append.mp hw with hw | hw
        · exact ⟨w, hw⟩
        · cases List.mem_singleton.mp hw
          exact absurd rfl hne

theorem grouped_groupVotes (votes : List (I × K × V)) : Grouped votes (groupVotes votes) := by
  have hloop (more done : List (I × K × V)) (groups : Dict K (V × List I)) (h : Grouped done groups) :
      Grouped (done ++ more) (more.foldl Quorum.addVote groups) := by
    induction more generalizing done groups with
    | nil => simpa using h
    | cons e more ih =>
      rw [List.foldl_cons, show done ++ e :: more = (done ++ [e]) ++ more by simp]
      exact ih (done ++ [e]) _ (h.addVote e)
  exact hloop votes [] ∅ grouped_nil

omit [DecidableEq I] in
/-- With one vote a voter, a group is as large as its content's support. -/
theorem Grouped.length_voters {votes : List (I × K × V)} {groups : Dict K (V × List I)}
    (h : Grouped votes groups) (hvoters : (votes.map Prod.fst).Nodup) {k : K} {g : V × List I}
    (hg : groups.get? k = some g) : g.2.length = support votes k := by
  have hnodup : ((votes.filter fun e => e.2.1 = k).map Prod.fst).Nodup :=
    hvoters.sublist (List.filter_sublist.map Prod.fst)
  have hperm : g.2.Perm ((votes.filter fun e => e.2.1 = k).map Prod.fst) := by
    rw [List.perm_ext_iff_of_nodup (h.nodup k g hg) hnodup]
    intro i
    rw [h.voters k g hg, List.mem_map]
    constructor
    · rintro ⟨v, hv⟩
      exact ⟨(i, k, v), List.mem_filter.mpr ⟨hv, by simp⟩, rfl⟩
    · rintro ⟨⟨j, k', v⟩, hmem, rfl⟩
      obtain ⟨hvote, hk⟩ := List.mem_filter.mp hmem
      obtain rfl : k' = k := by simpa using hk
      exact ⟨v, hvote⟩
  rw [hperm.length_eq, List.length_map, support, List.countP_eq_length_filter]

/-- The groups with a quorum: none, or the winner's alone. -/
theorem finalized_groupVotes {needed : Nat} {votes : List (I × K × V)} (hpos : 0 < needed)
    (hvoters : (votes.map Prod.fst).Nodup) (hlen : votes.length < needed * 2) :
    ((groupVotes votes).values.filter fun g => needed ≤ g.2.length).map Prod.fst =
      (winner needed votes).toList := by
  have hgrouped := grouped_groupVotes votes
  have hsize : ∀ e ∈ (groupVotes votes).entries, e.2.2.length = support votes e.1 := fun e he =>
    hgrouped.length_voters hvoters (Dict.get?_eq_some.mpr he)
  rw [Dict.values, List.filter_map, List.map_map]
  cases hwin : winner needed votes with
  | none =>
    rw [Option.toList_none, List.map_eq_nil_iff, List.filter_eq_nil_iff]
    intro e he
    simp only [Function.comp_apply, decide_eq_true_eq, hsize e he]
    intro hneeded
    have := winner_isSome hpos hneeded
    rw [hwin] at this
    cases this
  | some v =>
    rw [winner, Option.map_eq_some_iff] at hwin
    obtain ⟨⟨i, k, v⟩, hfind, rfl⟩ := hwin
    have hk : needed ≤ support votes k := by simpa using List.find?_some hfind
    -- having a quorum and being the winning content are the same
    have hiff : ∀ k', needed ≤ support votes k' ↔ k' = k := fun k' =>
      ⟨fun h => support_agree hlen h hk, fun h => h ▸ hk⟩
    have hfirst := hgrouped.first k
    have hsame : votes.find? (fun e => e.2.1 = k) = some (i, k, v) := by
      rw [← hfind]
      apply find?_congr
      intro e _
      rw [decide_eq_decide, hiff]
    rw [hsame, Option.map_some, Option.map_eq_some_iff] at hfirst
    obtain ⟨g, hg, rfl⟩ := hfirst
    have hfilter : (groupVotes votes).entries.filter
        ((fun g : V × List I => decide (needed ≤ g.2.length)) ∘ Prod.snd) = [(k, g)] := by
      rw [← Dict.filter_key hg]
      apply List.filter_congr
      intro e he
      simp only [Function.comp_apply, hsize e he, hiff]
    rw [hfilter]
    rfl

/-- With one vote a voter, the first group with a quorum is that of a content that has one. -/
theorem find?_groupVotes {needed : Nat} {votes : List (I × K × V)} (hpos : 0 < needed)
    (hvoters : (votes.map Prod.fst).Nodup) (hlen : votes.length < needed * 2) {k : K}
    (hk : needed ≤ support votes k) :
    ((groupVotes votes).entries.find? fun g => needed ≤ g.2.2.length).map Prod.fst = some k := by
  have hgrouped := grouped_groupVotes votes
  have hsize : ∀ e ∈ (groupVotes votes).entries, e.2.2.length = support votes e.1 := fun e he =>
    hgrouped.length_voters hvoters (Dict.get?_eq_some.mpr he)
  cases hfind : (groupVotes votes).entries.find? fun g => needed ≤ g.2.2.length with
  | some e =>
    have he := List.mem_of_find?_eq_some hfind
    have hneeded : needed ≤ e.2.2.length := by simpa using List.find?_some hfind
    rw [hsize e he] at hneeded
    rw [Option.map_some, support_agree hlen hneeded hk]
  | none =>
    -- the content with the quorum has a group
    rw [List.find?_eq_none] at hfind
    obtain ⟨v, hv, hvk⟩ := support_pos_iff.mp (Nat.lt_of_lt_of_le hpos hk)
    have hfirst := hgrouped.first k
    cases hget : (groupVotes votes).get? k with
    | none =>
      rw [hget, Option.map_none, eq_comm, Option.map_eq_none_iff, List.find?_eq_none] at hfirst
      exact absurd (by simpa using hvk) (hfirst v hv)
    | some g =>
      have hmem := Dict.get?_eq_some.mp hget
      refine absurd ?_ (hfind _ hmem)
      simpa [hsize _ hmem] using hk

end Lib.Quorum
