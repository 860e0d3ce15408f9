import Mathlib.Data.List.Nodup
import Mathlib.Data.List.Perm.Basic

/- An insertion-ordered dictionary. Setting a key that is present overwrites its
   value in place; setting a new key appends it. The field `nodup` makes the
   keys distinct in every value of the type, so a key has at most one entry and
   the order of `entries` is the order of first insertion. -/
namespace Lib

structure Dict (K V : Type) where
  entries : List (K × V)
  nodup : (entries.map Prod.fst).Nodup

namespace Dict
variable {K V : Type}

theorem ext_entries {d e : Dict K V} (h : d.entries = e.entries) : d = e := by
  cases d; cases e; simp only at h; subst h; rfl

instance [DecidableEq K] [DecidableEq V] : DecidableEq (Dict K V) := fun d e =>
  decidable_of_iff (d.entries = e.entries) ⟨ext_entries, fun h => h ▸ rfl⟩

def empty : Dict K V := ⟨[], List.nodup_nil⟩

instance : EmptyCollection (Dict K V) := ⟨empty⟩
instance : Inhabited (Dict K V) := ⟨empty⟩

def keys (d : Dict K V) : List K := d.entries.map Prod.fst
def values (d : Dict K V) : List V := d.entries.map Prod.snd

@[simp] theorem entries_empty : (∅ : Dict K V).entries = [] := rfl

@[simp] theorem keys_empty : (∅ : Dict K V).keys = [] := rfl

/-- The dictionary with value `f k` at each `k` of a list of distinct keys. -/
def ofFn (ks : List K) (h : ks.Nodup) (f : K → V) : Dict K V :=
  ⟨ks.map fun k => (k, f k), by simpa [Function.comp_def] using h⟩

@[simp] theorem keys_ofFn (ks : List K) (h : ks.Nodup) (f : K → V) : (ofFn ks h f).keys = ks := by
  simp [keys, ofFn, Function.comp_def]

variable [DecidableEq K]

def lookupIn : List (K × V) → K → Option V
  | [], _ => none
  | (a, b) :: rest, k => if a = k then some b else lookupIn rest k

def setIn : List (K × V) → K → V → List (K × V)
  | [], k, v => [(k, v)]
  | (a, b) :: rest, k, v => if a = k then (a, v) :: rest else (a, b) :: setIn rest k v

def get? (d : Dict K V) (k : K) : Option V := lookupIn d.entries k

theorem keys_setIn (l : List (K × V)) (k : K) (v : V) : (setIn l k v).map Prod.fst =
    if k ∈ l.map Prod.fst then l.map Prod.fst else l.map Prod.fst ++ [k] := by
  induction l with
  | nil => simp [setIn]
  | cons e rest ih =>
    obtain ⟨a, b⟩ := e
    by_cases h : a = k
    · simp [setIn, h]
    · simp only [setIn, h, if_false, List.map_cons, ih, List.mem_cons, Ne.symm h, false_or]
      split <;> simp

def set (d : Dict K V) (k : K) (v : V) : Dict K V :=
  ⟨setIn d.entries k v, by
    rw [keys_setIn]
    split
    · exact d.nodup
    · rename_i h
      rw [List.nodup_append]
      exact ⟨d.nodup, List.nodup_singleton k, fun a ha b hb => by
        simp only [List.mem_singleton] at hb
        subst hb
        exact fun hab => h (hab ▸ ha)⟩⟩

theorem keys_set (d : Dict K V) (k : K) (v : V) :
    (d.set k v).keys = if k ∈ d.keys then d.keys else d.keys ++ [k] :=
  keys_setIn d.entries k v

theorem mem_keys_set {d : Dict K V} {k k' : K} {v : V} :
    k' ∈ (d.set k v).keys ↔ k' = k ∨ k' ∈ d.keys := by
  rw [keys_set]
  split
  · rename_i h
    constructor
    · exact Or.inr
    · rintro (rfl | h')
      · exact h
      · exact h'
  · simp [or_comm]

@[simp] theorem get?_empty (k : K) : (∅ : Dict K V).get? k = none := rfl

theorem get?_set_self (d : Dict K V) (k : K) (v : V) : (d.set k v).get? k = some v := by
  show lookupIn (setIn d.entries k v) k = some v
  induction d.entries with
  | nil => simp [setIn, lookupIn]
  | cons e rest ih =>
    obtain ⟨a, b⟩ := e
    by_cases h : a = k
    · simp [setIn, lookupIn, h]
    · simp [setIn, lookupIn, h, ih]

theorem get?_set_ne {d : Dict K V} {k k' : K} {v : V} (h : k' ≠ k) :
    (d.set k v).get? k' = d.get? k' := by
  show lookupIn (setIn d.entries k v) k' = lookupIn d.entries k'
  induction d.entries with
  | nil => simp [setIn, lookupIn, Ne.symm h]
  | cons e rest ih =>
    obtain ⟨a, b⟩ := e
    by_cases ha : a = k
    · subst ha
      simp [setIn, lookupIn, Ne.symm h]
    · by_cases hb : a = k'
      · subst hb
        simp [setIn, lookupIn, ha]
      · simp [setIn, lookupIn, ha, hb, ih]

theorem get?_set (d : Dict K V) (k k' : K) (v : V) :
    (d.set k v).get? k' = if k' = k then some v else d.get? k' := by
  split
  · rename_i h
    rw [h, get?_set_self]
  · exact get?_set_ne ‹_›

theorem lookupIn_eq_some {l : List (K × V)} (hn : (l.map Prod.fst).Nodup) {k : K} {v : V} :
    lookupIn l k = some v ↔ (k, v) ∈ l := by
  induction l with
  | nil => simp [lookupIn]
  | cons e rest ih =>
    obtain ⟨a, b⟩ := e
    rw [List.map_cons, List.nodup_cons] at hn
    by_cases h : a = k
    · subst h
      have hnot : (a, v) ∉ rest := fun hm => hn.1 (List.mem_map.mpr ⟨_, hm, rfl⟩)
      simp [lookupIn, hnot, eq_comm]
    · simp [lookupIn, h, ih hn.2, Ne.symm h]

/-- A key's value is the one its entry carries. -/
theorem get?_eq_some {d : Dict K V} {k : K} {v : V} : d.get? k = some v ↔ (k, v) ∈ d.entries :=
  lookupIn_eq_some d.nodup

theorem get?_eq_none {d : Dict K V} {k : K} : d.get? k = none ↔ k ∉ d.keys := by
  rw [← not_iff_not, ← ne_eq, Option.ne_none_iff_exists', not_not]
  constructor
  · rintro ⟨v, hv⟩
    exact List.mem_map.mpr ⟨_, get?_eq_some.mp hv, rfl⟩
  · intro h
    obtain ⟨⟨k', v⟩, hm, rfl⟩ := List.mem_map.mp h
    exact ⟨v, get?_eq_some.mpr hm⟩

theorem exists_get?_of_mem_keys {d : Dict K V} {k : K} (h : k ∈ d.keys) : ∃ v, d.get? k = some v := by
  obtain ⟨⟨k', v⟩, hm, rfl⟩ := List.mem_map.mp h
  exact ⟨v, get?_eq_some.mpr hm⟩

theorem mem_keys_of_get? {d : Dict K V} {k : K} {v : V} (h : d.get? k = some v) : k ∈ d.keys :=
  List.mem_map.mpr ⟨_, get?_eq_some.mp h, rfl⟩

theorem get?_ofFn {ks : List K} {h : ks.Nodup} {f : K → V} {k : K} (hk : k ∈ ks) :
    (ofFn ks h f).get? k = some (f k) :=
  get?_eq_some.mpr (List.mem_map.mpr ⟨k, hk, rfl⟩)

/-- The entries that meet a condition. -/
def filter (d : Dict K V) (p : K × V → Bool) : Dict K V :=
  ⟨d.entries.filter p, d.nodup.sublist (List.filter_sublist.map Prod.fst)⟩

theorem get?_filter {d : Dict K V} {p : K × V → Bool} {k : K} {v : V} :
    (d.filter p).get? k = some v ↔ d.get? k = some v ∧ p (k, v) = true := by
  rw [get?_eq_some, get?_eq_some]
  exact List.mem_filter

/-- A new key goes to the end. -/
theorem entries_set_new {d : Dict K V} {k : K} (h : d.get? k = none) (v : V) :
    (d.set k v).entries = d.entries ++ [(k, v)] := by
  have hkey : k ∉ d.entries.map Prod.fst := get?_eq_none.mp h
  show setIn d.entries k v = d.entries ++ [(k, v)]
  generalize d.entries = l at hkey
  induction l with
  | nil => rfl
  | cons e rest ih =>
    rw [List.map_cons, List.mem_cons, not_or] at hkey
    rw [setIn, if_neg (Ne.symm hkey.1), ih hkey.2, List.cons_append]

/-- The entries of a key that is present are one. -/
theorem filter_key {d : Dict K V} {k : K} {v : V} (h : d.get? k = some v) :
    d.entries.filter (fun e => e.1 = k) = [(k, v)] := by
  have hmem := get?_eq_some.mp h
  have hn := d.nodup
  generalize d.entries = l at hmem hn
  induction l with
  | nil => simp at hmem
  | cons e rest ih =>
    rw [List.map_cons, List.nodup_cons] at hn
    rcases List.mem_cons.mp hmem with rfl | hmem
    · have hrest : rest.filter (fun e => decide (e.1 = k)) = [] := by
        rw [List.filter_eq_nil_iff]
        intro e he
        simp only [decide_eq_true_eq]
        rintro rfl
        exact hn.1 (List.mem_map.mpr ⟨e, he, rfl⟩)
      rw [List.filter_cons, if_pos (by simp), hrest]
    · have hne : e.1 ≠ k := by
        rintro rfl
        exact hn.1 (List.mem_map.mpr ⟨_, hmem, rfl⟩)
      rw [List.filter_cons, if_neg (by simpa using hne), ih hmem hn.2]

/-- Setting a key to the value it has changes nothing. -/
theorem set_of_get? {d : Dict K V} {k : K} {v : V} (h : d.get? k = some v) : d.set k v = d := by
  apply ext_entries
  have hmem := get?_eq_some.mp h
  have hn := d.nodup
  show setIn d.entries k v = d.entries
  generalize d.entries = l at hmem hn
  induction l with
  | nil => simp at hmem
  | cons e rest ih =>
    obtain ⟨a, b⟩ := e
    rw [List.map_cons, List.nodup_cons] at hn
    rcases List.mem_cons.mp hmem with heq | hmem
    · cases heq
      rw [setIn, if_pos rfl]
    · have hne : a ≠ k := by
        intro ha
        subst ha
        exact hn.1 (List.mem_map.mpr ⟨_, hmem, rfl⟩)
      rw [setIn, if_neg hne, ih hmem hn.2]

/-! ## Setting several keys -/

/-- `update`: the pairs are set one after another. -/
def update (d : Dict K V) (pairs : List (K × V)) : Dict K V := pairs.foldl (fun d e => d.set e.1 e.2) d

/-- Distinct new keys go to the end in their order. -/
theorem entries_update {d : Dict K V} {pairs : List (K × V)} (hnodup : (pairs.map Prod.fst).Nodup)
    (hnew : ∀ e ∈ pairs, d.get? e.1 = none) : (d.update pairs).entries = d.entries ++ pairs := by
  induction pairs generalizing d with
  | nil => exact (List.append_nil _).symm
  | cons e pairs ih =>
    rw [List.map_cons, List.nodup_cons] at hnodup
    have hrest : ∀ f ∈ pairs, (d.set e.1 e.2).get? f.1 = none := by
      intro f hf
      have hne : f.1 ≠ e.1 := fun heq => hnodup.1 (heq ▸ List.mem_map_of_mem hf)
      rw [get?_set_ne hne]
      exact hnew f (List.mem_cons_of_mem e hf)
    calc ((d.set e.1 e.2).update pairs).entries = (d.set e.1 e.2).entries ++ pairs := ih hnodup.2 hrest
      _ = d.entries ++ e :: pairs := by
        rw [entries_set_new (hnew e List.mem_cons_self), List.append_assoc, List.singleton_append]

/-- The entries of a dictionary make it again. -/
theorem update_entries (d : Dict K V) : (∅ : Dict K V).update d.entries = d :=
  ext_entries (entries_update d.nodup fun _ _ => rfl)

/-! ## Counting values -/

/-- The number of entries whose value satisfies `p`. -/
def count (d : Dict K V) (p : V → Bool) : Nat := d.entries.countP fun e => p e.2

/-- Setting a key takes the old value out of the count and the new one in. -/
theorem count_set (d : Dict K V) (k : K) (v : V) (p : V → Bool) :
    (d.set k v).count p + (if (d.get? k).any p then 1 else 0) = d.count p + (if p v then 1 else 0) := by
  show (setIn d.entries k v).countP (fun e => p e.2) + (if (lookupIn d.entries k).any p then 1 else 0) =
    d.entries.countP (fun e => p e.2) + _
  induction d.entries with
  | nil => simp [setIn, lookupIn]
  | cons e rest ih =>
    obtain ⟨a, b⟩ := e
    by_cases h : a = k
    · simp only [setIn, lookupIn, h, if_true, List.countP_cons, Option.any_some]
      omega
    · simp only [setIn, lookupIn, h, if_false, List.countP_cons]
      omega

omit [DecidableEq K] in
theorem count_le_length (d : Dict K V) (p : V → Bool) : d.count p ≤ d.entries.length :=
  List.countP_le_length

theorem count_pos_of_get? {d : Dict K V} {k : K} {v : V} (h : d.get? k = some v) {p : V → Bool}
    (hp : p v = true) : 0 < d.count p :=
  List.countP_pos_iff.mpr ⟨_, get?_eq_some.mp h, hp⟩

omit [DecidableEq K] in
/-- Where `p` is stronger than `q` and not rarer, `q` gives `p`. -/
theorem of_count_le {d : Dict K V} {p q : V → Bool} (hpq : ∀ v, p v = true → q v = true)
    (hle : d.count q ≤ d.count p) : ∀ e ∈ d.entries, q e.2 = true → p e.2 = true := by
  rw [count, count] at hle
  generalize d.entries = l at hle ⊢
  induction l with
  | nil =>
    intro e he
    cases he
  | cons f l ih =>
    have hrest : l.countP (fun e => p e.2) ≤ l.countP fun e => q e.2 :=
      List.countP_mono_left fun e _ => hpq e.2
    rw [List.countP_cons, List.countP_cons] at hle
    intro e he hq
    rcases List.mem_cons.mp he with rfl | he
    · by_contra hp
      rw [if_pos hq, if_neg hp] at hle
      omega
    · refine ih ?_ e he hq
      split at hle
      · split at hle <;> omega
      · rename_i hf
        rw [if_neg fun hp => hf (hpq _ hp)] at hle
        exact hle

/-- Over any list of distinct keys that has all of the dictionary's, the entries are
    counted by key. -/
theorem count_eq_countP {d : Dict K V} {ks : List K} (hks : ks.Nodup) (hsub : ∀ k ∈ d.keys, k ∈ ks)
    (p : V → Bool) : d.count p = ks.countP fun k => (d.get? k).any p := by
  have hperm : ((d.entries.filter fun e => p e.2).map Prod.fst).Perm
      (ks.filter fun k => (d.get? k).any p) := by
    rw [List.perm_ext_iff_of_nodup (d.nodup.sublist (List.filter_sublist.map Prod.fst)) (hks.filter _)]
    intro k
    rw [List.mem_map, List.mem_filter]
    constructor
    · intro h
      obtain ⟨⟨k, v⟩, hmem, rfl⟩ := h
      obtain ⟨hentry, hp⟩ := List.mem_filter.mp hmem
      exact ⟨hsub k (List.mem_map.mpr ⟨_, hentry, rfl⟩), by rw [get?_eq_some.mpr hentry]; exact hp⟩
    · intro h
      obtain ⟨-, hany⟩ := h
      cases hget : d.get? k with
      | none =>
        rw [hget] at hany
        cases hany
      | some v =>
        rw [hget] at hany
        exact ⟨(k, v), List.mem_filter.mpr ⟨get?_eq_some.mp hget, hany⟩, rfl⟩
  rw [count, List.countP_eq_length_filter, List.countP_eq_length_filter, ← hperm.length_eq,
    List.length_map]

/-! ## Two dictionaries entry by entry -/

/-- Setting corresponding keys of corresponding dictionaries keeps the correspondence. -/
theorem forall₂_set {K' V' : Type} [DecidableEq K'] {R : K × V → K' × V' → Prop} {d : Dict K V}
    {d' : Dict K' V'} {k : K} {k' : K'} {v : V} {v' : V'}
    (h : List.Forall₂ R d.entries d'.entries) (hkey : ∀ e f, R e f → (e.1 = k ↔ f.1 = k'))
    (hR : R (k, v) (k', v')) : List.Forall₂ R (d.set k v).entries (d'.set k' v').entries := by
  show List.Forall₂ R (setIn d.entries k v) (setIn d'.entries k' v')
  generalize d.entries = l, d'.entries = l' at h
  induction h with
  | nil => exact .cons hR .nil
  | @cons e f l l' hef hrest ih =>
    obtain ⟨a, b⟩ := e
    obtain ⟨a', b'⟩ := f
    have hiff := hkey _ _ hef
    by_cases ha : a = k
    · have ha' : a' = k' := hiff.mp ha
      subst ha
      subst ha'
      rw [setIn, setIn, if_pos rfl, if_pos rfl]
      exact .cons hR hrest
    · rw [setIn, setIn, if_neg ha, if_neg fun ha' => ha (hiff.mpr ha')]
      exact .cons hef ih

end Dict
end Lib
