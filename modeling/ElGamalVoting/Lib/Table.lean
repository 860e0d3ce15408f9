import Mathlib.Data.List.Pairwise
import Mathlib.Data.List.Sort
import ElGamalVoting.Lib.Dict

/- Rows of a table by a primary key of two columns, selected by the first.

   `rowsOf` is a selection in the order the table happens to have, `orderBy` sorts by
   the second column. A dictionary that has, for one value of the first column, what
   the table has up to a function of the values has the same rows in some order
   (`rowsOf_perm`), and in key order the same ones (`orderBy_eq`). -/
namespace Lib.Table
variable {A K V W : Type} [DecidableEq A] [DecidableEq K]

def rowsOf (table : Dict (A × K) V) (a : A) : List (K × V) :=
  (table.entries.filter fun e => e.1.1 = a).map fun e => (e.1.2, e.2)

theorem mem_rowsOf {table : Dict (A × K) V} {a : A} {k : K} {v : V} :
    (k, v) ∈ rowsOf table a ↔ table.get? (a, k) = some v := by
  rw [rowsOf, List.mem_map, Dict.get?_eq_some]
  constructor
  · intro h
    obtain ⟨⟨⟨a', k'⟩, v'⟩, hmem, heq⟩ := h
    obtain ⟨hentry, ha⟩ := List.mem_filter.mp hmem
    obtain rfl : a' = a := by simpa using ha
    cases heq
    exact hentry
  · intro h
    exact ⟨((a, k), v), List.mem_filter.mpr ⟨h, by simp⟩, rfl⟩

omit [DecidableEq K] in
theorem nodup_rowsOf (table : Dict (A × K) V) (a : A) : ((rowsOf table a).map Prod.fst).Nodup := by
  have hkeys : ((table.entries.filter fun e => decide (e.1.1 = a)).map Prod.fst).Nodup :=
    table.nodup.sublist (List.filter_sublist.map Prod.fst)
  rw [rowsOf, List.map_map]
  apply List.Nodup.of_map (fun k => (a, k))
  rw [List.map_map]
  refine (List.map_congr_left ?_ : _ = (table.entries.filter fun e => decide (e.1.1 = a)).map Prod.fst) ▸ hkeys
  intro e he
  obtain rfl : e.1.1 = a := by simpa using (List.mem_filter.mp he).2
  rfl

/-- The rows are any list of distinct keys with the values the table has there. -/
theorem rowsOf_perm_of_mem {table : Dict (A × K) V} {a : A} {rows : List (K × V)}
    (hnodup : (rows.map Prod.fst).Nodup)
    (h : ∀ k v, table.get? (a, k) = some v ↔ (k, v) ∈ rows) : (rowsOf table a).Perm rows := by
  rw [List.perm_ext_iff_of_nodup (nodup_rowsOf table a).of_map hnodup.of_map]
  intro row
  obtain ⟨k, v⟩ := row
  rw [mem_rowsOf, h]

/-- The rows are the dictionary's entries, in some order. -/
theorem rowsOf_perm {table : Dict (A × K) V} {a : A} {d : Dict K W} {f : W → V}
    (h : ∀ k, table.get? (a, k) = (d.get? k).map f) :
    (rowsOf table a).Perm (d.entries.map fun e => (e.1, f e.2)) := by
  refine rowsOf_perm_of_mem ?_ ?_
  · rw [List.map_map]
    exact d.nodup
  intro k v
  rw [h, Option.map_eq_some_iff, List.mem_map]
  constructor
  · intro hrow
    obtain ⟨w, hw, rfl⟩ := hrow
    exact ⟨(k, w), Dict.get?_eq_some.mp hw, rfl⟩
  · intro hrow
    obtain ⟨⟨k', w⟩, hmem, heq⟩ := hrow
    cases heq
    exact ⟨w, Dict.get?_eq_some.mpr hmem, rfl⟩

/-! Rows in the order of an integer key. -/

def orderBy (rows : List (Int × V)) : List (Int × V) := rows.insertionSort fun a b => a.1 ≤ b.1

theorem orderBy_perm (rows : List (Int × V)) : (orderBy rows).Perm rows := List.perm_insertionSort _ _

theorem keys_orderBy {rows : List (Int × V)} {keys : List Int} (h : (rows.map Prod.fst).Perm keys) :
    (orderBy rows).map Prod.fst = keys.insertionSort (· ≤ ·) := by
  have hsorted : ((orderBy rows).map Prod.fst).Pairwise (· ≤ ·) := by
    rw [List.pairwise_map]
    exact List.pairwise_insertionSort (fun a b : Int × V => a.1 ≤ b.1) rows
  exact (((orderBy_perm rows).map Prod.fst).trans (h.trans (List.perm_insertionSort _ _).symm)).eq_of_pairwise
    (fun a b _ _ => le_antisymm) hsorted (List.pairwise_insertionSort _ _)

/-- The values of sorted rows are those a dictionary has at its sorted keys. -/
theorem orderBy_eq {rows : List (Int × V)} {d : Dict Int W} {f : W → V}
    (h : rows.Perm (d.entries.map fun e => (e.1, f e.2))) :
    (orderBy rows).map Prod.snd =
      ((d.keys.insertionSort (· ≤ ·)).filterMap d.get?).map f := by
  have hkeys : (rows.map Prod.fst).Perm d.keys := by
    have hmap := h.map Prod.fst
    rw [List.map_map] at hmap
    exact hmap
  have hvalues : ∀ l : List (Int × V), (∀ row ∈ l, (d.get? row.1).map f = some row.2) →
      l.map Prod.snd = ((l.map Prod.fst).filterMap d.get?).map f := by
    intro l hl
    induction l with
    | nil => rfl
    | cons row l ih =>
      obtain ⟨w, hw, hf⟩ := Option.map_eq_some_iff.mp (hl row List.mem_cons_self)
      rw [List.map_cons, List.map_cons, List.filterMap_cons, hw, List.map_cons, hf,
        ih fun r hr => hl r (List.mem_cons_of_mem row hr)]
  rw [← keys_orderBy hkeys]
  apply hvalues
  intro row hrow
  obtain ⟨e, he, rfl⟩ := List.mem_map.mp (h.mem_iff.mp ((orderBy_perm rows).mem_iff.mp hrow))
  rw [Dict.get?_eq_some.mpr he]
  rfl

end Lib.Table
