import Mathlib.Algebra.BigOperators.Group.List.Basic
import Mathlib.Data.List.AList

/-! # Sums over the entries of a map

A map is a list of entries with different keys.

* **`Entries.total`** — the sum of a quantity over the entries.
* **`total_insert_new`**, **`total_insert_old`** — what an entry that is put changes. -/

namespace YantraRgs.Entries

variable {K V A : Type*} [DecidableEq K]

/-- **The total of a quantity** over the entries of a map. -/
def total [AddMonoid A] (f : K → V → A) (m : AList fun _ : K => V) : A :=
  (m.entries.map fun e => f e.1 e.2).sum

variable {m : AList fun _ : K => V} {k : K} {v v₀ : V}

@[simp] theorem total_empty [AddMonoid A] (f : K → V → A) : total f (∅ : AList fun _ : K => V) = 0 := rfl

/-- **An entry under a new key** joins the total. -/
theorem total_insert_new [AddMonoid A] (f : K → V → A) (h : m.lookup k = none) :
    total f (m.insert k v) = f k v + total f m := by
  rw [total, AList.entries_insert_of_notMem (AList.lookup_eq_none.mp h), List.map_cons, List.sum_cons,
    total]

/-- The entries without that of a key. -/
theorem sum_kerase [AddCommGroup A] (f : K → V → A) : ∀ l : List (Sigma fun _ : K => V),
    l.dlookup k = some v₀ →
      ((l.kerase k).map fun e => f e.1 e.2).sum = (l.map fun e => f e.1 e.2).sum - f k v₀
  | [], h => by cases h
  | e :: l, h => by
      by_cases he : k = e.1
      · rw [List.kerase_cons_eq he, List.map_cons, List.sum_cons]
        obtain ⟨j, v⟩ := e
        obtain rfl : k = j := he
        obtain rfl := Option.some.inj ((List.dlookup_cons_eq l k v).symm.trans h)
        exact (add_sub_cancel_left _ _).symm
      · rw [List.dlookup_cons_ne _ _ he] at h
        rw [List.kerase_cons_ne he, List.map_cons, List.sum_cons, List.map_cons, List.sum_cons,
          sum_kerase f l h, add_sub_assoc]

/-- **An entry that replaces another one** changes the total by the difference. -/
theorem total_insert_old [AddCommGroup A] (f : K → V → A) (h : m.lookup k = some v₀) :
    total f (m.insert k v) = total f m + (f k v - f k v₀) := by
  rw [total, AList.entries_insert, List.map_cons, List.sum_cons, sum_kerase f m.entries h, total]
  exact add_sub_left_comm _ _ _

/-- What is found under a key after an entry is put. -/
theorem lookup_insert_eq (j k : K) (v : V) (m : AList fun _ : K => V) :
    (m.insert k v).lookup j = if j = k then some v else m.lookup j := by
  split
  · rename_i h
    rw [h, AList.lookup_insert]
  · exact AList.lookup_insert_ne ‹_›

end YantraRgs.Entries
