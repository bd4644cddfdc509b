import Mathlib.Algebra.Ring.Int.Defs
import Mathlib.Data.List.Basic
import Mathlib.Data.List.Nodup
import Mathlib.Data.List.Perm.Basic

/-! # Tables whose rows are addressed by position

A table is the list of its rows in the order of their creation; a row's position is its identifier.
Rows are added at the end and changed in place, never removed. A query hands back rows together
with their identifiers.

* **`select p t`** — the rows that satisfy `p`, in order of creation.
* **`arrange ids t`** — the rows with the given identifiers, in the given order: the answer to a
  query that asks for no order, when `ids` is a rearrangement of the selected identifiers.
* **`total p f t`** — the sum of a column over the rows that satisfy `p`. -/

namespace YantraRgs.Table

variable {α : Type*}

/-- The rows that satisfy `p`, in order of creation, with their identifiers. -/
def select (p : α → Bool) (t : List α) : List (Nat × α) :=
  (t.zipIdx.filter fun x => p x.1).map fun x => (x.2, x.1)

/-- The identifiers of the rows that satisfy `p`. -/
def ids (p : α → Bool) (t : List α) : List Nat := (select p t).map Prod.fst

/-- The rows with the given identifiers, in the given order. -/
def arrange (order : List Nat) (t : List α) : List (Nat × α) :=
  order.filterMap fun n => t[n]?.map fun r => (n, r)

/-- A row is selected exactly when it stands at its identifier and satisfies the condition. -/
@[simp] theorem mem_select {p : α → Bool} {t : List α} {n : Nat} {r : α} :
    (n, r) ∈ select p t ↔ t[n]? = some r ∧ p r = true := by
  simp only [select, List.mem_map, List.mem_filter, Prod.mk.injEq, Prod.exists]
  constructor
  · rintro ⟨r', n', ⟨hmem, hp⟩, rfl, rfl⟩
    exact ⟨by simpa using List.mem_zipIdx_iff_getElem?.mp hmem, hp⟩
  · rintro ⟨hr, hp⟩
    exact ⟨r, n, ⟨List.mem_zipIdx_iff_getElem?.mpr hr, hp⟩, rfl, rfl⟩

@[simp] theorem mem_ids {p : α → Bool} {t : List α} {n : Nat} :
    n ∈ ids p t ↔ ∃ r, t[n]? = some r ∧ p r = true := by
  simp [ids]

@[simp] theorem mem_arrange {order : List Nat} {t : List α} {n : Nat} {r : α} :
    (n, r) ∈ arrange order t ↔ n ∈ order ∧ t[n]? = some r := by
  simp only [arrange, List.mem_filterMap, Option.map_eq_some_iff, Prod.mk.injEq]
  constructor
  · rintro ⟨m, hm, r', hr', rfl, rfl⟩
    exact ⟨hm, hr'⟩
  · rintro ⟨hn, hr⟩
    exact ⟨n, hn, r, hr, rfl, rfl⟩

/-- The identifiers of a query's answer are pairwise distinct. -/
theorem nodup_ids (p : α → Bool) (t : List α) : (ids p t).Nodup := by
  have h : (ids p t).Sublist (t.zipIdx.map Prod.snd) := by
    simp only [ids, select, List.map_map]
    exact (List.filter_sublist (l := t.zipIdx)).map _
  refine h.nodup ?_
  rw [List.zipIdx_map_snd]
  exact List.nodup_range'

/-- Arranging a rearrangement of the selected identifiers answers the query. -/
theorem mem_arrange_of_perm {p : α → Bool} {t : List α} {order : List Nat} {n : Nat} {r : α}
    (h : order.Perm (ids p t)) : (n, r) ∈ arrange order t ↔ t[n]? = some r ∧ p r = true := by
  rw [mem_arrange, h.mem_iff, mem_ids]
  constructor
  · rintro ⟨⟨r', hr', hp⟩, hr⟩
    rw [hr'] at hr
    obtain rfl : r' = r := by simpa using hr
    exact ⟨hr', hp⟩
  · rintro ⟨hr, hp⟩
    exact ⟨⟨r, hr, hp⟩, hr⟩

/-- The identifiers of an arranged answer are a sublist of the order asked for. -/
theorem map_fst_arrange_sublist (order : List Nat) (t : List α) :
    ((arrange order t).map Prod.fst).Sublist order := by
  induction order with
  | nil => simp [arrange]
  | cons n ns ih =>
      unfold arrange at ih ⊢
      cases h : t[n]? with
      | none => simpa [List.filterMap_cons, h] using ih.trans (List.sublist_cons_self n ns)
      | some r => simpa [List.filterMap_cons, h] using ih

/-- The identifiers of an arranged answer are pairwise distinct when the order is. -/
theorem nodup_arrange {order : List Nat} (t : List α) (h : order.Nodup) :
    ((arrange order t).map Prod.fst).Nodup :=
  (map_fst_arrange_sublist order t).nodup h

/-! ## Adding and changing rows -/

/-- A row added at the end leaves the rows before it alone. -/
theorem getElem?_concat_of_some {t : List α} {n : Nat} {r x : α} (h : t[n]? = some r) :
    (t ++ [x])[n]? = some r := by
  rw [List.getElem?_append_left (List.getElem?_eq_some_iff.mp h).1, h]

/-- After a row was added, a row is an old one or the new one. -/
theorem getElem?_concat_cases {t : List α} {n : Nat} {r x : α} (h : (t ++ [x])[n]? = some r) :
    t[n]? = some r ∨ (n = t.length ∧ r = x) := by
  rw [List.getElem?_append] at h
  split at h
  · exact .inl h
  · rw [List.getElem?_singleton] at h
    split at h
    · exact .inr ⟨by omega, by simpa using h.symm⟩
    · cases h

/-- The row added last. -/
@[simp] theorem getElem?_concat_length (t : List α) (x : α) : (t ++ [x])[t.length]? = some x := by
  simp

/-- After row `m` was replaced by `x`, a row is `x` or an old one. -/
theorem getElem?_set_cases {t : List α} {m n : Nat} {x r : α} (h : (t.set m x)[n]? = some r) :
    (n = m ∧ r = x ∧ m < t.length) ∨ (n ≠ m ∧ t[n]? = some r) := by
  rw [List.getElem?_set] at h
  by_cases hmn : m = n
  · rw [if_pos hmn] at h
    split at h
    · exact .inl ⟨hmn.symm, by simpa using h.symm, by assumption⟩
    · cases h
  · rw [if_neg hmn] at h
    exact .inr ⟨fun hnm => hmn hnm.symm, h⟩

/-- Row `m` after it was replaced. -/
theorem getElem?_set_self_of_some {t : List α} {m : Nat} {x y : α} (h : t[m]? = some y) :
    (t.set m x)[m]? = some x := by
  rw [List.getElem?_set_self (List.getElem?_eq_some_iff.mp h).1]

/-- A row other than the replaced one. -/
theorem getElem?_set_of_ne {t : List α} {m n : Nat} {x : α} (h : n ≠ m) :
    (t.set m x)[n]? = t[n]? := by
  rw [List.getElem?_set_ne (Ne.symm h)]

/-- A change of a row that exists is its replacement. -/
theorem modify_eq_set {t : List α} {m : Nat} {f : α → α} {r : α} (h : t[m]? = some r) :
    t.modify m f = t.set m (f r) := by
  rw [List.modify_eq_set_getElem?, h]
  rfl

/-- A change of a row that does not exist does nothing. -/
theorem modify_eq_self {t : List α} {m : Nat} {f : α → α} (h : t[m]? = none) :
    t.modify m f = t := by
  rw [List.modify_eq_set_getElem?, h]
  rfl

/-- A change that keeps the projection `g` of every row keeps the projected table. -/
theorem map_modify_of_eq {β : Type} {f : α → α} {g : α → β} (h : ∀ r, g (f r) = g r)
    (t : List α) (m : Nat) : (t.modify m f).map g = t.map g := by
  refine List.ext_getElem? fun n => ?_
  simp only [List.getElem?_map, List.getElem?_modify]
  cases t[n]? with
  | none => rfl
  | some r =>
      split
      · exact congrArg some (h r)
      · rfl

/-- A row that was replaced by a related one is still there, related; every other row is the same. -/
theorem exists_set_of_some {t : List α} {m n : Nat} {x y r : α} {R : α → α → Prop}
    (hm : t[m]? = some y) (hn : t[n]? = some r) (hR : R y x) (hrefl : R r r) :
    ∃ r', (t.set m x)[n]? = some r' ∧ R r r' := by
  by_cases hnm : n = m
  · subst hnm
    obtain rfl : y = r := by simpa [hm] using hn
    exact ⟨x, getElem?_set_self_of_some hm, hR⟩
  · exact ⟨r, by rw [getElem?_set_of_ne hnm, hn], hrefl⟩

/-- A row of a replaced table is the replacement or an old row. -/
theorem mem_set_cases {t : List α} {m : Nat} {x r : α} (h : r ∈ t.set m x) : r = x ∨ r ∈ t := by
  rcases List.mem_or_eq_of_mem_set h with h | h
  · exact .inr h
  · exact .inl h

/-- A row of a table in which one row was changed. -/
theorem mem_modify_cases {t : List α} {m : Nat} {f : α → α} {r : α} (h : r ∈ t.modify m f) :
    r ∈ t ∨ ∃ x ∈ t, r = f x := by
  obtain ⟨n, hn⟩ := List.mem_iff_getElem?.mp h
  rw [List.getElem?_modify] at hn
  obtain ⟨x, hx, rfl⟩ := Option.map_eq_some_iff.mp hn
  split
  · exact .inr ⟨x, List.mem_of_getElem? hx, rfl⟩
  · exact .inl (List.mem_of_getElem? hx)

/-- Where a row stands after one of the rows was changed. -/
theorem mem_modify_of_mem {t : List α} {r : α} (h : r ∈ t) (m : Nat) (f : α → α) :
    r ∈ t.modify m f ∨ f r ∈ t.modify m f := by
  obtain ⟨n, hn⟩ := List.mem_iff_getElem?.mp h
  by_cases hm : m = n
  · subst hm
    right
    refine List.mem_iff_getElem?.mpr ⟨m, ?_⟩
    rw [List.getElem?_modify_eq, hn]
    rfl
  · left
    refine List.mem_iff_getElem?.mpr ⟨n, ?_⟩
    rw [List.getElem?_modify_ne _ _ hm, hn]

/-- A row whose column `g` is new can be added where no two rows agree on it. -/
theorem nodup_map_concat {β : Type} {g : α → β} {t : List α} {x : α} (h : (t.map g).Nodup)
    (hnew : ∀ r ∈ t, g r ≠ g x) : ((t ++ [x]).map g).Nodup := by
  rw [List.map_append]
  refine List.nodup_append.mpr ⟨h, List.nodup_singleton _, ?_⟩
  intro a ha b hb
  obtain ⟨r, hr, rfl⟩ := List.mem_map.mp ha
  rw [List.map_singleton, List.mem_singleton] at hb
  rw [hb]
  exact hnew r hr

/-! ## Sums over rows -/

/-- The sum of a column over the rows that satisfy `p`. -/
def total (p : α → Bool) (f : α → Int) (t : List α) : Int := ((t.filter p).map f).sum

/-- The sum of a column over the rows that a query hands back. -/
theorem total_eq_sum_select (p : α → Bool) (f : α → Int) (t : List α) :
    total p f t = ((select p t).map fun r => f r.2).sum := by
  have hrows : (select p t).map Prod.snd = t.filter p := by
    rw [select, List.map_map]
    show (t.zipIdx.filter (p ∘ Prod.fst)).map Prod.fst = t.filter p
    rw [← List.filter_map, List.zipIdx_map_fst]
  rw [total, ← hrows, List.map_map]
  rfl

@[simp] theorem total_nil (p : α → Bool) (f : α → Int) : total p f [] = 0 := rfl

@[simp] theorem total_cons (p : α → Bool) (f : α → Int) (r : α) (t : List α) :
    total p f (r :: t) = (if p r then f r else 0) + total p f t := by
  unfold total
  by_cases h : p r
  · rw [List.filter_cons_of_pos h, List.map_cons, List.sum_cons, if_pos h]
  · rw [List.filter_cons_of_neg h, if_neg h, Int.zero_add]

/-- A row that was added counts if it satisfies the condition. -/
theorem total_concat (p : α → Bool) (f : α → Int) (t : List α) (x : α) :
    total p f (t ++ [x]) = total p f t + if p x then f x else 0 := by
  induction t with
  | nil => simp
  | cons r t ih =>
      rw [List.cons_append, total_cons, total_cons, ih]
      omega

/-- A row that was replaced counts no longer, and what replaced it does. -/
theorem total_set {p : α → Bool} {f : α → Int} {t : List α} {m : Nat} {r : α} (h : t[m]? = some r)
    (x : α) : total p f (t.set m x) =
      total p f t - (if p r then f r else 0) + if p x then f x else 0 := by
  induction t generalizing m with
  | nil => simp at h
  | cons y t ih =>
      cases m with
      | zero =>
          obtain rfl : y = r := by simpa using h
          rw [List.set_cons_zero, total_cons, total_cons]
          omega
      | succ m =>
          rw [List.set_cons_succ, total_cons, total_cons, ih (by simpa using h)]
          omega

/-- Conditions that agree on every row have the same total. -/
theorem total_congr {p q : α → Bool} {f : α → Int} {t : List α} (h : ∀ x ∈ t, p x = q x) :
    total p f t = total q f t := by
  unfold total
  rw [List.filter_congr h]

/-- A column that vanishes on the rows that satisfy the condition sums to nothing. -/
theorem total_eq_zero {p : α → Bool} {f : α → Int} {t : List α}
    (h : ∀ x ∈ t, p x = true → f x = 0) : total p f t = 0 := by
  induction t with
  | nil => rfl
  | cons r t ih =>
      rw [total_cons, ih fun x hx => h x (List.mem_cons_of_mem r hx)]
      by_cases hp : p r
      · rw [if_pos hp, h r List.mem_cons_self hp]
        rfl
      · rw [if_neg hp]
        rfl

theorem total_nonneg {p : α → Bool} {f : α → Int} {t : List α} (h : ∀ r ∈ t, 0 ≤ f r) :
    0 ≤ total p f t := by
  induction t with
  | nil => exact Int.le_refl _
  | cons r t ih =>
      have hr := h r List.mem_cons_self
      have ht := ih fun x hx => h x (List.mem_cons_of_mem r hx)
      rw [total_cons]
      split <;> omega

/-- **A total that no row raises**: every row that counts stands where one of the same column counted,
and no column is negative. -/
theorem total_le {p p' : α → Bool} {f : α → Int} {t t' : List α}
    (h : ∀ (n : Nat) r', t'[n]? = some r' → p' r' = true → ∃ r, t[n]? = some r ∧ p r = true ∧ f r = f r')
    (hpos : ∀ r ∈ t, 0 ≤ f r) : total p' f t' ≤ total p f t := by
  induction t' generalizing t with
  | nil => exact total_nonneg hpos
  | cons r' t' ih =>
      cases t with
      | nil =>
          have hrest := ih (t := []) (fun n x hx hp => by simpa using h (n + 1) x (by simpa using hx) hp) hpos
          have hr' : ¬ p' r' = true := fun hp => by simpa using h 0 r' rfl hp
          rw [total_cons, if_neg hr', Int.zero_add]
          exact hrest
      | cons r t =>
          have hrest := ih (t := t) (fun n x hx hp => by simpa using h (n + 1) x (by simpa using hx) hp)
            fun x hx => hpos x (List.mem_cons_of_mem r hx)
          have hr := hpos r List.mem_cons_self
          rw [total_cons, total_cons]
          by_cases hp : p' r' = true
          · obtain ⟨x, hx, hpx, hf⟩ := h 0 r' rfl hp
            obtain rfl : r = x := by simpa using hx
            rw [if_pos hp, if_pos hpx, hf]
            omega
          · rw [if_neg hp]
            split <;> omega

/-- **Conditions that agree on every row but one**: the totals differ by what that row counts. -/
theorem total_eq_add {p q : α → Bool} {f : α → Int} {t : List α} {m : Nat} {r : α}
    (hr : t[m]? = some r) (hq : q r = false)
    (h : ∀ n x, t[n]? = some x → n ≠ m → p x = q x) :
    total p f t = total q f t + if p r then f r else 0 := by
  induction t generalizing m with
  | nil => simp at hr
  | cons y t ih =>
      rw [total_cons, total_cons]
      cases m with
      | zero =>
          obtain rfl : y = r := by simpa using hr
          have hrest : total p f t = total q f t := by
            refine total_congr fun x hx => ?_
            obtain ⟨n, hn⟩ := List.mem_iff_getElem?.mp hx
            exact h (n + 1) x (by simpa using hn) (Nat.succ_ne_zero n)
          rw [hrest, hq]
          simp only [Bool.false_eq_true, if_false]
          omega
      | succ m =>
          have hy : p y = q y := h 0 y rfl (Nat.succ_ne_zero m).symm
          have hrest := ih (m := m) (by simpa using hr) fun n x hx hne =>
            h (n + 1) x (by simpa using hx) fun he => hne (Nat.succ.inj he)
          rw [hy, hrest]
          omega

/-- A condition on every row can be checked. -/
instance decidableForall {t : List α} {p : Nat → α → Prop} [∀ n r, Decidable (p n r)] :
    Decidable (∀ n r, t[n]? = some r → p n r) :=
  decidable_of_iff (∀ x ∈ t.zipIdx, p x.2 x.1)
    ⟨fun h n r hr => h (r, n) (List.mem_zipIdx_iff_getElem?.mpr hr),
      fun h x hx => h x.2 x.1 (List.mem_zipIdx_iff_getElem?.mp hx)⟩

end YantraRgs.Table
