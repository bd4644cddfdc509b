import YantraRgs.Db.Table

/-! # Tables that keep their rows

Where rows are only added and changed, a row that was there is still there, perhaps changed.

* **`Kept R t t'`** — every row of `t` is in `t'`, changed along `R`.
* **`Kept.concat`**, **`Kept.modify`**, **`Kept.map`** — what keeps the rows of a table.
* **`found_eq_some`** — a row that was looked for. -/

namespace YantraRgs.Table

variable {α : Type*} {R : α → α → Prop} {t t' t'' : List α}

/-- **A table keeps its rows**, changed along `R`. -/
def Kept (R : α → α → Prop) (t t' : List α) : Prop :=
  ∀ (n : Nat) (r : α), t[n]? = some r → ∃ r', t'[n]? = some r' ∧ R r r'

theorem Kept.refl (hrefl : ∀ r, R r r) (t : List α) : Kept R t t := fun _ r hr => ⟨r, hr, hrefl r⟩

theorem Kept.trans (htrans : ∀ {a b c}, R a b → R b c → R a c) (h : Kept R t t') (h' : Kept R t' t'') :
    Kept R t t'' := by
  intro n r hr
  obtain ⟨r', hr', hR⟩ := h n r hr
  obtain ⟨r'', hr'', hR'⟩ := h' n r' hr'
  exact ⟨r'', hr'', htrans hR hR'⟩

/-- A row is added. -/
theorem Kept.concat (hrefl : ∀ r, R r r) (t : List α) (x : α) : Kept R t (t ++ [x]) :=
  fun _ r hr => ⟨r, getElem?_concat_of_some hr, hrefl r⟩

/-- A row is changed. -/
theorem Kept.modify (hrefl : ∀ r, R r r) {f : α → α} (hf : ∀ r, R r (f r)) (t : List α) (m : Nat) :
    Kept R t (t.modify m f) := by
  intro n r hr
  rw [List.getElem?_modify, hr]
  split
  · exact ⟨f r, rfl, hf r⟩
  · exact ⟨r, rfl, hrefl r⟩

/-- Every row is changed. -/
theorem Kept.map {f : α → α} (hf : ∀ r, R r (f r)) (t : List α) : Kept R t (t.map f) := by
  intro n r hr
  exact ⟨f r, by rw [List.getElem?_map, hr, Option.map_some], hf r⟩

/-- A row of a table with one row changed is that row or an old one. -/
theorem getElem?_modify_cases {f : α → α} {m n : Nat} {r : α} (h : (t.modify m f)[n]? = some r) :
    ∃ x, t[n]? = some x ∧ ((n = m ∧ r = f x) ∨ (n ≠ m ∧ r = x)) := by
  rw [List.getElem?_modify] at h
  obtain ⟨x, hx, rfl⟩ := Option.map_eq_some_iff.mp h
  refine ⟨x, hx, ?_⟩
  split
  · rename_i hm
    exact .inl ⟨hm.symm, rfl⟩
  · rename_i hm
    exact .inr ⟨Ne.symm hm, rfl⟩

/-- The first row that satisfies a condition, with its identifier. -/
theorem found_eq_some {p : α → Bool} {n : Nat} {r : α}
    (h : ((t.findIdx? p).bind fun id => t[id]?.map fun r => (id, r)) = some (n, r)) :
    t[n]? = some r ∧ p r = true := by
  obtain ⟨m, hm, hmap⟩ := Option.bind_eq_some_iff.mp h
  obtain ⟨r', hr', hpair⟩ := Option.map_eq_some_iff.mp hmap
  obtain ⟨rfl, rfl⟩ := Prod.mk.inj hpair
  obtain ⟨hlt, hp, -⟩ := List.findIdx?_eq_some_iff_getElem.mp hm
  have hget : t[m] = r' := by
    rw [List.getElem?_eq_getElem hlt] at hr'
    exact Option.some.inj hr'
  exact ⟨hr', hget ▸ hp⟩

end YantraRgs.Table
