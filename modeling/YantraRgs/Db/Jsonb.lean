import YantraRgs.Services.CanonicalJson

/-! # JSON columns

A JSON value that is stored in a `jsonb` column comes back with the members of its objects in an
order of the database's own. The canonical text does not depend on that order, because it puts the
members in order itself, and no two keys have the same UTF-16 units.

* **`Value.isJson`** — the values that a JSON column takes: no big integers, no dates, and no key twice
  in one object.
* **`jsonb`** — what comes back, for an order of members.
* **`canonicalJson_jsonb`** — its canonical text is that of the value that was stored. -/

namespace YantraRgs

mutual

/-- Whether a value is a JSON value. -/
def Value.isJson : Value → Bool
  | .null => true
  | .bool _ => true
  | .number _ => true
  | .string _ => true
  | .bigint _ => false
  | .date _ => false
  | .array vs => areJson vs
  | .object es => decide (es.map Prod.fst).Nodup && membersAreJson es

/-- Whether the elements of an array are. -/
def areJson : List Value → Bool
  | [] => true
  | v :: vs => v.isJson && areJson vs

/-- Whether the members of an object are. -/
def membersAreJson : List (String × Value) → Bool
  | [] => true
  | e :: es => e.2.isJson && membersAreJson es

end

theorem membersAreJson_iff {es : List (String × Value)} :
    membersAreJson es = true ↔ ∀ e ∈ es, e.2.isJson = true := by
  induction es with
  | nil => simp [membersAreJson]
  | cons e es ih => rw [membersAreJson, Bool.and_eq_true, ih, List.forall_mem_cons]

theorem isJson_object_iff {es : List (String × Value)} :
    (Value.object es).isJson = true ↔ (es.map Prod.fst).Nodup ∧ ∀ e ∈ es, e.2.isJson = true := by
  rw [Value.isJson, Bool.and_eq_true, decide_eq_true_iff, membersAreJson_iff]

/-- An order of the members of objects. -/
structure MemberOrder where
  arrange : List (String × Value) → List (String × Value)
  perm : ∀ es, (arrange es).Perm es

/-- Shorter keys first, and keys of one length by their bytes. -/
def MemberOrder.byLength : MemberOrder where
  arrange es := es.insertionSort fun a b => a.1.utf8ByteSize < b.1.utf8ByteSize ∨
    (a.1.utf8ByteSize = b.1.utf8ByteSize ∧ a.1 ≤ b.1)
  perm es := List.perm_insertionSort _ es

mutual

/-- **What comes back from a JSON column.** -/
def jsonb (order : MemberOrder) : Value → Value
  | .null => .null
  | .bool b => .bool b
  | .number n => .number n
  | .string s => .string s
  | .bigint n => .bigint n
  | .date t => .date t
  | .array vs => .array (jsonbElements order vs)
  | .object es => .object (order.arrange (jsonbMembers order es))

/-- The elements of an array, as they come back. -/
def jsonbElements (order : MemberOrder) : List Value → List Value
  | [] => []
  | v :: vs => jsonb order v :: jsonbElements order vs

/-- The members of an object, as they come back, in the order in which they were stored. -/
def jsonbMembers (order : MemberOrder) : List (String × Value) → List (String × Value)
  | [] => []
  | e :: es => (e.1, jsonb order e.2) :: jsonbMembers order es

end

/-! ## No two keys have the same units -/

/-- The units of a character. -/
def units (c : Char) : List Nat :=
  if c.toNat < 0x10000 then [c.toNat]
  else [0xD800 + (c.toNat - 0x10000) / 0x400, 0xDC00 + (c.toNat - 0x10000) % 0x400]

/-- A character below the surrogates or above them. -/
theorem toNat_cases (c : Char) : c.toNat < 0xD800 ∨ (0xDFFF < c.toNat ∧ c.toNat < 0x110000) := c.valid

/-- The first character that units stand for, and the units that follow. -/
theorem units_append_inj {c d : Char} {s t : List Nat} (h : units c ++ s = units d ++ t) :
    c = d ∧ s = t := by
  have hc := toNat_cases c
  have hd := toNat_cases d
  unfold units at h
  by_cases hc' : c.toNat < 0x10000
  · by_cases hd' : d.toNat < 0x10000
    · -- one unit each
      rw [if_pos hc', if_pos hd'] at h
      obtain ⟨hcd, hst⟩ := List.cons.inj h
      exact ⟨Char.toNat_inj.mp hcd, hst⟩
    · rw [if_pos hc', if_neg hd'] at h
      have hcd := (List.cons.inj h).1
      omega
  · by_cases hd' : d.toNat < 0x10000
    · rw [if_neg hc', if_pos hd'] at h
      have hcd := (List.cons.inj h).1
      omega
    · -- a pair of surrogates each
      rw [if_neg hc', if_neg hd'] at h
      obtain ⟨hhigh, h⟩ := List.cons.inj h
      obtain ⟨hlow, hst⟩ := List.cons.inj h
      refine ⟨Char.toNat_inj.mp ?_, hst⟩
      omega

/-- The units of a character are not none. -/
theorem units_ne_nil (c : Char) : units c ≠ [] := by
  unfold units
  split <;> simp

/-- Texts with the same units are the same. -/
theorem flatMap_units_inj : ∀ {a b : List Char}, a.flatMap units = b.flatMap units → a = b
  | [], [], _ => rfl
  | [], d :: b, h => by
      rw [List.flatMap_nil, List.flatMap_cons] at h
      exact absurd (List.append_eq_nil_iff.mp h.symm).1 (units_ne_nil d)
  | c :: a, [], h => by
      rw [List.flatMap_nil, List.flatMap_cons] at h
      exact absurd (List.append_eq_nil_iff.mp h).1 (units_ne_nil c)
  | c :: a, d :: b, h => by
      rw [List.flatMap_cons, List.flatMap_cons] at h
      obtain ⟨hcd, hab⟩ := units_append_inj h
      rw [hcd, flatMap_units_inj hab]

/-- **The units of a key determine it.** -/
theorem utf16_inj {a b : String} (h : utf16 a = utf16 b) : a = b :=
  String.toList_inj.mp (flatMap_units_inj h)

/-- **Members in another order are the same when they are put in order**, if no key stands twice. -/
theorem sortEntries_eq_of_perm {α : Type} {es fs : List (String × α)} (h : es.Perm fs)
    (hkeys : (es.map Prod.fst).Nodup) : sortEntries es = sortEntries fs := by
  have hes := List.perm_insertionSort (fun a b : String × α => utf16 a.1 ≤ utf16 b.1) es
  have hfs := List.perm_insertionSort (fun a b : String × α => utf16 a.1 ≤ utf16 b.1) fs
  have htrans : IsTrans (String × α) fun a b => utf16 a.1 ≤ utf16 b.1 :=
    ⟨fun _ _ _ hab hbc => le_trans hab hbc⟩
  have htotal : Std.Total (fun a b : String × α => utf16 a.1 ≤ utf16 b.1) :=
    ⟨fun _ _ => le_total _ _⟩
  refine List.Perm.eq_of_pairwise (fun a b ha hb hab hba => ?_)
    (List.pairwise_insertionSort _ es) (List.pairwise_insertionSort _ fs)
    (hes.trans (h.trans hfs.symm))
  -- the keys are the same, and a key stands once
  have hkey : a.1 = b.1 := utf16_inj (le_antisymm hab hba)
  exact List.inj_on_of_nodup_map hkeys (hes.mem_iff.mp ha)
    (h.mem_iff.mpr (hfs.mem_iff.mp hb)) hkey

/-! ## The canonical text of what comes back -/

theorem canonicalEntries_map (es : List (String × Value)) :
    canonicalEntries es = es.map fun e => (e.1, canonicalJson e.2) := by
  induction es with
  | nil => rfl
  | cons e es ih => rw [canonicalEntries, ih, List.map_cons]

theorem keys_canonicalEntries (es : List (String × Value)) :
    (canonicalEntries es).map Prod.fst = es.map Prod.fst := by
  rw [canonicalEntries_map, List.map_map]
  rfl

mutual

/-- **The canonical text does not depend on what the database does to the order.** -/
theorem canonicalJson_jsonb (order : MemberOrder) : ∀ {v : Value}, v.isJson = true →
    canonicalJson (jsonb order v) = canonicalJson v
  | .null, _ => rfl
  | .bool _, _ => rfl
  | .number _, _ => rfl
  | .string _, _ => rfl
  | .bigint _, h => nomatch h
  | .date _, h => nomatch h
  | .array vs, h => by
      rw [Value.isJson] at h
      rw [jsonb, canonicalJson, canonicalJson, canonicalElements_jsonb order h]
  | .object es, h => by
      rw [Value.isJson, Bool.and_eq_true, decide_eq_true_eq] at h
      have hperm : (canonicalEntries (order.arrange (jsonbMembers order es))).Perm
          (canonicalEntries es) := by
        rw [← canonicalEntries_jsonb order h.2, canonicalEntries_map, canonicalEntries_map]
        exact (order.perm _).map _
      have hsort := sortEntries_eq_of_perm hperm.symm (by
        rw [keys_canonicalEntries]
        exact h.1)
      rw [jsonb, canonicalJson, canonicalJson, hsort]

theorem canonicalElements_jsonb (order : MemberOrder) : ∀ {vs : List Value}, areJson vs = true →
    canonicalElements (jsonbElements order vs) = canonicalElements vs
  | [], _ => rfl
  | v :: vs, h => by
      rw [areJson, Bool.and_eq_true] at h
      rw [jsonbElements, canonicalElements, canonicalElements, canonicalJson_jsonb order h.1,
        canonicalElements_jsonb order h.2]

theorem canonicalEntries_jsonb (order : MemberOrder) : ∀ {es : List (String × Value)},
    membersAreJson es = true →
      canonicalEntries (jsonbMembers order es) = canonicalEntries es
  | [], _ => rfl
  | e :: es, h => by
      rw [membersAreJson, Bool.and_eq_true] at h
      rw [jsonbMembers, canonicalEntries, canonicalEntries, canonicalJson_jsonb order h.1,
        canonicalEntries_jsonb order h.2]

end

end YantraRgs
