import Mathlib.Data.List.Basic

/-! # Hash chains

A chain folds a hash over a list: each digest is made from the digest before it and one row.

* **`Binding`** — a digest determines what it was made from.
* **`foldl_inj`** — the tip of a chain of known length determines its start and its rows.
* **`Stored`** — rows that store their links: the digest before them and their own.
* **`lastDigest`**, **`lastDigest_inj`** — the digest that a list of rows ends with, and that no other
  list of its rows begins with. -/

namespace YantraRgs.HashChain

variable {D R : Type} {hash : D → R → D}

/-- A digest determines the digest and the row it was made from. -/
def Binding (hash : D → R → D) : Prop :=
  ∀ d r e s, hash d r = hash e s → d = e ∧ r = s

/-- **The tip of a chain of known length determines the chain.** -/
theorem foldl_inj (h : Binding hash) {xs : List R} : ∀ {ys : List R} {d e : D},
    xs.length = ys.length → xs.foldl hash d = ys.foldl hash e → d = e ∧ xs = ys := by
  induction xs with
  | nil =>
      intro ys d e hlen htip
      obtain rfl : ys = [] := List.length_eq_zero_iff.mp hlen.symm
      exact ⟨htip, rfl⟩
  | cons x xs ih =>
      intro ys d e hlen htip
      cases ys with
      | nil => exact absurd hlen (Nat.succ_ne_zero _)
      | cons y ys =>
          obtain ⟨hhead, hrest⟩ := ih (Nat.succ.inj hlen) htip
          obtain ⟨hde, hxy⟩ := h _ _ _ _ hhead
          exact ⟨hde, by rw [hxy, hrest]⟩

/-! ## Stored chains -/

section Stored

variable (digestOf : Option D → R → D) (prev digest : R → Option D)

/-- **Rows that store their links.** Each stores the digest before it and its own. -/
def Stored : Option D → List R → Prop
  | _, [] => True
  | before, r :: rows =>
      prev r = before ∧ digest r = some (digestOf before r) ∧ Stored (some (digestOf before r)) rows

instance decidableStored [DecidableEq D] : ∀ (before : Option D) (rows : List R),
    Decidable (Stored digestOf prev digest before rows)
  | _, [] => isTrue trivial
  | before, r :: rows =>
      have : Decidable (Stored digestOf prev digest (some (digestOf before r)) rows) :=
        decidableStored (some (digestOf before r)) rows
      inferInstanceAs (Decidable (prev r = before ∧ digest r = some (digestOf before r) ∧
        Stored digestOf prev digest (some (digestOf before r)) rows))

/-- The digest that rows end with. -/
def lastDigest (before : Option D) (rows : List R) : Option D :=
  rows.foldl (fun before r => some (digestOf before r)) before

variable {digestOf prev digest}

theorem lastDigest_append (before : Option D) (xs ys : List R) :
    lastDigest digestOf before (xs ++ ys) = lastDigest digestOf (lastDigest digestOf before xs) ys :=
  List.foldl_append

theorem lastDigest_concat (before : Option D) (xs : List R) (x : R) :
    lastDigest digestOf before (xs ++ [x]) = some (digestOf (lastDigest digestOf before xs) x) := by
  rw [lastDigest_append]
  rfl

/-- A stored chain goes on where its first part ends. -/
theorem stored_append {before : Option D} {xs ys : List R} :
    Stored digestOf prev digest before (xs ++ ys) ↔
      Stored digestOf prev digest before xs ∧
        Stored digestOf prev digest (lastDigest digestOf before xs) ys := by
  induction xs generalizing before with
  | nil => exact iff_of_eq (true_and _).symm
  | cons x xs ih =>
      rw [List.cons_append, Stored, Stored, ih, and_assoc, and_assoc]
      rfl

/-- The last row of a stored chain stores the digest it ends with. -/
theorem Stored.lastDigest_eq {xs : List R} (h : Stored digestOf prev digest none xs) :
    lastDigest digestOf none xs = xs.getLast?.bind digest := by
  rcases List.eq_nil_or_concat' xs with rfl | ⟨xs, x, rfl⟩
  · rfl
  · obtain ⟨-, hlast⟩ := stored_append.mp h
    rw [lastDigest_concat, List.getLast?_concat, Option.bind_some, hlast.2.1]

/-- **No part of a chain ends with the digest of the whole**, where a digest tells the key of its row. -/
theorem lastDigest_inj {K : Type} {key : R → K}
    (hdigest : ∀ d r e s, digestOf d r = digestOf e s → key r = key s) {xs ys : List R}
    (hnodup : ((xs ++ ys).map key).Nodup)
    (h : lastDigest digestOf none (xs ++ ys) = lastDigest digestOf none xs) : ys = [] := by
  rcases List.eq_nil_or_concat' ys with rfl | ⟨ys, y, rfl⟩
  · rfl
  · rw [← List.append_assoc, lastDigest_concat] at h
    rcases List.eq_nil_or_concat' xs with rfl | ⟨xs, x, rfl⟩
    · cases h
    · rw [lastDigest_concat] at h
      have hkey : key y = key x := hdigest _ _ _ _ (Option.some.inj h)
      rw [List.map_append, List.nodup_append] at hnodup
      refine absurd hkey.symm (hnodup.2.2 (key x) ?_ (key y) ?_)
      · exact List.mem_map_of_mem (List.mem_append_right xs List.mem_cons_self)
      · exact List.mem_map_of_mem (List.mem_append_right ys List.mem_cons_self)

end Stored

end YantraRgs.HashChain
