import Mathlib.Data.List.Basic
import Mathlib.Data.List.Nodup

/-! # Reading an ordered query page by page

A query with a **cursor** starts at the row whose identifier is the cursor, in the order of the
query; `skip` drops rows from there, and `take` cuts the answer off. A client reads a list by asking
for page after page, each time with the cursor the last page handed out.

* **`Cursor.findMany`** — the rows of one such query.
* **`Cursor.fetch`** — the pages of a client that goes on until no cursor is handed out.
* **`Cursor.fetch_eq`** — what the client reads, for pages that hand out the row they cut off as the
  cursor while the query drops the row it starts at.
* **`Cursor.readable_iff`** — such a client reads the whole list exactly when it fits on one page. -/

namespace YantraRgs.Cursor

variable {α : Type}

/-- The rows from the cursor on. -/
def startAt (cursor : Option Nat) (rows : List (Nat × α)) : List (Nat × α) :=
  match cursor with
  | none => rows
  | some id => rows.dropWhile fun r => r.1 ≠ id

/-- **An ordered query**: from the cursor on, without the first `skip` rows, at most `take` rows. -/
def findMany (cursor : Option Nat) (skip take : Nat) (rows : List (Nat × α)) : List (Nat × α) :=
  ((startAt cursor rows).drop skip).take take

/-- A page: its items, and the cursor of the next page. -/
structure Page (α : Type) where
  items : List (Nat × α)
  nextCursor : Option Nat

/-- **The pages a client reads**, one after the other, until no cursor is handed out; `none` when a
page is refused or `n` pages are not enough. -/
def fetch (page : Option Nat → Option (Page α)) : Nat → Option Nat → Option (List (Nat × α))
  | 0, _ => none
  | n + 1, cursor =>
      (page cursor).bind fun p =>
        match p.nextCursor with
        | none => some p.items
        | some next => (fetch page n (some next)).map (p.items ++ ·)

/-- A row is found at its identifier. -/
theorem startAt_append {a b : List (Nat × α)} {r : Nat × α}
    (h : ((a ++ r :: b).map Prod.fst).Nodup) : startAt (some r.1) (a ++ r :: b) = r :: b := by
  induction a with
  | nil => simp [startAt]
  | cons x a ih =>
      simp only [List.cons_append, List.map_cons, List.nodup_cons] at h
      have hne : x.1 ≠ r.1 := by
        intro he
        apply h.1
        rw [he]
        simp
      have hskip : startAt (some r.1) (x :: (a ++ r :: b)) = startAt (some r.1) (a ++ r :: b) := by
        simp [startAt, hne]
      exact hskip.trans (ih h.2)

/-- A page of at most `limit` rows that asks for one row more, and hands that row out as the cursor
of the next page; the query drops the row it starts at. -/
def overshoot (limit : Nat) (rows : List (Nat × α)) (cursor : Option Nat) : Page α :=
  let found := findMany cursor (if cursor.isSome then 1 else 0) (limit + 1) rows
  if limit < found.length then ⟨found.dropLast, found.getLast?.map Prod.fst⟩ else ⟨found, none⟩

/-- What is left of a list when the row after every `limit` rows is lost. -/
def lossy (limit : Nat) (rows : List (Nat × α)) : List (Nat × α) :=
  if limit < rows.length then rows.take limit ++ lossy limit (rows.drop (limit + 1)) else rows
  termination_by rows.length
  decreasing_by
    simp only [List.length_drop]
    omega

/-- One page of a list whose first rows were read. -/
theorem overshoot_eq (limit : Nat) {rows rest : List (Nat × α)} {cursor : Option Nat}
    (h : (startAt cursor rows).drop (if cursor.isSome then 1 else 0) = rest) :
    overshoot limit rows cursor =
      if limit < rest.length then ⟨rest.take limit, (rest[limit]?).map Prod.fst⟩
      else ⟨rest, none⟩ := by
  simp only [overshoot, findMany, h, List.length_take]
  by_cases hlen : limit < rest.length
  · have hmin : min (limit + 1) rest.length = limit + 1 := by omega
    have hinit : (rest.take (limit + 1)).dropLast = rest.take limit := by
      rw [List.dropLast_eq_take, List.length_take, hmin, List.take_take]
      simp
    have hlast : (rest.take (limit + 1)).getLast? = rest[limit]? := by
      rw [List.getLast?_eq_getElem?, List.length_take, hmin]
      simp
    rw [hmin, if_pos (by omega), if_pos hlen, hinit, hlast]
  · have htake : rest.take (limit + 1) = rest := List.take_of_length_le (by omega)
    rw [if_neg (by omega), if_neg hlen, htake]

/-- **What such a client reads**: the row after every `limit` rows is lost. -/
theorem fetch_eq (limit : Nat) {rows : List (Nat × α)} (hnodup : (rows.map Prod.fst).Nodup) :
    ∀ (n : Nat) (cursor : Option Nat) (rest : List (Nat × α)), rest <:+ rows →
      (startAt cursor rows).drop (if cursor.isSome then 1 else 0) = rest → rest.length < n →
      fetch (fun c => some (overshoot limit rows c)) n cursor = some (lossy limit rest) := by
  intro n
  induction n with
  | zero =>
      intro cursor rest _ _ hn
      omega
  | succ n ih =>
      intro cursor rest hsuffix hrest hn
      rw [fetch, overshoot_eq limit hrest, lossy, Option.bind_some]
      by_cases hlen : limit < rest.length
      · -- the row handed out as the cursor is the first one that is dropped next time
        obtain ⟨r, hr⟩ : ∃ r, rest[limit]? = some r := ⟨_, List.getElem?_eq_getElem hlen⟩
        have hsplit : rest = rest.take limit ++ r :: rest.drop (limit + 1) := by
          rw [← (List.getElem?_eq_some_iff.mp hr).2, List.getElem_cons_drop hlen]
          exact (List.take_append_drop limit rest).symm
        obtain ⟨before, hbefore⟩ := hsuffix
        have hrows : rows = (before ++ rest.take limit) ++ r :: rest.drop (limit + 1) := by
          rw [List.append_assoc, ← hsplit, hbefore]
        have hnext : (startAt (some r.1) rows).drop 1 = rest.drop (limit + 1) := by
          rw [hrows] at hnodup ⊢
          rw [startAt_append hnodup]
          rfl
        have hfetch := ih (some r.1) (rest.drop (limit + 1))
          ((List.drop_suffix _ _).trans ⟨before, hbefore⟩) hnext
          (by simp only [List.length_drop]; omega)
        simp only [if_pos hlen, hr, Option.map_some, hfetch]
      · simp only [if_neg hlen]

/-- A list with lost rows is shorter. -/
theorem length_lossy_le (limit : Nat) (rows : List (Nat × α)) :
    (lossy limit rows).length ≤ rows.length := by
  fun_induction lossy limit rows with
  | case1 rows hlen ih =>
      simp only [List.length_append, List.length_take, List.length_drop] at ih ⊢
      omega
  | case2 rows hlen => exact Nat.le_refl _

/-- **The whole list is read exactly when it fits on one page.** -/
theorem readable_iff (limit : Nat) {rows : List (Nat × α)} (hnodup : (rows.map Prod.fst).Nodup)
    {n : Nat} (hn : rows.length < n) :
    fetch (fun c => some (overshoot limit rows c)) n none = some rows ↔ rows.length ≤ limit := by
  rw [fetch_eq limit hnodup n none rows (List.suffix_refl _) rfl hn]
  constructor
  · intro h
    by_contra hlen
    have hlt : limit < rows.length := by omega
    have hlength := congrArg List.length (Option.some.inj h)
    rw [lossy, if_pos hlt] at hlength
    have hle := length_lossy_le limit (rows.drop (limit + 1))
    simp only [List.length_append, List.length_take, List.length_drop] at hlength hle
    omega
  · intro hlen
    rw [lossy, if_neg (by omega)]

end YantraRgs.Cursor
