import Mathlib.Data.List.Forall2
import Mathlib.Data.List.Induction
import YantraRgs.Text.Integer
import YantraRgs.Text.Split

/-! # Lines and cells

A text is split into lines at line feeds, with or without a carriage return before them, and a line into
cells. Blanks at the ends of a line or of a cell do not count, and a carriage return is a blank.

* **`splitLines`** — the lines of a text.
* **`map_trim_splitLines`** — without blanks, the lines are the parts between line feeds.
* **`map_trim_splitOn_trim`** — blanks at the ends of a line do not change its cells.
* **`trim_pad`** — blanks around a text are taken off. -/

namespace YantraRgs.Lines

open BigInt (isSpace trim)
open Split (join)

variable {s t l r : List Char} {c sep : Char} {parts : List (List Char)}

/-- **The lines of a text.** -/
def splitLines : List Char → List (List Char)
  | '\r' :: '\n' :: s => [] :: splitLines s
  | '\n' :: s => [] :: splitLines s
  | c :: s =>
      match splitLines s with
      | line :: lines => (c :: line) :: lines
      | [] => [[c]]
  | [] => [[]]

/-! ## Blanks -/

/-- A text that has no blanks at its ends. -/
structure Trimmed (s : List Char) : Prop where
  first : ∀ c ∈ s.head?, isSpace c = false
  last : ∀ c ∈ s.getLast?, isSpace c = false

theorem trim_cons_space (hc : isSpace c = true) : trim (c :: s) = trim s := by
  rw [trim, List.dropWhile_cons_of_pos hc, trim]

theorem trim_append_space (hc : isSpace c = true) : trim (s ++ [c]) = trim s := by
  have hdrop : [c].dropWhile isSpace = [] := List.dropWhile_cons_of_pos hc
  rw [trim, List.dropWhile_append, hdrop]
  split
  · rename_i h
    rw [trim, List.isEmpty_iff.mp h]
  · rw [List.reverse_append, List.reverse_singleton, List.singleton_append,
      List.dropWhile_cons_of_pos hc, trim]

/-- A text that starts with no blank still starts with the same sign. -/
theorem head?_trim_cons (hc : isSpace c = false) : (trim (c :: s)).head? = some c := by
  have hone : [c].dropWhile isSpace = [c] := List.dropWhile_cons_of_neg (by simp [hc])
  rw [trim, List.dropWhile_cons_of_neg (by simp [hc]), List.reverse_cons, List.dropWhile_append, hone]
  split
  · rfl
  · rw [List.reverse_append, List.reverse_singleton, List.singleton_append, List.head?_cons]

/-- **What blanks at the ends do not change**, trimming does not change. -/
theorem apply_trim {α : Type*} {f : List Char → α}
    (hfirst : ∀ c s, isSpace c = true → f (c :: s) = f s)
    (hlast : ∀ c s, isSpace c = true → f (s ++ [c]) = f s) (s : List Char) : f (trim s) = f s := by
  have hright : ∀ s : List Char, f (s.reverse.dropWhile isSpace).reverse = f s := by
    intro s
    induction s using List.reverseRecOn with
    | nil => rfl
    | append_singleton s c ih =>
        rw [List.reverse_append, List.reverse_singleton, List.singleton_append, List.dropWhile_cons]
        split
        · rename_i hc
          rw [ih, hlast c s hc]
        · rw [List.reverse_cons, List.reverse_reverse]
  have hleft : ∀ s : List Char, f (s.dropWhile isSpace) = f s := by
    intro s
    induction s with
    | nil => rfl
    | cons c s ih =>
        rw [List.dropWhile_cons]
        split
        · rename_i hc
          rw [ih, hfirst c s hc]
        · rfl
  rw [trim, hright, hleft]

/-- **Blanks around a text are taken off.** -/
theorem trim_pad (hl : ∀ c ∈ l, isSpace c = true) (hr : ∀ c ∈ r, isSpace c = true)
    (hs : Trimmed s) : trim (l ++ s ++ r) = s := by
  have hleft : trim (l ++ s ++ r) = trim (s ++ r) := by
    clear hr hs
    induction l with
    | nil => rfl
    | cons c l ih =>
        rw [List.cons_append, List.cons_append, trim_cons_space (hl c List.mem_cons_self)]
        exact ih fun d hd => hl d (List.mem_cons_of_mem c hd)
  have hright : trim (s ++ r) = trim s := by
    clear hl hs hleft
    induction r using List.reverseRecOn with
    | nil => rw [List.append_nil]
    | append_singleton r c ih =>
        rw [← List.append_assoc, trim_append_space (hr c (by simp))]
        exact ih fun d hd => hr d (List.mem_append_left [c] hd)
  rw [hleft, hright]
  rcases List.eq_nil_or_concat s with rfl | ⟨ds, d, hds⟩
  · rfl
  · rw [List.concat_eq_append] at hds
    obtain ⟨c, cs, rfl⟩ := List.exists_cons_of_ne_nil (hds ▸ List.append_ne_nil_of_right_ne_nil ds
      (List.cons_ne_nil d []) : s ≠ [])
    refine BigInt.trim_eq_self hds (hs.first c rfl) (hs.last d ?_)
    rw [hds, List.getLast?_concat]
    exact Option.mem_some_self d

/-! ## Lines -/

/-- A line, and the same one with the carriage return before its line feed. -/
def Returned (line line' : List Char) : Prop := line' = line ∨ line' = line ++ ['\r']

theorem returned_cons {line line' : List Char} (h : Returned line line') :
    Returned (c :: line) (c :: line') :=
  h.imp (congrArg (c :: ·)) (congrArg (c :: ·))

theorem splitOn_cons_of_ne (h : c ≠ sep) (hs : s.splitOn sep = t :: parts) :
    (c :: s).splitOn sep = (c :: t) :: parts := by
  rw [List.splitOn_cons_eq_if_modifyHead, if_neg (by simpa using h), hs]
  rfl

theorem splitOn_cons_self : (sep :: s).splitOn sep = [] :: s.splitOn sep := by
  rw [List.splitOn_cons_eq_if_modifyHead, if_pos (by simp)]

theorem splitLines_cons {line : List Char} {lines : List (List Char)} (hfeed : c ≠ '\n')
    (hreturn : c = '\r' → ∀ t, s ≠ '\n' :: t) (h : splitLines s = line :: lines) :
    splitLines (c :: s) = (c :: line) :: lines := by
  rw [splitLines.eq_def]
  split
  · next heq =>
      obtain ⟨rfl, hs⟩ := List.cons.inj heq
      exact absurd hs (hreturn rfl _)
  · next heq => exact absurd (List.cons.inj heq).1 hfeed
  · next heq =>
      obtain ⟨rfl, rfl⟩ := List.cons.inj heq
      rw [h]
  · next heq => cases heq

/-- The lines are the parts between line feeds, less carriage returns. -/
theorem forall₂_splitLines (s : List Char) :
    List.Forall₂ Returned (splitLines s) (s.splitOn '\n') := by
  have hadd : ∀ c s, c ≠ '\n' → (c = '\r' → ∀ t, s ≠ '\n' :: t) →
      List.Forall₂ Returned (splitLines s) (s.splitOn '\n') →
      List.Forall₂ Returned (splitLines (c :: s)) ((c :: s).splitOn '\n') := by
    intro c s hfeed hreturn ih
    cases hlines : splitLines s with
    | nil =>
        rw [hlines, List.forall₂_nil_left_iff] at ih
        exact absurd ih (List.splitOn_ne_nil _ _)
    | cons line lines =>
        rw [hlines] at ih
        obtain ⟨line', lines', hline, hrest, hsplit⟩ := List.forall₂_cons_left_iff.mp ih
        rw [splitLines_cons hfeed hreturn hlines, splitOn_cons_of_ne hfeed hsplit]
        exact .cons (returned_cons hline) hrest
  induction s using splitLines.induct with
  | case1 s ih =>
      rw [splitLines, splitOn_cons_of_ne (by decide) splitOn_cons_self]
      exact .cons (.inr rfl) ih
  | case2 s ih =>
      rw [splitLines, splitOn_cons_self]
      exact .cons (.inl rfl) ih
  | case3 c s hreturn hfeed line lines hlines ih => exact hadd c s hfeed (fun hc t ht => hreturn t hc ht) ih
  | case4 c s hreturn hfeed hlines ih => exact hadd c s hfeed (fun hc t ht => hreturn t hc ht) ih
  | case5 => exact .cons (.inl rfl) .nil

/-- **Without blanks, the lines are the parts between line feeds.** -/
theorem map_trim_splitLines (s : List Char) :
    (splitLines s).map trim = (s.splitOn '\n').map trim := by
  have h := forall₂_splitLines s
  generalize splitLines s = lines at h ⊢
  generalize s.splitOn '\n' = parts at h ⊢
  induction h with
  | nil => rfl
  | cons hline _ ih =>
      rw [List.map_cons, List.map_cons, ih]
      rcases hline with rfl | rfl
      · rfl
      · rw [trim_append_space (by decide)]

/-! ## Cells -/

/-- A sign before a joined text stands before its first part. -/
theorem cons_join (c sep : Char) (p : List Char) (ps : List (List Char)) :
    c :: join sep (p :: ps) = join sep ((c :: p) :: ps) := by
  cases ps with
  | nil => rw [Split.join_singleton, Split.join_singleton]
  | cons q ps => rw [Split.join_cons_cons, Split.join_cons_cons, List.cons_append]

/-- A sign behind a joined text stands behind its last part. -/
theorem join_append (c sep : Char) (p : List Char) (ps : List (List Char)) :
    join sep (ps ++ [p]) ++ [c] = join sep (ps ++ [p ++ [c]]) := by
  induction ps with
  | nil => rw [List.nil_append, List.nil_append, Split.join_singleton, Split.join_singleton]
  | cons q ps ih =>
      have hne : ∀ p : List Char, ps ++ [p] ≠ [] := fun p =>
        List.append_ne_nil_of_right_ne_nil ps (List.cons_ne_nil p [])
      rw [List.cons_append, List.cons_append, Split.join_cons_of_ne_nil (hne p),
        Split.join_cons_of_ne_nil (hne _), List.append_assoc, List.cons_append, ih]

/-- Every text is joined from parts without the sign. -/
theorem exists_join (sep : Char) (s : List Char) :
    ∃ p ps, s = join sep (p :: ps) ∧ ∀ q ∈ p :: ps, sep ∉ q := by
  induction s with
  | nil => exact ⟨[], [], (Split.join_singleton sep []).symm, by simp⟩
  | cons c s ih =>
      obtain ⟨p, ps, hs, hps⟩ := ih
      by_cases hc : c = sep
      · refine ⟨[], p :: ps, by rw [Split.join_cons_cons, hs, hc, List.nil_append], ?_⟩
        exact List.forall_mem_cons.mpr ⟨List.not_mem_nil, hps⟩
      · refine ⟨c :: p, ps, by rw [hs, cons_join], ?_⟩
        rw [List.forall_mem_cons] at hps ⊢
        exact ⟨fun h => (List.mem_cons.mp h).elim (fun h => hc h.symm) hps.1, hps.2⟩

/-- **Blanks at the ends of a line do not change its cells.** -/
theorem map_trim_splitOn_trim (hsep : isSpace sep = false) (s : List Char) :
    ((trim s).splitOn sep).map trim = (s.splitOn sep).map trim := by
  have hne : ∀ c, isSpace c = true → sep ≠ c := by
    rintro c hc rfl
    rw [hc] at hsep
    cases hsep
  refine apply_trim (f := fun s => (s.splitOn sep).map trim) (fun c s hc => ?_) (fun c s hc => ?_) s
  · obtain ⟨p, ps, rfl, hps⟩ := exists_join sep s
    have hps' : ∀ q ∈ (c :: p) :: ps, sep ∉ q := by
      rw [List.forall_mem_cons] at hps ⊢
      exact ⟨fun h => (List.mem_cons.mp h).elim (hne c hc) hps.1, hps.2⟩
    simp only [cons_join, Split.splitOn_join hps' (List.cons_ne_nil _ _),
      Split.splitOn_join hps (List.cons_ne_nil _ _), List.map_cons, trim_cons_space hc]
  · obtain ⟨p, ps, rfl, hps⟩ := exists_join sep s
    obtain ⟨qs, q, hqs⟩ : ∃ qs q, p :: ps = qs ++ [q] :=
      ⟨_, _, (List.dropLast_append_getLast (List.cons_ne_nil p ps)).symm⟩
    have hnil : ∀ q : List Char, qs ++ [q] ≠ [] := fun q =>
      List.append_ne_nil_of_right_ne_nil qs (List.cons_ne_nil q [])
    rw [hqs] at hps ⊢
    have hps' : ∀ r ∈ qs ++ [q ++ [c]], sep ∉ r := by
      rw [List.forall_mem_append, List.forall_mem_singleton] at hps ⊢
      refine ⟨hps.1, fun h => ?_⟩
      rcases List.mem_append.mp h with h | h
      · exact hps.2 h
      · exact hne c hc (List.mem_singleton.mp h)
    simp only [join_append, Split.splitOn_join hps' (hnil _), Split.splitOn_join hps (hnil _),
      List.map_append, List.map_cons, List.map_nil, trim_append_space hc]

end YantraRgs.Lines
