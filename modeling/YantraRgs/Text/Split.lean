import Mathlib.Data.List.Basic

/-! # Texts in parts

A text in parts is joined with a sign between them and split again where no part has that sign. Where
parts are joined with colons and none of them is empty, a double colon between two such texts is the
only one.

* **`join_injective`** — parts are read back from what they are joined to.
* **`splitDouble`** — a text split at double colons.
* **`spaced_join`**, **`splitDouble_double`** — what that makes of joined parts. -/

namespace YantraRgs.Split

/-- Some parts with a sign between them. -/
def join (sep : Char) (parts : List (List Char)) : List Char := [sep].intercalate parts

@[simp] theorem join_nil (sep : Char) : join sep [] = [] := rfl

@[simp] theorem join_singleton (sep : Char) (p : List Char) : join sep [p] = p := by
  simp [join]

@[simp] theorem join_cons_cons (sep : Char) (p q : List Char) (ps : List (List Char)) :
    join sep (p :: q :: ps) = p ++ sep :: join sep (q :: ps) := by
  rw [join, List.intercalate_cons_cons, join, List.append_assoc, List.singleton_append]

theorem join_cons_of_ne_nil {sep : Char} {p : List Char} {ps : List (List Char)} (h : ps ≠ []) :
    join sep (p :: ps) = p ++ sep :: join sep ps := by
  obtain ⟨q, qs, rfl⟩ := List.exists_cons_of_ne_nil h
  exact join_cons_cons sep p q qs

/-- A sign of a joined text is between the parts or in one of them. -/
theorem mem_join {sep c : Char} {parts : List (List Char)} (h : c ∈ join sep parts) :
    c = sep ∨ ∃ p ∈ parts, c ∈ p := by
  induction parts with
  | nil => cases h
  | cons p ps ih =>
      cases ps with
      | nil =>
          rw [join_singleton] at h
          exact .inr ⟨p, List.mem_cons_self, h⟩
      | cons q qs =>
          rw [join_cons_cons, List.mem_append, List.mem_cons] at h
          rcases h with h | rfl | h
          · exact .inr ⟨p, List.mem_cons_self, h⟩
          · exact .inl rfl
          · rcases ih h with rfl | ⟨r, hr, hc⟩
            · exact .inl rfl
            · exact .inr ⟨r, List.mem_cons_of_mem p hr, hc⟩

/-- Every sign of a text can be changed before the parts are joined. -/
theorem map_join (f : Char → Char) (sep : Char) (parts : List (List Char)) :
    (join sep parts).map f = join (f sep) (parts.map (List.map f)) := by
  induction parts with
  | nil => rfl
  | cons p ps ih =>
      cases ps with
      | nil => simp
      | cons q qs =>
          rw [List.map_cons] at ih
          rw [join_cons_cons, List.map_append, List.map_cons, ih, List.map_cons, List.map_cons,
            join_cons_cons]

/-- Parts without the sign are read back. -/
theorem splitOn_join {sep : Char} {parts : List (List Char)} (hsep : ∀ p ∈ parts, sep ∉ p)
    (hne : parts ≠ []) : (join sep parts).splitOn sep = parts :=
  List.splitOn_intercalate sep hsep hne

/-- A text without the sign is one part. -/
theorem splitOn_of_notMem {sep : Char} {s : List Char} (h : sep ∉ s) : s.splitOn sep = [s] := by
  have hjoin := splitOn_join (List.forall_mem_singleton.mpr h) (List.cons_ne_nil s [])
  rwa [join_singleton] at hjoin

/-- Parts that are not empty are joined to a text that is not. -/
theorem join_ne_nil {sep : Char} {parts : List (List Char)} (hparts : ∀ p ∈ parts, p ≠ [])
    (hne : parts ≠ []) : join sep parts ≠ [] := by
  cases parts with
  | nil => exact absurd rfl hne
  | cons p ps =>
      cases ps with
      | nil =>
          rw [join_singleton]
          exact hparts p List.mem_cons_self
      | cons q qs =>
          rw [join_cons_cons]
          exact List.append_ne_nil_of_right_ne_nil _ (List.cons_ne_nil _ _)

/-- **Joined parts determine the parts**, where none is empty or has the sign. -/
theorem join_injective {sep : Char} {ps qs : List (List Char)}
    (hps : ∀ p ∈ ps, p ≠ [] ∧ sep ∉ p) (hqs : ∀ q ∈ qs, q ≠ [] ∧ sep ∉ q)
    (h : join sep ps = join sep qs) : ps = qs := by
  by_cases hp : ps = []
  · by_cases hq : qs = []
    · rw [hp, hq]
    · rw [hp, join_nil] at h
      exact absurd h.symm (join_ne_nil (fun q hmem => (hqs q hmem).1) hq)
  · by_cases hq : qs = []
    · rw [hq, join_nil] at h
      exact absurd h (join_ne_nil (fun p hmem => (hps p hmem).1) hp)
    · rw [← splitOn_join (fun p hmem => (hps p hmem).2) hp, h,
        splitOn_join (fun q hmem => (hqs q hmem).2) hq]

/-! ## Double colons -/

/-- **The parts of a text between double colons.** -/
def splitDouble : List Char → List (List Char)
  | ':' :: ':' :: s => [] :: splitDouble s
  | c :: s =>
      match splitDouble s with
      | p :: ps => (c :: p) :: ps
      | [] => [[c]]
  | [] => [[]]

/-- Whether a text has no colon before another one or at its end. -/
def Spaced : List Char → Prop
  | [] => True
  | [c] => c ≠ ':'
  | c :: d :: s => (c = ':' → d ≠ ':') ∧ Spaced (d :: s)

theorem splitDouble_cons {c : Char} {s : List Char} {p : List Char} {ps : List (List Char)}
    (hc : c = ':' → ∀ d ∈ s.head?, d ≠ ':') (h : splitDouble s = p :: ps) :
    splitDouble (c :: s) = (c :: p) :: ps := by
  rw [splitDouble.eq_def]
  split
  · next heq =>
      obtain ⟨rfl, rfl⟩ := List.cons.inj heq
      exact absurd rfl (hc rfl ':' rfl)
  · next heq =>
      obtain ⟨rfl, rfl⟩ := List.cons.inj heq
      rw [h]
  · next heq => cases heq

/-- **Up to a double colon**, a spaced text is one part. -/
theorem splitDouble_append {s t : List Char} {p : List Char} {ps : List (List Char)} (hs : Spaced s)
    (ht : splitDouble t = p :: ps) : splitDouble (s ++ t) = (s ++ p) :: ps := by
  induction s with
  | nil => exact ht
  | cons c s ih =>
      have hrest : Spaced s := by
        cases s with
        | nil => trivial
        | cons d s => exact hs.2
      refine splitDouble_cons ?_ (ih hrest)
      rintro rfl d hd
      cases s with
      | nil => exact absurd rfl hs
      | cons e s =>
          obtain rfl := Option.some.inj hd
          exact hs.1 rfl

/-- A spaced text has no double colon. -/
theorem splitDouble_spaced {s : List Char} (hs : Spaced s) : splitDouble s = [s] := by
  have h := splitDouble_append (t := []) hs rfl
  rwa [List.append_nil] at h

/-- Two spaced texts around a double colon are its parts. -/
theorem splitDouble_double {s t : List Char} (hs : Spaced s) (ht : Spaced t) :
    splitDouble (s ++ ':' :: ':' :: t) = [s, t] := by
  have hdouble : splitDouble (':' :: ':' :: t) = [] :: [t] := by
    rw [splitDouble, splitDouble_spaced ht]
  have h := splitDouble_append hs hdouble
  rwa [List.append_nil] at h

/-- A text without colons is spaced, whatever spaced text follows it behind a colon. -/
theorem spaced_append {s t : List Char} (hs : ':' ∉ s)
    (ht : t = [] ∨ ∃ d u, t = ':' :: d :: u ∧ d ≠ ':' ∧ Spaced (d :: u)) : Spaced (s ++ t) := by
  induction s with
  | nil =>
      rcases ht with rfl | ⟨d, u, rfl, hd, hu⟩
      · trivial
      · exact ⟨fun _ => hd, hu⟩
  | cons c s ih =>
      have hc : c ≠ ':' := fun h => hs (h ▸ List.mem_cons_self)
      have hrest := ih fun h => hs (List.mem_cons_of_mem c h)
      rw [List.cons_append]
      cases hst : s ++ t with
      | nil => exact hc
      | cons d u =>
          rw [hst] at hrest
          exact ⟨fun h => absurd h hc, hrest⟩

/-- **Parts joined with colons are spaced**, where none is empty or has a colon. -/
theorem spaced_join {parts : List (List Char)} (h : ∀ p ∈ parts, p ≠ [] ∧ ':' ∉ p) :
    Spaced (join ':' parts) := by
  induction parts with
  | nil => trivial
  | cons p ps ih =>
      have hp := h p List.mem_cons_self
      have hrest := ih fun q hq => h q (List.mem_cons_of_mem p hq)
      cases ps with
      | nil =>
          have hspaced := spaced_append (t := []) hp.2 (.inl rfl)
          rwa [List.append_nil, ← join_singleton ':' p] at hspaced
      | cons q qs =>
          rw [join_cons_cons]
          have hne : join ':' (q :: qs) ≠ [] :=
            join_ne_nil (fun r hr => (h r (List.mem_cons_of_mem p hr)).1) (List.cons_ne_nil q qs)
          obtain ⟨d, u, hdu⟩ := List.exists_cons_of_ne_nil hne
          refine spaced_append hp.2 (.inr ⟨d, u, by rw [hdu], ?_, hdu ▸ hrest⟩)
          -- what follows the colon is the first sign of the next part
          obtain ⟨e, q', rfl⟩ := List.exists_cons_of_ne_nil (h q (by simp)).1
          have hcolon := (h (e :: q') (by simp)).2
          have hd : d = e := by
            cases qs with
            | nil =>
                rw [join_singleton] at hdu
                exact (List.cons.inj hdu).1.symm
            | cons r rs =>
                rw [join_cons_cons, List.cons_append] at hdu
                exact (List.cons.inj hdu).1.symm
          rw [hd]
          exact fun heq => hcolon (heq ▸ List.mem_cons_self)

end YantraRgs.Split
