import Mathlib.Data.List.Induction
import Mathlib.Data.List.TakeWhile
import YantraRgs.Audit.Operations

/-! # What a verification reads

A verification reads the hash of the last hashed row before the day, and the hashed columns of the
day's rows. Writes that leave both alone do not change its verdict.

* **`Unseen`** — a change of the rows of a stream that a verification does not read.
* **`unseen_insert`**, **`unseen_map`** — insertions and writes.
* **`unseen_backfill`**, **`unseen_summarise`** — what the chain does to its own rows. -/

namespace YantraRgs.AuditChain

/-! ## Lists -/

section Lists

variable {α β : Type} {g : α → Option β}

/-- The last entry of a list that has a value. -/
theorem getLast?_bind_eq (l : List α) :
    ((l.filter fun a => (g a).isSome).getLast?).bind g = (l.filterMap g).getLast? := by
  induction l using List.reverseRecOn with
  | nil => rfl
  | append_singleton l a ih =>
      rw [List.filter_append, List.filterMap_append]
      cases ha : g a with
      | none => simpa [ha] using ih
      | some b => simp [ha]

/-- What stands before a value does not change which value is the last. -/
theorem getLast?_filterMap_append {l s : List α} (h : s.filterMap g ≠ []) :
    ((l ++ s).filterMap g).getLast? = (s.filterMap g).getLast? := by
  rw [List.filterMap_append, List.getLast?_append_of_ne_nil _ h]

end Lists

/-! ## What a verification reads -/

variable {R : Type} (env : Env) (S : Stream R)

/-- **A change of the rows of a stream that a verification of a day does not read.** -/
structure Unseen (op : String) (t : Millis) (rows rows' : List R) : Prop where
  seam_eq : seam S rows' op t = seam S rows op t
  content_eq : (S.found rows' (S.within op t (t + dayMs))).map S.content =
    (S.found rows (S.within op t (t + dayMs))).map S.content

/-- The tip that a verification computes. -/
def seenTip (rows : List R) (op : String) (t : Millis) : Text :=
  S.tip env (seam S rows op t) (S.found rows (S.within op t (t + dayMs)))

/-- Identifiers tell the rows of a table apart. -/
def Stream.Keyed (rows : List R) : Prop := (rows.map S.id).Nodup

variable {env S}
variable {op : String} {t : Millis} {rows rows' : List R}

theorem Unseen.refl (rows : List R) : Unseen S op t rows rows := ⟨rfl, rfl⟩

theorem Unseen.trans {rows'' : List R} (h : Unseen S op t rows rows')
    (h' : Unseen S op t rows' rows'') : Unseen S op t rows rows'' :=
  ⟨h'.seam_eq.trans h.seam_eq, h'.content_eq.trans h.content_eq⟩

theorem Unseen.seenTip_eq (h : Unseen S op t rows rows') :
    seenTip env S rows' op t = seenTip env S rows op t :=
  S.tip_congr (by rw [h.seam_eq]) h.content_eq

/-- The seam is the last hash that is stored before the day. -/
theorem seam_eq_getLast? (rows : List R) (op : String) (t : Millis) :
    seam S rows op t = ((S.found rows (S.earlier op t)).filterMap S.rowHash).getLast? := by
  have hfilter : (S.found rows fun r => S.earlier op t r && S.hashed r) =
      (S.found rows (S.earlier op t)).filter S.hashed := by
    rw [Stream.found, Stream.found, List.filter_filter]
    exact List.filter_congr fun r _ => Bool.and_comm _ _
  rw [seam, hfilter]
  exact getLast?_bind_eq _

/-! ## Keys -/

/-- One row of a table bears an identifier. -/
theorem Stream.Keyed.eq (h : S.Keyed rows) {r s : R} (hr : r ∈ rows) (hs : s ∈ rows)
    (hid : S.id r = S.id s) : r = s :=
  List.inj_on_of_nodup_map h hr hs hid

theorem Stream.Keyed.found (h : S.Keyed rows) (p : R → Bool) : S.Keyed (S.found rows p) := by
  have hperm := (List.perm_insertionSort (fun a b => S.before a b = true) rows).map S.id
  exact (hperm.nodup_iff.mpr h).sublist (List.filter_sublist.map S.id)

theorem Stream.Keyed.map {f : R → R} (h : S.Keyed rows) (hid : ∀ r, S.id (f r) = S.id r) :
    S.Keyed (rows.map f) := by
  have hcomp : S.id ∘ f = S.id := funext hid
  rw [Keyed, List.map_map, hcomp]
  exact h

theorem Stream.Keyed.relinked {P : R → Prop} (h : S.Keyed rows) (hrows : Relinked S P rows rows') :
    S.Keyed rows' := by
  obtain ⟨f, hf, -, rfl⟩ := hrows
  exact h.map hf.id_eq

theorem Stream.Keyed.insert (h : S.Keyed rows) {row : R} (hfresh : ∀ r ∈ rows, S.id r ≠ S.id row) :
    S.Keyed (row :: rows) := by
  rw [Keyed, List.map_cons, List.nodup_cons]
  refine ⟨?_, h⟩
  intro hmem
  obtain ⟨r, hr, hid⟩ := List.mem_map.mp hmem
  exact hfresh r hr hid

/-! ## Insertions and writes -/

/-- A row that does not satisfy a condition does not change what is found. -/
theorem found_cons_of_neg {row : R} {p : R → Bool} (h : p row = false) :
    S.found (row :: rows) p = S.found rows p := by
  have hinsert : ∀ l : List R,
      (l.orderedInsert (fun a b => S.before a b = true) row).filter p = l.filter p := by
    intro l
    induction l with
    | nil => simp [h]
    | cons a l ih =>
        rw [List.orderedInsert_cons]
        split
        · simp [h]
        · rw [List.filter_cons, List.filter_cons, ih]
  rw [Stream.found, List.insertionSort_cons, hinsert, Stream.found]

/-- A row that was created after the day is not read. -/
theorem unseen_insert (rows : List R) {row : R} (hearlier : S.earlier op t row = false)
    (hwithin : S.within op t (t + dayMs) row = false) : Unseen S op t rows (row :: rows) where
  seam_eq := by
    rw [seam_eq_getLast?, seam_eq_getLast?, found_cons_of_neg hearlier]
  content_eq := by rw [found_cons_of_neg hwithin]

section Writes

variable {f : R → R} (hid : ∀ r, S.id (f r) = S.id r)
  (hop : ∀ r, S.operatorId (f r) = S.operatorId r) (hstamp : ∀ r, S.stamp (f r) = S.stamp r)

include hid hop hstamp

/-- **A write is not read** when it leaves the last hash before the day and the content of the day's
rows alone. -/
theorem unseen_map
    (hcontent : ∀ r ∈ rows, S.within op t (t + dayMs) r = true → S.content (f r) = S.content r)
    (hhash : (((S.found rows (S.earlier op t)).map f).filterMap S.rowHash).getLast? =
      ((S.found rows (S.earlier op t)).filterMap S.rowHash).getLast?) :
    Unseen S op t rows (rows.map f) where
  seam_eq := by
    have hearlier : (fun r => S.earlier op t (f r)) = S.earlier op t :=
      funext fun r => earlier_congr (hop r) (hstamp r) op t
    rw [seam_eq_getLast?, seam_eq_getLast?, found_map hid hstamp, hearlier, hhash]
  content_eq := by
    have hwithin : (fun r => S.within op t (t + dayMs) (f r)) = S.within op t (t + dayMs) :=
      funext fun r => within_congr (hop r) (hstamp r) op t (t + dayMs)
    rw [found_map hid hstamp, hwithin, List.map_map]
    refine List.map_congr_left ?_
    intro r hr
    obtain ⟨hmem, hday⟩ := mem_found.mp hr
    exact hcontent r hmem hday

/-- A write that leaves hashes alone is not read when it leaves the content of the day alone. -/
theorem unseen_map_of_rowHash (hrow : ∀ r, S.rowHash (f r) = S.rowHash r)
    (hcontent : ∀ r ∈ rows, S.within op t (t + dayMs) r = true → S.content (f r) = S.content r) :
    Unseen S op t rows (rows.map f) := by
  refine unseen_map hid hop hstamp hcontent ?_
  have hcomp : S.rowHash ∘ f = S.rowHash := funext hrow
  rw [List.filterMap_map, hcomp]

end Writes

/-- The rows that stand behind the one of an identifier, among those created before a day. -/
def behind (S : Stream R) (rows : List R) (op : String) (t : Millis) (id : String) : List R :=
  ((S.found rows (S.earlier op t)).dropWhile fun r => S.id r ≠ id).tail

/-- **A row is written and hashed unread** when a hashed row stands behind it, or it was not created
before the day. -/
theorem unseen_update {id : String} {f : R → R} (hid : ∀ r, S.id (f r) = S.id r)
    (hop : ∀ r, S.operatorId (f r) = S.operatorId r) (hstamp : ∀ r, S.stamp (f r) = S.stamp r)
    (hkeyed : S.Keyed rows)
    (hcontent : ∀ r ∈ rows, S.id r = id → S.within op t (t + dayMs) r = true →
      S.content (f r) = S.content r)
    (hbehind : ∀ r ∈ rows, S.id r = id → S.earlier op t r = true →
      (behind S rows op t id).any S.hashed = true) :
    Unseen S op t rows (S.update rows id f) := by
  refine unseen_map ?_ ?_ ?_ ?_ ?_
  · intro r
    split
    · exact hid r
    · rfl
  · intro r
    split
    · exact hop r
    · rfl
  · intro r
    split
    · exact hstamp r
    · rfl
  · intro r hr hday
    split
    · next hrid => exact hcontent r hr hrid hday
    · rfl
  · have hsplit := List.takeWhile_append_dropWhile (p := fun r => decide (S.id r ≠ id))
      (l := S.found rows (S.earlier op t))
    have hfixed : ∀ l : List R, (∀ r ∈ l, S.id r ≠ id) →
        (l.map fun r => if S.id r = id then f r else r) = l := by
      intro l hl
      refine (List.map_congr_left fun r hr => if_neg (hl r hr)).trans (List.map_id' l)
    have hfront : ∀ r ∈ (S.found rows (S.earlier op t)).takeWhile (fun r => decide (S.id r ≠ id)),
        S.id r ≠ id := fun r hr => by simpa using List.mem_takeWhile_imp hr
    cases hdrop : (S.found rows (S.earlier op t)).dropWhile fun r => decide (S.id r ≠ id) with
    | nil =>
        rw [hdrop, List.append_nil] at hsplit
        rw [hfixed _ fun r hr => hfront r (by rwa [hsplit])]
    | cons x xs =>
        -- the row stands in front of the ones behind it, which the write leaves alone
        have hx : S.id x = id := by
          have hhead := List.head?_dropWhile_not (fun r => decide (S.id r ≠ id))
            (S.found rows (S.earlier op t))
          rw [hdrop, List.head?_cons] at hhead
          simpa using hhead
        have hkeyed' : S.Keyed (x :: xs) := by
          have hsub := List.dropWhile_sublist (fun r => decide (S.id r ≠ id))
            (l := S.found rows (S.earlier op t))
          rw [hdrop] at hsub
          exact (hkeyed.found _).sublist (hsub.map S.id)
        have hxs : ∀ r ∈ xs, S.id r ≠ id := by
          intro r hr hrid
          rw [Stream.Keyed, List.map_cons, List.nodup_cons] at hkeyed'
          exact hkeyed'.1 (List.mem_map.mpr ⟨r, hr, hrid.trans hx.symm⟩)
        have hxmem : x ∈ S.found rows (S.earlier op t) := by
          rw [← hsplit, hdrop]
          exact List.mem_append_right _ List.mem_cons_self
        obtain ⟨hxrows, hxearlier⟩ := mem_found.mp hxmem
        have hany := hbehind x hxrows hx hxearlier
        rw [behind, hdrop, List.tail_cons, List.any_eq_true] at hany
        obtain ⟨y, hy, hhashed⟩ := hany
        obtain ⟨h, hh⟩ := Option.isSome_iff_exists.mp hhashed
        have hne : xs.filterMap S.rowHash ≠ [] :=
          List.ne_nil_of_mem (List.mem_filterMap.mpr ⟨y, hy, hh⟩)
        rw [← hsplit, hdrop, ← List.singleton_append, ← List.append_assoc, List.map_append,
          hfixed xs hxs, getLast?_filterMap_append hne, getLast?_filterMap_append hne]

/-! ## Writes of hashes alone -/

/-- Hashes of rows that were not created before the day are not read. -/
theorem unseen_relinked {P : R → Prop} (h : Relinked S P rows rows')
    (hP : ∀ r ∈ rows, S.earlier op t r = true → ¬ P r) : Unseen S op t rows rows' := by
  obtain ⟨f, hf, hfP, rfl⟩ := h
  refine unseen_map hf.id_eq hf.operatorId_eq hf.stamp_eq (fun r _ _ => hf.content_eq r) ?_
  have hfixed : (S.found rows (S.earlier op t)).map f = S.found rows (S.earlier op t) := by
    refine (List.map_congr_left fun r hr => ?_).trans (List.map_id' _)
    obtain ⟨hmem, hearlier⟩ := mem_found.mp hr
    exact (hfP r hmem).resolve_right (hP r hmem hearlier)
  rw [hfixed]

/-- Hashes are written unread when the last row before the day keeps the hash it has. -/
theorem unseen_relinked_of_last {P : R → Prop} (h : Relinked S P rows rows')
    (hlast : ∀ r ∈ (S.found rows (S.earlier op t)).getLast?, S.hashed r = true ∧ ¬ P r) :
    Unseen S op t rows rows' := by
  obtain ⟨f, hf, hfP, rfl⟩ := h
  refine unseen_map hf.id_eq hf.operatorId_eq hf.stamp_eq (fun r _ _ => hf.content_eq r) ?_
  rcases List.eq_nil_or_concat' (S.found rows (S.earlier op t)) with hnil | ⟨l, r, hl⟩
  · rw [hnil]
    rfl
  · have hmem : r ∈ S.found rows (S.earlier op t) := by
      rw [hl]
      simp
    rw [hl] at hlast ⊢
    obtain ⟨hhashed, hPr⟩ := hlast r (by simp)
    obtain ⟨h, hh⟩ := Option.isSome_iff_exists.mp hhashed
    have hfr : f r = r := (hfP r (mem_found.mp hmem).1).resolve_right hPr
    have hne : [r].filterMap S.rowHash ≠ [] := by simp [hh]
    rw [List.map_append, List.map_cons, List.map_nil, hfr, getLast?_filterMap_append hne,
      getLast?_filterMap_append hne]

end YantraRgs.AuditChain
