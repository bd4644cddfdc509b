import Mathlib.Data.String.Basic
import YantraRgs.Audit.Rehash

/-! # Backfilling a chain

The rows of an operator that have no hash are hashed in the order of the stream, over the tip of those
that have one.

* **`Stream.before_total`**, **`Stream.before_trans`**, **`Stream.before_antisymm`** — the order of a stream.
* **`filled`** — rows in their order, of which those without a hash are hashed one over the other.
* **`backfillChain_filled`** — that is what backfilling leaves of an operator's rows. -/

namespace YantraRgs.AuditChain

variable {R : Type} {env : Env} {S : Stream R}

/-! ## The order of a stream -/

theorem Stream.before_total (a b : R) : S.before a b = true ∨ S.before b a = true := by
  rw [before, before]
  cases S.stamp a with
  | none =>
      cases S.stamp b with
      | none => simpa using String.le_total (S.id a) (S.id b)
      | some t => exact .inr rfl
  | some s =>
      cases S.stamp b with
      | none => exact .inl rfl
      | some t =>
          simp only [Bool.or_eq_true, Bool.and_eq_true, decide_eq_true_eq]
          rcases Nat.lt_trichotomy s t with h | rfl | h
          · exact .inl (.inl h)
          · exact (le_total (S.id a) (S.id b)).imp (fun h => .inr ⟨rfl, h⟩) fun h => .inr ⟨rfl, h⟩
          · exact .inr (.inl h)

theorem Stream.before_trans {a b c : R} (h : S.before a b = true) (h' : S.before b c = true) :
    S.before a c = true := by
  rw [before] at h h' ⊢
  cases ha : S.stamp a <;> cases hb : S.stamp b <;> cases hc : S.stamp c <;>
    simp only [ha, hb, hc, Bool.or_eq_true, Bool.and_eq_true, decide_eq_true_eq,
      Bool.false_eq_true] at h h' ⊢
  · exact le_trans h h'
  · next s t u =>
      rcases h with h | ⟨rfl, h⟩
      · rcases h' with h' | ⟨rfl, h'⟩
        · exact .inl (Nat.lt_trans h h')
        · exact .inl h
      · exact h'.imp_right fun h' => ⟨h'.1, le_trans h h'.2⟩

theorem Stream.before_antisymm {a b : R} (h : S.before a b = true) (h' : S.before b a = true) :
    S.id a = S.id b := by
  rw [before] at h h'
  cases ha : S.stamp a <;> cases hb : S.stamp b <;>
    simp only [ha, hb, Bool.or_eq_true, Bool.and_eq_true, decide_eq_true_eq, Bool.false_eq_true] at h h'
  · exact le_antisymm h h'
  · rcases h with h | ⟨rfl, h⟩
    · rcases h' with h' | ⟨heq, -⟩
      · exact absurd (Nat.lt_trans h h') (Nat.lt_irrefl _)
      · rw [heq] at h
        exact absurd h (Nat.lt_irrefl _)
    · rcases h' with h' | ⟨-, h'⟩
      · exact absurd h' (Nat.lt_irrefl _)
      · exact le_antisymm h h'

/-- What is found is in the order of the stream. -/
theorem found_pairwise (rows : List R) (p : R → Bool) :
    (S.found rows p).Pairwise fun a b => S.before a b = true := by
  have : Std.Total fun a b => S.before a b = true := ⟨S.before_total⟩
  have : IsTrans R fun a b => S.before a b = true := ⟨fun _ _ _ => S.before_trans⟩
  exact (List.pairwise_insertionSort (fun a b => S.before a b = true) rows).filter p

/-! ## Rows of which some have a hash -/

/-- **Rows in their order**, of which those without a hash are hashed one over the other. -/
def filled (env : Env) (S : Stream R) : Option Text → List R → List R
  | _, [] => []
  | prev, r :: rows =>
      if S.hashed r then r :: filled env S prev rows
      else
        let hash := hashRow env prev (S.hashInput r)
        S.link r prev hash :: filled env S (some hash) rows

theorem filled_of_hashed {rows : List R} (prev : Option Text) (h : ∀ r ∈ rows, S.hashed r = true) :
    filled env S prev rows = rows := by
  induction rows with
  | nil => rfl
  | cons r rows ih =>
      rw [filled, if_pos (h r List.mem_cons_self), ih fun s hs => h s (List.mem_cons_of_mem r hs)]

/-- Rows that have a hash stay in front. -/
theorem filled_append {xs : List R} (prev : Option Text) (ys : List R)
    (h : ∀ r ∈ xs, S.hashed r = true) :
    filled env S prev (xs ++ ys) = xs ++ filled env S prev ys := by
  induction xs with
  | nil => rfl
  | cons r xs ih =>
      rw [List.cons_append, filled, if_pos (h r List.mem_cons_self),
        ih fun s hs => h s (List.mem_cons_of_mem r hs), List.cons_append]

/-- A row, hashed over a digest. -/
def hashedOver (env : Env) (S : Stream R) (prev : Option Text) (u r : R) : R :=
  if S.id r = S.id u then S.link r prev (hashRow env prev (S.hashInput u)) else r

theorem id_hashedOver (prev : Option Text) (u r : R) : S.id (hashedOver env S prev u r) = S.id r := by
  rw [hashedOver]
  split
  · exact S.id_link r _ _
  · rfl

theorem operatorId_hashedOver (prev : Option Text) (u r : R) :
    S.operatorId (hashedOver env S prev u r) = S.operatorId r := by
  rw [hashedOver]
  split
  · exact S.operatorId_link r _ _
  · rfl

theorem stamp_hashedOver (prev : Option Text) (u r : R) :
    S.stamp (hashedOver env S prev u r) = S.stamp r := by
  rw [hashedOver]
  split
  · exact S.stamp_link r _ _
  · rfl

/-- Rows with other identifiers are left alone. -/
theorem map_hashedOver_of_notMem {prev : Option Text} {u : R} {rows : List R}
    (h : S.id u ∉ rows.map S.id) : rows.map (hashedOver env S prev u) = rows := by
  refine (List.map_congr_left fun r hr => ?_).trans (List.map_id' rows)
  rw [hashedOver, if_neg]
  exact fun hid => h (List.mem_map.mpr ⟨r, hr, hid⟩)

/-- **The first row without a hash is hashed**: what is to be filled is what it was. -/
theorem filled_hashedOver {rows rest : List R} {u : R} (prev : Option Text) (hkeyed : S.Keyed rows)
    (h : rows.filter (fun r => !S.hashed r) = u :: rest) :
    (rows.map (hashedOver env S prev u)).filter (fun r => !S.hashed r) = rest ∧
      filled env S (some (hashRow env prev (S.hashInput u))) (rows.map (hashedOver env S prev u)) =
        filled env S prev rows := by
  induction rows with
  | nil => cases h
  | cons r rows ih =>
      rw [Stream.Keyed, List.map_cons, List.nodup_cons] at hkeyed
      cases hr : S.hashed r with
      | true =>
          rw [List.filter_cons, hr] at h
          have hu : u ∈ rows := (List.mem_filter.mp (h ▸ List.mem_cons_self)).1
          have hne : S.id r ≠ S.id u := fun hid =>
            hkeyed.1 (List.mem_map.mpr ⟨u, hu, hid.symm⟩)
          have hsame : hashedOver env S prev u r = r := if_neg hne
          obtain ⟨hrest, hfilled⟩ := ih hkeyed.2 h
          rw [List.map_cons, hsame, List.filter_cons, filled, filled, hr, if_pos rfl, if_pos rfl,
            hfilled]
          exact ⟨hrest, rfl⟩
      | false =>
          rw [List.filter_cons, hr] at h
          obtain ⟨rfl, rfl⟩ : r = u ∧ rows.filter (fun r => !S.hashed r) = rest := by simpa using h
          have hfirst : hashedOver env S prev r r =
              S.link r prev (hashRow env prev (S.hashInput r)) := if_pos rfl
          have hlinked : S.hashed (S.link r prev (hashRow env prev (S.hashInput r))) = true := by
            rw [Stream.hashed, S.rowHash_link]
            rfl
          rw [List.map_cons, hfirst, map_hashedOver_of_notMem hkeyed.1, List.filter_cons, hlinked,
            filled, filled, hr, hlinked]
          exact ⟨rfl, rfl⟩

/-! ## Batches -/

/-- The rows of an operator, in their order. -/
def Stream.rowsOf (S : Stream R) (rows : List R) (op : String) : List R :=
  S.found rows fun r => S.operatorId r = op

/-- A row is hashed where it stands. -/
theorem rowsOf_hashedOver (prev : Option Text) (u : R) (rows : List R) (op : String) :
    S.rowsOf (rows.map (hashedOver env S prev u)) op =
      (S.rowsOf rows op).map (hashedOver env S prev u) := by
  rw [Stream.rowsOf, found_map (id_hashedOver prev u) (stamp_hashedOver prev u)]
  simp only [operatorId_hashedOver]
  rfl

/-- The rows of an operator under a condition. -/
theorem found_rowsOf (rows : List R) (op : String) (p : R → Bool) :
    S.found rows (fun r => S.operatorId r = op && p r) = (S.rowsOf rows op).filter p :=
  found_and rows _ p

/-- **A batch of rows without a hash is hashed**: what is to be filled is what it was. -/
theorem backfillBatch_filled {op : String} {rest : List R} (batch : List R) :
    ∀ (prev : Option Text) (rows : List R), S.Keyed rows →
      (S.rowsOf rows op).filter (fun r => !S.hashed r) = batch ++ rest →
      let done := backfillBatch env S prev batch rows
      S.Keyed done.1 ∧ (S.rowsOf done.1 op).filter (fun r => !S.hashed r) = rest ∧
        filled env S done.2 (S.rowsOf done.1 op) = filled env S prev (S.rowsOf rows op) := by
  induction batch with
  | nil => exact fun _ _ hkeyed h => ⟨hkeyed, h, rfl⟩
  | cons u batch ih =>
      intro prev rows hkeyed h
      have hupdate : (S.update rows (S.id u) fun r => S.link r prev (hashRow env prev (S.hashInput u))) =
          rows.map (hashedOver env S prev u) := rfl
      have hkeyedRows : S.Keyed (S.rowsOf rows op) := hkeyed.found _
      obtain ⟨hrest, hfilled⟩ := filled_hashedOver prev hkeyedRows h
      rw [← rowsOf_hashedOver] at hrest hfilled
      obtain ⟨hkeyed', hrest', hfilled'⟩ := ih (some (hashRow env prev (S.hashInput u)))
        (rows.map (hashedOver env S prev u)) (hkeyed.map (id_hashedOver prev u)) hrest
      rw [backfillBatch, hupdate]
      exact ⟨hkeyed', hrest', hfilled'.trans hfilled⟩

/-- Batch after batch is hashed until no row of the operator is without a hash. -/
theorem backfillLoop_filled {op : String} (n : Nat) :
    ∀ (prev : Option Text) (rows : List R) (total : Nat), S.Keyed rows →
      ((S.rowsOf rows op).filter fun r => !S.hashed r).length < n →
      S.rowsOf (backfillLoop env S op n prev rows total).1 op =
        filled env S prev (S.rowsOf rows op) := by
  induction n with
  | zero => exact fun _ _ _ _ h => absurd h (Nat.not_lt_zero _)
  | succ n ih =>
      intro prev rows total hkeyed hlength
      rw [backfillLoop]
      dsimp only
      rw [found_rowsOf]
      generalize hrows : (S.rowsOf rows op).filter (fun r => !S.hashed r) = unhashed at hlength ⊢
      have hsplit := (List.take_append_drop 500 unhashed).symm
      split
      · next hempty =>
          rw [List.isEmpty_iff, List.take_eq_nil_iff] at hempty
          have hnone : unhashed = [] := hempty.resolve_left (by decide)
          rw [hnone, List.filter_eq_nil_iff] at hrows
          refine (filled_of_hashed prev fun r hr => ?_).symm
          simpa using hrows r hr
      · next hsome =>
          obtain ⟨hkeyed', hrest, hfilled⟩ :=
            backfillBatch_filled _ prev rows hkeyed (hrows.trans hsplit)
          rw [ih _ _ _ hkeyed' ?_, hfilled]
          rw [hrest, List.length_drop]
          have hpos : 0 < unhashed.length := by
            rcases unhashed with _ | ⟨u, unhashed⟩
            · exact absurd rfl hsome
            · exact Nat.succ_pos _
          omega

/-- **Backfilling leaves the rows of an operator filled** from the tip of those that have a hash. -/
theorem backfillChain_filled {rows : List R} (hkeyed : S.Keyed rows) (op : String) :
    S.rowsOf (backfillChain env S rows op).1 op =
      filled env S (((S.rowsOf rows op).filter S.hashed).getLast?.bind S.rowHash)
        (S.rowsOf rows op) := by
  rw [backfillChain, backfillLoop_filled _ _ _ _ hkeyed, latestTip, found_rowsOf]
  refine Nat.lt_succ_of_le ((List.length_filter_le _ _).trans ?_)
  rw [Stream.rowsOf, Stream.found]
  refine (List.length_filter_le _ _).trans ?_
  rw [List.length_insertionSort]

end YantraRgs.AuditChain
