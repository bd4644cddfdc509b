import YantraRgs.Audit.Backfill
import YantraRgs.Properties.TamperEvidence

/-! # A backfilled chain

Backfilling hashes the rows of an operator that have no hash over the tip of those that have one. The
chain is whole again where none of those rows was created before a row that has a hash.

* **`Replayed`** — replaying rows reproduces the links that they store.
* **`Trailing`** — the rows without a hash are the last ones.
* **`backfilled_iff`** — a backfilled chain is replayed exactly then. -/

namespace YantraRgs.AuditChain

/-- The hash of a row of a stream over the hash before it. -/
def Stream.digest {R : Type} (S : Stream R) (env : Env) (prev : Option Text) (r : R) : Text :=
  hashRow env prev (S.hashInput r)

/-- **Replaying rows reproduces the links that they store**, from no hash at all. -/
def Replayed {R : Type} (env : Env) (S : Stream R) (rows : List R) : Prop :=
  HashChain.Stored (S.digest env) S.prevRowHash S.rowHash none rows

instance {R : Type} (env : Env) (S : Stream R) (rows : List R) : Decidable (Replayed env S rows) :=
  inferInstanceAs (Decidable (HashChain.Stored _ _ _ none rows))

/-- The rows of an operator that have a hash, in their order. -/
def Stream.hashedRows {R : Type} (S : Stream R) (rows : List R) (op : String) : List R :=
  S.found rows fun r => S.operatorId r = op && S.hashed r

/-- **No row of an operator without a hash stands before one that has a hash.** -/
def Trailing {R : Type} (S : Stream R) (rows : List R) (op : String) : Prop :=
  ∀ r ∈ rows, ∀ s ∈ rows, S.operatorId r = op → S.operatorId s = op →
    S.hashed r = false → S.hashed s = true → S.before r s = false

/-- What both streams have: the link before a row is written, and what is hashed of a row shows its
identifier. -/
structure Stream.Identified {R : Type} (S : Stream R) : Prop where
  prevRowHash_link : ∀ r p h, S.prevRowHash (S.link r p h) = p
  id_of_fields : ∀ r s, S.fields r = S.fields s → S.id r = S.id s

section Streams

variable {R : Type} {env : Env} {S : Stream R} {rows : List R} {op : String}

/-! ## Lists -/

/-- In a list that is ordered, what satisfies a condition stands in front if nothing else stands before
it. -/
theorem filter_append_filter_not {α : Type} {before : α → α → Prop} {p : α → Bool} {l : List α}
    (hl : l.Pairwise before)
    (hp : ∀ a ∈ l, ∀ b ∈ l, p a = false → p b = true → ¬ before a b) :
    l = l.filter p ++ l.filter fun a => !p a := by
  induction l with
  | nil => rfl
  | cons a l ih =>
      rw [List.pairwise_cons] at hl
      have hrest := ih hl.2 fun b hb c hc =>
        hp b (List.mem_cons_of_mem a hb) c (List.mem_cons_of_mem a hc)
      cases ha : p a with
      | true =>
          rw [List.filter_cons_of_pos ha, List.filter_cons_of_neg (by simp [ha]), List.cons_append,
            ← hrest]
      | false =>
          have hnone : l.filter p = [] := by
            refine List.filter_eq_nil_iff.mpr fun b hb hpb => ?_
            exact hp a List.mem_cons_self b (List.mem_cons_of_mem a hb) ha hpb (hl.1 b hb)
          rw [hnone, List.nil_append] at hrest
          rw [List.filter_cons_of_neg (by simp [ha]), List.filter_cons_of_pos (by simp [ha]), hnone,
            List.nil_append, ← hrest]

/-! ## Rows that trail are hashed rightly -/

/-- What is hashed of a row does not show its own hash. -/
theorem digest_link (prev : Option Text) (r : R) (p : Option Text) (h : Text) :
    S.digest env prev (S.link r p h) = S.digest env prev r := by
  rw [Stream.digest, Stream.digest, S.hashInput_link]

/-- Rows without a hash are hashed one over the other. -/
theorem stored_filled (hS : S.Identified) {xs : List R} (h : ∀ r ∈ xs, S.hashed r = false)
    (prev : Option Text) :
    HashChain.Stored (S.digest env) S.prevRowHash S.rowHash prev (filled env S prev xs) := by
  induction xs generalizing prev with
  | nil => trivial
  | cons r xs ih =>
      rw [filled, h r List.mem_cons_self, if_neg Bool.false_ne_true]
      refine ⟨hS.prevRowHash_link r _ _, ?_, ?_⟩
      · rw [S.rowHash_link, digest_link]
        rfl
      · rw [digest_link]
        exact ih (fun s hs => h s (List.mem_cons_of_mem r hs)) _

/-- The rows of an operator, those with a hash first. -/
theorem Trailing.rowsOf_eq (h : Trailing S rows op) : S.rowsOf rows op =
    (S.rowsOf rows op).filter S.hashed ++ (S.rowsOf rows op).filter fun r => !S.hashed r := by
  refine filter_append_filter_not (found_pairwise rows _) fun a ha b hb hna hpb => ?_
  obtain ⟨ha, hopa⟩ := mem_found.mp ha
  obtain ⟨hb, hopb⟩ := mem_found.mp hb
  rw [h a ha b hb (of_decide_eq_true hopa) (of_decide_eq_true hopb) hna hpb]
  exact Bool.false_ne_true

/-- **Where the rows without a hash trail**, the chain is whole after backfilling. -/
theorem Trailing.replayed (h : Trailing S rows op) (hS : S.Identified) (hkeyed : S.Keyed rows)
    (hchained : Replayed env S (S.hashedRows rows op)) :
    Replayed env S (S.rowsOf (backfillChain env S rows op).1 op) := by
  rw [Stream.hashedRows, found_rowsOf] at hchained
  have hhashed : ∀ r ∈ (S.rowsOf rows op).filter S.hashed, S.hashed r = true := fun r hr =>
    (List.mem_filter.mp hr).2
  have hrest : ∀ r ∈ (S.rowsOf rows op).filter (fun r => !S.hashed r), S.hashed r = false := fun r hr =>
    by simpa using (List.mem_filter.mp hr).2
  rw [backfillChain_filled hkeyed, ← hchained.lastDigest_eq]
  have hfilled : ∀ prev, filled env S prev (S.rowsOf rows op) =
      (S.rowsOf rows op).filter S.hashed ++
        filled env S prev ((S.rowsOf rows op).filter fun r => !S.hashed r) := fun prev =>
    (congrArg (filled env S prev) h.rowsOf_eq).trans (filled_append prev _ hhashed)
  rw [hfilled]
  exact HashChain.stored_append.mpr ⟨hchained, stored_filled hS hrest _⟩

/-! ## A row before a hashed one is hashed wrongly -/

/-- A hash tells the identifier of its row. -/
theorem id_of_hashRow (hsha : Function.Injective env.sha256) (hS : S.Identified) (p : Option Text) (r : R)
    (q : Option Text) (s : R) (h : hashRow env p (S.hashInput r) = hashRow env q (S.hashInput s)) :
    S.id r = S.id s := by
  rw [hashRow_eq, hashRow_eq] at h
  exact hS.id_of_fields r s (S.content_eq_iff.mp (binding hsha _ _ _ _ h).2)

/-- The first row without a hash, and what stands around it. -/
theorem exists_first_unhashed {xs : List R} {r : R} (hr : r ∈ xs) (hunhashed : S.hashed r = false) :
    ∃ front u rest, xs = front ++ u :: rest ∧ (∀ s ∈ front, S.hashed s = true) ∧
      S.hashed u = false ∧ r ∈ u :: rest := by
  induction xs with
  | nil => cases hr
  | cons x xs ih =>
      cases hx : S.hashed x with
      | false => exact ⟨[], x, xs, rfl, fun s hs => absurd hs List.not_mem_nil, hx, hr⟩
      | true =>
          have hmem : r ∈ xs := by
            rcases List.mem_cons.mp hr with rfl | hmem
            · rw [hx] at hunhashed
              cases hunhashed
            · exact hmem
          obtain ⟨front, u, rest, rfl, hfront, hu, hin⟩ := ih hmem
          refine ⟨x :: front, u, rest, rfl, ?_, hu, hin⟩
          intro s hs
          rcases List.mem_cons.mp hs with rfl | hs
          · exact hx
          · exact hfront s hs

/-- **A chain that is whole after backfilling** had its rows without a hash at its end. -/
theorem trailing_of_replayed (hsha : Function.Injective env.sha256) (hS : S.Identified)
    (hkeyed : S.Keyed rows) (hchained : Replayed env S (S.hashedRows rows op))
    (h : Replayed env S (S.rowsOf (backfillChain env S rows op).1 op)) : Trailing S rows op := by
  intro r hr s hs hopr hops hunhashed hhashed
  by_contra hbefore
  rw [Bool.not_eq_false] at hbefore
  have hr' : r ∈ S.rowsOf rows op := mem_found.mpr ⟨hr, decide_eq_true hopr⟩
  have hs' : s ∈ S.rowsOf rows op := mem_found.mpr ⟨hs, decide_eq_true hops⟩
  have hkeyed' : S.Keyed (S.rowsOf rows op) := hkeyed.found _
  have hpairwise : (S.rowsOf rows op).Pairwise fun a b => S.before a b = true := found_pairwise rows _
  rw [Stream.hashedRows, found_rowsOf] at hchained
  rw [backfillChain_filled hkeyed, ← hchained.lastDigest_eq] at h
  obtain ⟨front, u, rest, hsplit, hfront, hu, hin⟩ := exists_first_unhashed hr' hunhashed
  have hfilter : (S.rowsOf rows op).filter S.hashed = front ++ rest.filter S.hashed := by
    rw [hsplit, List.filter_append, List.filter_cons, hu, if_neg Bool.false_ne_true,
      List.filter_eq_self.mpr hfront]
  rw [hfilter, hsplit, filled_append _ _ hfront, filled, hu, if_neg Bool.false_ne_true] at h
  rw [hsplit] at hs' hkeyed' hpairwise
  -- the row in front of the others was hashed over the tip of all
  have htip := (HashChain.stored_append.mp h).2.1
  rw [hS.prevRowHash_link] at htip
  have hnone : rest.filter S.hashed = [] := by
    refine HashChain.lastDigest_inj (id_of_hashRow hsha hS) ?_ htip
    have hsub : (front ++ rest.filter S.hashed).Sublist (front ++ u :: rest) :=
      (List.filter_sublist.trans (List.sublist_cons_self u rest)).append_left front
    exact hkeyed'.sublist (hsub.map S.id)
  -- so the row with a hash stands in front of it
  have hmem : s ∈ front := by
    rcases List.mem_append.mp hs' with hs' | hs'
    · exact hs'
    · rcases List.mem_cons.mp hs' with rfl | hs'
      · rw [hu] at hhashed
        cases hhashed
      · exact absurd hhashed (List.filter_eq_nil_iff.mp hnone s hs')
  have hid := S.before_antisymm hbefore ((List.pairwise_append.mp hpairwise).2.2 s hmem r hin)
  rw [hkeyed.eq hr hs hid, hhashed] at hunhashed
  cases hunhashed

end Streams

/-! ## Both streams -/

theorem walletCalls_identified : walletCalls.Identified where
  prevRowHash_link _ _ _ := rfl
  id_of_fields r s h := by
    have hid := congrArg (List.lookup "id") h
    exact Tree.string.inj (Option.some.inj hid)

theorem rounds_identified : rounds.Identified where
  prevRowHash_link _ _ _ := rfl
  id_of_fields r s h := by
    have hid := congrArg (List.lookup "id") h
    exact Tree.string.inj (Option.some.inj hid)

/-- **A backfilled chain is replayed** exactly where the rows without a hash trail. -/
theorem backfilled_iff {env : Env} (hsha : Function.Injective env.sha256) (op : String) :
    (∀ rows, walletCalls.Keyed rows → Replayed env walletCalls (walletCalls.hashedRows rows op) →
      (Replayed env walletCalls
          (walletCalls.rowsOf (backfillWalletCallChain env rows op).1 op) ↔
        Trailing walletCalls rows op)) ∧
    (∀ rows, rounds.Keyed rows → Replayed env rounds (rounds.hashedRows rows op) →
      (Replayed env rounds (rounds.rowsOf (backfillRoundChain env rows op).1 op) ↔
        Trailing rounds rows op)) := by
  constructor
  · intro rows hkeyed hchained
    exact ⟨trailing_of_replayed hsha walletCalls_identified hkeyed hchained,
      fun h => h.replayed walletCalls_identified hkeyed hchained⟩
  · intro rows hkeyed hchained
    exact ⟨trailing_of_replayed hsha rounds_identified hkeyed hchained,
      fun h => h.replayed rounds_identified hkeyed hchained⟩

/-! ## A call that was hashed before the calls without a hash -/

namespace Sample

/-- The first call of a chain. -/
def firstCall (id : String) (createdAt : Millis) : WalletCallRow :=
  walletCalls.link (call id createdAt) none (walletCalls.digest env none (call id createdAt))

/-- Two calls with two identifiers. -/
theorem keyed_pair {r s : WalletCallRow} (h : r.id ≠ s.id) : walletCalls.Keyed [r, s] := by
  rw [Stream.Keyed, List.map_cons, List.nodup_cons]
  exact ⟨fun hmem => h (List.mem_singleton.mp hmem), List.nodup_singleton _⟩

end Sample

/-- A call without a hash after one that has a hash. -/
theorem backfilled_behind : Replayed Sample.env walletCalls
    (walletCalls.rowsOf (backfillWalletCallChain Sample.env
      [Sample.firstCall "a" 1000, Sample.call "b" 2000] "operator").1 "operator") := by
  refine ((backfilled_iff Sample.env_injective "operator").1
    [Sample.firstCall "a" 1000, Sample.call "b" 2000] ?_ ?_).mpr ?_
  · exact Sample.keyed_pair (by decide)
  · decide +kernel
  · intro r hr s hs _ _ hunhashed hhashed
    rcases List.mem_pair.mp hr with rfl | rfl
    · cases hunhashed
    · rcases List.mem_pair.mp hs with rfl | rfl
      · decide
      · cases hhashed

/-- **The call that was created before the first hashed one** is hashed over it. -/
theorem backfilled_before : ¬ ∀ env : Env, Function.Injective env.sha256 → ∀ op : String,
    (∀ rows, walletCalls.Keyed rows → Replayed env walletCalls (walletCalls.hashedRows rows op) →
      Replayed env walletCalls (walletCalls.rowsOf (backfillWalletCallChain env rows op).1 op)) ∧
    (∀ rows, rounds.Keyed rows → Replayed env rounds (rounds.hashedRows rows op) →
      Replayed env rounds (rounds.rowsOf (backfillRoundChain env rows op).1 op)) := by
  intro hall
  have hreplayed := (hall Sample.env Sample.env_injective "operator").1
    [Sample.call "a" 1000, Sample.firstCall "b" 2000] (Sample.keyed_pair (by decide)) (by decide +kernel)
  have hnot : ¬ Replayed Sample.env walletCalls
      (walletCalls.rowsOf (backfillWalletCallChain Sample.env
        [Sample.call "a" 1000, Sample.firstCall "b" 2000] "operator").1 "operator") := by
    decide +kernel
  exact hnot hreplayed

end YantraRgs.AuditChain
