import Mathlib.Algebra.BigOperators.Group.List.Basic
import Mathlib.Algebra.Group.Basic
import Mathlib.Tactic.Abel

/-! # Logs with reversals

A log of transactions, each with its own name: most of them book an amount, and the others reverse an
earlier transaction, perhaps itself a reversal. Logs are written latest first.

* **`standing`** — the transactions that are not reversed by a standing reversal.
* **`effect`** — what a transaction changed when it was booked.
* **`WellFormed`** — names are new, and a reversal takes a transaction that is booked and not reversed.
* **`total_reversal`** — a reversal takes the effect of its transaction out of the total. -/

namespace YantraRgs.Reversals

variable {ι A : Type*}

/-- A transaction: an amount, or the reversal of another transaction. -/
structure Entry (ι A : Type*) where
  name : ι
  what : A ⊕ ι

/-- The amount that a transaction books; a reversal books none of its own. -/
def Entry.amount [Zero A] (e : Entry ι A) : A := e.what.elim id fun _ => 0

/-- The transaction that a reversal takes. -/
def Entry.reverses (e : Entry ι A) : Option ι := e.what.elim (fun _ => none) some

/-- The names of a log. -/
def names (log : List (Entry ι A)) : List ι := log.map Entry.name

/-- The transactions that the reversals of a log take. -/
def reversed (log : List (Entry ι A)) : List ι := log.filterMap Entry.reverses

theorem reversed_cons (e : Entry ι A) (past : List (Entry ι A)) :
    reversed (e :: past) = e.reverses.toList ++ reversed past := by
  rw [reversed, List.filterMap_cons]
  cases e.reverses <;> rfl

/-- **A well-formed log**: names are new, and a reversal takes a transaction that is booked and not yet
reversed. -/
def WellFormed : List (Entry ι A) → Prop
  | [] => True
  | e :: past => WellFormed past ∧ e.name ∉ names past ∧
      ∀ i ∈ e.reverses, i ∈ names past ∧ i ∉ reversed past

theorem WellFormed.nodup {log : List (Entry ι A)} (h : WellFormed log) : (names log).Nodup := by
  induction log with
  | nil => exact List.nodup_nil
  | cons e past ih => exact List.nodup_cons.mpr ⟨h.2.1, ih h.1⟩

variable [DecidableEq ι]

/-- **The standing transactions** of a log whose later reversals take `cancelled`: a reversal that is
itself reversed takes nothing. -/
def standing (cancelled : List ι) : List (Entry ι A) → List (Entry ι A)
  | [] => []
  | e :: past =>
      if e.name ∈ cancelled then standing cancelled past
      else e :: standing (e.reverses.toList ++ cancelled) past

/-- **The total of a log**: what its standing transactions book. -/
def total [AddMonoid A] (cancelled : List ι) (log : List (Entry ι A)) : A :=
  ((standing cancelled log).map Entry.amount).sum

/-- **The effect of a transaction** when it was booked. -/
def effect [AddGroup A] : List (Entry ι A) → ι → A
  | [], _ => 0
  | e :: past, i => if e.name = i then e.what.elim id fun j => -effect past j else effect past i

/-- Only the cancelled names count, not their order. -/
theorem standing_congr {cancelled cancelled' : List ι} (h : ∀ i, i ∈ cancelled ↔ i ∈ cancelled')
    (log : List (Entry ι A)) : standing cancelled log = standing cancelled' log := by
  induction log generalizing cancelled cancelled' with
  | nil => rfl
  | cons e past ih =>
      have hmore : ∀ i, i ∈ e.reverses.toList ++ cancelled ↔ i ∈ e.reverses.toList ++ cancelled' := by
        intro i
        rw [List.mem_append, List.mem_append, h i]
      rw [standing, standing, ih h, ih hmore]
      simp only [h]

/-- A name outside the log cancels nothing. -/
theorem standing_cons_of_notMem {i : ι} {log : List (Entry ι A)} (h : i ∉ names log)
    (cancelled : List ι) : standing (i :: cancelled) log = standing cancelled log := by
  induction log generalizing cancelled with
  | nil => rfl
  | cons e past ih =>
      rw [names, List.map_cons, List.mem_cons, not_or] at h
      have hcancelled : e.name ∈ i :: cancelled ↔ e.name ∈ cancelled := by
        rw [List.mem_cons, or_iff_right (Ne.symm h.1)]
      have hswap : standing (e.reverses.toList ++ i :: cancelled) past =
          standing (i :: (e.reverses.toList ++ cancelled)) past := by
        refine standing_congr (fun j => ?_) past
        simp only [List.mem_append, List.mem_cons]
        tauto
      rw [standing, standing, hswap, ih h.2, ih h.2]
      simp only [hcancelled]

variable [AddCommGroup A]

theorem total_cons (cancelled : List ι) (e : Entry ι A) (past : List (Entry ι A)) :
    total cancelled (e :: past) = if e.name ∈ cancelled then total cancelled past
      else e.amount + total (e.reverses.toList ++ cancelled) past := by
  rw [total, standing]
  split
  · rfl
  · rw [List.map_cons, List.sum_cons, total]

theorem total_congr {cancelled cancelled' : List ι} (h : ∀ i, i ∈ cancelled ↔ i ∈ cancelled')
    (log : List (Entry ι A)) : total cancelled log = total cancelled' log := by
  rw [total, total, standing_congr h]

/-- **Cancelling a transaction** that nothing else reverses takes its effect out of the total. -/
theorem total_cons_cancelled {log : List (Entry ι A)} (hlog : WellFormed log) {i : ι}
    {cancelled : List ι} (hi : i ∈ names log) (hopen : i ∉ reversed log) (hnew : i ∉ cancelled)
    (hcancelled : ∀ j ∈ cancelled, j ∉ reversed log) :
    total (i :: cancelled) log = total cancelled log - effect log i := by
  induction log generalizing i cancelled with
  | nil => cases hi
  | cons e past ih =>
      obtain ⟨hpast, hname, hreverses⟩ := hlog
      rw [reversed_cons, List.mem_append, not_or] at hopen
      have hcancelled' : ∀ j ∈ cancelled, j ∉ e.reverses.toList ∧ j ∉ reversed past := by
        intro j hj
        have hnot := hcancelled j hj
        rwa [reversed_cons, List.mem_append, not_or] at hnot
      by_cases heq : e.name = i
      · subst heq
        rw [total_cons, if_pos List.mem_cons_self, total_cons, if_neg hnew, effect, if_pos rfl, total,
          standing_cons_of_notMem hname, ← total]
        rcases e with ⟨name, a | j⟩
        · change total cancelled past = a + total cancelled past - a
          abel
        · -- the reversed transaction counts again
          have htaken := hreverses j rfl
          have hj : j ∉ cancelled := fun hmem => (hcancelled' j hmem).1 (List.mem_singleton.mpr rfl)
          have hback := ih hpast htaken.1 htaken.2 hj fun k hk => (hcancelled' k hk).2
          change total cancelled past = 0 + total (j :: cancelled) past - -effect past j
          rw [hback]
          abel
      · have hi' : i ∈ names past := (List.mem_cons.mp hi).resolve_left (Ne.symm heq)
        have hmem : e.name ∈ i :: cancelled ↔ e.name ∈ cancelled := by
          rw [List.mem_cons, or_iff_right heq]
        rw [total_cons, total_cons, effect, if_neg heq]
        by_cases hdead : e.name ∈ cancelled
        · rw [if_pos (hmem.mpr hdead), if_pos hdead]
          exact ih hpast hi' hopen.2 hnew fun j hj => (hcancelled' j hj).2
        · have hswap : total (e.reverses.toList ++ i :: cancelled) past =
              total (i :: (e.reverses.toList ++ cancelled)) past := by
            refine total_congr (fun j => ?_) past
            simp only [List.mem_append, List.mem_cons]
            tauto
          have hmore : ∀ j ∈ e.reverses.toList ++ cancelled, j ∉ reversed past := by
            intro j hj
            rcases List.mem_append.mp hj with hj | hj
            · exact (hreverses j (Option.mem_toList.mp hj)).2
            · exact (hcancelled' j hj).2
          have hnew' : i ∉ e.reverses.toList ++ cancelled := by
            rw [List.mem_append, not_or]
            exact ⟨hopen.1, hnew⟩
          rw [if_neg (mt hmem.mp hdead), if_neg hdead, hswap, ih hpast hi' hopen.2 hnew' hmore]
          abel

/-- **An amount** that is booked joins the total. -/
theorem total_amount (i : ι) (a : A) (log : List (Entry ι A)) :
    total [] (⟨i, .inl a⟩ :: log) = a + total [] log := by
  rw [total_cons, if_neg List.not_mem_nil]
  rfl

/-- **A reversal** takes the effect of its transaction out of the total. -/
theorem total_reversal {log : List (Entry ι A)} (hlog : WellFormed log) {j : ι} (hj : j ∈ names log)
    (hopen : j ∉ reversed log) (i : ι) :
    total [] (⟨i, .inr j⟩ :: log) = total [] log - effect log j := by
  rw [total_cons, if_neg List.not_mem_nil]
  have hback := total_cons_cancelled hlog hj hopen List.not_mem_nil fun k hk => by cases hk
  rw [← hback]
  exact zero_add _

end YantraRgs.Reversals
