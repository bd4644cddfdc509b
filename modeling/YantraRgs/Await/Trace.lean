import YantraRgs.Await.RelyGuarantee

/-! # Runs that remember where they were

Some properties of a run are about what was so at an earlier time. A **trace** is a run with the pools
that it left behind.

* **`System.Trace`** — the traces whose every step meets a given condition; **`Trace.run`** forgets the
  past.
* **`System.trail`** — a whole list of events; **`System.Trace.of_trail`** turns it into a trace. -/

namespace YantraRgs.Await.System

variable {W C K E : Type}

/-- The **traces** from a pool whose every step meets `A`: the pools that were left, the latest first,
and the pool reached. -/
inductive Trace (S : System W C K E) (A : Pool W C K → Event C K E → Pool W C K → Prop)
    (p : Pool W C K) : List (Pool W C K) → Pool W C K → Prop
  /-- Nothing has happened. -/
  | start : Trace S A p [] p
  /-- One more step that meets the condition. -/
  | step {past : List (Pool W C K)} {q r : Pool W C K} (e : Event C K E) : Trace S A p past q →
      S.step q e = some r → A q e r → Trace S A p (q :: past) r

/-- A list of events, one after the other, as long as every step meets `A`, with the pools that are
left on the way. -/
def trail (S : System W C K E) (A : Pool W C K → Event C K E → Pool W C K → Prop)
    [∀ p e q, Decidable (A p e q)] (past : List (Pool W C K)) (p : Pool W C K) :
    List (Event C K E) → Option (List (Pool W C K) × Pool W C K)
  | [] => some (past, p)
  | e :: es => (S.step p e).bind fun q => if A p e q then trail S A (p :: past) q es else none

variable {S : System W C K E} {A : Pool W C K → Event C K E → Pool W C K → Prop}
  {p q : Pool W C K} {past : List (Pool W C K)}

/-- A trace is a run. -/
theorem Trace.run (h : Trace S A p past q) : S.Run A p q := by
  induction h with
  | start => exact .start
  | step e _ hs hA ih => exact .step e ih hs hA

/-- A trace whose steps meet a stronger condition. -/
theorem Trace.mono {B : Pool W C K → Event C K E → Pool W C K → Prop} (h : Trace S A p past q)
    (hB : ∀ p e q, A p e q → B p e q) : Trace S B p past q := by
  induction h with
  | start => exact .start
  | step e _ hs hA ih => exact .step e ih hs (hB _ _ _ hA)

/-- A property of the past and the present that holds at the start and that every permitted step keeps
holds all along. -/
theorem Trace.invariant {I : List (Pool W C K) → Pool W C K → Prop} (h : Trace S A p past q)
    (h₀ : I [] p)
    (hstep : ∀ past p e q, S.step p e = some q → A p e q → I past p → I (p :: past) q) :
    I past q := by
  induction h with
  | start => exact h₀
  | step e _ hs hA ih => exact hstep _ _ e _ hs hA ih

/-- A list of events that executes with every step meeting the condition is a trace. -/
theorem Trace.of_trail [∀ p e q, Decidable (A p e q)] {es : List (Event C K E)}
    {past' : List (Pool W C K)} {r : Pool W C K} (h : Trace S A p past q)
    (hes : S.trail A past q es = some (past', r)) : Trace S A p past' r := by
  induction es generalizing past q with
  | nil =>
      obtain ⟨rfl, rfl⟩ : past = past' ∧ q = r := by simpa [trail] using hes
      exact h
  | cons e es ih =>
      obtain ⟨q', hq', hes⟩ := Option.bind_eq_some_iff.mp hes
      by_cases hA : A q e q'
      · rw [if_pos hA] at hes
        exact ih (.step e h hq' hA) hes
      · rw [if_neg hA] at hes
        cases hes

end YantraRgs.Await.System
