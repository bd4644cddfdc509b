import Mathlib.Data.List.Nodup
import YantraRgs.Conduct.Bookings
import YantraRgs.Properties.Runs

/-! # Every outbound wallet call is journalled

Each request that is handed to the wallet has a journal row of its own, written before, and no two
requests share endpoint, request and attempt. The first attempt of a queued job takes the number of
the call that the engine made under the same request, and a run that takes over an expired lock takes
the number of the run before; a row that cannot be inserted does not hold its call back.

* **`World.Journal`** — the property; `World.handed?` — the request of a step.
* **`AttemptsFree`** — the condition on the runs.
* **`journalled_calls`** — the property along every run that meets it; `unjournalled_retry` — the
  retry of a credit that the engine sent. -/

namespace YantraRgs

open Await

variable {env : Env} {P : Policy} {i : Nat} {k : Call} {w w' : World} {p q : State} {x : Happening}

/-- Which attempt at which request of which endpoint a handed request is. -/
def Sent.triple (s : Sent) : WalletEndpoint × Uuid × Nat :=
  (s.request.endpoint, s.request.requestUuid, s.attempt)

/-- The same, of a journal row. -/
def WalletCall.triple (c : WalletCall) : WalletEndpoint × Uuid × Nat :=
  (c.endpoint, c.requestUuid, c.attempt)

/-- A request has its journal row. -/
def World.HasRow (w : World) (s : Sent) : Prop :=
  ∃ n c, s.row = some n ∧ w.walletCalls[n]? = some c ∧ c.triple = s.triple

/-- **Every request on the wire has its journal row, and no two are one attempt at one request.** -/
structure World.Journal (w : World) : Prop where
  rows : ∀ s ∈ w.wire, w.HasRow s
  apart : (w.wire.map Sent.triple).Nodup

/-- The request that a step hands to the wallet. -/
def World.handed? (w w' : World) : Option Sent := w'.wire[w.wire.length]?

/-- Nobody holds a job, and nobody has made its next attempt: the first one only when the engine has
not handed its request to the wallet. -/
def World.Unattempted (w : World) (j : PendingWalletJob) : Prop :=
  j.lockedUntil = none ∧
    (j.attempts = 0 → ∀ s ∈ w.wire, s.request.requestUuid ≠ j.payload.requestUuid)

/-- A step locks such jobs only. -/
def World.LocksFree (w w' : World) : Prop :=
  ∀ id < w.jobs.length, ∀ j ∈ w.jobs[id]?, ∀ j' ∈ w'.jobs[id]?, j'.lockedUntil ≠ j.lockedUntil →
    j'.lockedUntil.isSome = true → w.Unattempted j

/-- A step hands a request over without a journal row only when a row of its number is in the way. -/
def World.RowsTaken (w w' : World) : Prop :=
  ∀ s ∈ w.handed? w', s.row = none →
    ∃ c ∈ w.walletCalls, c.requestUuid = s.request.requestUuid ∧ c.attempt = s.attempt

/-- **A job is locked only when its lock is free, for an attempt that nobody has made, and a journal
row is refused only when its number is taken.** -/
def AttemptsFree (p : State) (_ : Happening) (q : State) : Prop :=
  p.world.LocksFree q.world ∧ p.world.RowsTaken q.world

instance (w : World) (j : PendingWalletJob) : Decidable (w.Unattempted j) :=
  inferInstanceAs (Decidable (j.lockedUntil = none ∧
    (j.attempts = 0 → ∀ s ∈ w.wire, s.request.requestUuid ≠ j.payload.requestUuid)))

instance (w w' : World) : Decidable (w.LocksFree w') :=
  inferInstanceAs (Decidable (∀ id < w.jobs.length, ∀ j ∈ w.jobs[id]?, ∀ j' ∈ w'.jobs[id]?,
    j'.lockedUntil ≠ j.lockedUntil → j'.lockedUntil.isSome = true → w.Unattempted j))

instance (w w' : World) : Decidable (w.RowsTaken w') :=
  inferInstanceAs (Decidable (∀ s ∈ w.handed? w', s.row = none →
    ∃ c ∈ w.walletCalls, c.requestUuid = s.request.requestUuid ∧ c.attempt = s.attempt))

instance (p : State) (x : Happening) (q : State) : Decidable (AttemptsFree p x q) :=
  inferInstanceAs (Decidable (p.world.LocksFree q.world ∧ p.world.RowsTaken q.world))

/-- The policy of such runs. -/
def Policy.numbered (env : Env) : Policy := { Policy.free env with freeLocks := True }

theorem attemptsFree_meets : Meets (.numbered env) AttemptsFree where
  permit h _ :=
    { accepted := fun h => h.elim
      voided := fun h => h.elim
      locked := fun _ {id j j'} hj hj' hne hsome =>
        h.1 id (List.getElem?_eq_some_iff.mp hj).1 j hj j' hj' hne hsome
      journalled := fun _ {s} hwire hrow => h.2 s (by simp [World.handed?, hwire]) hrow
      redrawn := fun h => h.elim
      priced := fun h => h.elim }
  engines h := h.elim
  countedUp h := h.elim
  fit _ := ⟨fun h => h.elim, fun h => h.elim⟩
  closed h := h.elim
  crashes h := h.elim
  configs h := h.elim
  verifies h := h.elim
  focus _ _ h := nomatch h

/-- A request keeps its row. -/
theorem World.HasRow.later {s : Sent} (h : w.HasRow s) (hl : Later w w') : w'.HasRow s := by
  obtain ⟨n, c, hn, hc, ht⟩ := h
  obtain ⟨c', hc', hk⟩ := hl.calls hc
  exact ⟨n, c', hn, hc', (congrArg Prod.snd hk).trans ht⟩

/-- **A request that is handed over has its row already**, where rows are refused only for numbers
that are taken. -/
theorem Journalled.hasRow {s : Sent} (h : Journalled P w s) (hP : P.freeLocks)
    (hp : Permit P k w (w.hand s)) : w.HasRow s := by
  cases hs : s.row with
  | none =>
      obtain ⟨c, hc, hq, ha⟩ := hp.journalled hP rfl hs
      exact absurd ha (h.none hP hs c hc hq)
  | some n =>
      obtain ⟨c, hc, he, hq, ha⟩ := h.row n hs
      exact ⟨n, c, hs, hc, by rw [WalletCall.triple, he, hq, ha, Sent.triple]⟩

/-- **A request that is handed over is a new attempt.** -/
theorem Handing.fresh {s s' : Sent} (h : Handing P i k w s) (hP : P.freeLocks)
    (hs : s' ∈ w.wire) : s'.triple ≠ s.triple := by
  intro he
  have hq : s'.request.requestUuid = s.request.requestUuid := congrArg (fun t => t.2.1) he
  have ha : s'.attempt = s.attempt := congrArg (fun t => t.2.2) he
  cases h with
  | stake _ _ _ _ _ _ _ _ hw => exact hw s' hs hq
  | credit _ _ _ _ _ _ _ _ _ _ _ _ hw => exact hw s' hs hq
  | job _ _ _ hw => exact absurd ha (Nat.ne_of_lt (hw hP s' hs hq))

/-- A step hands over one request at most, and this one has its row and is a new attempt. -/
theorem Stepped.wire_cases (h : Stepped P p x q) (hP : P.freeLocks) :
    q.world.wire = p.world.wire ∨ ∃ s, q.world = p.world.hand s ∧ p.world.HasRow s ∧
      ∀ s' ∈ p.world.wire, s'.triple ≠ s.triple := by
  cases h with
  | move i c t _ _ _ hp h =>
      rcases h.wire_cases with ⟨hw, -⟩ | ⟨s, hq, hh, hr⟩
      · exact .inl hw
      · exact .inr ⟨s, hq, hr.hasRow hP (hq ▸ hp), fun s' hs => hh.fresh hP hs⟩
  | outer y _ hy => exact .inl (outside_outer hy).wire
  | stay hw => exact .inl (hw ▸ rfl)

/-- **The journal is kept.** -/
theorem World.Journal.step (h : p.world.Journal) (hx : Stepped P p x q) (hP : P.freeLocks) :
    q.world.Journal := by
  have hold : ∀ s ∈ p.world.wire, q.world.HasRow s := fun s hs => (h.rows s hs).later hx.later
  rcases hx.wire_cases hP with hw | ⟨s, hq, hrow, hnew⟩
  · exact ⟨fun s hs => hold s (hw ▸ hs), hw ▸ h.apart⟩
  · have hwire : q.world.wire = p.world.wire ++ [s] := hq ▸ rfl
    refine ⟨fun s' hs' => ?_, ?_⟩
    · rw [hwire, List.mem_append, List.mem_singleton] at hs'
      rcases hs' with hs' | rfl
      · exact hold s' hs'
      · exact hrow.later hx.later
    · rw [hwire, List.map_append, List.nodup_append]
      refine ⟨h.apart, List.nodup_singleton _, fun t ht t' ht' => ?_⟩
      obtain ⟨s', hs', rfl⟩ := List.mem_map.mp ht
      obtain rfl := List.mem_singleton.mp ht'
      exact hnew s' hs'

/-- **Every outbound wallet call is journalled.** In every run of any calls in any order, with
crashes anywhere, in which jobs are locked only when their lock is free and their next attempt was
made by nobody, and rows are refused only for numbers that are taken: every request on the wire has
its row, no two are one attempt at one request, and the row of a request is there before the step
that hands the request over. -/
theorem journalled_calls (h : History env AttemptsFree p) :
    p.world.Journal ∧ ∀ x q, (server env).step p x = some q → AttemptsFree p x q →
      ∀ s, p.world.handed? q.world = some s → p.world.HasRow s := by
  obtain ⟨operators, credentials, gameConfigs, hr⟩ := h
  have hmeets : Meets (.numbered env) AttemptsFree := attemptsFree_meets
  obtain ⟨hready, hJ⟩ := run_invariant (J := fun p => p.world.Journal)
    (Ready.initial hmeets operators credentials gameConfigs) hr
    ⟨fun _ hs => (nomatch hs), List.nodup_nil⟩ fun _ _ _ _ _ _ _ hx hJ => hJ.step hx trivial
  refine ⟨hJ, fun x q hs hA s hhanded => ?_⟩
  rcases (hready.step hs hA).2.wire_cases trivial with hw | ⟨s', hq, hrow, -⟩
  · simp [World.handed?, hw] at hhanded
  · obtain rfl : s' = s := by simpa [World.handed?, hq, World.hand] using hhanded
    exact hrow

/-! ## Two runs -/

instance (w : World) (s : Sent) : Decidable (w.HasRow s) :=
  decidable_of_iff (∃ n ∈ s.row, ∃ c ∈ w.walletCalls[n]?, c.triple = s.triple)
    ⟨fun ⟨n, hn, c, hc, ht⟩ => ⟨n, c, hn, hc, ht⟩, fun ⟨n, c, hn, hc, ht⟩ => ⟨n, hn, c, hc, ht⟩⟩

/-- A debit and two attempts at its rollback, each with a row of its own. -/
theorem journalled_calls_uncertain : ∃ p, History Sample.site AttemptsFree p ∧
    p.world.wire.map Sent.row = [some 0, some 1, some 2] ∧ p.world.Journal := by
  have h : Sample.shows AttemptsFree
      (Sample.uncertain ++ Sample.attempt 4 ++ Sample.dueAgain 4 ++ Sample.attempt 5)
      (fun p => p.world.wire.map Sent.row = [some 0, some 1, some 2]) = true := by decide +kernel
  obtain ⟨p, hp, hv⟩ := Sample.history_of_shows h
  exact ⟨p, hp, of_decide_eq_true hv, (journalled_calls hp).1⟩

/-- **A call without a journal row**: the operator does not answer to a credit, and the first attempt
of its job takes the number of the engine's own call. -/
theorem unjournalled_retry : ∃ p, History Sample.site Anything p ∧ ¬ p.world.Journal := by
  have h : Sample.shows Anything (Sample.unanswered 6 ++ Sample.attempt 4)
      (fun p => p.world.wire.any fun s => decide ¬ p.world.HasRow s) = true := by decide +kernel
  obtain ⟨p, hp, hv⟩ := Sample.history_of_shows h
  obtain ⟨s, hs, hrow⟩ := List.any_eq_true.mp hv
  exact ⟨p, hp, fun hall => of_decide_eq_true hrow (hall.rows s hs)⟩

end YantraRgs
