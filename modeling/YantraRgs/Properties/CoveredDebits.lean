import YantraRgs.Properties.Restarts

/-! # Recovery covers the debits

When an engine has resumed, a bet of a round that was unsettled is covered when it is settled, or
failed with a queued win, or voided with a queued rollback. Resuming covers the bets that were
accepted, and the failed ones whose win it can work out again. It leaves all others as they are: a
bet that was cut off as pending stays pending with its stake taken, a voided bet without a rollback
stays without.

* **`World.Covered`** — the property of one bet; `World.Coverable` — of which bets it will hold.
* **`debits_covered`** — the property at the end of every start of an engine; `debit_stranded` — a
  run in which a bet was cut off while its stake was taken. -/

namespace YantraRgs

open Await

variable {env : Env} {p q v v' : State} {w w' w₀ : World}

/-- **A bet is covered**: settled, or failed with its win queued, or voided with its rollback
queued, whether the job is open or completed. -/
def World.Covered (w : World) (id : Nat) (b : Bet) : Prop :=
  match b.status with
  | .settled => True
  | .failed => w.HasJob .win id
  | .voided => w.HasJob .rollback id
  | .pending | .accepted | .rejected => False

/-- **A bet of an unsettled round that resuming covers**: it is accepted, or covered already, or
failed with no cash-out noted on it in a round whose outcome is stored. -/
def World.Coverable (w : World) (id : Nat) (b : Bet) : Prop :=
  match b.status with
  | .accepted | .settled => True
  | .failed => w.HasJob .win id ∨
      (b.cashoutPayoutMicro = none ∧ ∃ r ∈ w.rounds[b.roundId]?, r.outcome.isSome = true)
  | .voided => w.HasJob .rollback id
  | .pending | .rejected => False

instance (w : World) (endpoint : WalletEndpoint) (id : Nat) : Decidable (w.HasJob endpoint id) :=
  inferInstanceAs (Decidable (∃ j ∈ w.jobs, j.endpoint = endpoint ∧ j.betId = some id))

instance (w : World) (id : Nat) (b : Bet) : Decidable (w.Covered id b) := by
  unfold World.Covered
  split <;> infer_instance

instance (w : World) (id : Nat) (b : Bet) : Decidable (w.Coverable id b) := by
  unfold World.Coverable
  split <;> infer_instance

/-- Engines of one key do not run together. -/
def Single (p : State) (x : Happening) (_ : State) : Prop := OneEngine p x

instance (p : State) (x : Happening) (q : State) : Decidable (Single p x q) :=
  inferInstanceAs (Decidable (OneEngine p x))

/-- A win that was queued is a job of the bet. -/
theorem World.Credited.hasJob {id : Nat} {b : Bet} {payoutMicro : Int}
    (h : w.Credited id b payoutMicro) : w.HasJob .win id := by
  obtain ⟨j, hj, he, hid, -⟩ := h
  exact ⟨j, hj, he, hid⟩

/-- **What resuming makes of a bet**: it is covered exactly when it was one that resuming covers. -/
theorem Resumed.covered_iff {key : EngineKey} (h : Resumed env key w₀ w) (hl : Later w₀ w)
    {id : Nat} {b₀ : Bet} {r₀ : Round} (hb₀ : w₀.bets[id]? = some b₀)
    (hr₀ : w₀.rounds[b₀.roundId]? = some r₀) (hstuck : r₀.stuck key = true) :
    ∃ b, w.bets[id]? = some b ∧ b.betTransactionUuid = b₀.betTransactionUuid ∧
      (w.Covered id b ↔ w₀.Coverable id b₀) := by
  obtain ⟨b, hb, hrec⟩ := h.stuck hb₀ hr₀ hstuck
  obtain ⟨b', hb', hbl⟩ := hl.bet hb₀
  obtain rfl := Option.some.inj (hb.symm.trans hb')
  refine ⟨b, hb, hbl.betTransactionUuid, ?_⟩
  -- a bet that is left alone keeps its status and its jobs
  have hquiet : ∀ {endpoint}, b₀.Skipped r₀ → (w.HasJob endpoint id ↔ w₀.HasJob endpoint id) :=
    fun hskip => ⟨h.quiet hb₀ hr₀ hstuck hskip, hl.hasJob⟩
  cases hst : b₀.status with
  | accepted =>
      have hcovered : w.Covered id b := by
        rcases hrec.accepted hst with hs | ⟨hs, _, _, _, -, hcredited⟩ | ⟨hs, hjob⟩
        · simp [World.Covered, hs]
        · simpa [World.Covered, hs] using hcredited.hasJob
        · simpa [World.Covered, hs] using hjob
      simp [World.Coverable, hst, hcovered]
  | failed =>
      by_cases hskip : b₀.cashoutPayoutMicro.isSome = true ∨ r₀.outcome.isSome = false
      · obtain rfl := hrec.skipped hst hskip
        have hnot : ¬ (b.cashoutPayoutMicro = none ∧ ∃ r ∈ w₀.rounds[b.roundId]?,
            r.outcome.isSome = true) := by
          rintro ⟨hcash, r, hr, hout⟩
          obtain rfl := Option.some.inj (hr₀.symm.trans hr)
          simp [hcash, hout] at hskip
        simp only [World.Covered, World.Coverable, hst, hnot, or_false]
        exact hquiet (.inr ⟨hst, hskip⟩)
      · simp only [not_or, Bool.not_eq_true, Option.isSome_eq_false_iff,
          Option.isNone_iff_eq_none] at hskip
        have hout : r₀.outcome.isSome = true := Option.isSome_iff_ne_none.mpr hskip.2
        have hcovered : w.Covered id b := by
          rcases hrec.owed hst hskip.1 hout with hs | ⟨hs, _, _, _, -, hcredited⟩
          · simp [World.Covered, hs]
          · simpa [World.Covered, hs] using hcredited.hasJob
        have hcoverable : w₀.Coverable id b₀ := by
          simp only [World.Coverable, hst]
          exact .inr ⟨hskip.1, r₀, hr₀, hout⟩
        exact iff_of_true hcovered hcoverable
  | _ =>
      have hleft : b₀.status ≠ .accepted ∧ b₀.status ≠ .failed := by simp [hst]
      have hs : b.status = b₀.status := hrec.left hleft
      simp only [World.Covered, World.Coverable, hs, hst]
      try exact hquiet (.inl hleft)

/-- **Recovery covers the debits.** In every run of any calls in any order, with crashes anywhere,
in which engines of one key do not run together: when the start that was called in the state `v` sets
its engine running, a bet of a round that was unsettled in `v` is covered, whether or not the
operator has booked its stake, exactly when it was accepted, or covered already, or failed with no
cash-out noted on it in a round whose outcome is stored. -/
theorem debits_covered (h : History env Single v) {e : EngineRef} {c : Choice}
    (hcall : (server env).step v (.call (.start e)) = some v') (hv : Single v (.call (.start e)) v')
    (hrun : (server env).Run Single v' p)
    (hs : (server env).step p (.run v.tasks.length c) = some q)
    (hx : Single p (.run v.tasks.length c) q) (hr : Restarted e.key p.world q.world)
    {id : Nat} {b₀ : Bet} {r₀ : Round} (hb₀ : v.world.bets[id]? = some b₀)
    (hr₀ : v.world.rounds[b₀.roundId]? = some r₀) (hstuck : r₀.stuck e.key = true) :
    ∃ b, q.world.bets[id]? = some b ∧ b.betTransactionUuid = b₀.betTransactionUuid ∧
      (q.world.Covered id b ↔ v.world.Coverable id b₀) := by
  obtain ⟨e', -, -, -, hl, hdone, hq⟩ := h.resumed (fun _ _ _ h => h) hcall hv hrun hs hx hr
  obtain ⟨b, hb, hu, hiff⟩ := hdone.covered_iff hl hb₀ hr₀ hstuck
  exact ⟨b, hq ▸ hb, hu, hq ▸ hiff⟩

/-! ## Two runs -/

namespace Sample

/-- Whether the sample server gets through the events `xs`, starts the engine, gets through the
events `ys`, sets the engine running with the next action of that start, and then `f` holds of the
state of the call and of the last one. -/
def startShows (e : EngineRef) (xs ys : List Happening) (f : State → State → Bool) : Bool :=
  ((server site).exec Single start xs).any fun v =>
    ((server site).step v (.call (.start e))).any fun v' =>
      decide (Single v (.call (.start e)) v') && ((server site).exec Single v' ys).any fun p =>
        ((server site).step p (.run v.tasks.length .ok)).any fun q =>
          decide (Single p (.run v.tasks.length .ok) q) && (f v q &&
            ((p.world.engines[e.index]?).any fun engine => !engine.running) &&
              (q.world.engines[e.index]?).any fun engine => engine.running && engine.key = e.key)

/-- A start that was computed. -/
theorem start_of_shows {e : EngineRef} {xs ys : List Happening} {f : State → State → Bool}
    (h : startShows e xs ys f = true) : ∃ v v' p q, History site Single v ∧
      (server site).step v (.call (.start e)) = some v' ∧ Single v (.call (.start e)) v' ∧
        (server site).Run Single v' p ∧ (server site).step p (.run v.tasks.length .ok) = some q ∧
          Single p (.run v.tasks.length .ok) q ∧ Restarted e.key p.world q.world ∧ f v q = true := by
  obtain ⟨v, hv, h⟩ := (Option.any_eq_true ..).mp h
  obtain ⟨v', hcall, h⟩ := (Option.any_eq_true ..).mp h
  obtain ⟨hv', h⟩ := Bool.and_eq_true_iff.mp h
  obtain ⟨p, hp, h⟩ := (Option.any_eq_true ..).mp h
  obtain ⟨q, hq, h⟩ := (Option.any_eq_true ..).mp h
  simp only [Bool.and_eq_true, Option.any_eq_true, Bool.not_eq_true', decide_eq_true_eq] at h
  obtain ⟨hx, ⟨hf, engine, he, hstopped⟩, engine', he', hrunning, hkey⟩ := h
  exact ⟨v, v', p, q, ⟨_, _, _, .of_exec hv⟩, hcall, of_decide_eq_true hv', .of_exec hp, hq, hx,
    ⟨_, engine, engine', he, hstopped, he', hrunning, hkey⟩, hf⟩

/-- The process ends, and the engine is made again. -/
def rebooted : List Happening :=
  [.env (.die (engine 0 0)), .env (.boot ⟨0, 0, 0⟩ cfg (.dice 1 1))]

/-- Ann's bet is created and the operator takes its stake; the call goes no further. -/
def debited : List Happening :=
  boot 0 0 0 ++ .call (.iteration (engine 0 0) 1) :: run 1 8 ++
    .call (.createSession ⟨0, .named "ann", 0, 0, "INTL", .real, none, .none, none⟩) ::
    run 2 2 ++ .call (bet 0 (.dice .low)) :: run 3 13 ++ [.env (.deliver 0 ⟨true, .ok, some 90⟩ none)]

end Sample

/-- An accepted bet of a round without an outcome is covered by its rollback. -/
theorem debits_covered_accepted : ∃ q : State, ∃ b, q.world.bets[0]? = some b ∧
    b.status = .voided ∧ q.world.book.booked b.betTransactionUuid = true ∧
      q.world.Covered 0 b := by
  have h : Sample.startShows (Sample.engine 0 1)
      (Sample.opened 0 (.dice .low) .none 13 ++ Sample.rebooted)
      ([.run 4 .ok, .run 4 (.order [0]), .run 4 .ok, .run 4 (.order [0])] ++ Sample.run 4 5)
      (fun v q => (v.world.bets[0]?).any (fun b => decide (v.world.Coverable 0 b) &&
          (v.world.rounds[b.roundId]?).any fun r => r.stuck ⟨0, 0, 0⟩) &&
        (q.world.bets[0]?).any fun b => b.status = .voided &&
          q.world.book.booked b.betTransactionUuid) = true := by decide +kernel
  obtain ⟨v, v', p, q, hv, hcall, hA, hrun, hs, hx, hr, hf⟩ := Sample.start_of_shows h
  simp only [Bool.and_eq_true, Option.any_eq_true, decide_eq_true_eq] at hf
  obtain ⟨⟨b₀, hb₀, hcoverable, r₀, hr₀, hstuck⟩, b, hb, hvoided, hbooked⟩ := hf
  obtain ⟨b', hb', -, hiff⟩ := debits_covered hv hcall hA hrun hs hx hr hb₀ hr₀ hstuck
  obtain rfl := Option.some.inj (hb.symm.trans hb')
  exact ⟨q, b, hb, hvoided, hbooked, hiff.mpr hcoverable⟩

/-- **A stranded debit**: the process ends after the operator took the stake of a bet and before the
bet is accepted, and the restart leaves the bet pending with nothing queued. -/
theorem debit_stranded : ∃ v v' p q, History Sample.site Single v ∧
    (server Sample.site).step v (.call (.start (Sample.engine 0 1))) = some v' ∧
      (server Sample.site).Run Single v' p ∧
        (server Sample.site).step p (.run v.tasks.length .ok) = some q ∧
          Restarted ⟨0, 0, 0⟩ p.world q.world ∧
            ∃ b, q.world.bets[0]? = some b ∧
              (∃ r ∈ v.world.rounds[b.roundId]?, r.stuck ⟨0, 0, 0⟩ = true) ∧
                q.world.book.booked b.betTransactionUuid = true ∧ ¬ q.world.Covered 0 b ∧
                  q.world.jobs = [] := by
  have h : Sample.startShows (Sample.engine 0 1) (Sample.debited ++ Sample.rebooted)
      [.run 4 .ok, .run 4 (.order [0]), .run 4 .ok, .run 4 (.order [])]
      (fun v q => q.world.jobs.isEmpty && (q.world.bets[0]?).any fun b =>
        !decide (q.world.Covered 0 b) && q.world.book.booked b.betTransactionUuid &&
          (v.world.rounds[b.roundId]?).any fun r => r.stuck ⟨0, 0, 0⟩) = true := by decide +kernel
  obtain ⟨v, v', p, q, hv, hcall, -, hrun, hs, -, hr, hf⟩ := Sample.start_of_shows h
  simp only [Bool.and_eq_true, Option.any_eq_true, Bool.not_eq_true', decide_eq_false_iff_not] at hf
  obtain ⟨hjobs, b, hb, ⟨hnot, hbooked⟩, hround⟩ := hf
  exact ⟨v, v', p, q, hv, hcall, hrun, hs, hr, b, hb, hround, hbooked, hnot,
    List.isEmpty_iff.mp hjobs⟩

end YantraRgs
