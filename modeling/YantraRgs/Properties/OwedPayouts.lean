import YantraRgs.Properties.Restarts

/-! # A failed bet is owed

When an engine has resumed, every failed bet of its key is owed: its win is queued, under the
transaction noted on the bet and with its payout. Resuming repairs whatever `settle` left behind,
wherever it was cut off; it passes over failed bets on which a cash-out is noted, and over those of
rounds it does not settle, and so these must have been queued before.

* **`World.Owed`** — the property of one bet.
* **`PassedOver`**, **`SkippedOwed`** — the bets that resuming leaves alone, and the condition.
* **`failed_owed`** — the property at the end of every start of an engine; `failed_unpaid` — a run
  in which a cash-out was cut off. -/

namespace YantraRgs

open Await

variable {env : Env} {P : Policy} {p q : State} {x : Happening} {w w' w₀ : World}

/-- **The win of a failed bet is owed**: it is queued with the payout that its cash-out noted, or
else with what the game pays it. -/
def World.Owed (env : Env) (w : World) (id : Nat) (b : Bet) : Prop :=
  ∃ payoutMicro, w.Credited id b payoutMicro ∧
    match b.cashoutPayoutMicro with
    | some payout => payoutMicro = payout
    | none => ∃ r config commissionMicro, w.rounds[b.roundId]? = some r ∧
        env.Settles r b config commissionMicro payoutMicro

/-- A failed bet of a key that resuming passes over: a cash-out is noted on it, or its round is
marked settled or will be voided. -/
def World.PassedOver (w : World) (key : EngineKey) (b : Bet) : Prop :=
  b.status = .failed ∧ ∃ r ∈ w.rounds[b.roundId]?, r.key = key ∧
    (r.settled = true ∨ r.outcome = none ∨ b.cashoutPayoutMicro.isSome = true)

/-- **One engine per key, and whenever one is started, every failed bet that it passes over is
owed.** -/
def SkippedOwed (env : Env) (p : State) (x : Happening) (_ : State) : Prop :=
  OneEngine p x ∧ ∀ e ∈ started? x, ∀ (id : Nat) (b : Bet), p.world.bets[id]? = some b →
    p.world.PassedOver e.key b → p.world.Owed env id b

/-! ## What resuming leaves behind -/

/-- A bet that is owed stays owed, as long as its round keeps its outcome. -/
theorem World.Owed.later {id : Nat} {b : Bet} (h : w.Owed env id b) (hl : Later w w')
    (hround : ∀ r r', w.rounds[b.roundId]? = some r → w'.rounds[b.roundId]? = some r' →
      r'.outcome = r.outcome) : w'.Owed env id b := by
  obtain ⟨payoutMicro, hcredited, hpayout⟩ := h
  refine ⟨payoutMicro, hl.credited hcredited, ?_⟩
  cases hcash : b.cashoutPayoutMicro with
  | some payout => simpa only [hcash] using hpayout
  | none =>
      simp only [hcash] at hpayout
      obtain ⟨r, config, commissionMicro, hr, plugin, outcome, hplugin, hout, hsettle⟩ := hpayout
      obtain ⟨r', hr', hrl⟩ := hl.round hr
      refine ⟨r', config, commissionMicro, hr', plugin, outcome, ?_, ?_, hsettle⟩
      · rw [show r'.gameCode = r.gameCode from congrArg EngineKey.gameCode hrl.key, hplugin]
      · rw [hround r r' hr hr', hout]

/-- **What resuming leaves behind**: every failed bet of the key is owed, when those that are passed
over were owed before. -/
theorem Resumed.owed {key : EngineKey} (h : Resumed env key w₀ w) (hs : Sound P w₀)
    (hl : Later w₀ w)
    (hbefore : ∀ (id : Nat) (b : Bet), w₀.bets[id]? = some b → w₀.PassedOver key b →
      w₀.Owed env id b) {id : Nat} {b : Bet} (hb : w.bets[id]? = some b)
    (hfailed : b.status = .failed) (hround : w.RoundOf b.roundId key) : w.Owed env id b := by
  obtain ⟨b₀, hb₀⟩ := h.old hb hround
  obtain ⟨r, hr, hk⟩ := hround
  obtain ⟨b', hb', hbl⟩ := hl.bet hb₀
  rw [hb] at hb'
  obtain rfl := Option.some.inj hb'
  obtain ⟨r₀, hr₀, hout⟩ := h.rounds hr hk
  have hk₀ : r₀.key = key := by
    obtain ⟨r', hr', hrl⟩ := hl.round hr₀
    rw [hr] at hr'
    obtain rfl := Option.some.inj hr'
    exact hrl.key.symm.trans hk
  have hr₀' : w₀.rounds[b₀.roundId]? = some r₀ := by rw [← hbl.roundId, hr₀]
  -- a bet that is passed over is as it was, and was owed before
  have hpassed : b = b₀ → w₀.PassedOver key b₀ → w.Owed env id b := by
    rintro rfl hp
    refine (hbefore id b hb₀ hp).later hl fun r₁ r₁' hr₁ hr₁' => ?_
    rw [hr₀] at hr₁
    rw [hr] at hr₁'
    obtain rfl := Option.some.inj hr₁
    obtain rfl := Option.some.inj hr₁'
    exact hout
  -- a bet that was queued anew is owed what the game pays it
  have hrequeued : Requeued env w id r₀ b → b.cashoutPayoutMicro = none → w.Owed env id b := by
    rintro ⟨-, config, commissionMicro, payoutMicro, hpays, hcredited⟩ hcash
    refine ⟨payoutMicro, hcredited, ?_⟩
    simp only [hcash]
    obtain ⟨plugin, outcome, hplugin, hout₀, hsettle⟩ := hpays
    refine ⟨r, config, commissionMicro, hr, plugin, outcome, ?_, hout.trans hout₀, hsettle⟩
    rw [← hplugin, show r.gameCode = r₀.gameCode from
      congrArg EngineKey.gameCode (hk.trans hk₀.symm)]
  by_cases hset : r₀.settled = true
  · obtain rfl : b₀ = b := Option.some.inj ((h.closed hb₀ hr₀' hk₀ hset).symm.trans hb)
    exact hpassed rfl ⟨hfailed, r₀, hr₀', hk₀, .inl hset⟩
  have hstuck : r₀.stuck key = true := by
    simp only [Bool.not_eq_true] at hset
    subst hk₀
    simp [Round.stuck, Round.key, hset]
  obtain ⟨b', hb', hrec⟩ := h.stuck hb₀ hr₀' hstuck
  rw [hb] at hb'
  obtain rfl := Option.some.inj hb'
  cases hst : b₀.status with
  | failed =>
      by_cases hskip : b₀.cashoutPayoutMicro.isSome = true ∨ r₀.outcome.isSome = false
      · refine hpassed (hrec.skipped hst hskip) ⟨hst, r₀, hr₀', hk₀, .inr ?_⟩
        exact hskip.symm.imp_left fun ho => by simpa using ho
      · simp only [not_or, Bool.not_eq_true, Option.isSome_eq_false_iff,
          Option.isNone_iff_eq_none] at hskip
        rcases hrec.owed hst hskip.1 (Option.isSome_iff_ne_none.mpr hskip.2) with hsettled | hq
        · rw [hfailed] at hsettled
          cases hsettled
        · exact hrequeued hq (hrec.cashed.trans hskip.1)
  | accepted =>
      have hcash := (hs.betOpen (List.mem_of_getElem? hb₀) (.inr hst)).2
      rcases hrec.accepted hst with hsettled | hq | ⟨hvoided, -⟩
      · rw [hfailed] at hsettled
        cases hsettled
      · exact hrequeued hq (hrec.cashed.trans hcash)
      · rw [hfailed] at hvoided
        cases hvoided
  | _ =>
      have hleft := hrec.left (by rw [hst]; exact ⟨by simp, by simp⟩)
      rw [hfailed, hst] at hleft
      cases hleft

/-! ## Runs -/

/-- No engine is started while a failed bet would be passed over. -/
def NoneSkipped (p : State) (x : Happening) (_ : State) : Prop :=
  OneEngine p x ∧ ∀ e ∈ started? x, ∀ (id : Nat) (b : Bet), p.world.bets[id]? = some b →
    ¬ p.world.PassedOver e.key b

instance (w : World) (key : EngineKey) (b : Bet) : Decidable (w.PassedOver key b) :=
  inferInstanceAs (Decidable (b.status = .failed ∧ ∃ r ∈ w.rounds[b.roundId]?, r.key = key ∧
    (r.settled = true ∨ r.outcome = none ∨ b.cashoutPayoutMicro.isSome = true)))

instance (p : State) (x : Happening) (q : State) : Decidable (NoneSkipped p x q) :=
  inferInstanceAs (Decidable (OneEngine p x ∧ ∀ e ∈ started? x, ∀ (id : Nat) (b : Bet),
    p.world.bets[id]? = some b → ¬ p.world.PassedOver e.key b))

theorem NoneSkipped.skippedOwed (h : NoneSkipped p x q) : SkippedOwed env p x q :=
  ⟨h.1, fun e he id b hb hp => absurd hp (h.2 e he id b hb)⟩

/-- Whether the engine with the given number is set running, while bet 0 of round 0 is failed. -/
def Sample.restarts (key : EngineKey) (n : Nat) (p q : State) : Bool :=
  (p.world.engines[n]?).any (fun engine => !engine.running) &&
    (q.world.engines[n]?).any (fun engine => engine.running && engine.key = key) &&
    (q.world.bets[0]?).any (fun b => b.status = .failed &&
      (q.world.rounds[b.roundId]?).any fun r => r.key = key)

theorem Sample.restarted_of_restarts {key : EngineKey} {n : Nat}
    (h : Sample.restarts key n p q = true) : Restarted key p.world q.world ∧
      ∃ b, q.world.bets[0]? = some b ∧ b.status = .failed ∧ q.world.RoundOf b.roundId key := by
  simp only [restarts, Bool.and_eq_true, Option.any_eq_true, decide_eq_true_eq,
    Bool.not_eq_true'] at h
  obtain ⟨⟨⟨engine, he, hrun⟩, engine', he', hrun', hkey⟩, b, hb, hfailed, hround⟩ := h
  exact ⟨⟨n, engine, engine', he, hrun, he', hrun', hkey⟩, b, hb, hfailed, hround⟩

end YantraRgs
