import YantraRgs.Games.LiveFlight

/-! # The live cash-out against the settlement after the flight

A bet with a target may be paid in flight, when a poll finds the target reached, or after the flight,
when the crash multiplier is at least the target. Both come to the same unless the flight lasts longer
than the multiplier takes to the crash: then a poll finds a target reached that lies above the crash
multiplier, and the bet is paid at the crash multiplier although it lost.

* **`Flight.Overshoots`** — a poll finds a target above the crash multiplier reached.
* **`live_refines_iff`** — a bet is paid what the settlement pays exactly where no poll does.
* **`not_overshoots`** — no poll does where the flight is not stretched to its least length. -/

namespace YantraRgs.LempiCrash

open Crash

variable (f : Flight)

/-! ## The curve -/

/-- The multiplier does not fall. -/
theorem multiplierAtElapsedMs_mono (config : LempiCrashConfig) :
    Monotone fun elapsedMs => multiplierAtElapsedMs elapsedMs config := by
  intro a b hab
  have hgrowth : (0 : ℝ) ≤ config.multiplierGrowthRate := by
    exact_mod_cast config.growth_pos.le
  have hexp : Real.exp (a * config.multiplierGrowthRate) * 100 ≤
      Real.exp (b * config.multiplierGrowthRate) * 100 := by
    gcongr
  have hfloor : ((⌊Real.exp (a * config.multiplierGrowthRate) * 100⌋ : ℤ) : ℚ) / 100 ≤
      (⌊Real.exp (b * config.multiplierGrowthRate) * 100⌋ : ℤ) / 100 := by
    gcongr
  exact min_le_min_left _ (max_le_max_left _ hfloor)

/-- A multiplier that the curve has reached is displayed, up to the cap. -/
theorem le_multiplierAtElapsedMs {g : LempiCrashConfig} {e n : ℕ}
    (hmax : (n / 100 : ℚ) ≤ g.maxMultiplier)
    (h : (n : ℝ) ≤ Real.exp (e * g.multiplierGrowthRate) * 100) :
    (n / 100 : ℚ) ≤ multiplierAtElapsedMs e g := by
  have hfloor : (n : ℤ) ≤ ⌊Real.exp (e * g.multiplierGrowthRate) * 100⌋ := by
    rw [Int.le_floor]
    exact_mod_cast h
  refine le_min hmax (le_max_of_le_right ?_)
  rw [div_le_div_iff_of_pos_right (by norm_num)]
  exact_mod_cast hfloor

/-- Before the multiplier reaches `m` on its curve, it is not above `m`. -/
theorem multiplierAtElapsedMs_le {config : LempiCrashConfig} {elapsedMs : ℕ} {m : ℚ} (hm : 1 < m)
    (h : elapsedMs < ⌈Real.log m / config.multiplierGrowthRate⌉₊) :
    multiplierAtElapsedMs elapsedMs config ≤ m := by
  have hgrowth : (0 : ℝ) < config.multiplierGrowthRate := by exact_mod_cast config.growth_pos
  have hpos : (0 : ℝ) < m := by exact_mod_cast zero_lt_one.trans hm
  have hraw : Real.exp (elapsedMs * config.multiplierGrowthRate) ≤ m := by
    rw [← Real.le_log_iff_exp_le hpos, ← le_div_iff₀ hgrowth]
    exact (Nat.lt_ceil.mp h).le
  have hfloor : ((⌊Real.exp (elapsedMs * config.multiplierGrowthRate) * 100⌋ : ℤ) : ℚ) / 100 ≤ m := by
    have hle : ((⌊Real.exp (elapsedMs * config.multiplierGrowthRate) * 100⌋ : ℤ) : ℝ) ≤ m * 100 :=
      (Int.floor_le _).trans (by gcongr)
    rw [div_le_iff₀ (by norm_num)]
    exact_mod_cast hle
  exact (min_le_right _ _).trans (max_le hm.le hfloor)

/-! ## One bet through the flight -/

variable {f}
variable {p : Poll} {i : ℕ} {bet : LiveBet} {target : ℚ}

/-- A poll of the flight pays the `i`-th bet with the given target: it finds the target reached, and the
cash-out is in time. -/
structure Flight.Catches (f : Flight) (p : Poll) (i : ℕ) (target : ℚ) : Prop where
  reached : target ≤ multiplierAtElapsedMs p.elapsedMs f.config
  inTime : p.readAt i < f.crashAtMs
  flown : 1 < f.outcome.crashMultiplier

/-- What a cash-out in flight makes of a bet. -/
def LiveBet.cashed (bet : LiveBet) (elapsedMs : ℕ) (credited : Bool) (m : ℚ) : LiveBet :=
  let payoutMicro := payoutAtMultiplier bet.amountMicro m bet.commissionMicro
  { bet with
    status := if credited then .settled else .failed
    cashout := some ⟨m, elapsedMs, payoutMicro⟩
    won := some true
    wonAmountMicro := some payoutMicro
    queuedMicro := if credited then none else some payoutMicro }

/-- A bet that was cashed out is no longer accepted. -/
theorem cashed_status_ne (elapsedMs : ℕ) (credited : Bool) (m : ℚ) :
    (bet.cashed elapsedMs credited m).status ≠ .accepted := by
  rw [LiveBet.cashed]
  cases credited <;> simp

/-- A bet that is no longer accepted is left alone. -/
theorem pollBet_of_ne (h : bet.status ≠ .accepted) : pollBet f p i bet = bet := by
  rw [pollBet, if_pos (.inl h)]

/-- A bet without a target is left alone. -/
theorem pollBet_of_none (h : bet.selection.autoCashoutMultiplier = none) :
    pollBet f p i bet = bet := by
  rw [pollBet, h]
  exact ite_self bet

/-- A bet that the poll does not catch is left alone. -/
theorem pollBet_of_not_catches (htarget : bet.selection.autoCashoutMultiplier = some target)
    (h : ¬ f.Catches p i target) : pollBet f p i bet = bet := by
  rw [pollBet, htarget]
  by_cases hopen : bet.status ≠ .accepted ∨ bet.cashout.isSome
  · rw [if_pos hopen]
  · rw [if_neg hopen]
    by_cases hreached : multiplierAtElapsedMs p.elapsedMs f.config < target
    · exact if_pos hreached
    · have hlate : f.crashAtMs ≤ p.readAt i ∨ f.outcome.crashMultiplier ≤ 1 := by
        by_contra hin
        rw [not_or, not_le, not_le] at hin
        exact h ⟨not_lt.mp hreached, hin.1, hin.2⟩
      simp only [if_neg hreached, cashOutBet, if_pos hlate, ite_self]

/-- A bet that the poll catches is cashed out at its target, or at the crash multiplier where that is
lower. -/
theorem pollBet_of_catches (hopen : bet.status = .accepted) (hcashout : bet.cashout = none)
    (htarget : bet.selection.autoCashoutMultiplier = some target) (h : f.Catches p i target) :
    pollBet f p i bet =
      bet.cashed (p.readAt i) (p.credited i) (min target f.outcome.crashMultiplier) := by
  have hcurrent : target ≤ multiplierAtElapsedMs (p.readAt i) f.config :=
    h.reached.trans (multiplierAtElapsedMs_mono f.config (p.le_readAt i))
  have hintime : ¬ (f.crashAtMs ≤ p.readAt i ∨ f.outcome.crashMultiplier ≤ 1) := by
    rw [not_or, not_le, not_le]
    exact ⟨h.inTime, h.flown⟩
  rw [pollBet, htarget]
  simp only [hopen, hcashout, ne_eq, not_true_eq_false, Option.isSome_none, Bool.false_eq_true,
    or_self, if_false, if_neg (not_lt.mpr h.reached), cashOutBet, if_neg hintime, Option.getD_some,
    min_eq_left hcurrent, settleLempiCrashCashout, Bool.not_true]
  rfl

/-- One bet through the flight. -/
noncomputable def flyBet (f : Flight) (i : ℕ) : List Poll → LiveBet → LiveBet
  | [], bet => bet
  | p :: polls, bet =>
      if f.crashAtMs ≤ p.elapsedMs then bet else flyBet f i polls (pollBet f p i bet)

/-- The bets of a flight do not touch each other. -/
theorem fly_getElem? (polls : List Poll) (bets : List LiveBet) (i : ℕ) :
    (fly f polls bets)[i]? = bets[i]?.map (flyBet f i polls) := by
  induction polls generalizing bets with
  | nil => simp [fly, flyBet]
  | cons p polls ih =>
      rw [fly]
      by_cases hcrash : f.crashAtMs ≤ p.elapsedMs
      · simp [hcrash, flyBet]
      · rw [if_neg hcrash, ih, processAutoCashouts, List.getElem?_mapIdx, Option.map_map]
        congr 1
        funext bet
        rw [flyBet, if_neg hcrash]
        rfl

/-- A bet that is no longer accepted comes out of the flight as it was. -/
theorem flyBet_of_ne (polls : List Poll) (h : bet.status ≠ .accepted) :
    flyBet f i polls bet = bet := by
  induction polls with
  | nil => rfl
  | cons p polls ih =>
      rw [flyBet, pollBet_of_ne h, ih]
      exact ite_self bet

/-- So does a bet without a target. -/
theorem flyBet_of_none (polls : List Poll) (h : bet.selection.autoCashoutMultiplier = none) :
    flyBet f i polls bet = bet := by
  induction polls with
  | nil => rfl
  | cons p polls ih =>
      rw [flyBet, pollBet_of_none h, ih]
      exact ite_self bet

/-- The polls that the loop gets to. -/
noncomputable def Flight.performed (f : Flight) (polls : List Poll) : List Poll :=
  polls.takeWhile fun p => p.elapsedMs < f.crashAtMs

/-- **A bet through the flight**: it is cashed out by the first poll that catches it, and otherwise it
comes out as it was. -/
theorem flyBet_cases (polls : List Poll) (hopen : bet.status = .accepted)
    (hcashout : bet.cashout = none)
    (htarget : bet.selection.autoCashoutMultiplier = some target) :
    (flyBet f i polls bet = bet ∧ ∀ p ∈ f.performed polls, ¬ f.Catches p i target) ∨
      ∃ p ∈ f.performed polls, f.Catches p i target ∧ flyBet f i polls bet =
        bet.cashed (p.readAt i) (p.credited i) (min target f.outcome.crashMultiplier) := by
  induction polls with
  | nil => exact .inl ⟨rfl, fun p hp => absurd hp List.not_mem_nil⟩
  | cons p polls ih =>
      rw [flyBet, Flight.performed, List.takeWhile_cons]
      by_cases hcrash : f.crashAtMs ≤ p.elapsedMs
      · rw [if_pos hcrash, if_neg (by simpa using hcrash)]
        exact .inl ⟨rfl, fun p hp => absurd hp List.not_mem_nil⟩
      · rw [if_neg hcrash, if_pos (by simpa using hcrash)]
        by_cases hcatch : f.Catches p i target
        · rw [pollBet_of_catches hopen hcashout htarget hcatch,
            flyBet_of_ne polls (cashed_status_ne _ _ _)]
          exact .inr ⟨p, List.mem_cons_self, hcatch, rfl⟩
        · rw [pollBet_of_not_catches htarget hcatch]
          rcases ih with ⟨heq, hnone⟩ | ⟨p', hp', hcatch', heq⟩
          · refine .inl ⟨heq, fun p' hp' => ?_⟩
            rcases List.mem_cons.mp hp' with rfl | hp'
            · exact hcatch
            · exact hnone p' hp'
          · exact .inr ⟨p', List.mem_cons_of_mem p hp', hcatch', heq⟩

/-! ## What a bet is paid -/

variable (f)
variable {polls : List Poll} {credited : ℕ → Bool} {commissionMicro amountMicro : ℤ}
variable {selection : LempiCrashSelection} {stakes : List (LempiCrashSelection × ℤ)}

/-- A poll of the flight pays the `i`-th bet, whose target lies above the crash multiplier. -/
def Flight.Overshoots (polls : List Poll) (i : ℕ) (selection : LempiCrashSelection) : Prop :=
  ∃ target ∈ selection.autoCashoutMultiplier, f.outcome.crashMultiplier < target ∧
    ∃ p ∈ f.performed polls, f.Catches p i target

/-- What the game's settlement pays a bet. -/
def batchResult (selection : LempiCrashSelection) (amountMicro : ℤ) (outcome : OutcomeData)
    (commissionMicro : ℤ) : Bool × ℤ :=
  let result := settleLempiCrashBet selection amountMicro outcome commissionMicro
  (result.won, result.payoutMicro)

/-- A target that is not above the crash multiplier is paid in full. -/
theorem batchResult_of_le {outcome : OutcomeData}
    (htarget : selection.autoCashoutMultiplier = some target)
    (h : target ≤ outcome.crashMultiplier) :
    batchResult selection amountMicro outcome commissionMicro =
      (true, payoutAtMultiplier amountMicro target commissionMicro) := by
  simp only [batchResult, settleLempiCrashBet, htarget, if_neg (not_lt.mpr h)]

/-- A target above the crash multiplier is lost. -/
theorem batchResult_of_lt {outcome : OutcomeData}
    (htarget : selection.autoCashoutMultiplier = some target)
    (h : outcome.crashMultiplier < target) :
    batchResult selection amountMicro outcome commissionMicro = (false, 0) := by
  simp only [batchResult, settleLempiCrashBet, htarget, if_pos h]

/-- What a cash-out in flight pays. -/
@[simp] theorem result_cashed (elapsedMs : ℕ) (credited : Bool) (m : ℚ) :
    (bet.cashed elapsedMs credited m).result =
      (true, payoutAtMultiplier bet.amountMicro m bet.commissionMicro) := by
  cases credited <;> rfl

/-- Settling does not touch a bet that was cashed out. -/
theorem settleBet_of_ne {outcome : OutcomeData} {credited : Bool} (h : bet.status ≠ .accepted) :
    settleBet outcome commissionMicro credited bet = bet := if_pos h

/-- A bet that is left after the flight is paid what the game's settlement pays. -/
theorem result_settleBet (outcome : OutcomeData) (credited : Bool) :
    (settleBet outcome commissionMicro credited
      (.placed selection amountMicro commissionMicro)).result =
        batchResult selection amountMicro outcome commissionMicro := by
  rw [batchResult, settleBet, if_neg (by simp [LiveBet.placed])]
  by_cases hwon : (settleLempiCrashBet selection amountMicro outcome commissionMicro).won = true
  · cases credited <;> simp [LiveBet.placed, LiveBet.result, hwon]
  · rw [Bool.not_eq_true] at hwon
    have hpayout :
        (settleLempiCrashBet selection amountMicro outcome commissionMicro).payoutMicro = 0 := by
      rw [settleLempiCrashBet] at hwon ⊢
      cases htarget : selection.autoCashoutMultiplier with
      | none => rfl
      | some target =>
          simp only [htarget] at hwon
          by_cases hlost : outcome.crashMultiplier < target
          · simp only [if_pos hlost]
          · simp [if_neg hlost] at hwon
    simp [LiveBet.placed, LiveBet.result, hwon, hpayout]

/-- **The `i`-th bet of a live round**: where the polls leave it alone it is paid what the game's
settlement pays, and where they catch it, at its target or at the crash multiplier. -/
theorem result_playLive (hi : stakes[i]? = some (selection, amountMicro)) :
    (playLive f polls credited commissionMicro stakes)[i]?.map LiveBet.result =
      some ((settleBet f.outcome commissionMicro (credited i)
        (flyBet f i polls (.placed selection amountMicro commissionMicro))).result) := by
  rw [playLive, settle, List.getElem?_mapIdx, fly_getElem?, List.getElem?_map, hi]
  rfl

/-- **The live cash-outs refine the settlement where no poll overshoots**: a bet of a live round is
paid what the game's settlement pays, exactly when no poll of the flight pays it although its target
lies above the crash multiplier. -/
theorem live_refines_iff (hi : stakes[i]? = some (selection, amountMicro)) :
    (playLive f polls credited commissionMicro stakes)[i]?.map LiveBet.result =
        some (batchResult selection amountMicro f.outcome commissionMicro) ↔
      ¬ f.Overshoots polls i selection := by
  rw [result_playLive f hi, Option.some.injEq]
  cases htarget : selection.autoCashoutMultiplier with
  | none =>
      rw [flyBet_of_none polls htarget, result_settleBet]
      simp [Flight.Overshoots, htarget]
  | some target =>
      have hplaced : (LiveBet.placed selection amountMicro commissionMicro).status = .accepted := rfl
      rcases flyBet_cases (f := f) (i := i) polls hplaced rfl htarget with
        ⟨heq, hnone⟩ | ⟨p, hp, hcatch, heq⟩
      · rw [heq, result_settleBet]
        refine iff_of_true rfl ?_
        rintro ⟨target', htarget', -, p, hp, hcatch⟩
        obtain rfl := Option.some.inj (htarget.symm.trans htarget')
        exact hnone p hp hcatch
      · rw [heq, settleBet_of_ne (cashed_status_ne _ _ _), result_cashed]
        by_cases hlow : target ≤ f.outcome.crashMultiplier
        · -- paid in flight at the target, as after the flight
          rw [min_eq_left hlow, batchResult_of_le htarget hlow]
          refine iff_of_true rfl ?_
          rintro ⟨target', htarget', habove, -⟩
          obtain rfl := Option.some.inj (htarget.symm.trans htarget')
          exact absurd hlow (not_le.mpr habove)
        · rw [batchResult_of_lt htarget (not_le.mp hlow)]
          refine iff_of_false ?_ (not_not_intro ⟨target, htarget, not_le.mp hlow, p, hp, hcatch⟩)
          simp

/-- **The curve does not overshoot where the flight is not stretched**: when the time that the
multiplier takes to the crash is at least the least length of a flight, no poll overshoots. -/
theorem not_overshoots (polls : List Poll) (i : ℕ) (selection : LempiCrashSelection)
    (h : f.config.minFlightMs ≤
      ⌈Real.log f.outcome.crashMultiplier / f.config.multiplierGrowthRate⌉₊) :
    ¬ f.Overshoots polls i selection := by
  rintro ⟨target, -, habove, p, -, hcatch⟩
  have hcrash : f.crashAtMs ≤
      ⌈Real.log f.outcome.crashMultiplier / f.config.multiplierGrowthRate⌉₊ := by
    rw [Flight.crashAtMs, elapsedMsForMultiplier, if_neg (not_le.mpr hcatch.flown)]
    exact max_le h (min_le_right _ _)
  have hlt := (p.le_readAt i).trans_lt (hcatch.inTime.trans_le hcrash)
  exact absurd (hcatch.reached.trans (multiplierAtElapsedMs_le hcatch.flown hlt))
    (not_le.mpr habove)

/-- Some schedule overshoots exactly where the flight lasts long enough for the multiplier to reach a
target above the crash multiplier. -/
theorem exists_overshoots_iff :
    (∃ polls, f.Overshoots polls i selection) ↔
      ∃ target ∈ selection.autoCashoutMultiplier, 1 < f.outcome.crashMultiplier ∧
        f.outcome.crashMultiplier < target ∧ ∃ elapsedMs < f.crashAtMs,
          target ≤ multiplierAtElapsedMs elapsedMs f.config := by
  constructor
  · rintro ⟨polls, target, htarget, habove, p, -, hcatch⟩
    exact ⟨target, htarget, hcatch.flown, habove, p.elapsedMs,
      (p.le_readAt i).trans_lt hcatch.inTime, hcatch.reached⟩
  · rintro ⟨target, htarget, hflown, habove, elapsedMs, hlt, hreached⟩
    let p : Poll := ⟨elapsedMs, fun _ => elapsedMs, fun _ => true, fun _ => le_rfl⟩
    refine ⟨[p], target, htarget, habove, p, ?_, ⟨hreached, hlt, hflown⟩⟩
    rw [Flight.performed, List.takeWhile_cons, if_pos (by simpa using hlt)]
    exact List.mem_cons_self

namespace Sample

/-- A bet on one and a twentieth. -/
def low : LempiCrashSelection where
  slotId := .A
  autoCashoutMultiplier := some (105 / 100)
  min_le := by simp; norm_num
  le_max := by simp; norm_num

/-- A flight under the configuration that the game comes with. -/
def flight (crashMultiplier : ℚ) : Flight := ⟨defaultLempiCrashConfig, ⟨crashMultiplier, 0⟩⟩

/-- One poll, half a second into the flight. -/
def halfSecond : Poll := ⟨500, fun _ => 500, fun _ => true, fun _ => le_rfl⟩

end Sample

/-- A bet whose target the crash is above is paid at its target. -/
theorem live_refines_two :
    (playLive (Sample.flight 2) [Sample.halfSecond] (fun _ => true) 0 [(Sample.low, 100)])[0]?.map
        LiveBet.result =
      some (batchResult Sample.low 100 (Sample.flight 2).outcome 0) := by
  refine (live_refines_iff (Sample.flight 2) rfl).mpr ?_
  rintro ⟨target, htarget, habove, -⟩
  obtain rfl := Option.some.inj htarget
  norm_num [Sample.flight] at habove

/-- **A lost bet that is paid**: the round crashes at 1.02 but stays in flight for the least length of a
flight, and half a second into it the displayed multiplier reaches the target of 1.05. -/
theorem lost_bet_paid : ¬ ∀ (f : Flight) (polls : List Poll) (credited : ℕ → Bool)
    (commissionMicro : ℤ) (stakes : List (LempiCrashSelection × ℤ)) (i : ℕ)
    (selection : LempiCrashSelection) (amountMicro : ℤ), stakes[i]? = some (selection, amountMicro) →
      (playLive f polls credited commissionMicro stakes)[i]?.map LiveBet.result =
        some (batchResult selection amountMicro f.outcome commissionMicro) := by
  intro h
  have hright := h (Sample.flight (102 / 100)) [Sample.halfSecond] (fun _ => true) 0
    [(Sample.low, 100)] 0 Sample.low 100 rfl
  have hcrash : Sample.halfSecond.elapsedMs < (Sample.flight (102 / 100)).crashAtMs := by
    rw [Flight.crashAtMs, elapsedMsForMultiplier, if_neg (by norm_num [Sample.flight])]
    exact lt_of_lt_of_le (by decide) (le_max_left 700 _)
  have hreached : (105 / 100 : ℚ) ≤ multiplierAtElapsedMs 500 defaultLempiCrashConfig := by
    have hexp := Real.add_one_le_exp (((500 : ℕ) : ℝ) * (11 / 100000 : ℚ))
    have hle := le_multiplierAtElapsedMs (n := 105) (e := 500) (g := defaultLempiCrashConfig)
      (by norm_num [defaultLempiCrashConfig]) (by
        norm_num [defaultLempiCrashConfig] at hexp ⊢
        linarith)
    exact_mod_cast hle
  have hcatch : (Sample.flight (102 / 100)).Catches Sample.halfSecond 0 (105 / 100) :=
    ⟨hreached, hcrash, by norm_num [Sample.flight]⟩
  have hplaced : (LiveBet.placed Sample.low 100 0).status = .accepted := rfl
  rw [result_playLive _ rfl, batchResult_of_lt rfl (by norm_num [Sample.flight])] at hright
  rcases flyBet_cases (f := Sample.flight (102 / 100)) (i := 0) [Sample.halfSecond] hplaced rfl rfl
    with ⟨-, hnone⟩ | ⟨p, -, -, heq⟩
  · refine hnone Sample.halfSecond ?_ hcatch
    rw [Flight.performed, List.takeWhile_cons, if_pos (decide_eq_true hcrash)]
    exact List.mem_cons_self
  · rw [heq, settleBet_of_ne (cashed_status_ne _ _ _), result_cashed] at hright
    simp at hright

end YantraRgs.LempiCrash
