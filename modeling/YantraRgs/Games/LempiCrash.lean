import Mathlib.Analysis.SpecialFunctions.Log.Basic
import YantraRgs.Games.Crash

/-! # Lempi Crash

A crash game with a live flight: the multiplier grows with the time in flight, and a bet is cashed
out on the way, by hand or when the multiplier reaches the bet's target. The curve of the flight is
exact: its exponential and its logarithm are the real functions.

* **`settleLempiCrashBet`**, **`settleLempiCrashCashout`** — the settlement after the flight and the
  one on the way.
* **`multiplierAtElapsedMs`**, **`elapsedMsForMultiplier`** — the curve, in both directions. -/

namespace YantraRgs.LempiCrash

open Crash

/-- The two slots of a player. -/
inductive Slot
  | A
  | B
  deriving DecidableEq

/-- What a player picks: a slot, and perhaps a target from 1.01 to 10000. -/
structure LempiCrashSelection where
  slotId : Slot
  autoCashoutMultiplier : Option ℚ
  min_le : ∀ target ∈ autoCashoutMultiplier, 101 / 100 ≤ target
  le_max : ∀ target ∈ autoCashoutMultiplier, target ≤ 10000

/-- What an operator configures. -/
structure LempiCrashConfig extends OutcomeConfig where
  /-- The growth of the logarithm of the multiplier in a millisecond. -/
  multiplierGrowthRate : ℚ
  minFlightMs : ℕ
  maxFlightMs : ℕ
  botCashoutsEnabled : Bool
  houseEdge_nonneg : 0 ≤ houseEdge
  houseEdge_lt : houseEdge < 1
  min_le : 101 / 100 ≤ maxMultiplier
  growth_pos : 0 < multiplierGrowthRate
  min_flight : 1000 ≤ maxFlightMs

/-- The configuration that the game comes with. -/
def defaultLempiCrashConfig : LempiCrashConfig where
  houseEdge := 1 / 100
  maxMultiplier := 1000
  multiplierGrowthRate := 11 / 100000
  minFlightMs := 700
  maxFlightMs := 120000
  botCashoutsEnabled := true
  houseEdge_nonneg := by norm_num
  houseEdge_lt := by norm_num
  min_le := by norm_num
  growth_pos := by norm_num
  min_flight := by norm_num

/-- The outcome of a round. -/
def determineLempiCrashOutcome (hmac : List Char) (config : OutcomeConfig) :
    Except ConfigError OutcomeData :=
  determineOutcome hmac config

/-! ## Settlement -/

/-- How a bet was cashed out. -/
inductive Mode
  | auto
  | manual
  deriving DecidableEq

/-- What is noted of a win. -/
structure WinMeta where
  slotId : Slot
  cashoutMode : Mode
  cashoutMultiplier : ℚ
  /-- The crash multiplier, when the flight is over. -/
  crashMultiplier : Option ℚ
  deriving DecidableEq

/-- Whether a bet won and what it pays. -/
structure SettlementResult where
  won : Bool
  payoutMicro : ℤ
  winMeta : Option WinMeta
  deriving DecidableEq

/-- **The settlement of a bet after the flight.** -/
def settleLempiCrashBet (selection : LempiCrashSelection) (amountMicro : ℤ)
    (outcome : OutcomeData) (commissionMicro : ℤ) : SettlementResult :=
  match selection.autoCashoutMultiplier with
  | none => ⟨false, 0, none⟩
  | some target =>
      if outcome.crashMultiplier < target then ⟨false, 0, none⟩
      else
        { won := true
          payoutMicro := payoutAtMultiplier amountMicro target commissionMicro
          winMeta := some ⟨selection.slotId, .auto, target, some outcome.crashMultiplier⟩ }

/-- **The settlement of a cash-out in flight.** -/
def settleLempiCrashCashout (selection : LempiCrashSelection) (amountMicro : ℤ)
    (cashoutMultiplier : ℚ) (commissionMicro : ℤ) : SettlementResult where
  won := true
  payoutMicro := payoutAtMultiplier amountMicro cashoutMultiplier commissionMicro
  winMeta := some ⟨selection.slotId, .manual, cashoutMultiplier, none⟩

/-! ## The flight -/

/-- **The multiplier at an elapsed flight time.** -/
noncomputable def multiplierAtElapsedMs (elapsedMs : ℕ) (config : LempiCrashConfig) : ℚ :=
  let raw : ℝ := Real.exp (elapsedMs * config.multiplierGrowthRate)
  min config.maxMultiplier (max 1 (⌊raw * 100⌋ / 100))

/-- **The elapsed flight time at which a multiplier is reached**, within the bounds of a flight. -/
noncomputable def elapsedMsForMultiplier (multiplier : ℚ) (config : LempiCrashConfig) : ℕ :=
  if multiplier ≤ 1 then config.minFlightMs
  else
    let elapsed := ⌈Real.log multiplier / config.multiplierGrowthRate⌉₊
    max config.minFlightMs (min config.maxFlightMs elapsed)

end YantraRgs.LempiCrash
