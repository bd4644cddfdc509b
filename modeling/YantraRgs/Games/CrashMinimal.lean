import YantraRgs.Games.Crash

/-! # Crash Minimal

The player commits to a multiplier before the round rolls, and wins when the round crashes no
earlier. -/

namespace YantraRgs.CrashMinimal

open Crash

/-- What a player picks: a multiplier from 1.01 to 10000. -/
structure CrashMinimalSelection where
  cashoutMultiplier : ℚ
  min_le : 101 / 100 ≤ cashoutMultiplier
  le_max : cashoutMultiplier ≤ 10000

/-- What an operator configures. -/
structure CrashMinimalConfig extends OutcomeConfig where
  houseEdge_nonneg : 0 ≤ houseEdge
  houseEdge_lt : houseEdge < 1
  min_le : 101 / 100 ≤ maxMultiplier

/-- The outcome of a round. -/
def determineCrashOutcome (hmac : List Char) (config : OutcomeConfig) :
    Except ConfigError OutcomeData :=
  determineOutcome hmac config

/-- What is noted of a win. -/
structure WinMeta where
  cashoutMultiplier : ℚ
  crashMultiplier : ℚ
  deriving DecidableEq

/-- Whether a bet won and what it pays. -/
structure SettlementResult where
  won : Bool
  payoutMicro : ℤ
  winMeta : Option WinMeta
  deriving DecidableEq

/-- **The settlement of a bet.** -/
def settleCrashMinimalBet (selection : CrashMinimalSelection) (amountMicro : ℤ)
    (outcome : OutcomeData) (commissionMicro : ℤ) : SettlementResult :=
  if outcome.crashMultiplier < selection.cashoutMultiplier then ⟨false, 0, none⟩
  else
    { won := true
      payoutMicro := payoutAtMultiplier amountMicro selection.cashoutMultiplier commissionMicro
      winMeta := some ⟨selection.cashoutMultiplier, outcome.crashMultiplier⟩ }

end YantraRgs.CrashMinimal
