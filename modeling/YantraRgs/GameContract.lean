import YantraRgs.Wallet.Types

/-! # The plugin contract between the engine and a game

The engine owns rounds, bets and wallet calls; a game plugin owns its mathematics. Multipliers and
uniform samples are exact rationals. -/

namespace YantraRgs

/-- A **generated server seed**: generated seeds never repeat; the model draws them from one counter
and notes which session they were drawn for. -/
structure Seed where
  /-- Its place in the sequence of everything the server ever generated. -/
  serial : Nat
  /-- The session it was drawn for. -/
  session : Nat
  deriving DecidableEq

/-- The published commitment to a server seed. -/
structure SeedHash where
  /-- The seed committed to; nobody computes it from the hash. -/
  preimage : Seed
  deriving DecidableEq

/-- A client seed: given by an operator or a player, or generated. -/
abbrev ClientSeed := Nat

/-- What a round's outcome is derived from. -/
structure RngContext where
  serverSeed : Seed
  clientSeed : ClientSeed
  nonce : Nat
  deriving DecidableEq

/-- The two sides of the dice game. -/
inductive Side
  | low
  | high
  deriving DecidableEq

/-- The outcome of a round. -/
inductive GameOutcome
  | dice (diceValues : List Nat) (outcomeSum : Nat) (outcomeSide : Side)
  | crash (crashMultiplier u : Rat)
  | multi (baseGame : Nat) (events : List Nat)
  deriving DecidableEq

/-- The type tag of an outcome. -/
inductive OutcomeType
  | dice
  | crash
  | multi
  deriving DecidableEq

/-- The type tag of an outcome. -/
def GameOutcome.type : GameOutcome → OutcomeType
  | .dice .. => .dice
  | .crash .. => .crash
  | .multi .. => .multi

/-- The crash multiplier of a crash outcome. -/
def GameOutcome.crashMultiplier? : GameOutcome → Option Rat
  | .crash m _ => some m
  | _ => none

/-- What a player picks, as one of the registered games admits it. -/
inductive BetSelection
  | dice (side : Side)
  | crash (cashoutMultiplier : Rat)
  | liveCrash (slotId : Nat) (autoCashoutMultiplier : Option Rat)
  deriving DecidableEq

/-- The mathematics of a game as an operator configured it. -/
inductive GameMathConfig
  | dice (lowWeight highWeight : Nat)
  | crash (houseEdge maxMultiplier : Rat)
  | liveCrash (houseEdge maxMultiplier multiplierGrowthRate : Rat) (minFlightMs maxFlightMs : Millis)
  deriving DecidableEq

/-- Everything a single bet is settled from. -/
structure SettlementRequest where
  selection : BetSelection
  amountMicro : Int
  outcome : GameOutcome
  config : GameMathConfig
  commissionMicro : Int

/-- Whether a bet won and what it pays. -/
structure SettlementResult where
  won : Bool
  payoutMicro : Int
  deriving DecidableEq

/-- Everything a live cash-out is settled from. -/
structure CashoutRequest where
  selection : BetSelection
  amountMicro : Int
  cashoutMultiplier : Rat
  config : GameMathConfig
  commissionMicro : Int

/-- Live cash-outs of crash-style games. -/
structure LiveCrashSupport where
  /-- The displayed multiplier at an elapsed flight time. -/
  multiplierAtElapsedMs : Millis → GameMathConfig → Rat
  /-- The elapsed flight time at which the multiplier is reached. -/
  elapsedMsForMultiplier : Rat → GameMathConfig → Millis
  /-- The client slot of a selection. -/
  slotId : BetSelection → Option Nat
  /-- The automatic cash-out of a selection. -/
  autoCashoutMultiplier : BetSelection → Option Rat
  /-- The payout of a live cash-out. -/
  settleCashout : CashoutRequest → SettlementResult

/-- A **game plugin**. -/
structure GamePlugin where
  rngVersion : Nat
  computeOutcome : RngContext → GameMathConfig → GameOutcome
  verifyOutcome : RngContext → GameMathConfig → GameOutcome → Bool
  settleBet : SettlementRequest → SettlementResult
  liveCrash : Option LiveCrashSupport

end YantraRgs
