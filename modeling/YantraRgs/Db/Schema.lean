import YantraRgs.GameContract

/-! # The rows of the database

Rows as the schema declares them; a row's identifier is its position in its table. Every row keeps
the columns that the modelled code reads or writes. -/

namespace YantraRgs

/-- The value of a hash over a row. -/
abbrev RowHash := Nat

/-- An operator of the platform, as far as outbound wallet calls go. -/
structure OperatorRow where
  walletCallbackUrl : Option String
  deriving DecidableEq

/-- An operator's credential. -/
structure OperatorCredential where
  operatorId : OperatorId
  /-- Whether its type is `WALLET_HMAC_OUTBOUND`. -/
  outbound : Bool
  kid : Nat
  createdAt : Millis
  revokedAt : Option Millis
  deriving DecidableEq

/-- The limits an operator set on a session. -/
structure RGLimits where
  dailyLossMicro : Option Int
  dailyWagerMicro : Option Int
  sessionLossMicro : Option Int
  sessionWagerMicro : Option Int
  sessionTimeSeconds : Option Nat
  deriving DecidableEq

/-- No limit at all. -/
def RGLimits.none : RGLimits := ⟨.none, .none, .none, .none, .none⟩

/-- Whether a session plays for real money. -/
inductive SessionMode
  | real
  | demo
  deriving DecidableEq

/-- A game session: of a player, or of an engine. -/
structure GameSession where
  operatorId : OperatorId
  playerRef : PlayerRef
  gameCode : GameCode
  currency : Currency
  jurisdiction : String
  mode : SessionMode
  rgLimits : RGLimits
  serverSeed : Seed
  serverSeedHash : SeedHash
  clientSeed : ClientSeed
  nonce : Nat
  createdAt : Millis
  expiresAt : Millis
  terminatedAt : Option Millis
  terminationReason : Option String
  deriving DecidableEq

/-- The state of a round. -/
inductive RoundState
  | pending
  | bettingOpen
  | rolling
  | result
  | settled
  | voided
  deriving DecidableEq

/-- Whether a round is over. -/
def RoundState.terminal : RoundState → Bool
  | .settled | .voided => true
  | _ => false

/-- A round. -/
structure Round where
  operatorId : OperatorId
  sessionId : Nat
  gameCode : GameCode
  currency : Currency
  nonce : Nat
  state : RoundState
  /-- `outcomeType` and `outcomeData`, which are always written together. -/
  outcome : Option GameOutcome
  gameConfigVersion : Nat
  serverSeed : Seed
  serverSeedHash : SeedHash
  clientSeed : ClientSeed
  totalBetsMicro : Int
  totalPayoutsMicro : Int
  startedAt : Millis
  rolledAt : Option Millis
  settledAt : Option Millis
  voidedAt : Option Millis
  settled : Bool
  rngVersion : Nat
  buildHash : Option Nat
  prevRowHash : Option RowHash
  rowHash : Option RowHash
  /-- The configuration that the round's engine had when it created the round. The source does not
  keep it; it is noted so that proofs can speak of it. -/
  createdUnder : Option GameMathConfig
  /-- The configuration that the outcome was drawn under, noted in the same way. -/
  drawnUnder : Option GameMathConfig
  deriving DecidableEq

/-- The status of a bet. -/
inductive BetStatus
  | pending
  | accepted
  | rejected
  | settled
  | voided
  | failed
  deriving DecidableEq

/-- How a bet was cashed out. -/
inductive CashoutMode
  | manual
  | auto
  deriving DecidableEq

/-- A bet. -/
structure Bet where
  operatorId : OperatorId
  sessionId : Nat
  roundId : Nat
  playerRef : PlayerRef
  selection : BetSelection
  selectionType : GameCode
  amountMicro : Int
  commissionMicro : Int
  currency : Currency
  status : BetStatus
  wonAmountMicro : Option Int
  won : Option Bool
  cashoutMultiplier : Option Rat
  cashoutElapsedMs : Option Millis
  cashoutMode : Option CashoutMode
  cashoutAt : Option Millis
  cashoutPayoutMicro : Option Int
  betTransactionUuid : Uuid
  winTransactionUuid : Option Uuid
  rollbackTransactionUuid : Option Uuid
  placedAt : Millis
  settledAt : Option Millis
  deriving DecidableEq

/-- The state of an entry of the pending register. -/
inductive PendingBetState
  | held
  | resolved
  | refunded
  deriving DecidableEq

/-- An entry of the register of bets whose round is in flight. -/
structure PendingRoundBet where
  operatorId : OperatorId
  betId : Nat
  roundId : Nat
  state : PendingBetState
  heldAt : Millis
  resolvedAt : Option Millis
  refundedAt : Option Millis
  resolutionReason : Option String
  deriving DecidableEq

/-- A row of the outbound call journal. -/
structure WalletCall where
  operatorId : OperatorId
  endpoint : WalletEndpoint
  requestUuid : Uuid
  transactionUuid : Option Uuid
  referenceTransactionUuid : Option Uuid
  sessionId : Option Nat
  roundId : Option Nat
  playerRef : PlayerRef
  amountMicro : Option Int
  currency : Currency
  attempt : Nat
  responseStatus : Option RsStatus
  latencyMs : Option Millis
  succeeded : Bool
  createdAt : Millis
  prevRowHash : Option RowHash
  rowHash : Option RowHash
  deriving DecidableEq

/-- What a queued wallet call is made from. -/
structure JobPayload where
  requestUuid : Uuid
  transactionUuid : Uuid
  referenceTransactionUuid : Option Uuid
  playerRef : PlayerRef
  currency : Currency
  gameCode : GameCode
  amountMicro : Option Int
  roundId : Option Nat
  deriving DecidableEq

/-- The lock on a queued wallet call: until when it stands, and the call that took it. The source
keeps the time alone; the holder is noted so that proofs can speak of it. -/
structure JobLock where
  holder : Nat
  expiresAt : Millis
  deriving DecidableEq

/-- A queued wallet call. -/
structure PendingWalletJob where
  operatorId : OperatorId
  endpoint : WalletEndpoint
  betId : Option Nat
  roundId : Option Nat
  payload : JobPayload
  attempts : Nat
  nextAttemptAt : Millis
  lastError : Option String
  lockedUntil : Option JobLock
  completedAt : Option Millis
  createdAt : Millis
  deriving DecidableEq

/-- An operator's configuration of a game; `config` is absent when the game's schema refuses it. -/
structure OperatorGameConfig where
  operatorId : OperatorId
  gameCode : GameCode
  currency : Currency
  config : Option GameMathConfig
  configVersion : Nat
  commissionMicro : Int
  minBetMicro : Int
  maxBetMicro : Int
  bettingWindowMs : Millis
  rollingWindowMs : Millis
  deriving DecidableEq

/-- A change of a stored configuration: the columns it gives. `config` is given as the game's schema
reads it, which the endpoint does not wait for. -/
structure GameConfigPatch where
  config : Option (Option GameMathConfig)
  commissionMicro : Option Int
  minBetMicro : Option Int
  maxBetMicro : Option Int
  bettingWindowMs : Option Millis
  rollingWindowMs : Option Millis

/-- The configuration after a change. -/
def OperatorGameConfig.patch (patch : GameConfigPatch) (c : OperatorGameConfig) :
    OperatorGameConfig :=
  { c with
    config := patch.config.getD c.config
    commissionMicro := patch.commissionMicro.getD c.commissionMicro
    minBetMicro := patch.minBetMicro.getD c.minBetMicro
    maxBetMicro := patch.maxBetMicro.getD c.maxBetMicro
    bettingWindowMs := patch.bettingWindowMs.getD c.bettingWindowMs
    rollingWindowMs := patch.rollingWindowMs.getD c.rollingWindowMs }

end YantraRgs
