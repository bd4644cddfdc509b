import YantraRgs.Server.Env
import YantraRgs.Server.World

/-! # Proofs, replays and dispute packs of rounds

The endpoints that show a round to its operator. Each of them reveals the server seed of a round
that is settled or voided, and of no other. -/

namespace YantraRgs

open Await

/-- Whether the state of a round lets its server seed be revealed. -/
def Round.revealed (r : Round) : Option Seed := if r.state.terminal then some r.serverSeed else none

/-- What a proof says about a round. -/
def Round.proof (id : Nat) (r : Round) : RoundProof where
  roundId := id
  state := r.state
  nonce := r.nonce
  rngVersion := r.rngVersion
  buildHash := r.buildHash
  clientSeed := r.clientSeed
  serverSeedHash := r.serverSeedHash
  serverSeed := r.revealed
  outcome := r.outcome

namespace ProofService

/-- **The proof of a round**, for the given operator. -/
def forRound (roundId : Nat) (operatorId : Option OperatorId) : Action Answer := do
  let round ← Action.findUnique World.rounds roundId
  match round.filter fun r => operatorId.all (· = r.operatorId) with
  | none => pure (.httpError 404 "round_not_found")
  | some r => pure (.proof (r.proof roundId))

end ProofService

/-- The operator's configuration of a round's game. -/
def findGameConfig (operatorId : OperatorId) (gameCode : GameCode) (currency : Currency) :
    Action (Option OperatorGameConfig) :=
  Prog.query fun w => w.gameConfigs.find? fun c =>
    c.operatorId = operatorId ∧ c.gameCode = gameCode ∧ c.currency = currency

/-- Recompute the outcome of a revealed round, and say whether it matches the stored one. -/
def recompute (env : Env) (r : Round) (gameConfig : Option OperatorGameConfig) :
    Option (GameOutcome × Bool) := do
  let serverSeed ← r.revealed
  let gameConfig ← gameConfig
  let outcome ← r.outcome
  let plugin ← env.getPlugin r.gameCode
  let config ← gameConfig.config
  some (outcome, plugin.verifyOutcome ⟨serverSeed, r.clientSeed, r.nonce⟩ config outcome)

/-- The replay bundle of a round. -/
def replayBundle (env : Env) (id : Nat) (r : Round) (bets : List (Nat × Bet))
    (calls : List (Nat × WalletCall)) (gameConfig : Option OperatorGameConfig) : ReplayBundle where
  roundId := id
  operatorId := r.operatorId
  sessionId := r.sessionId
  gameCode := r.gameCode
  currency := r.currency
  rngVersion := r.rngVersion
  buildHash := r.buildHash
  nonce := r.nonce
  state := r.state
  config := gameConfig
  serverSeed := r.revealed
  serverSeedHash := r.serverSeedHash
  clientSeed := r.clientSeed
  revealAllowed := r.state.terminal
  outcome := r.outcome
  recomputedOutcome := recompute env r gameConfig
  startedAt := r.startedAt
  rolledAt := r.rolledAt
  settledAt := r.settledAt
  voidedAt := r.voidedAt
  totalBetsMicro := r.totalBetsMicro
  totalPayoutsMicro := r.totalPayoutsMicro
  bets := bets
  walletCallChain := calls
  prevRowHash := r.prevRowHash
  rowHash := r.rowHash

/-- **The replay endpoint.** -/
def roundReplay (env : Env) (roundId : Nat) (operatorId : OperatorId) : Action Answer := do
  let (round, bets, calls) ← Prog.query fun w =>
    (w.rounds[roundId]?, Table.select (fun b => decide (b.roundId = roundId)) w.bets,
      Table.select (fun c => decide (c.roundId = some roundId)) w.walletCalls)
  match round.filter fun r => r.operatorId = operatorId with
  | none => pure (.httpError 404 "round_not_found")
  | some r =>
      let gameConfig ← findGameConfig r.operatorId r.gameCode r.currency
      pure (.replay (replayBundle env roundId r bets calls gameConfig))

/-- Which transaction of a bet a uuid names. -/
def Bet.role (b : Bet) (uuid : Uuid) : TransactionRole :=
  if b.betTransactionUuid = uuid then .bet
  else if b.winTransactionUuid = some uuid then .win
  else .rollback

/-- Whether a uuid names one of a bet's transactions. -/
def Bet.hasTransaction (b : Bet) (uuid : Uuid) : Bool :=
  b.betTransactionUuid = uuid ∨ b.winTransactionUuid = some uuid ∨
    b.rollbackTransactionUuid = some uuid

/-- Whether a journal row belongs to a bet or to its round. -/
def Bet.owns (b : Bet) (c : WalletCall) : Bool :=
  c.roundId = some b.roundId ∨ c.transactionUuid = some b.betTransactionUuid ∨
    (b.winTransactionUuid.isSome ∧ c.transactionUuid = b.winTransactionUuid) ∨
    (b.rollbackTransactionUuid.isSome ∧ c.transactionUuid = b.rollbackTransactionUuid)

/-- **The dispute pack of a transaction.** -/
def buildDisputePack (env : Env) (operatorId : OperatorId) (transactionUuid : Uuid) :
    Action Answer := do
  let found ← Action.findFirstWith World.bets
    (fun b => b.operatorId = operatorId ∧ b.hasTransaction transactionUuid)
    fun w betId b => (w.rounds[b.roundId]?, w.pendingRoundBets.find? fun h => h.betId = betId)
  match found with
  | some (betId, bet, some r, pendingState) =>
      let calls ← Action.findInOrder World.walletCalls fun c =>
        c.operatorId = operatorId ∧ bet.owns c
      let gameConfig ← findGameConfig operatorId r.gameCode bet.currency
      let generatedAt ← Action.now
      pure (.disputePack
        { generatedAt, transactionUuid, resolvedRole := bet.role transactionUuid, betId, bet
          pendingState, round := r.proof bet.roundId, gameConfig
          provablyFairCheck := (recompute env r gameConfig).map Prod.snd
          walletCallChain := calls })
  -- a bet's round exists, by the foreign key
  | _ => pure (.httpError 404 "transaction_not_found")

end YantraRgs
