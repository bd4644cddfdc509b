import YantraRgs.Server.RGLimitsEnforcer
import YantraRgs.Wallet.Client

/-! # Placing a bet

`placeBet` checks the phase, the session and the limits, creates the bet as pending, asks the
operator for the stake and then accepts the bet, rejects it, or, when the answer leaves the debit
uncertain, rejects it and queues a rollback. -/

namespace YantraRgs

open Await

/-- What a socket asks when it places a bet. -/
structure PlaceBetParams where
  sessionId : Nat
  playerRef : PlayerRef
  operatorId : OperatorId
  currency : Currency
  amountMicro : Int
  selection : BetSelection
  autoplay : Option Bool
  turbo : Option Bool

/-- The bets that a pool update counts. -/
def Bet.inPool (b : Bet) : Bool :=
  b.status = .accepted ∨ b.status = .settled ∨ b.status = .failed

/-- The payload of a pool update. -/
def poolUpdate (roundId : Nat) (bets : List (Nat × Bet)) : Emission :=
  .poolUpdate roundId bets.length
    (bets.filter fun b => b.2.cashoutMultiplier.isSome).length
    (bets.map fun b => b.2.amountMicro).sum
    (bets.map fun b => b.2.cashoutPayoutMicro.getD 0).sum
    ((bets.drop (bets.length - 12)).map fun b =>
      ⟨b.1, maskPlayerRef b.2.playerRef, b.2.amountMicro, b.2.cashoutMultiplier,
        b.2.cashoutPayoutMicro⟩)

namespace GameEngine

variable (env : Env) (e : EngineRef)

/-- Emit to the room of the engine. -/
def emit (x : Emission) : Action Unit := Action.emit (.game e.key) x

/-- Tell the room about the first fifty bets of a round. -/
def emitPoolUpdate (roundId : Nat) : Action Unit := do
  let bets ← Action.findInOrder World.bets fun b => b.roundId = roundId ∧ b.inPool
  emit e (poolUpdate roundId (bets.take 50))

/-- A bet before the operator was asked for the stake. -/
def newBet (p : PlaceBetParams) (roundId : Nat) (commissionMicro : Int) (txUuid : Uuid)
    (now : Millis) : Bet where
  operatorId := p.operatorId
  sessionId := p.sessionId
  roundId := roundId
  playerRef := p.playerRef
  selection := p.selection
  selectionType := e.key.gameCode
  amountMicro := p.amountMicro
  commissionMicro := commissionMicro
  currency := p.currency
  status := .pending
  wonAmountMicro := none
  won := none
  cashoutMultiplier := none
  cashoutElapsedMs := none
  cashoutMode := none
  cashoutAt := none
  cashoutPayoutMicro := none
  betTransactionUuid := txUuid
  winTransactionUuid := none
  rollbackTransactionUuid := none
  placedAt := now
  settledAt := none

/-- The request for the stake of a bet. -/
def betRequest (p : PlaceBetParams) (roundId : Nat) (requestUuid txUuid : Uuid) :
    WalletRequest where
  endpoint := .bet
  requestUuid := requestUuid
  transactionUuid := some txUuid
  referenceTransactionUuid := none
  operatorId := p.operatorId
  playerRef := p.playerRef
  currency := p.currency
  gameCode := e.key.gameCode
  amountMicro := some p.amountMicro
  roundId := some roundId

/-- Queue a wallet call of a bet, for the next tick of the job runner. -/
def queueJob (operatorId : OperatorId) (endpoint : WalletEndpoint) (betId roundId : Nat)
    (payload : JobPayload) (lastError : Option String) : Action Unit :=
  Prog.modify fun w => w.addJob
    { operatorId, endpoint, betId := some betId, roundId := some roundId, payload, attempts := 0
      nextAttemptAt := w.now, lastError, lockedUntil := none, completedAt := none
      createdAt := w.now }

/-- Refuse a bet, telling the session why. -/
def rejectBet (sessionId : Nat) (reason : String) (remainingMicro : Option Int) : Action Unit :=
  Action.emit (.session sessionId) (.betRejected reason remainingMicro)

/-- The bet was debited: accept it and tell everyone. -/
def acceptBet (p : PlaceBetParams) (roundId betId : Nat) (res : WalletResponse) :
    Action Answer := do
  Prog.modify fun w => w.updateBet betId fun b => { b with status := .accepted }
  Prog.modify fun w => w.addPendingRoundBet
    { operatorId := p.operatorId, betId, roundId, state := .held, heldAt := w.now
      resolvedAt := none, refundedAt := none, resolutionReason := none }
  Prog.modify fun w => w.updateRound roundId fun r =>
    { r with totalBetsMicro := r.totalBetsMicro + p.amountMicro }
  Action.emit (.session p.sessionId) (.balanceUpdate p.playerRef res.balanceMicro p.currency)
  emit e (.betPlaced roundId betId (maskPlayerRef p.playerRef) p.selection p.amountMicro)
  emitPoolUpdate e roundId
  pure (.betPlaced betId)

/-- The operator refused the debit. -/
def declineBet (p : PlaceBetParams) (betId : Nat) (status : RsStatus) : Action Answer := do
  Prog.modify fun w => w.updateBet betId fun b => { b with status := .rejected }
  rejectBet p.sessionId status.text none
  pure (.refused status.text)

/-- Nobody knows whether the stake was debited: reject the bet and queue a rollback. -/
def compensateBet (p : PlaceBetParams) (roundId betId : Nat) (txUuid : Uuid)
    (res : WalletResponse) : Action Answer := do
  Prog.modify fun w => w.updateBet betId fun b => { b with status := .rejected }
  let requestUuid ← Action.newUuid .request
  let transactionUuid ← Action.newUuid .refund
  queueJob p.operatorId .rollback betId roundId
    { requestUuid, transactionUuid, referenceTransactionUuid := some txUuid
      playerRef := p.playerRef, currency := p.currency, gameCode := e.key.gameCode
      amountMicro := none, roundId := some roundId }
    (some res.lastError)
  rejectBet p.sessionId (if res.status = .timeout then "wallet_timeout" else "wallet_error") none
  pure (.refused res.status.text)

/-- Take the stake of a bet that passed every check. -/
def takeStake (p : PlaceBetParams) (round : ActiveRound) : Action Answer := do
  let txUuid ← Action.newUuid .stake
  let requestUuid ← Action.newUuid .request
  let betId ← Prog.request fun _ w =>
    let commissionMicro := ((w.engine? e).map fun engine => engine.cfg.commissionMicro).getD 0
    (w.bets.length, w.addBet (newBet e p round.id commissionMicro txUuid w.now))
  let res ← WalletClient.invoke ⟨e.key.operatorId, some e⟩ env
    (betRequest e p round.id requestUuid txUuid) ⟨some p.sessionId, some round.id, none⟩
  if isSuccessOrDuplicate res.status then acceptBet e p round.id betId res
  else if isRejectStatus res.status then declineBet p betId res.status
  else compensateBet e p round.id betId txUuid res

/-- The session's last counted bet in another round; a live game does not ask for it. -/
def previousBet (sessionId roundId : Nat) : Action (Option Bet) :=
  if ((env.getPlugin e.key.gameCode).bind GamePlugin.liveCrash).isSome then pure none
  else Prog.query fun w =>
    (w.bets.filter fun b => b.sessionId = sessionId ∧ b.roundId ≠ roundId ∧ b.counts).getLast?

/-- Check the limits of the session, then take the stake. -/
def checkLimits (p : PlaceBetParams) (round : ActiveRound) (session : GameSession) :
    Action Answer := do
  let previousBet ← previousBet env e p.sessionId round.id
  let now ← Action.now
  let rgCheck ← checkRGLimits env p.sessionId session p.amountMicro
    { autoplay := p.autoplay, turbo := p.turbo
      timeSincePreviousBetMs := previousBet.map fun b => now - b.placedAt
      playerKycVerified := none }
  if rgCheck.allowed then takeStake env e p round
  else
    let reason := rgCheck.reason.getD "rg_limit_reached"
    rejectBet p.sessionId reason rgCheck.remainingMicro
    if rgCheck.reason = some "session_time_exceeded" then
      Prog.modify fun w => w.updateSession p.sessionId fun s =>
        { s with
          terminatedAt := some w.now
          terminationReason := some "rg_session_time_exceeded" }
      pure (.refused reason)
    else pure (.refused reason)

/-- **Place a bet** in the round that the engine has open. -/
def placeBet (p : PlaceBetParams) : Action Answer := do
  let engine ← Action.engine e
  match engine, engine.bind Engine.active with
  | some engine, some round =>
      if round.phase ≠ .bettingOpen then pure (.refused "betting_closed")
      else if p.operatorId ≠ e.key.operatorId ∨ p.currency ≠ e.key.currency then
        pure (.refused "engine_mismatch")
      else if p.amountMicro < engine.cfg.minBetMicro ∨ engine.cfg.maxBetMicro < p.amountMicro then do
        rejectBet p.sessionId "bet_out_of_range" none
        pure (.refused "bet_out_of_range")
      else do
        let session ← Action.findUnique World.sessions p.sessionId
        match session with
        | none => do
            rejectBet p.sessionId "session_not_found" none
            pure (.refused "session_not_found")
        | some session =>
            let now ← Action.now
            if session.terminatedAt.isSome then do
              rejectBet p.sessionId "session_terminated" none
              pure (.refused "session_terminated")
            else if session.expiresAt ≤ now then do
              rejectBet p.sessionId "session_expired" none
              pure (.refused "session_expired")
            else checkLimits env e p round session
  | _, _ => pure (.refused "betting_closed")

end GameEngine

end YantraRgs
