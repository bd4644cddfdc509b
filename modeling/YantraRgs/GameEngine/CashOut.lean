import Mathlib.Algebra.Order.Ring.Unbundled.Rat
import YantraRgs.GameEngine.Betting

/-! # Cashing out of a live round

A player asks for a cash-out, or the engine's poll of the flight finds that a bet has reached its
automatic multiplier. Either way `cashOutBet` reads the bet, credits the win, and only then writes
the bet. -/

namespace YantraRgs

open Await

/-- A cash-out of one bet. -/
structure CashOutParams where
  sessionId : Nat
  operatorId : OperatorId
  currency : Currency
  betId : Nat
  slotId : Option Nat
  mode : CashoutMode
  forcedMultiplier : Option Rat

/-- A bet that was cashed out. -/
def Bet.cashOut (mode : CashoutMode) (multiplier : Rat) (elapsedMs : Millis) (payoutMicro : Int)
    (winTxUuid : Uuid) (status : BetStatus) (now : Millis) (b : Bet) : Bet :=
  { b with
    won := some true
    wonAmountMicro := some payoutMicro
    winTransactionUuid := some winTxUuid
    cashoutMultiplier := some multiplier
    cashoutElapsedMs := some elapsedMs
    cashoutMode := some mode
    cashoutAt := some now
    cashoutPayoutMicro := some payoutMicro
    status
    settledAt := if status = .settled then some now else b.settledAt }

namespace GameEngine

variable (env : Env) (e : EngineRef)

/-- The live cash-outs of the engine's game. -/
def live? : Option LiveCrashSupport := (env.getPlugin e.key.gameCode).bind GamePlugin.liveCrash

/-- The credit of a bet. -/
def winRequest (gameCode : GameCode) (bet : Bet) (payoutMicro : Int)
    (requestUuid winTxUuid : Uuid) : WalletRequest where
  endpoint := .win
  requestUuid := requestUuid
  transactionUuid := some winTxUuid
  referenceTransactionUuid := some bet.betTransactionUuid
  operatorId := bet.operatorId
  playerRef := bet.playerRef
  currency := bet.currency
  gameCode := gameCode
  amountMicro := some payoutMicro
  roundId := some bet.roundId

/-- The queued form of the credit of a bet. -/
def winPayload (gameCode : GameCode) (bet : Bet) (payoutMicro : Int)
    (requestUuid winTxUuid : Uuid) : JobPayload where
  requestUuid := requestUuid
  transactionUuid := winTxUuid
  referenceTransactionUuid := some bet.betTransactionUuid
  playerRef := bet.playerRef
  currency := bet.currency
  gameCode := gameCode
  amountMicro := some payoutMicro
  roundId := some bet.roundId

/-- Close the held entry of a bet. -/
def resolveHeld (betId : Nat) (reason : String) : Action Unit :=
  Prog.modify fun w => w.updateHeld betId fun b =>
    { b with state := .resolved, resolvedAt := some w.now, resolutionReason := some reason }

/-- The reason noted on the register when a cash-out resolves a bet. -/
def cashoutReason : CashoutMode → String
  | .manual => "MANUAL_CASHOUT"
  | .auto => "AUTO_CASHOUT"

/-- Write the result of a cash-out: the bet is closed when the operator credited it; otherwise it is
left failed with a queued credit. -/
def recordCashOut (mode : CashoutMode) (betId : Nat) (bet : Bet) (multiplier : Rat)
    (elapsedMs : Millis) (payoutMicro : Int) (winTxUuid requestUuid : Uuid)
    (res : WalletResponse) : Action Unit :=
  if isSuccessOrDuplicate res.status then do
    Prog.modify fun w => w.updateBet betId
      (Bet.cashOut mode multiplier elapsedMs payoutMicro winTxUuid .settled w.now)
    resolveHeld betId (cashoutReason mode)
    Action.emit (.session bet.sessionId) (.balanceUpdate bet.playerRef res.balanceMicro bet.currency)
  else do
    Prog.modify fun w => w.updateBet betId
      (Bet.cashOut mode multiplier elapsedMs payoutMicro winTxUuid .failed w.now)
    queueJob bet.operatorId .win betId bet.roundId
      (winPayload e.key.gameCode bet payoutMicro requestUuid winTxUuid) (some res.lastError)

/-- Credit a cash-out, write the bet and tell everyone. -/
def payCashOut (p : CashOutParams) (bet : Bet) (slotId : Option Nat) (multiplier : Rat)
    (elapsedMs : Millis) (payoutMicro : Int) : Action Answer := do
  let winTxUuid ← Action.newUuid .credit
  let requestUuid ← Action.newUuid .request
  let res ← WalletClient.invoke ⟨e.key.operatorId, some e⟩ env
    (winRequest e.key.gameCode bet payoutMicro requestUuid winTxUuid)
    ⟨some bet.sessionId, some bet.roundId, none⟩
  recordCashOut e p.mode p.betId bet multiplier elapsedMs payoutMicro winTxUuid requestUuid res
  let told (accepted : Bool) := Emission.cashout accepted bet.roundId p.betId slotId
    (maskPlayerRef bet.playerRef) p.mode multiplier payoutMicro elapsedMs
  Action.emit (.session bet.sessionId) (told true)
  emit e (told false)
  emitPoolUpdate e bet.roundId
  pure (.cashedOut p.betId multiplier payoutMicro (!isSuccessOrDuplicate res.status))

/-- The cash-out of a bet that was read as accepted, in the round object `n`. -/
def cashOutAccepted (live : LiveCrashSupport) (p : CashOutParams) (n : Nat)
    (crashMultiplier : Rat) (bet : Bet) : Action Answer := do
  let slotId := live.slotId bet.selection
  if p.slotId.isSome ∧ slotId.isSome ∧ p.slotId ≠ slotId then pure (.refused "slot_mismatch")
  else
    let now ← Action.now
    let engine ← Action.engine e
    match engine, engine.bind fun engine => engine.actives[n]? with
    | some engine, some active =>
        let elapsedMs := now - active.phaseStartedAt
        let crashAtMs := active.crashAtMs.getD
          (live.elapsedMsForMultiplier crashMultiplier engine.gameConfig)
        if crashAtMs ≤ elapsedMs ∨ crashMultiplier ≤ 1 then do
          Action.emit (.session p.sessionId) (.cashoutRejected p.betId slotId "too_late")
          pure (.refused "too_late")
        else
          let currentMultiplier := live.multiplierAtElapsedMs elapsedMs engine.gameConfig
          let multiplier := min (min (p.forcedMultiplier.getD currentMultiplier) currentMultiplier)
            crashMultiplier
          let settled := live.settleCashout
            { selection := bet.selection, amountMicro := bet.amountMicro
              cashoutMultiplier := multiplier, config := engine.gameConfig
              commissionMicro := bet.commissionMicro }
          if settled.won then
            payCashOut env e p bet slotId multiplier elapsedMs settled.payoutMicro
          else pure (.refused "cashout_rejected")
    | _, _ => pure (.refused "cashout_unavailable")

/-- The crash multiplier of the active round while it is in flight, and the round object. -/
def flight (engine : Engine) : Option (ActiveRound × Rat) :=
  engine.active.bind fun active =>
    if active.phase = .rolling then
      (active.outcome.bind GameOutcome.crashMultiplier?).map fun m => (active, m)
    else none

/-- **Cash a bet out.** -/
def cashOutBet (p : CashOutParams) : Action Answer := do
  let engine ← Action.engine e
  match live? env e, engine, engine.bind flight with
  | some live, some engine, some (active, crashMultiplier) =>
      if p.operatorId ≠ e.key.operatorId ∨ p.currency ≠ e.key.currency then
        pure (.refused "engine_mismatch")
      else do
        let bet ← Action.findUnique World.bets p.betId
        match bet.filter fun b => b.sessionId = p.sessionId ∧ b.roundId = active.id with
        | none => pure (.refused "bet_not_found")
        | some bet =>
            match bet.cashoutMultiplier, bet.cashoutPayoutMicro with
            | some m, some payout =>
                pure (.cashedOut p.betId m payout (decide (bet.status = .failed)))
            | _, _ =>
                if bet.status ≠ .accepted then pure (.refused "bet_not_cashoutable")
                else cashOutAccepted env e live p (engine.actives.length - 1) crashMultiplier bet
  | _, _, _ => pure (.refused "cashout_unavailable")

/-- Whether a round is in flight. -/
def inFlight (engine : Option Engine) : Bool :=
  (engine.bind Engine.active).any fun active => active.phase = .rolling

/-- **A player cashes out.** -/
def cashOut (p : CashOutParams) : Action Answer := do
  let engine ← Action.engine e
  if (live? env e).isSome ∧ inFlight engine then
    cashOutBet env e { p with mode := .manual, forcedMultiplier := none }
  else pure (.refused "cashout_unavailable")

/-- **The poll of the flight**: cash out every accepted bet whose automatic multiplier is reached. -/
def processAutoCashouts (live : LiveCrashSupport) (currentMultiplier : Rat) : Action Unit := do
  let engine ← Action.engine e
  match engine.bind Engine.active with
  | none => pure ()
  | some active =>
      if active.phase ≠ .rolling then pure ()
      else
        let bets ← Action.findInOrder World.bets fun b =>
          b.roundId = active.id ∧ b.status = .accepted ∧ b.cashoutAt = none
        Prog.each (fun (b : Nat × Bet) =>
          match live.autoCashoutMultiplier b.2.selection with
          | none => pure ()
          | some target =>
              if currentMultiplier < target then pure ()
              else do
                let _ ← cashOutBet env e
                  { sessionId := b.2.sessionId, operatorId := b.2.operatorId
                    currency := b.2.currency, betId := b.1, slotId := live.slotId b.2.selection
                    mode := .auto, forcedMultiplier := some target }
                pure ()) bets

end GameEngine

end YantraRgs
