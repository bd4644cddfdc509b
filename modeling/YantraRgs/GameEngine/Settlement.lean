import YantraRgs.GameEngine.CashOut

/-! # Settling a round

`settle` takes the accepted bets of a round with a known outcome, one after the other: a losing bet
is closed, a winning bet is credited and closed, or left failed with a queued credit. Then the round
is marked settled. -/

namespace YantraRgs

open Await

/-- A bet that lost. -/
def Bet.lose (now : Millis) (b : Bet) : Bet :=
  { b with status := .settled, won := some false, wonAmountMicro := some 0, settledAt := some now }

/-- A bet whose win was credited. -/
def Bet.win (payoutMicro : Int) (winTxUuid : Uuid) (now : Millis) (b : Bet) : Bet :=
  { b with
    status := .settled
    won := some true
    wonAmountMicro := some payoutMicro
    winTransactionUuid := some winTxUuid
    settledAt := some now }

/-- A bet whose win is owed. -/
def Bet.fail (winTxUuid : Uuid) (b : Bet) : Bet :=
  { b with status := .failed, winTransactionUuid := some winTxUuid }

/-- A round whose bets are all resolved. -/
def Round.settle (totalPayoutsMicro : Int) (now : Millis) (r : Round) : Round :=
  { r with state := .settled, settled := true, settledAt := some now, totalPayoutsMicro }

namespace GameEngine

variable (env : Env) (e : EngineRef)

/-- Close a losing bet. -/
def closeLost (betId : Nat) (reason : String) : Action Unit := do
  Prog.modify fun w => w.updateBet betId (Bet.lose w.now)
  resolveHeld betId reason

/-- Write the result of a credit: the bet is closed when the operator credited it; otherwise it is
left failed with a queued credit. -/
def recordWin (gameCode : GameCode) (betId : Nat) (bet : Bet) (payoutMicro : Int)
    (winTxUuid requestUuid : Uuid) (res : WalletResponse) : Action Unit :=
  if isSuccessOrDuplicate res.status then do
    Prog.modify fun w => w.updateBet betId (Bet.win payoutMicro winTxUuid w.now)
    resolveHeld betId "WIN"
    emit e (.balanceUpdate bet.playerRef res.balanceMicro bet.currency)
  else do
    Prog.modify fun w => w.updateBet betId (Bet.fail winTxUuid)
    queueJob bet.operatorId .win betId bet.roundId
      (winPayload gameCode bet payoutMicro requestUuid winTxUuid) (some res.lastError)

/-- Credit a winning bet, or queue its credit. -/
def payWin (gameCode : GameCode) (betId : Nat) (bet : Bet) (payoutMicro : Int) : Action Unit := do
  let winTxUuid ← Action.newUuid .credit
  let requestUuid ← Action.newUuid .request
  let res ← WalletClient.invoke ⟨e.key.operatorId, some e⟩ env
    (winRequest gameCode bet payoutMicro requestUuid winTxUuid)
    ⟨some bet.sessionId, some bet.roundId, none⟩
  recordWin e gameCode betId bet payoutMicro winTxUuid requestUuid res

/-- Settle one bet and add its payout to the total. -/
def settleOne (plugin : GamePlugin) (gameCode : GameCode) (outcome : GameOutcome)
    (totalPayout : Int) (b : Nat × Bet) : Action Int := do
  let engine ← Action.engine e
  match engine with
  | none => pure totalPayout
  | some engine =>
      let result := plugin.settleBet
        { selection := b.2.selection, amountMicro := b.2.amountMicro, outcome
          config := engine.gameConfig, commissionMicro := engine.cfg.commissionMicro }
      if !result.won then
        closeLost b.1 "LOSS"
        pure totalPayout
      else
        let session ← Action.findUnique World.sessions b.2.sessionId
        match session with
        | none => pure (totalPayout + result.payoutMicro)
        | some _ =>
            payWin env e gameCode b.1 b.2 result.payoutMicro
            pure (totalPayout + result.payoutMicro)

/-- **Settle the active round.** -/
def settle (plugin : GamePlugin) : Action Unit := do
  let engine ← Action.engine e
  match engine.bind Engine.active with
  | none => pure ()
  | some active =>
      let round ← Action.findUnique World.rounds active.id
      match round, round.bind Round.outcome with
      | some round, some outcome =>
          let bets ← Action.findInOrder World.bets fun b =>
            b.roundId = active.id ∧ b.status = .accepted
          let preCashed ← Action.findInOrder World.bets fun b =>
            b.roundId = active.id ∧ b.cashoutPayoutMicro.isSome
          let totalPayout ← Prog.fold (settleOne env e plugin round.gameCode outcome)
            (preCashed.map fun b => b.2.cashoutPayoutMicro.getD 0).sum bets
          Prog.modify fun w => w.updateRound active.id (Round.settle totalPayout w.now)
          Prog.modify fun w => w.updateEngine e
            (Engine.updateActive fun a => { a with phase := .settled })
          emitPoolUpdate e active.id
      | _, _ => pure ()

end GameEngine

end YantraRgs
