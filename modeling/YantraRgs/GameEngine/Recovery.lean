import YantraRgs.GameEngine.Settlement

/-! # Resuming unsettled rounds

On its start an engine takes every unsettled round of its key. Where the outcome is known, losing
bets are closed and winning bets are left failed with a queued credit; where it is not, the round is
voided and its accepted bets are voided with a queued rollback. -/

namespace YantraRgs

open Await

/-- A round whose outcome is not known any more. -/
def Round.void (now : Millis) (r : Round) : Round :=
  { r with state := .voided, voidedAt := some now, settled := true }

/-- A bet whose round was voided. -/
def Bet.void (b : Bet) : Bet := { b with status := .voided }

/-- Whether a round is of the given key and was left unsettled. -/
def Round.stuck (key : EngineKey) (r : Round) : Bool :=
  r.operatorId = key.operatorId ∧ r.gameCode = key.gameCode ∧ r.currency = key.currency ∧
    r.settled = false

namespace GameEngine

variable (env : Env) (e : EngineRef)

/-- The transaction noted on a bet for its win, or a new one. -/
def winTransaction (bet : Bet) : Action Uuid :=
  match bet.winTransactionUuid with
  | some uuid => pure uuid
  | none => Action.newUuid .credit

/-- Queue the credit of a bet under the transaction noted on it, or under a new one, and note the
transaction on the bet. -/
def requeueWin (r : Nat × Round) (b : Nat × Bet) (payoutMicro : Int) : Action Unit := do
  let winTxUuid ← winTransaction b.2
  let requestUuid ← Action.newUuid .request
  queueJob b.2.operatorId .win b.1 r.1
    { winPayload r.2.gameCode b.2 payoutMicro requestUuid winTxUuid with roundId := some r.1 }
    (some "resumed_from_unsettled_round")
  Prog.modify fun w => w.updateBet b.1 (Bet.fail winTxUuid)

/-- Resume one unresolved bet of a round with a known outcome, and add its payout to the total. -/
def resumeBet (plugin : GamePlugin) (r : Nat × Round) (outcome : GameOutcome) (totalPayout : Int)
    (b : Nat × Bet) : Action Int := do
  match b.2.cashoutPayoutMicro with
  | some payout => pure (totalPayout + payout)
  | none =>
      let engine ← Action.engine e
      match engine with
      | none => pure totalPayout
      | some engine =>
          let result := plugin.settleBet
            { selection := b.2.selection, amountMicro := b.2.amountMicro, outcome
              config := engine.gameConfig, commissionMicro := engine.cfg.commissionMicro }
          if !result.won then
            closeLost b.1 "LOSS_ON_RESUME"
            pure totalPayout
          else
            requeueWin r b result.payoutMicro
            pure (totalPayout + result.payoutMicro)

/-- Resume a round with a known outcome. -/
def resumeKnown (plugin : GamePlugin) (r : Nat × Round) (outcome : GameOutcome) :
    Action Unit := do
  let unresolved ← Action.findMany World.bets fun _ b =>
    b.roundId = r.1 ∧ (b.status = .accepted ∨ b.status = .failed)
  let totalPayout ← Prog.fold (resumeBet e plugin r outcome) 0 unresolved
  Prog.modify fun w => w.updateRound r.1 (Round.settle totalPayout w.now)

/-- Void one accepted bet and queue its rollback. -/
def voidBet (r : Nat × Round) (b : Nat × Bet) : Action Unit := do
  Prog.modify fun w => w.updateBet b.1 Bet.void
  Prog.modify fun w => w.updateHeld b.1 fun h =>
    { h with state := .refunded, refundedAt := some w.now, resolutionReason := some "ROUND_VOIDED" }
  let requestUuid ← Action.newUuid .request
  let transactionUuid ← Action.newUuid .refund
  queueJob b.2.operatorId .rollback b.1 r.1
    { requestUuid, transactionUuid, referenceTransactionUuid := some b.2.betTransactionUuid
      playerRef := b.2.playerRef, currency := b.2.currency, gameCode := r.2.gameCode
      amountMicro := none, roundId := some r.1 }
    none

/-- Void a round whose outcome is not known. -/
def resumeUnknown (r : Nat × Round) : Action Unit := do
  Prog.modify fun w => w.updateRound r.1 (Round.void w.now)
  let accepted ← Action.findMany World.bets fun _ b => b.roundId = r.1 ∧ b.status = .accepted
  Prog.each (voidBet r) accepted

/-- Resume one unsettled round. -/
def resumeRound (plugin : GamePlugin) (r : Nat × Round) : Action Unit :=
  match r.2.outcome with
  | some outcome => resumeKnown e plugin r outcome
  | none => resumeUnknown r

/-- **Resume every unsettled round of the engine's key.** -/
def resumeUnsettledRounds (plugin : GamePlugin) : Action Unit := do
  let stuck ← Action.findMany World.rounds fun _ r => r.stuck e.key
  Prog.each (resumeRound e plugin) stuck

end GameEngine

end YantraRgs
