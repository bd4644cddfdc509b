import Mathlib.Algebra.Ring.Int.Defs
import YantraRgs.Server.Env
import YantraRgs.Server.World

/-! # Responsible-gambling limits

Checked before a stake is taken: the rules of the jurisdiction first, then the limits of the
session, tightened by the jurisdiction's floor. A bet that was accepted but not settled counts as a
loss of its whole stake. -/

namespace YantraRgs

open Await

/-- How a bet is being placed. -/
structure BetContext where
  autoplay : Option Bool
  turbo : Option Bool
  timeSincePreviousBetMs : Option Millis
  playerKycVerified : Option Bool

/-- Whether any limit is set. -/
def hasAnyLimit (l : RGLimits) : Bool :=
  l.dailyLossMicro.isSome || l.dailyWagerMicro.isSome || l.sessionLossMicro.isSome ||
    l.sessionWagerMicro.isSome || l.sessionTimeSeconds.isSome

/-- What was staked in total. -/
def wagered (bets : List (Nat × Bet)) : Int := (bets.map fun b => b.2.amountMicro).sum

/-- What was lost in total, an open stake counting as lost. -/
def netLoss (bets : List (Nat × Bet)) : Int :=
  (bets.map fun b => b.2.amountMicro - b.2.wonAmountMicro.getD 0).sum

/-- Whether a bet counts towards the limits. -/
def Bet.counts (b : Bet) : Bool := b.status = .accepted ∨ b.status = .settled

/-- A breach, with what is left under the cap. -/
def LimitCheckResult.breach (reason : String) (remainingMicro : Int) : LimitCheckResult :=
  ⟨false, some reason, some remainingMicro⟩

/-- Compare the stake with a cap on wagers and a cap on losses. -/
def checkCaps (wager loss : Option Int) (wagerReason lossReason : String) (stakeMicro : Int)
    (bets : List (Nat × Bet)) : Option LimitCheckResult :=
  match wager.filter fun cap => cap < wagered bets + stakeMicro with
  | some cap => some (.breach wagerReason (cap - wagered bets))
  | none =>
      (loss.filter fun cap => cap < netLoss bets + stakeMicro).map fun cap =>
        .breach lossReason (cap - netLoss bets)

/-- The first millisecond of the day (UTC). -/
def dayStart (now : Millis) : Millis := now - now % 86400000

/-- The limits of a session, tightened by the floor of its jurisdiction. -/
def effectiveLimits (env : Env) (session : GameSession) : RGLimits :=
  let limits := session.rgLimits
  let floor := env.effectiveRGFloor session.jurisdiction
    ⟨limits.sessionTimeSeconds, limits.sessionLossMicro, limits.dailyLossMicro⟩
  { dailyLossMicro := floor.dailyLossMicro.orElse fun _ => limits.dailyLossMicro
    dailyWagerMicro := limits.dailyWagerMicro
    sessionLossMicro := floor.sessionLossMicro.orElse fun _ => limits.sessionLossMicro
    sessionWagerMicro := limits.sessionWagerMicro
    sessionTimeSeconds := floor.sessionTimeSeconds.orElse fun _ => limits.sessionTimeSeconds }

/-- Check the caps over a selection of bets, which is read only when a cap is set. -/
def checkCapsOver (wager loss : Option Int) (wagerReason lossReason : String) (stakeMicro : Int)
    (p : Bet → Bool) : Action (Option LimitCheckResult) :=
  if wager.isSome || loss.isSome then do
    let bets ← Action.findInOrder World.bets p
    pure (checkCaps wager loss wagerReason lossReason stakeMicro bets)
  else pure none

/-- **Every limit against an incoming stake.** -/
def checkRGLimits (env : Env) (sessionId : Nat) (session : GameSession) (stakeMicro : Int)
    (betContext : BetContext) : Action LimitCheckResult := do
  let now ← Action.now
  let jurisdictionResult := env.checkJurisdictionRules
    { jurisdiction := session.jurisdiction, stakeMicro, currency := session.currency
      timeSincePreviousBetMs := betContext.timeSincePreviousBetMs
      autoplay := betContext.autoplay, turbo := betContext.turbo, mode := session.mode
      playerKycVerified := betContext.playerKycVerified }
  let limits := effectiveLimits env session
  if !jurisdictionResult.allowed then
    pure ⟨false, jurisdictionResult.reason, jurisdictionResult.remainingMicro⟩
  else if !hasAnyLimit limits then pure ⟨true, none, none⟩
  else if limits.sessionTimeSeconds.any fun s => session.createdAt + s * 1000 ≤ now then
    pure (.breach "session_time_exceeded" 0)
  else
    let inSession ← checkCapsOver limits.sessionWagerMicro limits.sessionLossMicro
      "session_wager_exceeded" "session_loss_exceeded" stakeMicro
      fun b => b.sessionId = sessionId ∧ b.counts
    match inSession with
    | some breach => pure breach
    | none =>
        let today ← checkCapsOver limits.dailyWagerMicro limits.dailyLossMicro
          "daily_wager_exceeded" "daily_loss_exceeded" stakeMicro
          fun b => b.operatorId = session.operatorId ∧ b.playerRef = session.playerRef ∧
            b.counts ∧ dayStart now ≤ b.placedAt
        pure (today.getD ⟨true, none, none⟩)

end YantraRgs
