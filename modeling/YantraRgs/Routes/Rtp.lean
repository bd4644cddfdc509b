import Mathlib.Algebra.Order.Field.Rat
import YantraRgs.Db.Schema

/-! # The report of returns

The platform compares what every operator paid out in a window with the return that its configuration
declares. Volumes and returns are exact rationals.

* **`reportedConfig`** — the configuration that the report reads for an operator.
* **`rtpRow`** — the row of an operator. -/

namespace YantraRgs

/-- An operator, as the report reads it. -/
structure RtpOperator where
  id : OperatorId
  defaultCurrency : Currency
  deriving DecidableEq

/-- What the report says about an observed return. -/
inductive RtpFlag
  | ok
  | watch
  | drift
  /-- Too few rounds to say. -/
  | lowN
  deriving DecidableEq

/-- **A row of the report.** -/
structure RtpRow where
  id : OperatorId
  currency : Currency
  roundCount : Nat
  betVolumeMicro : Int
  winVolumeMicro : Int
  observedRtp : Option ℚ
  expectedRtp : ℚ
  commissionFraction : ℚ
  driftPct : Option ℚ
  flag : RtpFlag
  deriving DecidableEq

/-- The windows of the report. -/
def rtpWindow : String → Option Millis
  | "24h" => some 86400000
  | "7d" => some (7 * 86400000)
  | "30d" => some (30 * 86400000)
  | _ => none

/-- With fewer rounds the report does not compare. -/
def lowConfidenceN : Nat := 1000

/-- **The configuration that the report reads** for an operator: of several under one operator and
currency, the last one of the query. -/
def reportedConfig (configs : List OperatorGameConfig) (op : RtpOperator) : Option OperatorGameConfig :=
  configs.reverse.find? fun c => c.operatorId = op.id ∧ c.currency = op.defaultCurrency

/-- The flag of an observed return. Distances are compared by their squares: the band around the
expected return shrinks with the root of the number of rounds. -/
def rtpFlag (roundCount : Nat) (observedRtp : Option ℚ) (expectedRtp sigmaPerRound : ℚ) : RtpFlag :=
  if roundCount < lowConfidenceN then .lowN
  else match observedRtp with
    | none => .lowN
    | some observed =>
        let distance := (observed - expectedRtp) ^ 2 * roundCount
        if 9 * sigmaPerRound ^ 2 < distance then .drift
        else if 4 * sigmaPerRound ^ 2 < distance then .watch
        else .ok

/-- **The row of an operator**, over the bets settled since the start of the window. -/
def rtpRow (bets : List Bet) (configs : List OperatorGameConfig) (since : Millis) (op : RtpOperator) :
    RtpRow :=
  let own := bets.filter fun b => b.operatorId = op.id ∧ b.currency = op.defaultCurrency ∧
    b.settledAt.any (since ≤ ·)
  let settled := own.filter fun b => b.status = .settled
  let won := own.filter fun b => b.won = some true
  let commissionFraction :=
    ((reportedConfig configs op).map fun c => (c.commissionMicro : ℚ) / 100000).getD 0
  let betVol := (settled.map Bet.amountMicro).sum
  let winVol := (won.filterMap Bet.wonAmountMicro).sum
  let observedRtp : Option ℚ := if 0 < betVol then some (winVol / betVol) else none
  let expectedRtp := 1 - commissionFraction
  { id := op.id
    currency := op.defaultCurrency
    roundCount := settled.length
    betVolumeMicro := betVol
    winVolumeMicro := winVol
    observedRtp := observedRtp
    expectedRtp := expectedRtp
    commissionFraction := commissionFraction
    driftPct := observedRtp.map fun observed => (observed - expectedRtp) * 100
    flag := rtpFlag settled.length observedRtp expectedRtp (1 - commissionFraction) }

/-- **The report**: a row for every operator; another window is refused. -/
def rtpReport (operators : List RtpOperator) (bets : List Bet) (configs : List OperatorGameConfig)
    (window : Option String) (now : Millis) : Except String (List RtpRow) :=
  match rtpWindow (window.getD "7d") with
  | none => .error "invalid_window"
  | some windowMs => .ok (operators.map (rtpRow bets configs (now - windowMs)))

/-- The return that is declared for a configuration. -/
theorem expectedRtp_rtpRow {configs : List OperatorGameConfig} {op : RtpOperator}
    {config : OperatorGameConfig} (h : reportedConfig configs op = some config) (bets : List Bet)
    (since : Millis) :
    (rtpRow bets configs since op).expectedRtp = 1 - (config.commissionMicro : ℚ) / 100000 := by
  simp only [rtpRow, h, Option.map_some, Option.getD_some]

end YantraRgs
