import YantraRgs.Numbers.Binary64
import YantraRgs.Services.Reconciliation

/-! # Settlements of the operators

What an operator says it booked on a day is compared with the totals of the journal. How far apart the two
are is a floating-point number.

* **`OperatorSettlementInput`**, **`ReconciliationDiff`** — what an operator says, and how it compares.
* **`pctDrift`** — the difference of two amounts, as a part of ours.
* **`reconcileAgainstOperator`** — the comparison. -/

namespace YantraRgs.Reconciliation

/-- What the names in a settlement mean. -/
structure Env where
  operatorOf : Text → OperatorId
  currencyOf : Text → Currency
  /-- The instant that a date text starts at, if it is a date. -/
  dateOf : Text → Option Millis

/-- What an operator says it booked. -/
structure OperatorSettlementInput where
  operatorId : Text
  /-- `YYYY-MM-DD`, in UTC. -/
  date : Text
  currency : Text
  betsAmountMicro : Int
  winsAmountMicro : Int
  rollbacksAmountMicro : Int
  deriving DecidableEq

/-- By how much the amounts of an operator are above ours. -/
structure DriftMicro where
  bets : Int
  wins : Int
  rollbacks : Int
  net : Int
  deriving DecidableEq

inductive ReconciliationStatus
  | matched
  | minorDrift
  | majorDrift
  deriving DecidableEq

structure ReconciliationDiff where
  totalsOurs : OperatorDailyTotals
  totalsTheirs : OperatorSettlementInput
  driftMicro : DriftMicro
  /-- The greatest difference, as a part of our amount. -/
  maxDriftPct : Binary64
  status : ReconciliationStatus

/-- One part in a thousand. -/
def MINOR_DRIFT_THRESHOLD : Binary64 := .round (1 / 1000) (by norm_num)

/-- **The difference of two amounts**, as a part of ours. -/
def pctDrift (drift base : Int) : Binary64 :=
  if drift = 0 then .ofNat 0
  else if base = 0 then .infinity
  else .div (.ofNat drift.natAbs) (.ofNat base.natAbs)

/-- The differences of a settlement from our totals. -/
def driftOf (ours : OperatorDailyTotals) (settlement : OperatorSettlementInput) : DriftMicro where
  bets := settlement.betsAmountMicro - ours.betsAmountMicro
  wins := settlement.winsAmountMicro - ours.winsAmountMicro
  rollbacks := settlement.rollbacksAmountMicro - ours.rollbacksAmountMicro
  net := settlement.betsAmountMicro - settlement.winsAmountMicro - settlement.rollbacksAmountMicro -
    ours.netRevenueMicro

/-- What a difference means. -/
def statusOf (maxDriftPct : Binary64) : ReconciliationStatus :=
  if maxDriftPct.isZero then .matched
  else if maxDriftPct.lt MINOR_DRIFT_THRESHOLD then .minorDrift
  else .majorDrift

/-- **Compare a settlement with our totals**; what is no date is an error. -/
def reconcileAgainstOperator (env : Env) (w : World) (settlement : OperatorSettlementInput) :
    Except Text ReconciliationDiff :=
  match env.dateOf settlement.date with
  | none => .error ("invalid date ".toList ++ settlement.date ++ ", expected YYYY-MM-DD".toList)
  | some day =>
      let ours := w.computeDailyTotals (env.operatorOf settlement.operatorId)
        (env.currencyOf settlement.currency) day
      let drift := driftOf ours settlement
      let maxDriftPct := ((pctDrift drift.bets ours.betsAmountMicro).max
        (pctDrift drift.wins ours.winsAmountMicro)).max
          (pctDrift drift.rollbacks ours.rollbacksAmountMicro)
      .ok {
        totalsOurs := ours
        totalsTheirs := settlement
        driftMicro := drift
        maxDriftPct
        status := statusOf maxDriftPct }

end YantraRgs.Reconciliation
