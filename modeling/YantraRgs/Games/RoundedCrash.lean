import YantraRgs.Games.CrashMinimal
import YantraRgs.Games.LempiCrash
import YantraRgs.Numbers.Binary64

/-! # The crash games in floating-point numbers

The multiplier of a round and the payout of a cash-out as they are computed: samples, edges, caps and
multipliers are floating-point numbers.

* **`determineOutcome`** — the multiplier of a round, from the digest of its seeds.
* **`payoutAtMultiplier`** — the payout of a cash-out.
* **`settleCrashMinimalBet`**, **`settleLempiCrashBet`**, **`settleLempiCrashCashout`** — the
  settlements. -/

namespace YantraRgs.RoundedCrash

open Crash (bits52 max52)
open LempiCrash (Slot Mode)

/-! ## Outcomes -/

/-- What a crash game is configured with, as far as its outcomes go. -/
structure OutcomeConfig where
  houseEdge : Binary64
  maxMultiplier : Binary64

/-- The outcome of a round. -/
structure OutcomeData where
  crashMultiplier : Binary64
  /-- The uniform sample that the multiplier was derived from. -/
  u : Binary64

/-- Why an outcome is refused: a number that is out of its range. -/
inductive ConfigError
  | houseEdge (got : Binary64)
  | maxMultiplier (got : Binary64)

/-- The number one. -/
def one : Binary64 := .ofNat 1

/-- The number one hundred. -/
def hundred : Binary64 := .ofNat 100

/-- The least cap. -/
def leastCap : Binary64 := .round (101 / 100) (by norm_num)

/-- The multiplier of a round. -/
def crashMultiplierOf (config : OutcomeConfig) (uRaw : Binary64) : Binary64 :=
  if uRaw.lt config.houseEdge then one
  else
    let u := (uRaw.sub config.houseEdge).div (one.sub config.houseEdge)
    let rawMultiplier := (hundred.div (one.sub u)).floor.div hundred
    (one.max rawMultiplier).min config.maxMultiplier

/-- **The outcome of a round**, from the digest of its seeds. -/
def determineOutcome (hmac : List Char) (config : OutcomeConfig) : Except ConfigError OutcomeData :=
  if one.le config.houseEdge then .error (.houseEdge config.houseEdge)
  else if config.maxMultiplier.lt leastCap then .error (.maxMultiplier config.maxMultiplier)
  else
    let uRaw := (Binary64.ofNat (bits52 hmac)).div (.ofNat max52)
    .ok ⟨crashMultiplierOf config uRaw, uRaw⟩

/-- The outcome of a round of Crash Minimal. -/
def determineCrashOutcome (hmac : List Char) (config : OutcomeConfig) :
    Except ConfigError OutcomeData :=
  determineOutcome hmac config

/-- The outcome of a round of Lempi Crash. -/
def determineLempiCrashOutcome (hmac : List Char) (config : OutcomeConfig) :
    Except ConfigError OutcomeData :=
  determineOutcome hmac config

/-! ## Payouts -/

/-- A multiplier in hundredths; there is none where the source throws. -/
def hundredths (multiplier : Binary64) : Option ℤ :=
  match multiplier.mul hundred with
  | .finite x _ => some (Crash.round x)
  | _ => none

/-- **The payout of a stake at a multiplier.** -/
def payoutAtMultiplier (amountMicro : ℤ) (multiplier : Binary64) (commissionMicro : ℤ) : Option ℤ :=
  (hundredths multiplier).map fun h => Crash.net ((amountMicro * h).tdiv 100) commissionMicro

/-- Whether a bet won and what it pays. -/
structure SettlementResult (Meta : Type) where
  won : Bool
  payoutMicro : ℤ
  winMeta : Option Meta
  deriving DecidableEq

/-- What is noted of a win of Crash Minimal. -/
structure MinimalMeta where
  cashoutMultiplier : Binary64
  crashMultiplier : Binary64
  deriving DecidableEq

/-- What is noted of a win of Lempi Crash. -/
structure LempiMeta where
  slotId : Slot
  cashoutMode : Mode
  cashoutMultiplier : Binary64
  /-- The crash multiplier, when the flight is over. -/
  crashMultiplier : Option Binary64
  deriving DecidableEq

/-- **The settlement of a bet of Crash Minimal.** -/
def settleCrashMinimalBet (cashoutMultiplier : Binary64) (amountMicro : ℤ) (outcome : OutcomeData)
    (commissionMicro : ℤ) : Option (SettlementResult MinimalMeta) :=
  if cashoutMultiplier.le outcome.crashMultiplier then
    (payoutAtMultiplier amountMicro cashoutMultiplier commissionMicro).map fun payoutMicro =>
      ⟨true, payoutMicro, some ⟨cashoutMultiplier, outcome.crashMultiplier⟩⟩
  else some ⟨false, 0, none⟩

/-- **The settlement of a bet of Lempi Crash after the flight.** -/
def settleLempiCrashBet (slotId : Slot) (autoCashoutMultiplier : Option Binary64) (amountMicro : ℤ)
    (outcome : OutcomeData) (commissionMicro : ℤ) : Option (SettlementResult LempiMeta) :=
  match autoCashoutMultiplier with
  | none => some ⟨false, 0, none⟩
  | some target =>
      if outcome.crashMultiplier.lt target then some ⟨false, 0, none⟩
      else
        (payoutAtMultiplier amountMicro target commissionMicro).map fun payoutMicro =>
          ⟨true, payoutMicro, some ⟨slotId, .auto, target, some outcome.crashMultiplier⟩⟩

/-- **The settlement of a cash-out of Lempi Crash in flight.** -/
def settleLempiCrashCashout (slotId : Slot) (amountMicro : ℤ) (cashoutMultiplier : Binary64)
    (commissionMicro : ℤ) : Option (SettlementResult LempiMeta) :=
  (payoutAtMultiplier amountMicro cashoutMultiplier commissionMicro).map fun payoutMicro =>
    ⟨true, payoutMicro, some ⟨slotId, .manual, cashoutMultiplier, none⟩⟩

end YantraRgs.RoundedCrash
