import Mathlib.Data.Rat.Floor
import Mathlib.Tactic.NormNum

/-! # The mathematics of the crash games

Both crash games derive the multiplier of a round from one uniform sample, and pay a cash-out by
scaling its multiplier to hundredths. Their numbers are exact rationals.

* **`determineOutcome`** — the multiplier of a round, from the digest of its seeds.
* **`payoutAtMultiplier`** — the payout of a cash-out. -/

namespace YantraRgs.Crash

/-! ## Outcomes -/

/-- What a crash game is configured with, as far as its outcomes go. -/
structure OutcomeConfig where
  /-- The probability of a bust before the flight. -/
  houseEdge : ℚ
  /-- The cap on multipliers. -/
  maxMultiplier : ℚ
  deriving DecidableEq

/-- The outcome of a round. -/
structure OutcomeData where
  crashMultiplier : ℚ
  /-- The uniform sample that the multiplier was derived from. -/
  u : ℚ
  deriving DecidableEq

/-- Why an outcome is refused: a number that is out of its range. -/
inductive ConfigError
  | houseEdge (got : ℚ)
  | maxMultiplier (got : ℚ)
  deriving DecidableEq

/-- The text of an error, with numbers written by `number`. -/
def ConfigError.message (number : ℚ → String) : ConfigError → String
  | .houseEdge got => "houseEdge must be in [0, 1), got " ++ number got
  | .maxMultiplier got => "maxMultiplier must be >= 1.01, got " ++ number got

/-- The value of a hexadecimal digit. -/
def hexDigit (c : Char) : Nat :=
  if '0' ≤ c ∧ c ≤ '9' then c.toNat - '0'.toNat else c.toNat - 'a'.toNat + 10

/-- The lower-case hexadecimal digit of a value. -/
def hexChar (d : Nat) : Char := Char.ofNat (if d < 10 then '0'.toNat + d else 'a'.toNat + (d - 10))

theorem hexDigit_hexChar : ∀ d < 16, hexDigit (hexChar d) = d := by decide

/-- The value of a hexadecimal text. -/
def hexValue (digits : List Char) : Nat := digits.foldl (fun n c => 16 * n + hexDigit c) 0

/-- The number of samples: the first fifty-two bits of a digest. -/
def max52 : Nat := 2 ^ 52

/-- The first fifty-two bits of a digest. -/
def bits52 (hmac : List Char) : Nat := hexValue (hmac.take 13)

/-- The multiplier of a round. A sample below the house edge is a bust; the others are stretched over
the unit interval again. -/
def crashMultiplierOf (config : OutcomeConfig) (uRaw : ℚ) : ℚ :=
  if uRaw < config.houseEdge then 1
  else
    let u := (uRaw - config.houseEdge) / (1 - config.houseEdge)
    let rawMultiplier : ℚ := ⌊100 / (1 - u)⌋ / 100
    min (max 1 rawMultiplier) config.maxMultiplier

/-- **The outcome of a round**, from the digest of its seeds. -/
def determineOutcome (hmac : List Char) (config : OutcomeConfig) :
    Except ConfigError OutcomeData :=
  if config.houseEdge < 0 ∨ 1 ≤ config.houseEdge then .error (.houseEdge config.houseEdge)
  else if config.maxMultiplier < 101 / 100 then .error (.maxMultiplier config.maxMultiplier)
  else
    let uRaw : ℚ := bits52 hmac / max52
    .ok ⟨crashMultiplierOf config uRaw, uRaw⟩

/-! ## Payouts -/

/-- The nearest integer; halves are rounded up. -/
def round (x : ℚ) : ℤ := ⌊x + 1 / 2⌋

/-- What is left of a gross payout after the commission. -/
def net (gross commissionMicro : ℤ) : ℤ :=
  if commissionMicro < gross then gross - commissionMicro else 0

/-- **The payout of a stake at a multiplier.** -/
def payoutAtMultiplier (amountMicro : ℤ) (multiplier : ℚ) (commissionMicro : ℤ) : ℤ :=
  let hundredths := round (multiplier * 100)
  let gross := (amountMicro * hundredths).tdiv 100
  net gross commissionMicro

end YantraRgs.Crash
