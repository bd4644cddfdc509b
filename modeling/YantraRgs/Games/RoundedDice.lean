import YantraRgs.Games.KetapolaDice
import YantraRgs.Numbers.Binary64

/-! # The dice in floating-point numbers

The outcome of a round as it is computed: the weights, their sum, the share of the low side and the bound
are floating-point numbers.

* **`threshold`** — the bound below which a sample falls on the low side.
* **`determineOutcome`** — the outcome of a round. -/

namespace YantraRgs.RoundedDice

open Crash KetapolaDice

/-- The bound below which a sample falls on the low side. -/
def threshold (lowWeight highWeight : Binary64) : Binary64 :=
  .mul (.div lowWeight (.add lowWeight highWeight)) (.ofNat 0xffffffff)

/-- Why an outcome is refused: a weight that is not positive. -/
structure WeightError where
  lowWeight : Binary64
  highWeight : Binary64

/-- **The outcome of a round**, from the digest of its seeds. -/
def determineOutcome (hmac : Hmac) (lowWeight highWeight : Binary64) :
    Except WeightError RoundOutcome :=
  if lowWeight.isZero || highWeight.isZero then .error ⟨lowWeight, highWeight⟩
  else
    let sideValue := uint32At hmac.hex 0
    let side := if (Binary64.ofNat sideValue).lt (threshold lowWeight highWeight) then Side.low
      else Side.high
    let faceValue := uint32At hmac.hex 8
    let outcomeSum := (faces side).getD (faceValue % (faces side).length) 0
    .ok ⟨[outcomeSum], outcomeSum, side⟩

end YantraRgs.RoundedDice
