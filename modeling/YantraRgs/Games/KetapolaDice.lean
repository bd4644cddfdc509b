import YantraRgs.GameContract
import YantraRgs.Games.Crash

/-! # The mathematics of Ketapola Dice

A round draws a side by the weights of its operator, and a face of that side; a bet on the side of
the round is paid double, less a flat commission.

* **`Hmac`** — a digest of the seeds of a round, and its text.
* **`determineOutcome`** — the outcome of a round, from its digest.
* **`settleKetapolaDiceBet`** — the settlement of a bet. -/

namespace YantraRgs.KetapolaDice

open Crash

/-! ## Digests -/

/-- **A digest**: thirty-two bytes. -/
structure Hmac where
  bytes : List (Fin 256)
  length_eq : bytes.length = 32

/-- The hexadecimal text of some bytes. -/
def hexOf (bytes : List (Fin 256)) : List Char :=
  bytes.flatMap fun b => [hexChar (b.val / 16), hexChar (b.val % 16)]

/-- The text of a digest. -/
def Hmac.hex (h : Hmac) : List Char := hexOf h.bytes

/-- Thirty-two bits of a hexadecimal text. -/
def uint32At (hmacHex : List Char) (hexOffset : Nat) : Nat :=
  hexValue ((hmacHex.drop hexOffset).take 8)

/-! ## Outcomes -/

/-- The faces of the low side. -/
def lowFaces : List Nat := [3, 6, 9]

/-- The faces of the high side. -/
def highFaces : List Nat := [12, 15, 18]

/-- The faces of a side. -/
def faces : Side → List Nat
  | .low => lowFaces
  | .high => highFaces

structure RoundOutcome where
  diceValues : List Nat
  outcomeSum : Nat
  outcomeSide : Side
  deriving DecidableEq

/-- Why an outcome is refused: a weight that is not positive. -/
structure WeightError where
  lowWeight : Int
  highWeight : Int
  deriving DecidableEq

/-- The text of an error. -/
def WeightError.message (e : WeightError) : String :=
  "weights must be positive, got low=" ++ toString e.lowWeight ++ " high=" ++ toString e.highWeight

/-- The bound below which a sample falls on the low side. It is no whole number in general. -/
def threshold (lowWeight highWeight : Int) : ℚ :=
  lowWeight / (lowWeight + highWeight) * 0xffffffff

/-- **The outcome of a round**, from the digest of its seeds. -/
def determineOutcome (hmac : Hmac) (lowWeight highWeight : Int) :
    Except WeightError RoundOutcome :=
  if lowWeight ≤ 0 ∨ highWeight ≤ 0 then .error ⟨lowWeight, highWeight⟩
  else
    let sideValue := uint32At hmac.hex 0
    let side := if (sideValue : ℚ) < threshold lowWeight highWeight then Side.low else Side.high
    let faceValue := uint32At hmac.hex 8
    let outcomeSum := (faces side).getD (faceValue % (faces side).length) 0
    .ok ⟨[outcomeSum], outcomeSum, side⟩

/-- Whether a claimed outcome is the one of a digest. -/
def verifyOutcome (hmac : Hmac) (lowWeight highWeight : Int) (claimed : RoundOutcome) :
    Except WeightError Bool :=
  (determineOutcome hmac lowWeight highWeight).map fun recomputed =>
    recomputed.outcomeSum = claimed.outcomeSum && recomputed.outcomeSide = claimed.outcomeSide

/-! ## Settlement -/

/-- **The settlement of a bet.** -/
def settleKetapolaDiceBet (selection : Side) (amountMicro : Int) (outcome : RoundOutcome)
    (commissionMicro : Int) : SettlementResult :=
  let won := selection = outcome.outcomeSide
  if ¬ won then ⟨false, 0⟩
  else
    let gross := amountMicro * 2
    ⟨true, if commissionMicro < gross then gross - commissionMicro else 0⟩

/-! ## What a digest is read as -/

/-- The number that some bytes spell, the first one the highest. -/
def uint32be (bytes : List (Fin 256)) : Nat := bytes.foldl (fun n b => 256 * n + b.val) 0

theorem hexOf_cons (b : Fin 256) (bytes : List (Fin 256)) : hexOf (b :: bytes) =
    hexChar (b.val / 16) :: hexChar (b.val % 16) :: hexOf bytes := rfl

theorem take_hexOf (k : Nat) (bytes : List (Fin 256)) :
    (hexOf bytes).take (2 * k) = hexOf (bytes.take k) := by
  induction k generalizing bytes with
  | zero => rfl
  | succ k ih =>
      cases bytes with
      | nil => rfl
      | cons b bytes =>
          rw [hexOf_cons, Nat.mul_succ, List.take_succ_cons, List.take_succ_cons, ih bytes,
            List.take_succ_cons, hexOf_cons]

theorem drop_hexOf (k : Nat) (bytes : List (Fin 256)) :
    (hexOf bytes).drop (2 * k) = hexOf (bytes.drop k) := by
  induction k generalizing bytes with
  | zero => rfl
  | succ k ih =>
      cases bytes with
      | nil => rfl
      | cons b bytes =>
          rw [hexOf_cons, Nat.mul_succ, List.drop_succ_cons, List.drop_succ_cons, ih bytes,
            List.drop_succ_cons]

/-- The text of some bytes has their value. -/
theorem hexValue_hexOf (bytes : List (Fin 256)) : hexValue (hexOf bytes) = uint32be bytes := by
  rw [hexValue, uint32be]
  generalize 0 = n
  induction bytes generalizing n with
  | nil => rfl
  | cons b bytes ih =>
      have hhigh : hexDigit (hexChar (b.val / 16)) = b.val / 16 :=
        hexDigit_hexChar _ (Nat.div_lt_of_lt_mul b.isLt)
      have hlow : hexDigit (hexChar (b.val % 16)) = b.val % 16 :=
        hexDigit_hexChar _ (Nat.mod_lt _ (by decide))
      have hbyte : 16 * (16 * n + b.val / 16) + b.val % 16 = 256 * n + b.val := by omega
      rw [hexOf_cons, List.foldl_cons, List.foldl_cons, List.foldl_cons, hhigh, hlow, hbyte]
      exact ih _

/-- **Thirty-two bits of the text of a digest** are four of its bytes. -/
theorem uint32At_hex (h : Hmac) (k : Nat) :
    uint32At h.hex (2 * k) = uint32be ((h.bytes.drop k).take 4) := by
  rw [uint32At, Hmac.hex, drop_hexOf, show 8 = 2 * 4 from rfl, take_hexOf, hexValue_hexOf]

/-- What positive weights determine. -/
theorem determineOutcome_of_pos (hmac : Hmac) {lowWeight highWeight : Int} (hlow : 0 < lowWeight)
    (hhigh : 0 < highWeight) : determineOutcome hmac lowWeight highWeight =
      let side := if (uint32At hmac.hex 0 : ℚ) < threshold lowWeight highWeight then Side.low
        else Side.high
      let outcomeSum := (faces side).getD (uint32At hmac.hex 8 % (faces side).length) 0
      .ok ⟨[outcomeSum], outcomeSum, side⟩ :=
  if_neg (not_or.mpr ⟨not_le.mpr hlow, not_le.mpr hhigh⟩)

end YantraRgs.KetapolaDice
