import Mathlib.Tactic.FieldSimp
import Mathlib.Tactic.Linarith
import YantraRgs.Games.KetapolaDice
import YantraRgs.Routes.Rtp

/-! # The return of the dice

A bet wins on one of two equally likely sides, and pays double less a flat commission; the report of
returns reads the same commission as a share of the stake.

* **`expectedPayout`** — the expected payout of a bet.
* **`return_iff`** — where it is the declared return: the two meanings of the commission agree at few
  stakes only. -/

namespace YantraRgs.KetapolaDice

/-- **The expected payout of a bet** where both sides are equally likely; `face` is the face drawn on
each side. -/
def expectedPayout (selection : Side) (amountMicro commissionMicro : Int) (face : Side → Nat) : ℚ :=
  let payout (side : Side) : ℚ := (settleKetapolaDiceBet selection amountMicro
    ⟨[face side], face side, side⟩ commissionMicro).payoutMicro
  1 / 2 * payout .low + 1 / 2 * payout .high

/-- A bet is paid on its own side alone. -/
theorem expectedPayout_eq (selection : Side) (amountMicro commissionMicro : Int) (face : Side → Nat) :
    expectedPayout selection amountMicro commissionMicro face =
      (if commissionMicro < amountMicro * 2 then amountMicro * 2 - commissionMicro else 0 : Int) / 2 := by
  cases selection
  · simp only [expectedPayout, settleKetapolaDiceBet, not_true_eq_false, if_false,
      reduceCtorEq, not_false_eq_true, if_true]
    ring
  · simp only [expectedPayout, settleKetapolaDiceBet, not_true_eq_false, if_false,
      reduceCtorEq, not_false_eq_true, if_true]
    ring

/-- **The expected return of a stake is the declared one** exactly where there is no commission, or the
stake is half a unit and the commission at most twice that, or the commission is a whole unit and the
stake does not exceed it. -/
theorem return_iff {configs : List OperatorGameConfig} {op : RtpOperator} {config : OperatorGameConfig}
    (hconfig : reportedConfig configs op = some config) (bets : List Bet) (since : Millis)
    (selection : Side) (amountMicro : Int) (face : Side → Nat) :
    (amountMicro ≠ 0 ∧ expectedPayout selection amountMicro config.commissionMicro face / amountMicro =
        (rtpRow bets configs since op).expectedRtp) ↔
      amountMicro ≠ 0 ∧
        ((config.commissionMicro = 0 ∧ 0 < amountMicro) ∨
          (amountMicro * 2 = 100000 ∧ config.commissionMicro ≤ 100000) ∨
          (config.commissionMicro = 100000 ∧ amountMicro * 2 ≤ 100000)) := by
  rw [expectedPayout_eq, expectedRtp_rtpRow hconfig]
  refine and_congr_right fun hne => ?_
  have hne' : (amountMicro : ℚ) ≠ 0 := Int.cast_ne_zero.mpr hne
  generalize config.commissionMicro = c
  by_cases hpaid : c < amountMicro * 2
  · have hcross : ((amountMicro * 2 - c : Int) : ℚ) / 2 / amountMicro = 1 - c / 100000 ↔
        c * (amountMicro * 2 - 100000) = 0 := by
      rw [div_div, div_eq_iff (mul_ne_zero two_ne_zero hne')]
      rw [← Int.cast_inj (α := ℚ)]
      push_cast
      constructor
      · intro h
        linarith
      · intro h
        linarith
    rw [if_pos hpaid, hcross, mul_eq_zero]
    omega
  · have hcross : ((0 : Int) : ℚ) / 2 / amountMicro = 1 - c / 100000 ↔ c = 100000 := by
      rw [Int.cast_zero, zero_div, zero_div, ← Int.cast_inj (α := ℚ)]
      push_cast
      constructor
      · intro h
        linarith
      · intro h
        linarith
    rw [if_neg hpaid, hcross]
    omega

/-- A configuration with a commission of a twentieth of a unit. -/
def sampleConfig : OperatorGameConfig where
  operatorId := 1
  gameCode := 0
  currency := 0
  config := some (.dice 50 50)
  configVersion := 1
  commissionMicro := 5000
  minBetMicro := 10000000
  maxBetMicro := 1000000000
  bettingWindowMs := 15000
  rollingWindowMs := 4000

/-- At a stake of half a unit the two meanings agree. -/
theorem return_of_half_unit : (50000 : Int) ≠ 0 ∧
    expectedPayout .low 50000 5000 (fun _ => 3) / (50000 : Int) =
      (rtpRow [] [sampleConfig] 0 ⟨1, 0⟩).expectedRtp :=
  (@return_iff [sampleConfig] ⟨1, 0⟩ sampleConfig (by decide) [] 0 .low 50000 fun _ => 3).mpr
    ⟨by decide, Or.inr (Or.inl (by decide))⟩

/-- At a stake of a hundred units a fee of a twentieth of a unit is no twentieth of the stake. -/
theorem return_of_hundred_units : reportedConfig [sampleConfig] ⟨1, 0⟩ = some sampleConfig ∧
    sampleConfig.minBetMicro ≤ 10000000 ∧ 10000000 ≤ sampleConfig.maxBetMicro ∧
      expectedPayout .low 10000000 sampleConfig.commissionMicro (fun _ => 3) / (10000000 : Int) ≠
        (rtpRow [] [sampleConfig] 0 ⟨1, 0⟩).expectedRtp := by
  decide +kernel

end YantraRgs.KetapolaDice
