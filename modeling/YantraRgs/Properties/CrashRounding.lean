import YantraRgs.Games.RoundedCrash
import YantraRgs.Properties.CrashReturn

/-! # The rounded crash games and the exact ones

Multipliers have two decimals and are rounded, and so is every step of the computation of a round. A
settlement is the exact one all the same, and the samples on which a cash-out wins are the exact ones but
for a few next to the last of them, so that the return is the same up to the width of three samples.

* **`settlements_exact`** — the settlements are the exact ones.
* **`abs_rest_sub_le`** — how far the computed distance of a sample from one is from the exact one.
* **`rounded_return`** — the winning samples, and the return. -/

namespace YantraRgs.RoundedCrash

open Binary64 (rounded)

variable {k c : ℕ}

/-! ## Hundredths -/

/-- The multiplier of some hundredths. -/
def multiplierOf (k : ℕ) : Binary64 := .round (k / 100) (by positivity)

theorem multiplierOf_ne_nan (k : ℕ) : multiplierOf k ≠ .nan := Binary64.round_ne_nan _

/-- A multiplier up to 10000, and how far it is from its hundredths. -/
theorem is_multiplierOf (hk : k ≤ 10 ^ 6) : (multiplierOf k).Is (rounded (k / 100)) ∧
    |rounded ((k : ℚ) / 100) - k / 100| ≤ 2 ^ (-40 : ℤ) := by
  have hle : (k : ℚ) / 100 ≤ 2 ^ 14 := by
    have hk' : (k : ℚ) ≤ 10 ^ 6 := by exact_mod_cast hk
    linarith
  have herror : |rounded ((k : ℚ) / 100) - k / 100| ≤ 2 ^ ((14 : ℤ) - 54) :=
    Binary64.abs_rounded_sub_le (by positivity) (by exact_mod_cast hle) (by norm_num)
  exact ⟨Binary64.is_round _ (by norm_num) hle, herror⟩

/-- **Multipliers are ordered as their hundredths are.** -/
theorem le_multiplierOf (hk : k ≤ 10 ^ 6) :
    (multiplierOf k).le (multiplierOf c) = decide (k ≤ c) := by
  by_cases h : k ≤ c
  · rw [decide_eq_true h]
    refine Binary64.le_round _ _ ?_
    have hcast : (k : ℚ) ≤ c := by exact_mod_cast h
    linarith
  · -- the two are a hundredth apart, far more than both errors
    have hlt : (c : ℚ) + 1 ≤ k := by exact_mod_cast not_le.mp h
    obtain ⟨hisk, hk'⟩ := is_multiplierOf hk
    obtain ⟨hisc, hc'⟩ := is_multiplierOf (k := c) (by omega)
    rw [abs_le] at hk' hc'
    rw [decide_eq_false h, hisk.le hisc]
    refine decide_eq_false (not_le.mpr ?_)
    norm_num at hk' hc'
    linarith

/-- A multiplier has its own hundredths. -/
theorem hundredths_multiplierOf (hk : k ≤ 10 ^ 6) : hundredths (multiplierOf k) = some (k : ℤ) := by
  obtain ⟨his, herror⟩ := is_multiplierOf hk
  have hhundred : hundred.Is (100 : ℕ) := Binary64.is_ofNat (by norm_num)
  have hk' : (k : ℚ) ≤ 10 ^ 6 := by exact_mod_cast hk
  rw [abs_le] at herror
  norm_num at herror
  -- the product is within less than one half of `k`
  have hle : rounded ((k : ℚ) / 100) * (100 : ℕ) ≤ 2 ^ 20 := by
    push_cast
    linarith
  have hnonneg := mul_nonneg his.nonneg hhundred.nonneg
  have hscaled := abs_le.mp (Binary64.abs_rounded_sub_le (k := 20) hnonneg (by exact_mod_cast hle)
    (by norm_num))
  obtain ⟨hv, hmul⟩ := Binary64.is_round hnonneg (by norm_num) hle
  rw [hundredths, his.mul hhundred, hmul]
  refine congrArg some (Int.floor_eq_iff.mpr ?_)
  push_cast at hscaled ⊢
  norm_num at hscaled
  constructor <;> linarith

/-- The hundredths of an exact multiplier. -/
theorem round_hundredths (k : ℕ) : Crash.round ((k : ℚ) / 100 * 100) = k := by
  rw [Crash.round, div_mul_cancel₀ _ (by norm_num), Int.floor_eq_iff]
  push_cast
  constructor <;> linarith

/-- **The payout at a multiplier is the exact one.** -/
theorem payout_exact (hk : k ≤ 10 ^ 6) (amountMicro commissionMicro : ℤ) :
    payoutAtMultiplier amountMicro (multiplierOf k) commissionMicro =
      some (Crash.payoutAtMultiplier amountMicro (k / 100) commissionMicro) := by
  rw [payoutAtMultiplier, hundredths_multiplierOf hk, Crash.payoutAtMultiplier, round_hundredths]
  rfl

/-- The hundredths of a multiplier that a player may pick. -/
theorem le_of_le_max (h : (k : ℚ) / 100 ≤ 10000) : k ≤ 10 ^ 6 := by
  have hk : (k : ℚ) ≤ 10 ^ 6 := by linarith
  exact_mod_cast hk

theorem lt_multiplierOf (hk : k ≤ 10 ^ 6) :
    (multiplierOf c).lt (multiplierOf k) = decide (c < k) := by
  rw [Binary64.lt_eq_not_le (multiplierOf_ne_nan c) (multiplierOf_ne_nan k), le_multiplierOf hk,
    ← decide_not, decide_eq_decide, not_le]

/-- A settlement wins and pays what another one does. -/
def Pays {Meta : Type} (r : Option (SettlementResult Meta)) (won : Bool) (payoutMicro : ℤ) : Prop :=
  r.map (fun r => (r.won, r.payoutMicro)) = some (won, payoutMicro)

/-- **Settlements are the exact ones**: for every stake, commission and round, and every multiplier with
two decimals that a player may pick, a bet of either game and a cash-out in flight win and pay in
floating-point numbers what they do exactly. -/
theorem settlements_exact (amountMicro commissionMicro : ℤ) (k c : ℕ) (u : Binary64) (u' : ℚ) :
    (∀ selection : CrashMinimal.CrashMinimalSelection, selection.cashoutMultiplier = k / 100 →
      let exact := CrashMinimal.settleCrashMinimalBet selection amountMicro ⟨c / 100, u'⟩ commissionMicro
      Pays (settleCrashMinimalBet (multiplierOf k) amountMicro ⟨multiplierOf c, u⟩ commissionMicro)
        exact.won exact.payoutMicro) ∧
    ∀ selection : LempiCrash.LempiCrashSelection, selection.autoCashoutMultiplier = some (k / 100 : ℚ) →
      (let exact := LempiCrash.settleLempiCrashBet selection amountMicro ⟨c / 100, u'⟩ commissionMicro
      Pays (settleLempiCrashBet selection.slotId (some (multiplierOf k)) amountMicro
        ⟨multiplierOf c, u⟩ commissionMicro) exact.won exact.payoutMicro) ∧
      let exact := LempiCrash.settleLempiCrashCashout selection amountMicro (k / 100) commissionMicro
      Pays (settleLempiCrashCashout selection.slotId amountMicro (multiplierOf k) commissionMicro)
        exact.won exact.payoutMicro := by
  have hlt : ((c : ℚ) / 100 < k / 100) ↔ c < k := by
    rw [div_lt_div_iff_of_pos_right (by norm_num), Nat.cast_lt]
  constructor
  · intro selection hk
    have hmax := le_of_le_max (hk ▸ selection.le_max)
    rw [Pays, settleCrashMinimalBet, le_multiplierOf hmax, payout_exact hmax,
      CrashMinimal.settleCrashMinimalBet, hk]
    simp only [hlt, decide_eq_true_eq]
    by_cases h : k ≤ c
    · rw [if_pos h, if_neg (not_lt.mpr h)]
      rfl
    · rw [if_neg h, if_pos (not_le.mp h)]
      rfl
  · intro selection hk
    have hmax := le_of_le_max (selection.le_max _ hk)
    refine ⟨?_, ?_⟩
    · rw [Pays, settleLempiCrashBet, lt_multiplierOf hmax, payout_exact hmax,
        LempiCrash.settleLempiCrashBet, hk]
      simp only [hlt, decide_eq_true_eq]
      by_cases h : c < k
      · rw [if_pos h, if_pos h]
        rfl
      · rw [if_neg h, if_neg h]
        rfl
    · rw [Pays, settleLempiCrashCashout, payout_exact hmax]
      rfl

/-- A stake of 1.50, cashed out at two in a round that reaches 2.50, with a commission of 0.02. -/
theorem settlements_exact_two :
    Pays (settleCrashMinimalBet (multiplierOf 200) 1500000 ⟨multiplierOf 250, one⟩ 20000) true
        2980000 ∧
      Pays (settleLempiCrashBet .A (some (multiplierOf 200)) 1500000 ⟨multiplierOf 250, one⟩ 20000) true
        2980000 ∧
      Pays (settleLempiCrashCashout .A 1500000 (multiplierOf 200) 20000) true 2980000 := by
  have hexact := settlements_exact 1500000 20000 200 250 one 0
  have hminimal := hexact.1 ⟨200 / 100, by norm_num, by norm_num⟩ rfl
  have hlempi := hexact.2 ⟨.A, some (200 / 100), by norm_num, by norm_num⟩ rfl
  have hpays : Crash.payoutAtMultiplier 1500000 (200 / 100) 20000 = 2980000 := by decide +kernel
  have hreaches : (200 : ℚ) / 100 ≤ 250 / 100 := by norm_num
  simp only [CrashMinimal.settleCrashMinimalBet, LempiCrash.settleLempiCrashBet,
    LempiCrash.settleLempiCrashCashout, if_neg (not_lt.mpr hreaches), Nat.cast_ofNat, hpays]
    at hminimal hlempi
  exact ⟨hminimal, hlempi⟩

/-! ## How far the rounding goes -/

/-- What is left of the unit interval behind a sample that was stretched over it. -/
def rest (e w : ℚ) : ℚ := rounded (1 - rounded (rounded (w - e) / rounded (1 - e)))

variable {e w : ℚ}

/-- **From one half on, differences of samples are not rounded.** -/
theorem rounded_sub_of_half (he : IsValue e) (hhalf : 1 / 2 ≤ e) {v : ℚ} {n : ℕ}
    (hv : v = n * 2 ^ (-53 : ℤ)) (hle : e ≤ v) (hone : v ≤ 1) : rounded (v - e) = v - e := by
  obtain ⟨m, k, hm, hk, rfl⟩ := he.dyadic
  have hexp : -53 ≤ k := by
    have hlt : (2 : ℚ) ^ (-1 : ℤ) < 2 ^ (53 + k) := by
      have hm' : (m : ℚ) < 2 ^ (53 : ℤ) := by exact_mod_cast hm
      have hpow : (0 : ℚ) < 2 ^ k := zpow_pos two_pos k
      rw [zpow_add₀ two_ne_zero]
      calc (2 : ℚ) ^ (-1 : ℤ) = 1 / 2 := by norm_num
        _ ≤ m * 2 ^ k := hhalf
        _ < 2 ^ (53 : ℤ) * 2 ^ k := mul_lt_mul_of_pos_right hm' hpow
    have h := (zpow_lt_zpow_iff_right₀ one_lt_two).mp hlt
    omega
  obtain ⟨j, hj⟩ := Binary64.zpow_eq_mul hexp
  have hsmall : (0 : ℚ) < 2 ^ (-53 : ℤ) := zpow_pos two_pos _
  have hsub : v - m * 2 ^ k = ((n - m * j : ℤ) : ℚ) * 2 ^ (-53 : ℤ) := by
    rw [hv, hj]
    push_cast
    ring
  have hnonneg : 0 ≤ (n - m * j : ℤ) := by
    have h : (0 : ℚ) ≤ ((n - m * j : ℤ) : ℚ) * 2 ^ (-53 : ℤ) := hsub ▸ sub_nonneg.mpr hle
    exact_mod_cast nonneg_of_mul_nonneg_left h hsmall
  obtain ⟨d, hd⟩ := Int.eq_ofNat_of_zero_le hnonneg
  rw [hd, Int.cast_natCast] at hsub
  have hd' : d < 2 ^ 53 := by
    have hlt : (d : ℚ) * 2 ^ (-53 : ℤ) < 1 := by
      rw [← hsub]
      linarith
    norm_num at hlt
    have hcast : (d : ℚ) < 9007199254740992 := by linarith
    exact_mod_cast hcast
  rw [hsub]
  exact Binary64.rounded_dyadic hd' (by norm_num)

section Chain

variable (he : IsValue e) (hew : e ≤ w) (hw : w < 1)

include he hew hw

/-- **The parts of a stretched sample** lie in the unit interval. -/
theorem stretched_bounds : 0 ≤ rounded (w - e) ∧ 0 < rounded (1 - e) ∧
    rounded (w - e) ≤ rounded (1 - e) ∧ rounded (1 - e) ≤ 1 := by
  have hnonneg := he.nonneg
  refine ⟨Binary64.rounded_nonneg (sub_nonneg.mpr hew), ?_,
    Binary64.rounded_mono (sub_nonneg.mpr hew) (by linarith),
    Binary64.rounded_le_one (by linarith) (by linarith)⟩
  obtain hhalf | hhalf := le_or_gt (1 / 2) e
  · rw [rounded_sub_of_half he hhalf (v := 1) (n := 2 ^ 53) (by norm_num) (by linarith) le_rfl]
    linarith
  · have hmono := Binary64.rounded_mono (q := 1 / 2) (r := 1 - e) (by norm_num) (by linarith)
    rw [Binary64.rounded_half] at hmono
    linarith

/-- The quotient of the parts, and what is left of it after rounding. -/
theorem stretched_le_one : 0 ≤ rounded (w - e) / rounded (1 - e) ∧
    rounded (w - e) / rounded (1 - e) ≤ 1 ∧ rounded (rounded (w - e) / rounded (1 - e)) ≤ 1 := by
  obtain ⟨hA, hB, hAB, -⟩ := stretched_bounds he hew hw
  have hU : 0 ≤ rounded (w - e) / rounded (1 - e) := div_nonneg hA hB.le
  have hUone : rounded (w - e) / rounded (1 - e) ≤ 1 := (div_le_one hB).mpr hAB
  exact ⟨hU, hUone, Binary64.rounded_le_one hU hUone⟩

theorem rest_nonneg : 0 ≤ rest e w :=
  Binary64.rounded_nonneg (sub_nonneg.mpr (stretched_le_one he hew hw).2.2)

/-- How far the quotient of the rounded differences is from the exact one. -/
theorem abs_quotient_sub_le {n : ℕ} (hn : w = n / 2 ^ 52) :
    |(w - e) - (1 - e) * (rounded (w - e) / rounded (1 - e))| ≤ (1 + 1 / 2 ^ 53) / 2 ^ 53 := by
  obtain ⟨hA, hB, hAB, hBone⟩ := stretched_bounds he hew hw
  have hnonneg := he.nonneg
  obtain hhalf | hhalf := le_or_gt (1 / 2) e
  · -- nothing is rounded
    have hA' : rounded (w - e) = w - e :=
      rounded_sub_of_half he hhalf (n := 2 * n) (by rw [hn]; push_cast; norm_num; ring) hew hw.le
    have hB' : rounded (1 - e) = 1 - e :=
      rounded_sub_of_half he hhalf (n := 2 ^ 53) (by norm_num) (by linarith) le_rfl
    rw [hA', hB', mul_div_cancel₀ _ (by linarith), sub_self, abs_zero]
    norm_num
  · -- both differences are rounded, each by at most half a unit below one
    have ha : 0 ≤ w - e := sub_nonneg.mpr hew
    have hab : w - e ≤ 1 - e := by linarith
    have hb : 1 - e ≤ 1 := by linarith
    have hBhalf := Binary64.rounded_mono (q := 1 / 2) (r := 1 - e) (by norm_num) (by linarith)
    rw [Binary64.rounded_half] at hBhalf
    have hAerr := Binary64.abs_rounded_sub_le (k := 0) ha (by rw [zpow_zero]; linarith) (by norm_num)
    have hBerr := Binary64.abs_rounded_sub_le (k := 0) (ha.trans hab) (by rw [zpow_zero]; exact hb)
      (by norm_num)
    norm_num at hAerr hBerr
    generalize rounded (w - e) = A at *
    generalize rounded (1 - e) = B at *
    generalize w - e = a at *
    generalize 1 - e = b at *
    have hsplit : a - b * (A / B) = (a * (B - b) - b * (A - a)) / B := by
      field_simp
      ring
    have hfirst : |a * (B - b)| ≤ b * (1 / 18014398509481984) := by
      rw [abs_mul, abs_of_nonneg ha]
      exact mul_le_mul hab hBerr (abs_nonneg _) (ha.trans hab)
    have hsecond : |b * (A - a)| ≤ b * (1 / 18014398509481984) := by
      rw [abs_mul, abs_of_nonneg (ha.trans hab)]
      exact mul_le_mul_of_nonneg_left hAerr (ha.trans hab)
    have hnum := (abs_sub (a * (B - b)) (b * (A - a))).trans (add_le_add hfirst hsecond)
    rw [hsplit, abs_div, abs_of_pos hB, div_le_iff₀ hB]
    have hbB := (abs_le.mp hBerr).1
    refine hnum.trans ?_
    norm_num
    linarith

/-- **How far the rest behind a sample is from the exact one.** -/
theorem abs_rest_sub_le {n : ℕ} (hn : w = n / 2 ^ 52) :
    |(1 - e) * rest e w - (1 - w)| ≤ (1 + 1 / 2 ^ 54) / 2 ^ 52 := by
  obtain ⟨hU, hUone, hround⟩ := stretched_le_one he hew hw
  have hnonneg := he.nonneg
  have hquotient := abs_quotient_sub_le he hew hw hn
  rw [rest]
  generalize rounded (w - e) / rounded (1 - e) = U at *
  have hround₀ := Binary64.rounded_nonneg hU
  have hUerr := Binary64.abs_rounded_sub_le (k := 0) hU (by rw [zpow_zero]; exact hUone) (by norm_num)
  have hYerr := Binary64.abs_rounded_sub_le (k := 0) (sub_nonneg.mpr hround)
    (by rw [zpow_zero]; linarith) (by norm_num)
  have hscale : ∀ x : ℚ, |x| ≤ 1 / 18014398509481984 → |(1 - e) * x| ≤ 1 / 18014398509481984 := by
    intro x hx
    rw [abs_mul, abs_of_nonneg (by linarith : 0 ≤ 1 - e)]
    exact (mul_le_of_le_one_left (abs_nonneg x) (by linarith)).trans hx
  norm_num at hUerr hYerr hquotient
  have hfirst := abs_le.mp (hscale _ hYerr)
  have hsecond := abs_le.mp (hscale _ hUerr)
  have hthird := abs_le.mp hquotient
  have hsplit : (1 - e) * rounded (1 - rounded U) - (1 - w) =
      (1 - e) * (rounded (1 - rounded U) - (1 - rounded U)) - (1 - e) * (rounded U - U) +
        (w - e - (1 - e) * U) := by
    ring
  rw [hsplit, abs_le]
  norm_num
  constructor <;> linarith

end Chain

/-! ## Which samples reach a multiplier -/

variable {y uRaw houseEdge maxMultiplier : Binary64} {r : ℚ}

theorem is_hundred : hundred.Is (100 : ℕ) := Binary64.is_ofNat (by norm_num)

theorem is_one : one.Is (1 : ℕ) := Binary64.is_ofNat (by norm_num)

theorem one_eq : one = multiplierOf 100 := by
  have hcast : ((1 : ℕ) : ℚ) = (100 : ℕ) / 100 := by norm_num
  rw [one, Binary64.ofNat, multiplierOf]
  simp only [hcast]

/-- **The multiplier before it is capped** reaches another one when the quotient does. -/
theorem le_rawMultiplier (hk : k ≤ 10 ^ 6) (hy : y.Is r) :
    ((hundred.div y).floor.div hundred) ≠ .nan ∧
      (multiplierOf k).le ((hundred.div y).floor.div hundred) =
        decide (r = 0 ∨ (k : ℚ) ≤ rounded (100 / r)) := by
  have hinf : (Binary64.infinity.floor.div hundred) ≠ .nan ∧
      (multiplierOf k).le (Binary64.infinity.floor.div hundred) = true := by
    obtain ⟨⟨hv, hk'⟩, -⟩ := is_multiplierOf hk
    obtain ⟨hw, hhundred⟩ := is_hundred
    have hdiv : Binary64.infinity.floor.div hundred = .infinity := by
      rw [hhundred]
      rfl
    rw [hdiv, hk']
    exact ⟨Binary64.infinity_ne_nan, rfl⟩
  by_cases hr : r = 0
  · -- a sample whose rest is rounded away divides by zero, and is capped
    have hdiv : hundred.div y = .infinity := by
      obtain ⟨hv, rfl⟩ := hy
      obtain ⟨hw, hhundred⟩ := is_hundred
      rw [hhundred, Binary64.div, if_pos hr, if_neg (by norm_num)]
    rw [hdiv, decide_eq_true (.inl hr : r = 0 ∨ (k : ℚ) ≤ rounded (100 / r))]
    exact hinf
  have hnonneg : (0 : ℚ) ≤ (100 : ℕ) / r := div_nonneg (by norm_num) hy.nonneg
  rw [is_hundred.div hy hr]
  by_cases htop : rounded ((100 : ℕ) / r) < 2 ^ 1024
  · have hround : (Binary64.round ((100 : ℕ) / r) hnonneg).Is (rounded ((100 : ℕ) / r)) :=
      ⟨_, dif_pos htop⟩
    have hfloor := hround.floor
    obtain ⟨c, hc⟩ := Int.eq_ofNat_of_zero_le (Int.floor_nonneg.mpr hround.nonneg)
    rw [hc, Int.cast_natCast] at hfloor
    have hraw : (Binary64.round ((100 : ℕ) / r) hnonneg).floor.div hundred = multiplierOf c :=
      hfloor.div is_hundred (by norm_num)
    have hiff : k ≤ c ↔ r = 0 ∨ (k : ℚ) ≤ rounded (100 / r) := by
      rw [or_iff_right hr, ← Int.cast_natCast, ← Int.le_floor]
      push_cast at hc
      rw [hc]
      omega
    rw [hraw, le_multiplierOf hk]
    exact ⟨multiplierOf_ne_nan c, decide_eq_decide.mpr hiff⟩
  · -- a quotient that is rounded to infinity reaches every multiplier
    have hround : Binary64.round ((100 : ℕ) / r) hnonneg = .infinity := dif_neg htop
    have hreach : r = 0 ∨ (k : ℚ) ≤ rounded (100 / r) := by
      have hk' : (k : ℚ) ≤ 2 ^ 20 := by
        have hk'' : (k : ℚ) ≤ 10 ^ 6 := by exact_mod_cast hk
        linarith
      have hpow : (2 : ℚ) ^ 20 ≤ 2 ^ 1024 := pow_le_pow_right₀ one_le_two (by norm_num)
      push_cast at htop
      exact .inr ((hk'.trans hpow).trans (not_lt.mp htop))
    rw [hround, decide_eq_true hreach]
    exact hinf

/-- **Which samples reach a multiplier.** -/
theorem le_crashMultiplierOf (hk : 100 < k) (hkmax : k ≤ 10 ^ 6) (hcap : maxMultiplier ≠ .nan)
    (hkcap : (multiplierOf k).le maxMultiplier = true) (hedge : houseEdge.Is e) (huRaw : uRaw.Is w)
    (hw : w < 1) :
    (multiplierOf k).le (crashMultiplierOf ⟨houseEdge, maxMultiplier⟩ uRaw) =
      decide (e ≤ w ∧ (rest e w = 0 ∨ (k : ℚ) ≤ rounded (100 / rest e w))) := by
  have hbust : (multiplierOf k).le one = false := by
    rw [one_eq, le_multiplierOf hkmax, decide_eq_false (by omega)]
  rw [crashMultiplierOf, huRaw.lt hedge]
  by_cases hew : w < e
  · rw [if_pos (decide_eq_true hew), hbust, decide_eq_false fun h => absurd h.1 (not_le.mpr hew)]
  rw [if_neg (by simpa using hew)]
  have hle : e ≤ w := not_lt.mp hew
  obtain ⟨hA, hB, -, -⟩ := stretched_bounds hedge.1 hle hw
  obtain ⟨hU, hUone, hround⟩ := stretched_le_one hedge.1 hle hw
  have hnonneg := hedge.nonneg
  -- every step of the stretching stays in the unit interval, so that none is infinite
  have hone : one.Is 1 := by
    have h := is_one
    rwa [Nat.cast_one] at h
  have hsub : (uRaw.sub houseEdge).Is (rounded (w - e)) := by
    rw [huRaw.sub hedge hle]
    exact Binary64.is_round (k := 0) _ (by norm_num) (by rw [pow_zero]; linarith)
  have hsub' : (one.sub houseEdge).Is (rounded (1 - e)) := by
    rw [hone.sub hedge (by linarith)]
    exact Binary64.is_round (k := 0) _ (by norm_num) (by rw [pow_zero]; linarith)
  have hdiv : ((uRaw.sub houseEdge).div (one.sub houseEdge)).Is
      (rounded (rounded (w - e) / rounded (1 - e))) := by
    rw [hsub.div hsub' hB.ne']
    exact Binary64.is_round (k := 0) _ (by norm_num) (by rw [pow_zero]; exact hUone)
  have hrest : (one.sub ((uRaw.sub houseEdge).div (one.sub houseEdge))).Is (rest e w) := by
    rw [hone.sub hdiv hround]
    have hpos := hdiv.nonneg
    exact Binary64.is_round (k := 0) _ (by norm_num) (by rw [pow_zero]; linarith)
  obtain ⟨hnan, hraw⟩ := le_rawMultiplier hkmax hrest
  have hmax : one.max ((hundred.div (one.sub ((uRaw.sub houseEdge).div
      (one.sub houseEdge)))).floor.div hundred) ≠ .nan := Binary64.max_ne_nan hone.ne_nan hnan
  simp only [Binary64.le_min hmax hcap, Binary64.le_max hone.ne_nan hnan, hbust, hraw, hkcap,
    Bool.false_or, Bool.and_true, hle, true_and]

/-- How far a sample is from one. -/
theorem gap_eq {n g : ℕ} (hg : n + g = 2 ^ 52) (hgpos : 0 < g) (hw : w = n / 2 ^ 52) :
    2 ^ 52 * (1 - w) = g ∧ (0 : ℚ) < g ∧ w < 1 := by
  have hsum : (n : ℚ) + g = 2 ^ 52 := by exact_mod_cast hg
  have hgpos' : (0 : ℚ) < g := by exact_mod_cast hgpos
  have hgap : 2 ^ 52 * (1 - w) = g := by
    rw [hw, ← hsum]
    field_simp
    linarith
  exact ⟨hgap, hgpos', by linarith⟩

section Samples

variable {edge : ℚ} {n g : ℕ} (hedge₀ : 0 ≤ edge) (hedge₁ : rounded edge < 1)

include hedge₀ hedge₁

/-- The rounded house edge is a value, and near the exact one. -/
theorem edge_bounds : IsValue (rounded edge) ∧ edge < 1 ∧ |rounded edge - edge| ≤ 1 / 2 ^ 54 := by
  have hlt : edge < 1 := by
    by_contra hnot
    have hmono := Binary64.rounded_mono zero_le_one (not_lt.mp hnot)
    rw [Binary64.rounded_one] at hmono
    exact absurd hedge₁ (not_lt.mpr hmono)
  have herror := Binary64.abs_rounded_sub_le (k := 0) hedge₀ (by rw [zpow_zero]; exact hlt.le)
    (by norm_num)
  refine ⟨⟨Binary64.rounded_isDyadic hedge₀, hedge₁.trans_le (one_le_pow₀ one_le_two)⟩, hlt, ?_⟩
  norm_num at herror ⊢
  exact herror

variable (hk : 100 < k) (hg : n + g = 2 ^ 52) (hgpos : 0 < g)

include hk

/-- The number of samples that reach a multiplier, with the rounded house edge. -/
theorem abs_samples_sub_le : |2 ^ 52 * (1 - edge) / (k / 100 : ℚ) -
    2 ^ 52 * ((1 - rounded edge) * (100 / k))| ≤ 1 / 4 := by
  obtain ⟨-, -, herror⟩ := edge_bounds hedge₀ hedge₁
  have hk' : (100 : ℚ) < k := by exact_mod_cast hk
  have hshare : (100 : ℚ) / k ≤ 1 := (div_le_one (by linarith)).mpr hk'.le
  have hsplit : 2 ^ 52 * (1 - edge) / (k / 100 : ℚ) - 2 ^ 52 * ((1 - rounded edge) * (100 / k)) =
      2 ^ 52 * ((rounded edge - edge) * (100 / k)) := by
    field_simp
    ring
  have hpos : (0 : ℚ) ≤ 100 / k := by positivity
  rw [hsplit, abs_mul, abs_mul, abs_of_nonneg hpos, abs_of_pos (by norm_num)]
  have hmul := mul_le_mul herror hshare hpos (by norm_num)
  norm_num at hmul ⊢
  linarith

include hg hgpos

/-- **A sample that is close enough to one, and one and a half more,** reaches the multiplier. -/
theorem reaches_of_le (hle : (g : ℚ) ≤ 2 ^ 52 * (1 - edge) / (k / 100) - 3 / 2) (hw : w = n / 2 ^ 52)
    (hkmax : k ≤ 10 ^ 6) : rounded edge ≤ w ∧
      (rest (rounded edge) w = 0 ∨ (k : ℚ) ≤ rounded (100 / rest (rounded edge) w)) := by
  obtain ⟨hvalue, hlt, -⟩ := edge_bounds hedge₀ hedge₁
  have hsamples := (abs_le.mp (abs_samples_sub_le hedge₀ hedge₁ hk)).2
  have hk' : (100 : ℚ) < k := by exact_mod_cast hk
  have hshare : (100 : ℚ) / k ≤ 1 := (div_le_one (by linarith)).mpr hk'.le
  obtain ⟨hw', hgpos', hw₁⟩ := gap_eq hg hgpos hw
  have hedge := hvalue.nonneg
  have hb : 0 < 1 - rounded edge := by linarith
  have hmul : (1 - rounded edge) * (100 / k) ≤ (1 - rounded edge) * 1 :=
    mul_le_mul_of_nonneg_left hshare hb.le
  have hew : rounded edge ≤ w := by linarith
  refine ⟨hew, ?_⟩
  have hrest := (abs_le.mp (abs_rest_sub_le hvalue hew hw₁ hw)).2
  have hnonneg := rest_nonneg hvalue hew hw₁
  generalize rest (rounded edge) w = y at *
  obtain rfl | hpos := hnonneg.eq_or_lt
  · exact .inl rfl
  have hy : y ≤ 100 / k := by
    refine le_of_mul_le_mul_left ?_ hb
    norm_num at hrest hsamples hle hw' ⊢
    linarith
  have hquotient : (k : ℚ) ≤ 100 / y := by
    rw [le_div_iff₀ (by linarith)] at hy
    rw [le_div_iff₀ hpos]
    linarith
  have hself : rounded (k : ℚ) = k := Binary64.rounded_natCast (by omega)
  exact .inr (hself ▸ Binary64.rounded_mono k.cast_nonneg hquotient)

/-- **A sample that is too far from one, by two and a half,** does not. -/
theorem not_reaches_of_le (hle : 2 ^ 52 * (1 - edge) / (k / 100) + 5 / 2 ≤ (g : ℚ))
    (hw : w = n / 2 ^ 52) : ¬ (rounded edge ≤ w ∧
      (rest (rounded edge) w = 0 ∨ (k : ℚ) ≤ rounded (100 / rest (rounded edge) w))) := by
  rintro ⟨hew, hreach⟩
  obtain ⟨hvalue, hlt, -⟩ := edge_bounds hedge₀ hedge₁
  have hsamples := (abs_le.mp (abs_samples_sub_le hedge₀ hedge₁ hk)).1
  have hk' : (100 : ℚ) < k := by exact_mod_cast hk
  have hshare : (100 : ℚ) / k ≤ 1 := (div_le_one (by linarith)).mpr hk'.le
  have hshare' : (0 : ℚ) < 100 / k := by positivity
  obtain ⟨hw', hgpos', hw₁⟩ := gap_eq hg hgpos hw
  have hedge := hvalue.nonneg
  have hb : 0 < 1 - rounded edge := by linarith
  have hrest := (abs_le.mp (abs_rest_sub_le hvalue hew hw₁ hw)).1
  generalize rest (rounded edge) w = y at *
  -- the rest is above the bound by a whole sample, and more
  have hy : 100 / k * (1 + 1 / 2 ^ 52) ≤ y := by
    refine le_of_mul_le_mul_left ?_ hb
    have hextra : (1 - rounded edge) * (100 / k * (1 / 2 ^ 52)) ≤ 1 / 2 ^ 52 := by
      have hone : (1 - rounded edge) * (100 / k) ≤ 1 := mul_le_one₀ (by linarith) hshare'.le hshare
      have hmul := mul_le_mul_of_nonneg_right hone (show (0 : ℚ) ≤ 1 / 2 ^ 52 by norm_num)
      linarith
    have hsplit : (1 - rounded edge) * (100 / k * (1 + 1 / 2 ^ 52)) =
        (1 - rounded edge) * (100 / k) + (1 - rounded edge) * (100 / k * (1 / 2 ^ 52)) := by ring
    rw [hsplit]
    norm_num at hrest hsamples hle hw' hextra ⊢
    linarith
  have hpos : 0 < y := lt_of_lt_of_le (by positivity) hy
  rcases hreach with hzero | hreach
  · exact absurd hzero hpos.ne'
  have hquotient : 100 / y < k * (1 - 1 / 2 ^ 53) := by
    rw [div_lt_iff₀ hpos]
    have hstep : (100 : ℚ) < k * (1 - 1 / 2 ^ 53) * (100 / k * (1 + 1 / 2 ^ 52)) := by
      have hcancel : k * (1 - 1 / 2 ^ 53) * (100 / k * (1 + 1 / 2 ^ 52)) =
          100 * ((1 - 1 / 2 ^ 53) * (1 + 1 / 2 ^ 52) : ℚ) := by
        field_simp
      rw [hcancel]
      norm_num
    refine hstep.trans_le (mul_le_mul_of_nonneg_left hy ?_)
    have hfactor : (0 : ℚ) ≤ 1 - 1 / 2 ^ 53 := by norm_num
    positivity
  have hrounded := Binary64.rounded_lt_of_lt (by positivity) (by linarith) hquotient
  exact absurd hreach (not_le.mpr hrounded)

end Samples

/-! ## The return -/

/-- Whether a round reaches a multiplier. -/
def reaches (multiplier : Binary64) : Except ConfigError OutcomeData → Bool
  | .ok outcome => multiplier.le outcome.crashMultiplier
  | .error _ => false

/-- The number of samples on which a cash-out at a multiplier wins; `rest` is the rest of each digest. -/
def winningSamples (determine : List Char → OutcomeConfig → Except ConfigError OutcomeData)
    (rest : ℕ → List Char) (config : OutcomeConfig) (multiplier : Binary64) : ℕ :=
  ((Finset.range Crash.max52).filter fun n =>
    reaches multiplier (determine (Crash.digest (rest n) n) config)).card

section Return

variable {edge cap : ℚ} {n : ℕ} (hedge₀ : 0 ≤ edge) (hedge₁ : rounded edge < 1) (hcap : 0 ≤ cap)
  (hk : 100 < k) (hkmax : k ≤ 10 ^ 6) (hkcap : (k / 100 : ℚ) ≤ cap)

include hedge₁ hk hkmax hkcap

/-- **Whether the round of a sample reaches a multiplier.** -/
theorem reaches_determineOutcome (hn : n < Crash.max52) (rest : List Char) :
    reaches (multiplierOf k) (determineOutcome (Crash.digest rest n)
      ⟨.round edge hedge₀, .round cap hcap⟩) =
        decide (rounded edge ≤ n / 2 ^ 52 ∧ (RoundedCrash.rest (rounded edge) (n / 2 ^ 52) = 0 ∨
          (k : ℚ) ≤ rounded (100 / RoundedCrash.rest (rounded edge) (n / 2 ^ 52)))) := by
  have hn' : n < 2 ^ 52 := hn
  have hk' : (100 : ℚ) < k := by exact_mod_cast hk
  have hedge : (Binary64.round edge hedge₀).Is (rounded edge) :=
    Binary64.is_round (k := 0) hedge₀ (by norm_num)
      (by rw [pow_zero]; exact (edge_bounds hedge₀ hedge₁).2.1.le)
  have hone : one.le (.round edge hedge₀) = false := by
    rw [is_one.le hedge, Nat.cast_one, decide_eq_false (not_le.mpr hedge₁)]
  have hleast : (Binary64.round cap hcap).lt leastCap = false := by
    have hle : leastCap.le (.round cap hcap) = true := by
      refine Binary64.le_round _ _ (le_trans ?_ hkcap)
      have hnext : (101 : ℚ) ≤ k := by exact_mod_cast hk
      linarith
    have hnan : leastCap ≠ .nan := Binary64.round_ne_nan _
    rw [Binary64.lt_eq_not_le (Binary64.round_ne_nan _) hnan, hle]
    rfl
  have huRaw : ((Binary64.ofNat n).div (.ofNat Crash.max52)).Is ((n : ℚ) / 2 ^ 52) := by
    have hsample : (Binary64.ofNat n).Is n := Binary64.is_ofNat (by omega)
    have hwide : (Binary64.ofNat Crash.max52).Is (Crash.max52 : ℕ) := Binary64.is_ofNat (by decide)
    have hcast : ((Crash.max52 : ℕ) : ℚ) = 2 ^ 52 := by norm_num [Crash.max52]
    have hself := Binary64.rounded_dyadic (n := n) (e := -52) (by omega) (by norm_num)
    have hzpow : (n : ℚ) * 2 ^ (-52 : ℤ) = n / 2 ^ 52 := by
      rw [zpow_neg, div_eq_mul_inv]
      rfl
    rw [hzpow] at hself
    rw [hsample.div hwide (by rw [hcast]; positivity)]
    have hround := Binary64.is_round (k := 0) (q := (n : ℚ) / (Crash.max52 : ℕ)) (by positivity)
      (by norm_num) (by
        rw [hcast, pow_zero, div_le_one (by positivity)]
        exact_mod_cast hn'.le)
    simp only [hcast, hself] at hround ⊢
    exact hround
  have hw : (n : ℚ) / 2 ^ 52 < 1 := by
    rw [div_lt_one (by positivity)]
    exact_mod_cast hn'
  rw [determineOutcome, if_neg (by simp [hone]), if_neg (by simp [hleast]), Crash.bits52_digest _ hn,
    reaches, le_crashMultiplierOf hk hkmax (Binary64.round_ne_nan _) (Binary64.le_round _ _ hkcap)
      hedge huRaw hw]

/-- **The number of winning samples** is the exact one, but for two and a half. -/
theorem abs_winningSamples_sub_le (rest : ℕ → List Char) :
    |(winningSamples determineOutcome rest ⟨.round edge hedge₀, .round cap hcap⟩ (multiplierOf k) : ℚ) -
      2 ^ 52 * (1 - edge) / (k / 100)| ≤ 5 / 2 := by
  have hk' : (101 : ℚ) ≤ k := by exact_mod_cast hk
  have hlt := (edge_bounds hedge₀ hedge₁).2.1
  generalize hx : 2 ^ 52 * (1 - edge) / (k / 100 : ℚ) = x
  have hx₀ : 0 ≤ x := by
    have hleft : 0 ≤ 1 - edge := by linarith
    rw [← hx]
    positivity
  have hx₁ : x + 5 / 2 ≤ 2 ^ 52 := by
    have hle : x ≤ 2 ^ 52 / (101 / 100) := by
      rw [← hx]
      refine div_le_div₀ (by positivity) ?_ (by norm_num) ?_
      · linarith
      · linarith
    norm_num at hle ⊢
    linarith
  have hreaches := fun n (hn : n < Crash.max52) =>
    reaches_determineOutcome hedge₀ hedge₁ hcap hk hkmax hkcap hn (rest n)
  have hgap : ∀ n < Crash.max52, n + (Crash.max52 - n) = 2 ^ 52 ∧ 0 < Crash.max52 - n := by
    intro n hn
    exact ⟨Nat.add_sub_cancel' hn.le, Nat.sub_pos_of_lt hn⟩
  -- every sample that is close enough wins
  have hlow : ⌊x - 3 / 2⌋₊ ≤ winningSamples determineOutcome rest
      ⟨.round edge hedge₀, .round cap hcap⟩ (multiplierOf k) := by
    have hfew : ⌊x - 3 / 2⌋₊ ≤ Crash.max52 := by
      refine Nat.floor_le_of_le ?_
      norm_num [Crash.max52] at hx₁ ⊢
      linarith
    rw [← Crash.card_filter_sub_le hfew, winningSamples]
    refine Finset.card_le_card fun n hmem => ?_
    obtain ⟨hn, hle⟩ := Finset.mem_filter.mp hmem
    have hn' := Finset.mem_range.mp hn
    refine Finset.mem_filter.mpr ⟨hn, ?_⟩
    rw [hreaches n hn']
    refine decide_eq_true (reaches_of_le hedge₀ hedge₁ hk (hgap n hn').1 (hgap n hn').2 ?_ rfl hkmax)
    rw [hx]
    exact (Nat.le_floor_iff' (hgap n hn').2.ne').mp hle
  -- and none that is too far away does
  have hhigh : winningSamples determineOutcome rest ⟨.round edge hedge₀, .round cap hcap⟩
      (multiplierOf k) ≤ ⌊x + 5 / 2⌋₊ := by
    have hfew : ⌊x + 5 / 2⌋₊ ≤ Crash.max52 := by
      refine Nat.floor_le_of_le ?_
      norm_num [Crash.max52] at hx₁ ⊢
      linarith
    rw [← Crash.card_filter_sub_le hfew, winningSamples]
    refine Finset.card_le_card fun n hmem => ?_
    obtain ⟨hn, hwins⟩ := Finset.mem_filter.mp hmem
    have hn' := Finset.mem_range.mp hn
    rw [hreaches n hn', decide_eq_true_eq] at hwins
    refine Finset.mem_filter.mpr ⟨hn, Nat.le_floor ?_⟩
    by_contra hfar
    refine not_reaches_of_le hedge₀ hedge₁ hk (hgap n hn').1 (hgap n hn').2 ?_ rfl hwins
    rw [hx]
    exact (not_le.mp hfar).le
  have hlow' := (Nat.lt_floor_add_one (x - 3 / 2)).trans_le
    (add_le_add_left (Nat.cast_le.mpr hlow) 1)
  have hhigh' := (Nat.cast_le.mpr hhigh).trans (Nat.floor_le (by linarith : 0 ≤ x + 5 / 2))
  rw [abs_le]
  constructor <;> linarith

/-- **The return of both crash games, in floating-point numbers**: for every house edge, every cap and
every cash-out multiplier with two decimals under it, the winning samples are the exact ones but for
three, and the return lies within the width of two and a half samples of one minus the house edge. -/
theorem rounded_return (rest : ℕ → List Char) :
    ∀ games ∈ [(determineCrashOutcome, CrashMinimal.determineCrashOutcome),
        (determineLempiCrashOutcome, LempiCrash.determineLempiCrashOutcome)],
      let wins := winningSamples games.1 rest ⟨.round edge hedge₀, .round cap hcap⟩ (multiplierOf k)
      |(wins : ℤ) - Crash.winningSamples games.2 rest ⟨edge, cap⟩ (k / 100)| ≤ 3 ∧
        |(k / 100 : ℚ) * (wins / 2 ^ 52) - (1 - edge)| ≤ (5 / 2 * (k / 100) / 2 ^ 52 : ℚ) := by
  have hk' : (101 : ℚ) ≤ k := by exact_mod_cast hk
  have hlt := (edge_bounds hedge₀ hedge₁).2.1
  have hcount := abs_winningSamples_sub_le hedge₀ hedge₁ hcap hk hkmax hkcap rest
  have hmax : 101 / 100 ≤ (⟨edge, cap⟩ : Crash.OutcomeConfig).maxMultiplier :=
    le_trans (by linarith) hkcap
  have hexact : Crash.winningSamples Crash.determineOutcome rest ⟨edge, cap⟩ (k / 100) =
      ⌊2 ^ 52 * (1 - edge) / (k / 100 : ℚ)⌋₊ := Crash.winningSamples_eq hedge₀ hlt hmax hk hkcap rest
  have hpos : (0 : ℚ) < k / 100 := by positivity
  have hx₀ : 0 ≤ 2 ^ 52 * (1 - edge) / (k / 100 : ℚ) := by
    have hleft : 0 ≤ 1 - edge := by linarith
    positivity
  have hreturn : ∀ wins exact : ℕ,
      |(wins : ℚ) - 2 ^ 52 * (1 - edge) / (k / 100)| ≤ 5 / 2 →
      exact = ⌊2 ^ 52 * (1 - edge) / (k / 100 : ℚ)⌋₊ →
      |(wins : ℤ) - exact| ≤ 3 ∧
        |(k / 100 : ℚ) * (wins / 2 ^ 52) - (1 - edge)| ≤ (5 / 2 * (k / 100) / 2 ^ 52 : ℚ) := by
    intro wins exact hwins heq
    constructor
    · have hfloor := Nat.floor_le hx₀
      have hceil := Nat.lt_floor_add_one (2 ^ 52 * (1 - edge) / (k / 100 : ℚ))
      rw [← heq] at hfloor hceil
      obtain ⟨hlow, hhigh⟩ := abs_le.mp hwins
      have hlow' : (exact : ℚ) < wins + 3 := by linarith
      have hhigh' : (wins : ℚ) < exact + 4 := by linarith
      have hlow'' : exact < wins + 3 := by exact_mod_cast hlow'
      have hhigh'' : wins < exact + 4 := by exact_mod_cast hhigh'
      rw [abs_le]
      omega
    · have hsplit : (k / 100 : ℚ) * (wins / 2 ^ 52) - (1 - edge) =
          k / 100 / 2 ^ 52 * (wins - 2 ^ 52 * (1 - edge) / (k / 100)) := by
        field_simp
      have hscale : (0 : ℚ) ≤ k / 100 / 2 ^ 52 := by positivity
      rw [hsplit, abs_mul, abs_of_nonneg hscale]
      have hmul := mul_le_mul_of_nonneg_left hwins hscale
      linarith
  intro games hmem
  simp only [List.mem_cons, List.not_mem_nil, or_false] at hmem
  rcases hmem with rfl | rfl
  · exact hreturn _ _ hcount hexact
  · exact hreturn _ _ hcount hexact

end Return

/-- A house edge of 0.01, a cap of 1000 and a cash-out at two. -/
theorem rounded_return_two :
    |(winningSamples determineLempiCrashOutcome (fun _ => []) ⟨multiplierOf 1, multiplierOf 100000⟩
      (multiplierOf 200) : ℤ) -
        Crash.winningSamples LempiCrash.determineLempiCrashOutcome (fun _ => [])
          ⟨(1 : ℕ) / 100, (100000 : ℕ) / 100⟩ ((200 : ℕ) / 100)| ≤ 3 := by
  have hedge : rounded ((1 : ℕ) / 100) < 1 := by decide +kernel
  have hcap : ((200 : ℕ) / 100 : ℚ) ≤ (100000 : ℕ) / 100 := by norm_num
  have hreturn := rounded_return (by positivity) hedge (by positivity) (by norm_num) (by norm_num)
    hcap (fun _ => []) _ (List.mem_cons_of_mem _ List.mem_cons_self)
  exact hreturn.1

end YantraRgs.RoundedCrash
