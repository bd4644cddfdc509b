import YantraRgs.Games.RoundedDice
import YantraRgs.Properties.DiceFairness

/-! # The rounded dice are the exact ones

The bound that a sample is compared with is rounded twice. For weights that add up to less than two
million it is never rounded past a whole number, so that every digest has its exact outcome.

* **`rounded_share_le`** — a bound that is a whole number is not rounded up.
* **`lt_threshold_iff`** — the rounded bound decides as the exact one does.
* **`dice_exact`** — the outcomes are the same. -/

namespace YantraRgs.RoundedDice

open Binary64 (rounded ulp)
open KetapolaDice (Hmac RoundOutcome)

variable {low high s : ℕ}

/-- A share that is no power of two is above it by as much as its denominator allows. -/
theorem pow_mul_le_share {t : ℕ} {j : ℤ} (ht : 0 < t) (hj : j ≤ 0) (h : (2 : ℚ) ^ j < low / t) :
    (2 : ℚ) ^ j * (1 + 1 / t) ≤ low / t := by
  obtain ⟨n, hn⟩ := Int.eq_ofNat_of_zero_le (neg_nonneg.mpr hj)
  obtain rfl : j = -(n : ℤ) := by omega
  have ht₀ : (0 : ℚ) < t := Nat.cast_pos.mpr ht
  have hpow : (0 : ℚ) < 2 ^ n := by positivity
  rw [zpow_neg, zpow_natCast] at h ⊢
  rw [lt_div_iff₀ ht₀, inv_mul_lt_iff₀ hpow] at h
  have hstep : t + 1 ≤ 2 ^ n * low := by exact_mod_cast h
  have hcast : (t : ℚ) + 1 ≤ 2 ^ n * low := by exact_mod_cast hstep
  rw [le_div_iff₀ ht₀, mul_assoc, inv_mul_le_iff₀ hpow]
  calc (1 + 1 / (t : ℚ)) * t = t + 1 := by field_simp
    _ ≤ 2 ^ n * low := hcast

section Share

variable {t : ℕ} (hlow : 0 < low) (hlt : low < t) (ht : t < 2 ^ 21)

include hlow hlt ht

/-- The share of the low side, as a number of its own. -/
theorem share_bounds : (0 : ℚ) < low / t ∧ (low : ℚ) / t < 1 ∧ rounded ((low : ℚ) / t) ≤ 1 := by
  have ht₀ : (0 : ℚ) < t := Nat.cast_pos.mpr (by omega)
  have hone : (low : ℚ) / t < 1 := (div_lt_one ht₀).mpr (by exact_mod_cast hlt)
  have hpos : (0 : ℚ) < low / t := div_pos (Nat.cast_pos.mpr hlow) ht₀
  exact ⟨hpos, hone, Binary64.rounded_le_one hpos.le hone.le⟩

/-- **The binade of a share**, which is at most twenty-one binades below one. -/
theorem share_binade : ∃ j : ℤ, (2 : ℚ) ^ j ≤ low / t ∧ (low : ℚ) / t < 2 ^ (j + 1) ∧ j < 0 ∧
    -21 ≤ j := by
  obtain ⟨hshare, hone, -⟩ := share_bounds hlow hlt ht
  refine ⟨Int.log 2 ((low : ℚ) / t), ?_, ?_, ?_, ?_⟩
  · exact_mod_cast Int.zpow_log_le_self one_lt_two hshare
  · exact_mod_cast Int.lt_zpow_succ_log_self one_lt_two ((low : ℚ) / t)
  · exact (Int.lt_zpow_iff_log_lt one_lt_two hshare).mp (by rwa [zpow_zero])
  · refine (Int.zpow_le_iff_le_log one_lt_two hshare).mp ?_
    have ht' : (t : ℚ) ≤ 2 ^ 21 := by exact_mod_cast ht.le
    have hlow' : (1 : ℚ) ≤ low := by exact_mod_cast hlow
    rw [le_div_iff₀ (Nat.cast_pos.mpr (by omega))]
    norm_num
    linarith

/-- **A bound that is a whole number is at the top of its binade**: it has the exponent of the share. -/
theorem pow_le_bound (hs : (s : ℚ) = low / t * 0xffffffff) {j : ℤ} (hj : j ≤ 0)
    (hstrict : (2 : ℚ) ^ j < low / t) : (2 : ℚ) ^ (j + 32) ≤ s := by
  have ht₀ : (0 : ℚ) < t := Nat.cast_pos.mpr (by omega)
  have ht' : (t : ℚ) ≤ 2 ^ 21 := by exact_mod_cast ht.le
  have hstep := pow_mul_le_share (by omega) hj hstrict
  have hfrac : (1 : ℚ) ≤ 1 / t * 0xffffffff := by
    rw [div_mul_eq_mul_div, one_mul, le_div_iff₀ ht₀]
    linarith
  have hwide : (2 : ℚ) ^ 32 ≤ (1 + 1 / t) * 0xffffffff := by linarith
  calc (2 : ℚ) ^ (j + 32) = 2 ^ j * 2 ^ 32 := by
        rw [zpow_add₀ two_ne_zero]
        norm_cast
    _ ≤ 2 ^ j * ((1 + 1 / t) * 0xffffffff) :=
        mul_le_mul_of_nonneg_left hwide (zpow_pos two_pos j).le
    _ = 2 ^ j * (1 + 1 / t) * 0xffffffff := by ring
    _ ≤ low / t * 0xffffffff := mul_le_mul_of_nonneg_right hstep (by norm_num)
    _ = s := hs.symm

omit hlow hlt ht in
/-- The unit at a number between two binades, of which the upper one ends at `2 ^ 32`. -/
theorem exponent_bounds {q : ℚ} {j : ℤ} (hpos : 0 < q) (hlow : (2 : ℚ) ^ (j + 32) ≤ q)
    (htop : q < 2 ^ (32 : ℤ)) : j - 20 ≤ Binary64.exponent q ∧ Binary64.exponent q ≤ 0 := by
  have hlog : j + 32 ≤ Int.log 2 q :=
    (Int.zpow_le_iff_le_log one_lt_two hpos).mp (by exact_mod_cast hlow)
  have hlog' : Int.log 2 q < 32 :=
    (Int.lt_zpow_iff_log_lt one_lt_two hpos).mp (by exact_mod_cast htop)
  exact ⟨(by omega : j - 20 ≤ Int.log 2 q - 52).trans (le_max_left _ _),
    max_le (by omega) (by norm_num)⟩

/-- **A bound that is a whole number is not rounded up.** -/
theorem rounded_share_le (hs : (s : ℚ) = low / t * 0xffffffff) :
    rounded (rounded (low / t) * 0xffffffff) ≤ s := by
  obtain ⟨hshare, hone, hround⟩ := share_bounds hlow hlt ht
  have hsmall : s ≤ 2 ^ 53 := by
    have hle : (s : ℚ) ≤ 2 ^ 53 := by
      rw [hs]
      linarith
    exact_mod_cast hle
  generalize hq : rounded ((low : ℚ) / t) * 0xffffffff = q
  have hnonneg : 0 ≤ q := by
    have hround₀ := Binary64.rounded_nonneg hshare.le
    rw [← hq]
    positivity
  obtain hle | hgt := le_or_gt q s
  · -- what is not above the whole number is not rounded past it
    exact (Binary64.rounded_mono hnonneg hle).trans (Binary64.rounded_natCast hsmall).le
  obtain ⟨j, hbelow, habove, hneg, hfew⟩ := share_binade hlow hlt ht
  -- a share that is a power of two is not rounded at all, so that the product is the whole number
  have hstrict : (2 : ℚ) ^ j < low / t := by
    refine hbelow.lt_of_ne fun heq => absurd hgt (not_lt.mpr ?_)
    have hself := Binary64.rounded_dyadic (n := 1) (e := j) (by norm_num) (by omega)
    rw [Nat.cast_one, one_mul] at hself
    rw [← hq, hs, ← heq, hself]
  have hbinade := pow_le_bound hlow hlt ht hs hneg.le hstrict
  have hpos : 0 < q := lt_of_le_of_lt s.cast_nonneg hgt
  have htop : q < 2 ^ (32 : ℤ) := by
    rw [← hq]
    norm_num
    linarith
  -- so the unit at the rounded product is more than twice the error
  obtain ⟨hexp, hexp'⟩ := exponent_bounds hpos (hbinade.trans hgt.le) htop
  obtain ⟨n, hmultiple⟩ := Binary64.exists_natCast_eq hexp' s
  refine Binary64.rounded_le_of_lt hmultiple ?_
  have herror := abs_le.mp (Binary64.abs_rounded_sub_le hshare.le habove.le (by omega))
  have hulp : (2 : ℚ) ^ (j + 1 - 54) * 2 ^ 33 ≤ ulp q := by
    rw [← zpow_natCast, ← zpow_add₀ two_ne_zero]
    refine zpow_le_zpow_right₀ one_le_two (le_trans ?_ hexp)
    push_cast
    omega
  have hgap : rounded ((low : ℚ) / t) * 0xffffffff ≤ s + 2 ^ (j + 1 - 54) * 0xffffffff := by
    rw [hs, ← add_mul]
    exact mul_le_mul_of_nonneg_right (by linarith [herror.2]) (by norm_num)
  have hunit : (0 : ℚ) < 2 ^ (j + 1 - 54) := zpow_pos two_pos _
  rw [hq] at hgap
  linarith

/-- **The rounded bound decides as the exact one does.** -/
theorem lt_rounded_iff : (s : ℚ) < rounded (rounded (low / t) * 0xffffffff) ↔
    (s : ℚ) < low / t * 0xffffffff := by
  obtain ⟨hshare, hone, hround⟩ := share_bounds hlow hlt ht
  have ht₀ : (0 : ℚ) < t := Nat.cast_pos.mpr (by omega)
  have ht' : (t : ℚ) < 2 ^ 21 := by exact_mod_cast ht
  have hinverse : (1 : ℚ) / 2097152 < 1 / t := one_div_lt_one_div_of_lt ht₀ (by linarith)
  have hfirst := abs_le.mp (Binary64.abs_rounded_sub_le (k := 0) hshare.le
    (by rw [zpow_zero]; exact hone.le) (by norm_num))
  have hnonneg : 0 ≤ rounded ((low : ℚ) / t) * 0xffffffff := by
    have hround₀ := Binary64.rounded_nonneg hshare.le
    positivity
  have hsecond := abs_le.mp (Binary64.abs_rounded_sub_le (k := 32) hnonneg
    (by norm_num; linarith) (by norm_num))
  norm_num at hfirst hsecond
  have hexact : (low : ℚ) / t * 0xffffffff * t = low * 0xffffffff := by field_simp
  constructor
  · intro h
    by_contra hnot
    obtain heq | hlt' := (not_lt.mp hnot).eq_or_lt
    · exact absurd h (not_lt.mpr (rounded_share_le hlow hlt ht heq.symm))
    · -- the bound is below the whole number by what its denominator allows
      have hnat : low * 0xffffffff + 1 ≤ s * t := by
        have hmul := mul_lt_mul_of_pos_right hlt' ht₀
        rw [hexact] at hmul
        exact_mod_cast hmul
      have hgap : (low : ℚ) / t * 0xffffffff + 1 / t ≤ s := by
        rw [← mul_le_mul_iff_of_pos_right ht₀, add_mul, hexact, one_div_mul_cancel ht₀.ne']
        exact_mod_cast hnat
      linarith
  · intro h
    have hnat : s * t + 1 ≤ low * 0xffffffff := by
      have hmul := mul_lt_mul_of_pos_right h ht₀
      rw [hexact] at hmul
      exact_mod_cast hmul
    have hgap : (s : ℚ) + 1 / t ≤ low / t * 0xffffffff := by
      rw [← mul_le_mul_iff_of_pos_right ht₀, add_mul, hexact, one_div_mul_cancel ht₀.ne']
      exact_mod_cast hnat
    linarith

end Share

/-- Some bytes spell no more than their number allows. -/
theorem uint32be_lt (bytes : List (Fin 256)) : KetapolaDice.uint32be bytes < 256 ^ bytes.length := by
  induction bytes using List.reverseRecOn with
  | nil => exact Nat.one_pos
  | append_singleton bytes b ih =>
      rw [KetapolaDice.uint32be, List.foldl_append, List.foldl_cons, List.foldl_nil,
        ← KetapolaDice.uint32be, List.length_append, List.length_singleton, Nat.pow_succ]
      omega

/-- **The side of a sample** is the exact one. -/
theorem lt_threshold (hlow : 0 < low) (hhigh : 0 < high) (hweights : low + high < 2 ^ 21)
    (hs : s ≤ 2 ^ 53) : (Binary64.ofNat s).lt (threshold (.ofNat low) (.ofNat high)) =
      decide ((s : ℚ) < KetapolaDice.threshold low high) := by
  have hlow64 : (Binary64.ofNat low).Is low := Binary64.is_ofNat (by omega)
  have hhigh64 : (Binary64.ofNat high).Is high := Binary64.is_ofNat (by omega)
  have hlast64 : (Binary64.ofNat 0xffffffff).Is (0xffffffff : ℕ) := Binary64.is_ofNat (by norm_num)
  obtain ⟨hshare, hone, hround⟩ := share_bounds hlow (show low < low + high by omega) hweights
  have hsum : (Binary64.add (.ofNat low) (.ofNat high)).Is ((low + high : ℕ) : ℚ) := by
    have hexact : rounded ((low + high : ℕ) : ℚ) = (low + high : ℕ) :=
      Binary64.rounded_natCast (by omega)
    have hle : ((low + high : ℕ) : ℚ) ≤ 2 ^ 53 := by exact_mod_cast (by omega : low + high ≤ 2 ^ 53)
    have h := Binary64.is_round (low + high : ℕ).cast_nonneg (by norm_num) hle
    rw [hexact] at h
    rw [hlow64.add hhigh64]
    exact_mod_cast h
  have hdiv : (Binary64.div (.ofNat low) (.add (.ofNat low) (.ofNat high))).Is
      (rounded (low / (low + high : ℕ))) := by
    rw [hlow64.div hsum (by positivity)]
    exact Binary64.is_round (k := 0) _ (by norm_num) (by rw [pow_zero]; exact hone.le)
  have hmul : (threshold (.ofNat low) (.ofNat high)).Is
      (rounded (rounded (low / (low + high : ℕ)) * (0xffffffff : ℕ))) := by
    rw [threshold, hdiv.mul hlast64]
    refine Binary64.is_round (k := 32) _ (by norm_num) ?_
    norm_num at hround ⊢
    linarith
  have hexact := lt_rounded_iff (s := s) hlow (show low < low + high by omega) hweights
  rw [(Binary64.is_ofNat hs).lt hmul, decide_eq_decide, KetapolaDice.threshold]
  push_cast at hexact ⊢
  exact hexact

/-- **The rounded dice are the exact ones**: for every digest, and all weights that add up to less than
`2 ^ 21`, the outcome in floating-point numbers is the exact outcome, and both refuse the same weights. -/
theorem dice_exact (hmac : Hmac) (hweights : low + high < 2 ^ 21) :
    (determineOutcome hmac (.ofNat low) (.ofNat high)).toOption =
      (KetapolaDice.determineOutcome hmac low high).toOption := by
  have hlow53 : low ≤ 2 ^ 53 := by omega
  have hhigh53 : high ≤ 2 ^ 53 := by omega
  have hzero : ∀ {n : ℕ}, n ≤ 2 ^ 53 → (Binary64.ofNat n).isZero = decide (n = 0) := by
    intro n hn
    obtain ⟨hv, h⟩ := Binary64.is_ofNat hn
    rw [h, Binary64.isZero, decide_eq_decide, Nat.cast_eq_zero]
  rw [determineOutcome, KetapolaDice.determineOutcome, hzero hlow53, hzero hhigh53]
  by_cases hnone : low = 0 ∨ high = 0
  · rw [if_pos (by simpa using hnone), if_pos (by omega)]
    rfl
  rw [if_neg (by simpa using hnone), if_neg (by omega)]
  have hside : (Binary64.ofNat (KetapolaDice.uint32At hmac.hex 0)).lt
      (threshold (.ofNat low) (.ofNat high)) =
        decide ((KetapolaDice.uint32At hmac.hex 0 : ℚ) < KetapolaDice.threshold low high) := by
    refine lt_threshold (by omega) (by omega) hweights ?_
    have hlt := uint32be_lt ((hmac.bytes.drop 0).take 4)
    have hlength : ((hmac.bytes.drop 0).take 4).length ≤ 4 := List.length_take_le 4 _
    have hpow := Nat.pow_le_pow_right (show 0 < 256 by decide) hlength
    rw [show 0 = 2 * 0 from rfl, KetapolaDice.uint32At_hex]
    omega
  simp only [hside, decide_eq_true_eq]
  rfl

/-- A digest of nothing but zeros, with a third of the rounds on the low side. -/
theorem dice_exact_third :
    (determineOutcome ⟨List.replicate 32 0, rfl⟩ (.ofNat 1) (.ofNat 2)).toOption =
      some ⟨[3], 3, .low⟩ :=
  (dice_exact _ (by norm_num)).trans (by decide +kernel)

end YantraRgs.RoundedDice
