import Mathlib.Algebra.Order.Floor.Ring
import Mathlib.Data.Int.Log
import Mathlib.Data.Rat.Floor
import Mathlib.Tactic.FieldSimp
import Mathlib.Tactic.Linarith
import Mathlib.Tactic.NormNum
import Mathlib.Tactic.Positivity
import Mathlib.Tactic.Ring

/-! # Floating-point numbers of 64 bits

The numbers that are not negative: multiples of a power of two below `2 ^ 53` of it, infinity, and what
is no number. A result is the nearest of them, and the even one of two that are equally near.

* **`nearest`** — the nearest integer.
* **`rounded`** — the nearest value, with no bound from above; **`rounded_mono`** says that the order is
  kept, and **`rounded_dyadic`** which numbers need no rounding.
* **`abs_rounded_sub_le`** — how far away the nearest value is.
* **`Binary64`**, **`round`**, **`div`**, **`max`** — the numbers, and what is computed with them;
  **`Is`** is which rational a finite one is. -/

namespace YantraRgs

/-- What a finite number can be: a multiple of a power of two, below `2 ^ 53` of it. -/
structure IsValue (x : ℚ) : Prop where
  dyadic : ∃ (n : ℕ) (e : ℤ), n < 2 ^ 53 ∧ -1074 ≤ e ∧ x = n * 2 ^ e
  bounded : x < 2 ^ 1024

/-- A finite number is not negative. -/
theorem IsValue.nonneg {x : ℚ} (h : IsValue x) : 0 ≤ x := by
  obtain ⟨n, e, -, -, rfl⟩ := h.dyadic
  exact mul_nonneg n.cast_nonneg (zpow_pos two_pos e).le

/-- The integer part of a finite number is one as well. -/
theorem IsValue.floor {x : ℚ} (h : IsValue x) : IsValue ⌊x⌋ := by
  have hle : (⌊x⌋ : ℚ) ≤ x := Int.floor_le x
  refine ⟨?_, hle.trans_lt h.bounded⟩
  obtain ⟨n, e, hn, he, hx⟩ := h.dyadic
  obtain ⟨m, hm⟩ := Int.eq_ofNat_of_zero_le (Int.floor_nonneg.mpr h.nonneg)
  by_cases hsmall : m < 2 ^ 53
  · exact ⟨m, 0, hsmall, by norm_num, by rw [hm, zpow_zero, mul_one, Int.cast_natCast]⟩
  · -- from `2 ^ 53` on there are integers only
    have hlow : (2 : ℚ) ^ 53 ≤ x := by
      refine le_trans ?_ hle
      rw [hm, Int.cast_natCast]
      exact_mod_cast not_lt.mp hsmall
    have hnonneg : 0 ≤ e := by
      by_contra hneg
      have hone : (2 : ℚ) ^ e ≤ 1 := zpow_le_one_of_nonpos₀ one_le_two (not_le.mp hneg).le
      have hlt : (n : ℚ) < 2 ^ 53 := by exact_mod_cast hn
      have hmul : (n : ℚ) * 2 ^ e ≤ n * 1 := mul_le_mul_of_nonneg_left hone n.cast_nonneg
      linarith
    obtain ⟨k, rfl⟩ := Int.eq_ofNat_of_zero_le hnonneg
    have hint : x = ((n * 2 ^ k : ℤ) : ℚ) := by
      rw [hx]
      push_cast
      rfl
    exact ⟨n, k, hn, he, by rw [← hx, hint, Int.floor_intCast]⟩

/-- **A number that is not negative**, infinity, or what is no number. -/
inductive Binary64
  | finite (x : ℚ) (value : IsValue x)
  | infinity
  | nan
  deriving DecidableEq

namespace Binary64

/-! ## The nearest integer -/

/-- **The nearest integer**, and the even one of two that are equally near. -/
def nearest (x : ℚ) : ℤ :=
  if Int.fract x < 1 / 2 ∨ Int.fract x = 1 / 2 ∧ ⌊x⌋ % 2 = 0 then ⌊x⌋ else ⌊x⌋ + 1

@[simp] theorem nearest_intCast (n : ℤ) : nearest n = n := by
  rw [nearest, Int.fract_intCast, Int.floor_intCast, if_pos (.inl (by norm_num))]

/-- The nearest integer is within one half. -/
theorem abs_nearest_sub_le (x : ℚ) : |(nearest x : ℚ) - x| ≤ 1 / 2 := by
  have hsplit : x = ⌊x⌋ + Int.fract x := (Int.floor_add_fract x).symm
  have hlt := Int.fract_lt_one x
  have hnonneg := Int.fract_nonneg x
  rw [nearest]
  split
  · rename_i h
    have hle : Int.fract x ≤ 1 / 2 := h.elim le_of_lt fun h => h.1.le
    rw [abs_le]
    constructor <;> linarith
  · rename_i h
    have hge : 1 / 2 ≤ Int.fract x := le_of_not_gt fun hlow => h (.inl hlow)
    push_cast
    rw [abs_le]
    constructor <;> linarith

/-- **The nearest integer keeps the order.** -/
theorem nearest_mono {x y : ℚ} (h : x ≤ y) : nearest x ≤ nearest y := by
  by_contra hnot
  have hstep : (nearest y : ℚ) + 1 ≤ nearest x := by exact_mod_cast Int.add_one_le_iff.mpr (not_le.mp hnot)
  have hx := abs_le.mp (abs_nearest_sub_le x)
  have hy := abs_le.mp (abs_nearest_sub_le y)
  obtain rfl : x = y := by linarith
  exact hnot le_rfl

theorem le_nearest {n : ℤ} {x : ℚ} (h : (n : ℚ) ≤ x) : n ≤ nearest x :=
  (nearest_intCast n).ge.trans (nearest_mono h)

theorem nearest_le {n : ℤ} {x : ℚ} (h : x ≤ n) : nearest x ≤ n :=
  (nearest_mono h).trans (nearest_intCast n).le

/-- Below the middle the integer is not passed. -/
theorem nearest_le_of_lt {n : ℤ} {x : ℚ} (h : x < n + 1 / 2) : nearest x ≤ n := by
  have hx := abs_le.mp (abs_nearest_sub_le x)
  have hlt : (nearest x : ℚ) < n + 1 := by linarith
  exact Int.lt_add_one_iff.mp (by exact_mod_cast hlt)

/-! ## The nearest value -/

/-- The exponent of the values around a number. -/
def exponent (q : ℚ) : ℤ := max (Int.log 2 q - 52) (-1074)

/-- What the values around a number are multiples of. -/
def ulp (q : ℚ) : ℚ := 2 ^ exponent q

/-- **The nearest value**, with no bound on its exponent from above. -/
def rounded (q : ℚ) : ℚ := nearest (q / ulp q) * ulp q

theorem ulp_pos (q : ℚ) : 0 < ulp q := zpow_pos two_pos _

@[simp] theorem rounded_zero : rounded 0 = 0 := by
  have h : nearest 0 = 0 := nearest_intCast 0
  rw [rounded, zero_div, h, Int.cast_zero, zero_mul]

/-- **A multiple of the unit is no farther than the nearest value.** -/
theorem le_rounded {v q : ℚ} {n : ℤ} (hv : v = n * ulp q) (h : v ≤ q) : v ≤ rounded q := by
  rw [rounded, hv]
  refine mul_le_mul_of_nonneg_right (Int.cast_le.mpr (le_nearest ?_)) (ulp_pos q).le
  rwa [le_div_iff₀ (ulp_pos q), ← hv]

theorem rounded_le {v q : ℚ} {n : ℤ} (hv : v = n * ulp q) (h : q ≤ v) : rounded q ≤ v := by
  rw [rounded, hv]
  refine mul_le_mul_of_nonneg_right (Int.cast_le.mpr (nearest_le ?_)) (ulp_pos q).le
  rwa [div_le_iff₀ (ulp_pos q), ← hv]

/-- **A multiple of the unit is not passed** from within half a unit. -/
theorem rounded_le_of_lt {v q : ℚ} {n : ℤ} (hv : v = n * ulp q) (h : q < v + ulp q / 2) :
    rounded q ≤ v := by
  rw [rounded, hv]
  refine mul_le_mul_of_nonneg_right (Int.cast_le.mpr (nearest_le_of_lt ?_)) (ulp_pos q).le
  rw [div_lt_iff₀ (ulp_pos q), add_mul, ← hv]
  linarith

theorem exponent_mono {q r : ℚ} (hq : 0 < q) (h : q ≤ r) : exponent q ≤ exponent r :=
  max_le_max (Int.sub_le_sub_right (Int.log_mono_right hq h) 52) le_rfl

/-- A power of two is a multiple of each smaller one. -/
theorem zpow_eq_mul {e k : ℤ} (h : e ≤ k) : ∃ n : ℤ, (2 : ℚ) ^ k = n * 2 ^ e := by
  obtain ⟨j, rfl⟩ := Int.le.dest h
  exact ⟨2 ^ j, by rw [zpow_add₀ two_ne_zero, zpow_natCast, mul_comm]; norm_cast⟩

/-- **Rounding keeps the order.** -/
theorem rounded_mono {q r : ℚ} (hq : 0 ≤ q) (h : q ≤ r) : rounded q ≤ rounded r := by
  obtain rfl | hq := hq.eq_or_lt
  · rw [rounded_zero]
    exact le_rounded (n := 0) (by norm_num) h
  have hr := hq.trans_le h
  obtain heq | hlt := (exponent_mono hq h).eq_or_lt
  · -- with one unit the order is that of the nearest integers
    have hulp : ulp q = ulp r := congrArg (fun e : ℤ => (2 : ℚ) ^ e) heq
    rw [rounded, rounded, hulp]
    refine mul_le_mul_of_nonneg_right (Int.cast_le.mpr (nearest_mono ?_)) (ulp_pos r).le
    exact div_le_div_of_nonneg_right h (ulp_pos r).le
  · -- otherwise a power of two stands between the two numbers, and is a multiple of both units
    have hexp : exponent r = Int.log 2 r - 52 := by
      rcases max_choice (Int.log 2 r - 52) (-1074) with hmax | hmax
      · exact hmax
      · exact absurd (hlt.trans_le hmax.le) (not_lt.mpr (le_max_right _ _))
    have hbelow : Int.log 2 q < Int.log 2 r := by
      have hmax := le_max_left (Int.log 2 q - 52) (-1074)
      have hlt' := hlt
      rw [hexp] at hlt'
      simp only [exponent] at hlt'
      omega
    have hlow : q ≤ 2 ^ Int.log 2 r :=
      ((Int.lt_zpow_iff_log_lt one_lt_two hq).mpr hbelow).le
    have hhigh : (2 : ℚ) ^ Int.log 2 r ≤ r := Int.zpow_log_le_self one_lt_two hr
    obtain ⟨n, hn⟩ := zpow_eq_mul (show exponent q ≤ Int.log 2 r by omega)
    obtain ⟨m, hm⟩ := zpow_eq_mul (show exponent r ≤ Int.log 2 r by omega)
    exact (rounded_le hn hlow).trans (le_rounded hm hhigh)

/-- **A value is not rounded**: a multiple of a power of two below `2 ^ 53` of it. -/
theorem rounded_dyadic {n : ℕ} {e : ℤ} (hn : n < 2 ^ 53) (he : -1074 ≤ e) :
    rounded (n * 2 ^ e) = n * 2 ^ e := by
  obtain rfl | hpos := n.eq_zero_or_pos
  · rw [Nat.cast_zero, zero_mul, rounded_zero]
  have hq : (0 : ℚ) < n * 2 ^ e := mul_pos (Nat.cast_pos.mpr hpos) (zpow_pos two_pos e)
  have hlog : Int.log 2 ((n : ℚ) * 2 ^ e) < e + 53 := by
    refine (Int.lt_zpow_iff_log_lt one_lt_two hq).mp ?_
    rw [Nat.cast_ofNat, zpow_add₀ two_ne_zero, mul_comm]
    refine mul_lt_mul_of_pos_left ?_ (zpow_pos two_pos e)
    exact_mod_cast hn
  have hexp : exponent ((n : ℚ) * 2 ^ e) ≤ e := max_le (by omega) he
  obtain ⟨m, hm⟩ := zpow_eq_mul hexp
  have hmul : (n : ℚ) * 2 ^ e = ((n * m : ℤ) : ℚ) * ulp (n * 2 ^ e) := by
    conv_lhs => rw [hm]
    rw [ulp]
    push_cast
    ring
  exact le_antisymm (rounded_le hmul le_rfl) (le_rounded hmul le_rfl)

/-- An integer up to `2 ^ 53` is not rounded. -/
theorem rounded_natCast {n : ℕ} (hn : n ≤ 2 ^ 53) : rounded n = n := by
  obtain heq | hlt := hn.eq_or_lt
  · have h := rounded_dyadic (n := 1) (e := 53) (by norm_num) (by norm_num)
    rw [heq]
    norm_num at h ⊢
    exact h
  · have h := rounded_dyadic (e := 0) hlt (by norm_num)
    rwa [zpow_zero, mul_one] at h

/-- Nothing is rounded below zero. -/
theorem rounded_nonneg {q : ℚ} (hq : 0 ≤ q) : 0 ≤ rounded q := by
  have hmono := rounded_mono le_rfl hq
  rwa [rounded_zero] at hmono

@[simp] theorem rounded_one : rounded 1 = 1 := by
  have hself := rounded_natCast (n := 1) (by norm_num)
  rwa [Nat.cast_one] at hself

@[simp] theorem rounded_half : rounded (1 / 2) = 1 / 2 := by
  have hself := rounded_dyadic (n := 1) (e := -1) (by norm_num) (by norm_num)
  norm_num at hself ⊢
  exact hself

/-- Nothing up to one is rounded above it. -/
theorem rounded_le_one {q : ℚ} (hq : 0 ≤ q) (h : q ≤ 1) : rounded q ≤ 1 :=
  (rounded_mono hq h).trans_eq rounded_one

/-- A whole number is a multiple of every unit up to one. -/
theorem exists_natCast_eq {q : ℚ} (h : exponent q ≤ 0) (s : ℕ) : ∃ n : ℤ, (s : ℚ) = n * ulp q := by
  obtain ⟨m, hm⟩ := zpow_eq_mul h
  rw [zpow_zero] at hm
  refine ⟨s * m, ?_⟩
  push_cast
  rw [mul_assoc, ulp, ← hm, mul_one]

/-- The nearest value of a number whose magnitude is known. -/
theorem rounded_of_log {q : ℚ} {k : ℤ} (hlow : 2 ^ k ≤ q) (hhigh : q < 2 ^ (k + 1))
    (hk : -1022 ≤ k) : rounded q = nearest (q / 2 ^ (k - 52)) * 2 ^ (k - 52) := by
  have hq : 0 < q := (zpow_pos two_pos k).trans_le hlow
  have hlog : Int.log 2 q = k := by
    have h₁ := (Int.zpow_le_iff_le_log one_lt_two hq).mp (by rwa [Nat.cast_ofNat])
    have h₂ := (Int.lt_zpow_iff_log_lt one_lt_two hq).mp (by rwa [Nat.cast_ofNat])
    omega
  have hexp : exponent q = k - 52 := by
    rw [exponent, hlog]
    exact max_eq_left (by omega)
  rw [rounded, ulp, hexp]

/-- The unit is chosen so that a number is below `2 ^ 53` of it. -/
theorem lt_mul_ulp (q : ℚ) : q < 2 ^ 53 * ulp q := by
  have hlog := Int.lt_zpow_succ_log_self one_lt_two q
  have hmax := le_max_left (Int.log 2 q - 52) (-1074)
  refine hlog.trans_le ?_
  rw [ulp, Nat.cast_ofNat, ← zpow_natCast, ← zpow_add₀ two_ne_zero]
  refine zpow_le_zpow_right₀ one_le_two ?_
  simp only [exponent]
  omega

/-- **The nearest value is within half a unit**, and the unit is so small below a power of two. -/
theorem abs_rounded_sub_le {q : ℚ} {k : ℤ} (hq : 0 ≤ q) (h : q ≤ 2 ^ k) (hk : -1021 ≤ k) :
    |rounded q - q| ≤ 2 ^ (k - 54) := by
  have hpos : (0 : ℚ) < 2 ^ (k - 54) := zpow_pos two_pos _
  obtain rfl | hq := hq.eq_or_lt
  · rw [rounded_zero, sub_zero, abs_zero]
    exact hpos.le
  obtain rfl | hlt := h.eq_or_lt
  · have hself := rounded_dyadic (n := 1) (e := k) (by norm_num) (by omega)
    rw [Nat.cast_one, one_mul] at hself
    rw [hself, sub_self, abs_zero]
    exact hpos.le
  · have hlog : Int.log 2 q < k := (Int.lt_zpow_iff_log_lt one_lt_two hq).mp (by exact_mod_cast hlt)
    have hexp : exponent q ≤ k - 53 := max_le (by omega) (by omega)
    have hulp : ulp q ≤ 2 * 2 ^ (k - 54) := by
      have htwo : (2 : ℚ) * 2 ^ (k - 54) = 2 ^ (k - 53) := by
        rw [← zpow_one_add₀ two_ne_zero]
        congr 1
        ring
      rw [htwo]
      exact zpow_le_zpow_right₀ one_le_two hexp
    have hsplit : rounded q - q = (nearest (q / ulp q) - q / ulp q) * ulp q := by
      rw [sub_mul, div_mul_cancel₀ q (ulp_pos q).ne', rounded]
    rw [hsplit, abs_mul, abs_of_pos (ulp_pos q)]
    have hhalf := abs_nearest_sub_le (q / ulp q)
    have hmul := mul_le_mul hhalf hulp (ulp_pos q).le (by norm_num)
    linarith

/-- **What is below a number by more than its part in `2 ^ 53`** is not rounded up to it. -/
theorem rounded_lt_of_lt {x r : ℚ} (hx : 0 ≤ x) (hr : 1 ≤ r) (h : x < r * (1 - 1 / 2 ^ 53)) :
    rounded x < r := by
  have hpos : 0 < r := by linarith
  have hlow : (2 : ℚ) ^ Int.log 2 r ≤ r := Int.zpow_log_le_self one_lt_two hpos
  have hhigh : r < 2 ^ (Int.log 2 r + 1) := by
    exact_mod_cast Int.lt_zpow_succ_log_self one_lt_two r
  have hlog : 0 ≤ Int.log 2 r := (Int.zpow_le_iff_le_log one_lt_two hpos).mp (by rwa [zpow_zero])
  have hle : x ≤ 2 ^ (Int.log 2 r + 1) := by
    have hpart : 0 ≤ r * (1 / 2 ^ 53) := by positivity
    linarith
  have herror := (abs_le.mp (abs_rounded_sub_le hx hle (by omega))).2
  have hunit : (2 : ℚ) ^ (Int.log 2 r + 1 - 54) = 2 ^ Int.log 2 r * (1 / 2 ^ 53) := by
    rw [show Int.log 2 r + 1 - 54 = Int.log 2 r + (-53) by ring, zpow_add₀ two_ne_zero]
    norm_num
  rw [hunit] at herror
  linarith

/-- **What is rounded is a value**, where the exponent is not bounded. -/
theorem rounded_isDyadic {q : ℚ} (hq : 0 ≤ q) :
    ∃ (n : ℕ) (e : ℤ), n < 2 ^ 53 ∧ -1074 ≤ e ∧ rounded q = n * 2 ^ e := by
  obtain rfl | hq := hq.eq_or_lt
  · exact ⟨0, 0, by norm_num, by norm_num, by rw [rounded_zero, Nat.cast_zero, zero_mul]⟩
  have hexp : -1074 ≤ exponent q := le_max_right _ _
  have hnonneg : 0 ≤ nearest (q / ulp q) := le_nearest (by
    rw [Int.cast_zero]
    exact (div_pos hq (ulp_pos q)).le)
  have hle : nearest (q / ulp q) ≤ 2 ^ 53 := nearest_le (by
    rw [div_le_iff₀ (ulp_pos q)]
    exact_mod_cast (lt_mul_ulp q).le)
  obtain ⟨n, hn⟩ := Int.eq_ofNat_of_zero_le hnonneg
  rw [hn] at hle
  obtain heq | hlt := hle.eq_or_lt
  · -- the number was rounded up to the next power of two
    refine ⟨1, exponent q + 53, by norm_num, by omega, ?_⟩
    rw [rounded, hn, heq, ulp, zpow_add₀ two_ne_zero]
    push_cast
    ring
  · exact ⟨n, exponent q, by exact_mod_cast hlt, hexp, by rw [rounded, hn, ulp, Int.cast_natCast]⟩

/-! ## What is computed -/

/-- **The number nearest to a rational one.** -/
def round (q : ℚ) (hq : 0 ≤ q) : Binary64 :=
  if h : rounded q < 2 ^ 1024 then .finite (rounded q) ⟨rounded_isDyadic hq, h⟩ else .infinity

/-- The number of an integer. -/
def ofNat (n : ℕ) : Binary64 := round n n.cast_nonneg

/-- **The quotient of two numbers.** -/
def div : Binary64 → Binary64 → Binary64
  | .finite x hx, .finite y hy =>
      if y = 0 then if x = 0 then .nan else .infinity
      else round (x / y) (div_nonneg hx.nonneg hy.nonneg)
  | .infinity, .finite _ _ => .infinity
  | .finite _ _, .infinity => round 0 le_rfl
  | _, _ => .nan

/-- The sum of two numbers. -/
def add : Binary64 → Binary64 → Binary64
  | .finite x hx, .finite y hy => round (x + y) (add_nonneg hx.nonneg hy.nonneg)
  | .nan, _ => .nan
  | _, .nan => .nan
  | _, _ => .infinity

/-- The difference of two numbers. What is below zero is no number here. -/
def sub : Binary64 → Binary64 → Binary64
  | .finite x _, .finite y _ => if h : y ≤ x then round (x - y) (sub_nonneg.mpr h) else .nan
  | .infinity, .finite _ _ => .infinity
  | _, _ => .nan

/-- The product of two numbers. -/
def mul : Binary64 → Binary64 → Binary64
  | .finite x hx, .finite y hy => round (x * y) (mul_nonneg hx.nonneg hy.nonneg)
  | .nan, _ => .nan
  | _, .nan => .nan
  | .finite x _, _ => if x = 0 then .nan else .infinity
  | _, .finite y _ => if y = 0 then .nan else .infinity
  | _, _ => .infinity

/-- The greatest integer up to a number. -/
def floor : Binary64 → Binary64
  | .finite x hx => .finite ⌊x⌋ hx.floor
  | x => x

/-- Whether a number is zero. -/
def isZero : Binary64 → Bool
  | .finite x _ => x = 0
  | _ => false

/-- Whether a number is less than another one. -/
def lt : Binary64 → Binary64 → Bool
  | .finite x _, .finite y _ => x < y
  | .finite _ _, .infinity => true
  | _, _ => false

/-- Whether a number is at most another one. -/
def le : Binary64 → Binary64 → Bool
  | .finite x _, .finite y _ => x ≤ y
  | .finite _ _, .infinity => true
  | .infinity, .infinity => true
  | _, _ => false

/-- The greater of two numbers. -/
def max : Binary64 → Binary64 → Binary64
  | .nan, _ => .nan
  | _, .nan => .nan
  | x, y => if lt x y then y else x

/-- The lesser of two numbers. -/
def min : Binary64 → Binary64 → Binary64
  | .nan, _ => .nan
  | _, .nan => .nan
  | x, y => if lt x y then x else y

variable {q v : ℚ} {a b : ℕ}

theorem lt_round (hq : 0 ≤ q) (hv : IsValue v) :
    lt (round q hq) (.finite v hv) = decide (rounded q < v) := by
  rw [round]
  split
  · rfl
  · rename_i h
    exact (decide_eq_false fun hlt => h (hlt.trans hv.bounded)).symm

theorem isZero_round (hq : 0 ≤ q) : isZero (round q hq) = decide (rounded q = 0) := by
  rw [round]
  split
  · rfl
  · rename_i h
    refine (decide_eq_false fun hzero => h ?_).symm
    rw [hzero]
    positivity

theorem infinity_ne_nan : Binary64.infinity ≠ .nan := by
  intro h
  cases h

theorem round_ne_nan (hq : 0 ≤ q) : round q hq ≠ .nan := by
  rw [round]
  split <;> exact nofun

theorem max_finite {x y : ℚ} (hx : IsValue x) (hy : IsValue y) :
    max (.finite x hx) (.finite y hy) = if x < y then .finite y hy else .finite x hx := by
  simp only [max, lt, decide_eq_true_eq]

/-- The greater of two numbers is below a third one when both are. -/
theorem lt_max {x y z : Binary64} (hx : x ≠ .nan) (hy : y ≠ .nan) :
    lt (max x y) z = (lt x z && lt y z) := by
  cases x with
  | nan => exact absurd rfl hx
  | infinity => cases y <;> cases z <;> rfl
  | finite x vx =>
      cases y with
      | nan => exact absurd rfl hy
      | infinity => cases z <;> simp [max, lt]
      | finite y vy =>
          rw [max_finite]
          cases z with
          | finite z vz => split <;> simp only [lt] <;> grind
          | infinity => split <;> rfl
          | nan => split <;> rfl

/-- The greater of two numbers is above a third one when one of them is. -/
theorem le_max {x y z : Binary64} (hx : x ≠ .nan) (hy : y ≠ .nan) :
    le z (max x y) = (le z x || le z y) := by
  cases x with
  | nan => exact absurd rfl hx
  | infinity =>
      cases y with
      | nan => exact absurd rfl hy
      | infinity => cases z <;> rfl
      | finite y vy => cases z <;> rfl
  | finite x vx =>
      cases y with
      | nan => exact absurd rfl hy
      | infinity => cases z <;> simp [max, lt, le]
      | finite y vy =>
          rw [max_finite]
          cases z with
          | finite z vz => split <;> simp only [le] <;> grind
          | infinity => split <;> rfl
          | nan => split <;> rfl

/-- The lesser of two numbers is above a third one when both are. -/
theorem le_min {x y z : Binary64} (hx : x ≠ .nan) (hy : y ≠ .nan) :
    le z (min x y) = (le z x && le z y) := by
  cases x with
  | nan => exact absurd rfl hx
  | infinity => cases y <;> cases z <;> rfl
  | finite x vx =>
      cases y with
      | nan => exact absurd rfl hy
      | infinity => cases z <;> simp [min, lt, le]
      | finite y vy =>
          have hmin : min (.finite x vx) (.finite y vy) =
              if x < y then .finite x vx else .finite y vy := by
            simp only [min, lt, decide_eq_true_eq]
          rw [hmin]
          cases z with
          | finite z vz => split <;> simp only [le] <;> grind
          | infinity => split <;> rfl
          | nan => split <;> rfl

/-- Of two numbers, one is less than the other or at least as great. -/
theorem lt_eq_not_le {x y : Binary64} (hx : x ≠ .nan) (hy : y ≠ .nan) : lt x y = !le y x := by
  cases x with
  | nan => exact absurd rfl hx
  | infinity => cases y <;> first | rfl | exact absurd rfl hy
  | finite x vx =>
      cases y with
      | nan => exact absurd rfl hy
      | infinity => rfl
      | finite y vy => simp only [lt, le, ← decide_not, not_le]

/-- **Rounding keeps the order**, also where it goes to infinity. -/
theorem le_round {r : ℚ} (hq : 0 ≤ q) (hr : 0 ≤ r) (h : q ≤ r) : le (round q hq) (round r hr) = true := by
  have hmono := rounded_mono hq h
  rw [round, round]
  split
  · split
    · exact decide_eq_true hmono
    · rfl
  · rename_i htop
    rw [dif_neg fun hlt => htop (hmono.trans_lt hlt)]
    rfl

/-- The greater of two numbers is zero when both are. -/
theorem isZero_max {x y : Binary64} (hx : x ≠ .nan) (hy : y ≠ .nan) :
    isZero (max x y) = (isZero x && isZero y) := by
  cases x with
  | nan => exact absurd rfl hx
  | infinity => cases y <;> rfl
  | finite x vx =>
      cases y with
      | nan => exact absurd rfl hy
      | infinity => simp [max, lt, isZero]
      | finite y vy =>
          have hx₀ := vx.nonneg
          have hy₀ := vy.nonneg
          rw [max_finite]
          split <;> simp only [isZero] <;> grind

theorem max_ne_nan {x y : Binary64} (hx : x ≠ .nan) (hy : y ≠ .nan) : max x y ≠ .nan := by
  cases x <;> cases y <;> simp_all [max] <;> split <;> simp_all

/-- An integer up to `2 ^ 53` is a number. -/
theorem ofNat_of_le (h : a ≤ 2 ^ 53) : ∃ hv, ofNat a = .finite a hv := by
  have hlt : rounded a < 2 ^ 1024 := by
    rw [rounded_natCast h]
    exact_mod_cast h.trans_lt (Nat.pow_lt_pow_right one_lt_two (by norm_num))
  have hround : ofNat a = .finite (rounded a) ⟨rounded_isDyadic a.cast_nonneg, hlt⟩ := dif_pos hlt
  simp only [rounded_natCast h] at hround
  exact ⟨_, hround⟩

/-- **The quotient of two integers** is the nearest number to the rational one, unless the first is
rounded and the quotient is one at least. -/
theorem div_ofNat (hpos : 0 < b) (hb : b ≤ 2 ^ 53) :
    ∃ q hq, div (ofNat a) (ofNat b) = round q hq ∧ (q = a / b ∨ 1 ≤ q ∧ 1 ≤ (a : ℚ) / b) := by
  obtain ⟨hvb, hofb⟩ := ofNat_of_le hb
  have hb₀ : (0 : ℚ) < b := Nat.cast_pos.mpr hpos
  by_cases ha : a ≤ 2 ^ 53
  · obtain ⟨hva, hofa⟩ := ofNat_of_le ha
    exact ⟨a / b, _, by rw [hofa, hofb, div, if_neg hb₀.ne'], .inl rfl⟩
  · have hab : b ≤ a := hb.trans (not_le.mp ha).le
    have hone : 1 ≤ (a : ℚ) / b := by
      rw [one_le_div hb₀]
      exact_mod_cast hab
    by_cases hlt : rounded a < 2 ^ 1024
    · have hle : (b : ℚ) ≤ rounded a := by
        rw [← rounded_natCast hb]
        exact rounded_mono b.cast_nonneg (by exact_mod_cast hab)
      refine ⟨rounded a / b, div_nonneg (hb₀.le.trans hle) hb₀.le, ?_,
        .inr ⟨(one_le_div hb₀).mpr hle, hone⟩⟩
      rw [hofb, ofNat, round, dif_pos hlt, div, if_neg hb₀.ne']
    · refine ⟨2 ^ 1024, by positivity, ?_, .inr ⟨one_le_pow₀ one_le_two, hone⟩⟩
      have htop : rounded (2 ^ 1024) = 2 ^ 1024 := by
        have h := rounded_dyadic (n := 1) (e := 1024) (by norm_num) (by norm_num)
        rw [Nat.cast_one, one_mul] at h
        exact_mod_cast h
      rw [hofb, ofNat, round, dif_neg hlt, div, round, dif_neg (by rw [htop]; exact lt_irrefl _)]

/-! ## Which rational a number is -/

/-- A finite number is a rational one. -/
def Is (x : Binary64) (r : ℚ) : Prop := ∃ hv, x = .finite r hv

section Rational

variable {x y : Binary64} {r s : ℚ}

theorem Is.ne_nan (h : Is x r) : x ≠ .nan := by
  obtain ⟨hv, rfl⟩ := h
  exact nofun

theorem Is.nonneg (h : Is x r) : 0 ≤ r := h.1.nonneg

theorem Is.lt (hx : Is x r) (hy : Is y s) : lt x y = decide (r < s) := by
  obtain ⟨hv, rfl⟩ := hx
  obtain ⟨hw, rfl⟩ := hy
  rfl

/-- Numbers that are not too great are not rounded to infinity. -/
theorem is_round (hq : 0 ≤ q) {k : ℕ} (hk : k < 1024) (h : q ≤ 2 ^ k) :
    Is (round q hq) (rounded q) := by
  have hself := rounded_dyadic (n := 1) (e := k) (by norm_num) (by omega)
  rw [Nat.cast_one, one_mul, zpow_natCast] at hself
  have hle : rounded q ≤ 2 ^ k := hself ▸ rounded_mono hq h
  exact ⟨_, dif_pos (hle.trans_lt (pow_lt_pow_right₀ one_lt_two hk))⟩

theorem Is.le (hx : Is x r) (hy : Is y s) : le x y = decide (r ≤ s) := by
  obtain ⟨hv, rfl⟩ := hx
  obtain ⟨hw, rfl⟩ := hy
  rfl

theorem is_ofNat (h : a ≤ 2 ^ 53) : Is (ofNat a) a := ofNat_of_le h

theorem Is.div (hx : Is x r) (hy : Is y s) (hs : s ≠ 0) :
    div x y = round (r / s) (div_nonneg hx.nonneg hy.nonneg) := by
  obtain ⟨hv, rfl⟩ := hx
  obtain ⟨hw, rfl⟩ := hy
  exact if_neg hs

theorem Is.add (hx : Is x r) (hy : Is y s) :
    add x y = round (r + s) (add_nonneg hx.nonneg hy.nonneg) := by
  obtain ⟨hv, rfl⟩ := hx
  obtain ⟨hw, rfl⟩ := hy
  rfl

theorem Is.mul (hx : Is x r) (hy : Is y s) :
    mul x y = round (r * s) (mul_nonneg hx.nonneg hy.nonneg) := by
  obtain ⟨hv, rfl⟩ := hx
  obtain ⟨hw, rfl⟩ := hy
  rfl

theorem Is.sub (hx : Is x r) (hy : Is y s) (h : s ≤ r) :
    sub x y = round (r - s) (sub_nonneg.mpr h) := by
  obtain ⟨hv, rfl⟩ := hx
  obtain ⟨hw, rfl⟩ := hy
  exact dif_pos h

theorem Is.floor (hx : Is x r) : Is (floor x) ⌊r⌋ := by
  obtain ⟨hv, rfl⟩ := hx
  exact ⟨hv.floor, rfl⟩

end Rational

end Binary64

end YantraRgs
