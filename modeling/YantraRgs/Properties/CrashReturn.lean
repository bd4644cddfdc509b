import Mathlib.Algebra.Order.Floor.Semiring
import Mathlib.Order.Interval.Finset.Nat
import Mathlib.Tactic.FieldSimp
import Mathlib.Tactic.Linarith
import Mathlib.Tactic.Positivity
import YantraRgs.Games.CrashMinimal
import YantraRgs.Games.LempiCrash

/-! # The return of the crash games

A player who always cashes out at one multiplier wins on the samples whose round crashes no earlier.
Their number is the same for both games, and the return is the same for every multiplier, up to the
width of one sample.

* **`le_crashMultiplierOf_iff`** — the samples that reach a multiplier.
* **`digest`** — a digest for every sample.
* **`crash_return`** — the number of winning samples, and the return. -/

namespace YantraRgs.Crash

variable {config : OutcomeConfig}

/-! ## Samples -/

/-- The last `k` hexadecimal digits of a number. -/
def hexText : Nat → Nat → List Char
  | 0, _ => []
  | k + 1, n => hexText k (n / 16) ++ [hexChar (n % 16)]

/-- A digest whose first fifty-two bits are a sample. -/
def digest (rest : List Char) (n : Nat) : List Char := hexText 13 n ++ rest

theorem length_hexText (k : Nat) : ∀ n, (hexText k n).length = k := by
  induction k with
  | zero => exact fun _ => rfl
  | succ k ih =>
      intro n
      rw [hexText, List.length_append, ih, List.length_singleton]

theorem hexValue_hexText (k : Nat) : ∀ n, hexValue (hexText k n) = n % 16 ^ k := by
  induction k with
  | zero =>
      intro n
      rw [pow_zero, Nat.mod_one]
      rfl
  | succ k ih =>
      intro n
      have hdigit : hexDigit (hexChar (n % 16)) = n % 16 :=
        hexDigit_hexChar _ (Nat.mod_lt n (by decide))
      have hvalue := ih (n / 16)
      rw [hexValue] at hvalue ⊢
      rw [hexText, List.foldl_append, hvalue, List.foldl_cons, List.foldl_nil, hdigit, pow_succ',
        Nat.mod_mul, Nat.add_comm]

/-- Every sample is the one of its digest. -/
theorem bits52_digest (rest : List Char) {n : Nat} (hn : n < max52) :
    bits52 (digest rest n) = n := by
  have htake : (digest rest n).take 13 = hexText 13 n := by
    rw [digest]
    exact List.take_left' (length_hexText 13 n)
  have hpow : 16 ^ 13 = max52 := by decide
  rw [bits52, htake, hexValue_hexText, hpow, Nat.mod_eq_of_lt hn]

/-! ## Which samples reach a multiplier -/

/-- **A round reaches a multiplier exactly when its sample is close enough to one.** -/
theorem le_crashMultiplierOf_iff (h1 : config.houseEdge < 1) {k : ℕ} (hk : 100 < k)
    (hkmax : (k / 100 : ℚ) ≤ config.maxMultiplier) {d : ℚ} (hd : 0 < d) :
    (k / 100 : ℚ) ≤ crashMultiplierOf config (1 - d) ↔
      d ≤ (1 - config.houseEdge) / (k / 100 : ℚ) := by
  have hk' : (100 : ℚ) < k := by exact_mod_cast hk
  have hedge : 0 < 1 - config.houseEdge := by linarith
  rw [le_div_iff₀ (by positivity), crashMultiplierOf]
  split
  · next hbust =>
      -- a bust reaches no multiplier above one, and its sample is further away
      constructor
      · intro hle
        linarith
      · intro hle
        have hmore : d * 1 < d * (k / 100 : ℚ) := by
          refine mul_lt_mul_of_pos_left ?_ hd
          linarith
        linarith
  · have hu : 1 - (1 - d - config.houseEdge) / (1 - config.houseEdge) =
        d / (1 - config.houseEdge) := by
      field_simp
      ring
    have hnot : ¬ (k / 100 : ℚ) ≤ 1 := by linarith
    simp only [hu, le_min_iff, le_max_iff, hnot, hkmax, false_or, and_true]
    rw [div_le_div_iff_of_pos_right (by norm_num), div_div_eq_mul_div]
    have hcast : ((k : ℚ) ≤ (⌊100 * (1 - config.houseEdge) / d⌋ : ℚ)) ↔
        (k : ℚ) ≤ 100 * (1 - config.houseEdge) / d := by
      rw [show (k : ℚ) = ((k : ℤ) : ℚ) by norm_cast, Int.cast_le, Int.le_floor]
    rw [hcast, le_div_iff₀ hd]
    constructor
    · intro h
      linarith
    · intro h
      linarith

/-- The samples that are close enough to the last one. -/
theorem card_filter_sub_le {m n : ℕ} (h : m ≤ n) :
    ((Finset.range n).filter fun i => n - i ≤ m).card = m := by
  have hico : ((Finset.range n).filter fun i => n - i ≤ m) = Finset.Ico (n - m) n := by
    ext i
    simp only [Finset.mem_filter, Finset.mem_range, Finset.mem_Ico]
    omega
  rw [hico, Nat.card_Ico]
  omega

/-! ## The return -/

/-- Whether a round reaches a multiplier. -/
def Reaches (multiplier : ℚ) : Except ConfigError OutcomeData → Prop
  | .ok outcome => multiplier ≤ outcome.crashMultiplier
  | .error _ => False

instance (multiplier : ℚ) (outcome : Except ConfigError OutcomeData) :
    Decidable (Reaches multiplier outcome) :=
  match outcome with
  | .ok outcome => inferInstanceAs (Decidable (multiplier ≤ outcome.crashMultiplier))
  | .error _ => inferInstanceAs (Decidable False)

/-- The number of samples on which a cash-out at a multiplier wins; `rest` is the rest of each digest. -/
def winningSamples (determine : List Char → OutcomeConfig → Except ConfigError OutcomeData)
    (rest : ℕ → List Char) (config : OutcomeConfig) (multiplier : ℚ) : ℕ :=
  ((Finset.range max52).filter fun n =>
    Reaches multiplier (determine (digest (rest n) n) config)).card

/-- The number of winning samples, rounded down from what a uniform sample would have. -/
theorem winningSamples_eq (h0 : 0 ≤ config.houseEdge) (h1 : config.houseEdge < 1)
    (hmax : 101 / 100 ≤ config.maxMultiplier) {k : ℕ} (hk : 100 < k)
    (hkmax : (k / 100 : ℚ) ≤ config.maxMultiplier) (rest : ℕ → List Char) :
    winningSamples determineOutcome rest config (k / 100) =
      ⌊2 ^ 52 * (1 - config.houseEdge) / (k / 100 : ℚ)⌋₊ := by
  have hk' : (100 : ℚ) < k := by exact_mod_cast hk
  have hcast : (max52 : ℚ) = 2 ^ 52 := by norm_num [max52]
  have hwide : (0 : ℚ) < max52 := by
    rw [hcast]
    positivity
  generalize hx : (2 ^ 52 * (1 - config.houseEdge) / (k / 100 : ℚ)) = x
  have hx0 : 0 ≤ x := by
    rw [← hx]
    have hedge : 0 ≤ 1 - config.houseEdge := by linarith
    positivity
  have hfew : ⌊x⌋₊ ≤ max52 := by
    refine Nat.floor_le_of_le ?_
    rw [← hx, hcast, div_le_iff₀ (by positivity)]
    nlinarith
  rw [winningSamples, ← card_filter_sub_le hfew]
  refine congrArg Finset.card (Finset.filter_congr ?_)
  intro n hn
  have hlt : n < max52 := Finset.mem_range.mp hn
  have hgap : (0 : ℚ) < (max52 - n : ℕ) := by exact_mod_cast Nat.sub_pos_of_lt hlt
  have hsub : ((max52 - n : ℕ) : ℚ) = max52 - n := Nat.cast_sub hlt.le
  have hu : (n : ℚ) / max52 = 1 - ((max52 - n : ℕ) : ℚ) / max52 := by
    rw [hsub]
    field_simp
    ring
  have hvalid : ¬ (config.houseEdge < 0 ∨ 1 ≤ config.houseEdge) := by
    rw [not_or, not_lt, not_le]
    exact ⟨h0, h1⟩
  rw [determineOutcome, if_neg hvalid, if_neg (not_lt.mpr hmax), bits52_digest _ hlt, Reaches, hu,
    le_crashMultiplierOf_iff h1 hk hkmax (div_pos hgap hwide), Nat.le_floor_iff hx0, ← hx,
    div_le_iff₀ hwide, hcast]
  constructor
  · intro h
    calc ((max52 - n : ℕ) : ℚ) ≤ (1 - config.houseEdge) / (k / 100) * 2 ^ 52 := h
      _ = 2 ^ 52 * (1 - config.houseEdge) / (k / 100) := by ring
  · intro h
    calc ((max52 - n : ℕ) : ℚ) ≤ 2 ^ 52 * (1 - config.houseEdge) / (k / 100) := h
      _ = (1 - config.houseEdge) / (k / 100) * 2 ^ 52 := by ring

/-- **The return of both crash games**: for every house edge, every cap and every cash-out multiplier
with two decimals under it, the winning samples are counted exactly, and the return of the multiplier
lies within the width of one sample of one minus the house edge. -/
theorem crash_return (h0 : 0 ≤ config.houseEdge) (h1 : config.houseEdge < 1)
    (hmax : 101 / 100 ≤ config.maxMultiplier) {k : ℕ} (hk : 100 < k)
    (hkmax : (k / 100 : ℚ) ≤ config.maxMultiplier) (rest : ℕ → List Char) :
    ∀ determine ∈ [CrashMinimal.determineCrashOutcome, LempiCrash.determineLempiCrashOutcome],
      winningSamples determine rest config (k / 100) =
          ⌊2 ^ 52 * (1 - config.houseEdge) / (k / 100 : ℚ)⌋₊ ∧
        1 - config.houseEdge - (k / 100 : ℚ) / 2 ^ 52 <
          (k / 100 : ℚ) * (winningSamples determine rest config (k / 100) / 2 ^ 52) ∧
        (k / 100 : ℚ) * (winningSamples determine rest config (k / 100) / 2 ^ 52) ≤
          1 - config.houseEdge := by
  have hk' : (100 : ℚ) < k := by exact_mod_cast hk
  have hcount := winningSamples_eq h0 h1 hmax hk hkmax rest
  have hpos : (0 : ℚ) < k / 100 := by positivity
  have hx0 : (0 : ℚ) ≤ 2 ^ 52 * (1 - config.houseEdge) / (k / 100 : ℚ) := by
    have hedge : 0 ≤ 1 - config.houseEdge := by linarith
    positivity
  have hfloor := Nat.floor_le hx0
  have hceil := Nat.lt_floor_add_one (2 ^ 52 * (1 - config.houseEdge) / (k / 100 : ℚ))
  rw [le_div_iff₀ hpos] at hfloor
  rw [div_lt_iff₀ hpos] at hceil
  have hreturn : ∀ determine, winningSamples determine rest config (k / 100) =
        ⌊2 ^ 52 * (1 - config.houseEdge) / (k / 100 : ℚ)⌋₊ →
      1 - config.houseEdge - (k / 100 : ℚ) / 2 ^ 52 <
          (k / 100 : ℚ) * (winningSamples determine rest config (k / 100) / 2 ^ 52) ∧
        (k / 100 : ℚ) * (winningSamples determine rest config (k / 100) / 2 ^ 52) ≤
          1 - config.houseEdge := by
    intro determine heq
    rw [heq]
    constructor
    · linarith
    · linarith
  intro determine hmem
  have heq : winningSamples determine rest config (k / 100) =
      ⌊2 ^ 52 * (1 - config.houseEdge) / (k / 100 : ℚ)⌋₊ := by
    simp only [List.mem_cons, List.not_mem_nil, or_false] at hmem
    rcases hmem with rfl | rfl
    · exact hcount
    · exact hcount
  exact ⟨heq, hreturn determine heq⟩

/-- The default house edge and a cash-out at two: 0.99 of the stake comes back. -/
theorem crash_return_two : winningSamples CrashMinimal.determineCrashOutcome (fun _ => [])
    ⟨1 / 100, 1000⟩ (200 / 100) = ⌊(2 ^ 52 * (1 - 1 / 100) / (200 / 100) : ℚ)⌋₊ := by
  have hedge : 0 ≤ (⟨1 / 100, 1000⟩ : OutcomeConfig).houseEdge := by norm_num
  have hreturn := crash_return (k := 200) hedge (by norm_num) (by norm_num) (by norm_num)
    (by norm_num) (fun _ => []) _ List.mem_cons_self
  exact_mod_cast hreturn.1

end YantraRgs.Crash
