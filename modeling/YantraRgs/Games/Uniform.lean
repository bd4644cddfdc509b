import Mathlib.Algebra.Order.Floor.Semiring
import Mathlib.Data.Fintype.Fin
import Mathlib.Data.Fintype.Prod
import Mathlib.Data.Int.CardIntervalMod
import Mathlib.Tactic.FieldSimp
import Mathlib.Tactic.Linarith

/-! # Uniform draws

Draws from a finite type on which every value is equally likely. Probabilities are exact rationals.

* **`prob`** — the probability of an event.
* **`prob_fst_and_snd`** — the two parts of a uniform pair are independent.
* **`abs_prob_lt_sub`** — a draw below a share of the last value, against that share.
* **`abs_prob_mod_sub`** — a residue of a draw, against its share. -/

namespace YantraRgs.Uniform

variable {α β : Type*} [Fintype α] [Fintype β]

/-- **The probability** that a uniform draw meets a condition. -/
def prob (p : α → Prop) [DecidablePred p] : ℚ :=
  (Finset.univ.filter p).card / Fintype.card α

theorem prob_congr {p q : α → Prop} [DecidablePred p] [DecidablePred q] (h : ∀ a, p a ↔ q a) :
    prob p = prob q := by
  rw [prob, prob, Finset.filter_congr fun a _ => h a]

theorem prob_nonneg (p : α → Prop) [DecidablePred p] : 0 ≤ prob p :=
  div_nonneg (Nat.cast_nonneg _) (Nat.cast_nonneg _)

theorem prob_le_one (p : α → Prop) [DecidablePred p] : prob p ≤ 1 := by
  refine div_le_one_of_le₀ ?_ (Nat.cast_nonneg _)
  exact_mod_cast Finset.card_le_univ (Finset.univ.filter p)

theorem prob_true [Nonempty α] : prob (fun _ : α => True) = 1 := by
  have hcard : (Fintype.card α : ℚ) ≠ 0 := Nat.cast_ne_zero.mpr Fintype.card_ne_zero
  rw [prob, Finset.filter_true, Finset.card_univ, div_self hcard]

/-! ## Pairs -/

/-- **The two parts of a uniform pair are independent.** -/
theorem prob_fst_and_snd (p : α → Prop) (q : β → Prop) [DecidablePred p] [DecidablePred q] :
    prob (fun x : α × β => p x.1 ∧ q x.2) = prob p * prob q := by
  have hfilter : (Finset.univ.filter fun x : α × β => p x.1 ∧ q x.2) =
      (Finset.univ.filter p) ×ˢ (Finset.univ.filter q) := by
    ext x
    simp
  rw [prob, prob, prob, hfilter, Finset.card_product, Fintype.card_prod, Nat.cast_mul, Nat.cast_mul,
    div_mul_div_comm]

/-! ## Draws from the first numbers -/

variable {n : ℕ}

/-- A bound that is no whole number lets one more draw pass. -/
theorem prob_lt {t : ℚ} (ht : t ≤ n) : prob (fun i : Fin n => (i.val : ℚ) < t) = ⌈t⌉₊ / n := by
  have hceil : ⌈t⌉₊ ≤ n := Nat.ceil_le.mpr ht
  have hfilter : (Finset.univ.filter fun i : Fin n => (i.val : ℚ) < t) =
      Finset.univ.filter fun i : Fin n => i.val < ⌈t⌉₊ :=
    Finset.filter_congr fun i _ => Nat.lt_ceil.symm
  rw [prob, hfilter, Fin.card_filter_val_lt, min_eq_right hceil, Fintype.card_fin]

/-- **A draw below a share of the last value** is as likely as that share, up to one draw. -/
theorem abs_prob_lt_sub (hn : 0 < n) {p : ℚ} (h0 : 0 < p) (h1 : p < 1) :
    |prob (fun i : Fin n => (i.val : ℚ) < p * (n - 1)) - p| < 1 / n := by
  have hn' : (1 : ℚ) ≤ n := by exact_mod_cast hn
  have hpos : (0 : ℚ) < n := by linarith
  have hnonneg : 0 ≤ p * (n - 1) := mul_nonneg h0.le (by linarith)
  have hle : p * (n - 1) ≤ n := by nlinarith
  have hlow : p * (n - 1) ≤ ⌈p * (n - 1)⌉₊ := Nat.le_ceil _
  have hhigh : (⌈p * (n - 1)⌉₊ : ℚ) < p * (n - 1) + 1 := Nat.ceil_lt_add_one hnonneg
  have hdiff : (⌈p * (n - 1)⌉₊ : ℚ) / n - p = (⌈p * (n - 1)⌉₊ - p * n) / n := by
    field_simp
  rw [prob_lt hle, hdiff, abs_div, abs_of_pos hpos, div_lt_div_iff_of_pos_right hpos, abs_lt]
  constructor
  · linarith
  · linarith

/-- The number of draws with a residue. -/
theorem card_filter_mod {m r : ℕ} (hr : r < m) :
    (Finset.univ.filter fun i : Fin n => i.val % m = r).card =
      n / m + if r < n % m then 1 else 0 := by
  have hmap : (Finset.univ.filter fun i : Fin n => i.val % m = r).map Fin.valEmbedding =
      (Finset.range n).filter fun i => i ≡ r [MOD m] := by
    ext i
    simp only [Finset.mem_map, Finset.mem_filter, Finset.mem_univ, true_and, Finset.mem_range,
      Fin.valEmbedding_apply, Nat.ModEq, Nat.mod_eq_of_lt hr]
    constructor
    · rintro ⟨j, hj, rfl⟩
      exact ⟨j.isLt, hj⟩
    · rintro ⟨hi, hmod⟩
      exact ⟨⟨i, hi⟩, hmod, rfl⟩
  rw [← Finset.card_map Fin.valEmbedding, hmap, ← Nat.count_eq_card_filter_range,
    Nat.count_modEq_card n (Nat.zero_lt_of_lt hr), Nat.mod_eq_of_lt hr]

/-- **A residue of a draw** is as likely as the others, up to one draw. -/
theorem abs_prob_mod_sub (hn : 0 < n) {m r : ℕ} (hr : r < m) :
    |prob (fun i : Fin n => i.val % m = r) - 1 / m| < 1 / n := by
  have hpos : (0 : ℚ) < n := by exact_mod_cast hn
  have hmpos : (0 : ℚ) < m := by exact_mod_cast Nat.zero_lt_of_lt hr
  have hsplit : (m * (n / m : ℕ) + (n % m : ℕ) : ℚ) = n := by exact_mod_cast Nat.div_add_mod n m
  have hrest : ((n % m : ℕ) : ℚ) < m := by exact_mod_cast Nat.mod_lt n (Nat.zero_lt_of_lt hr)
  have hdiff (k : ℚ) : k / n - 1 / m = (m * k - n) / (m * n) := by field_simp
  have hbound : (1 : ℚ) / n = m / (m * n) := by field_simp
  rw [prob, card_filter_mod hr, Fintype.card_fin, hdiff, hbound, abs_div, abs_of_pos (mul_pos hmpos hpos),
    div_lt_div_iff_of_pos_right (mul_pos hmpos hpos), abs_lt, Nat.cast_add, mul_add]
  -- the draws that do not fill a whole round of residues decide
  by_cases hmore : r < n % m
  · have hone : (1 : ℚ) ≤ (n % m : ℕ) := by exact_mod_cast Nat.zero_lt_of_lt hmore
    rw [if_pos hmore, Nat.cast_one]
    constructor
    · linarith
    · linarith
  · have hnone : (0 : ℚ) ≤ (n % m : ℕ) := Nat.cast_nonneg _
    rw [if_neg hmore, Nat.cast_zero]
    constructor
    · linarith
    · linarith

end YantraRgs.Uniform
