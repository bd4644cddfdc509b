import Mathlib.Algebra.Group.Nat.Defs
import Mathlib.Data.List.Basic

/-! # Streams of bits in a register

A register takes groups of bits in at its low end and hands groups out above the ones that are still
pending. It may be shorter than what has gone through it: only the low bits that are pending matter.

* **`lowBits`** — the low bits of a register, the highest one first.
* **`lowBits_shift_or`** — taking a group in.
* **`lowBits_add`** — handing a group out.
* **`lowBits_injective`** — the bits of a whole register determine it.
* **`lowBits_ofNat_and`** — reading a group off under a mask.
* **`and_allOnes_shift_eq_iff`** — comparing the first bits of two registers under a mask. -/

namespace YantraRgs

variable {w : Nat}

/-- **The low `k` bits of a register**, the highest one first. -/
def lowBits (v : BitVec w) : Nat → List Bool
  | 0 => []
  | k + 1 => v.getLsbD k :: lowBits v k

@[simp] theorem length_lowBits (v : BitVec w) (k : Nat) : (lowBits v k).length = k := by
  induction k with
  | zero => rfl
  | succ k ih => rw [lowBits, List.length_cons, ih]

/-- **Only the low bits matter.** -/
theorem lowBits_congr {w' k : Nat} {u : BitVec w} {v : BitVec w'}
    (h : ∀ i < k, u.getLsbD i = v.getLsbD i) : lowBits u k = lowBits v k := by
  induction k with
  | zero => rfl
  | succ k ih =>
      rw [lowBits, lowBits, h k (Nat.lt_succ_self k), ih fun i hi => h i (Nat.lt_succ_of_lt hi)]

/-- Equal low bits agree at every place. -/
theorem getLsbD_of_lowBits {w' k : Nat} {u : BitVec w} {v : BitVec w'}
    (h : lowBits u k = lowBits v k) : ∀ i < k, u.getLsbD i = v.getLsbD i := by
  induction k with
  | zero => intro i hi; omega
  | succ k ih =>
      rw [lowBits, lowBits, List.cons.injEq] at h
      intro i hi
      rcases Nat.lt_succ_iff_lt_or_eq.mp hi with hlt | rfl
      · exact ih h.2 i hlt
      · exact h.1

/-- **A register is determined by its bits.** -/
theorem lowBits_injective {u v : BitVec w} (h : lowBits u w = lowBits v w) : u = v :=
  BitVec.eq_of_getLsbD_eq fun i hi => getLsbD_of_lowBits h i hi

/-- **A group above the pending bits**: it is what a shift by their number brings down. -/
theorem lowBits_add (v : BitVec w) (m k : Nat) :
    lowBits v (m + k) = lowBits (v >>> k) m ++ lowBits v k := by
  induction m with
  | zero => rw [Nat.zero_add]; rfl
  | succ m ih =>
      rw [show m + 1 + k = (m + k) + 1 by omega, lowBits, lowBits, ih, BitVec.getLsbD_ushiftRight,
        Nat.add_comm k m]
      rfl

/-- **A group goes in at the low end**: the bits that were pending stay above it. -/
theorem lowBits_shift_or {v x : BitVec w} {m k : Nat} (hx : ∀ i, m ≤ i → x.getLsbD i = false)
    (hk : k + m ≤ w) : lowBits (v <<< m ||| x) (k + m) = lowBits v k ++ lowBits x m := by
  rw [lowBits_add]
  congr 1
  · apply lowBits_congr
    intro i hi
    have hin : m + i < w := by omega
    rw [BitVec.getLsbD_ushiftRight, BitVec.getLsbD_or, hx (m + i) (Nat.le_add_right m i),
      BitVec.getLsbD_shiftLeft]
    simp [hin]
  · apply lowBits_congr
    intro i hi
    rw [BitVec.getLsbD_or, BitVec.getLsbD_shiftLeft]
    simp [hi]

/-- A register that was shifted up ends in zeros. -/
theorem lowBits_shift {v : BitVec w} {m k : Nat} (hk : k + m ≤ w) :
    lowBits (v <<< m) (k + m) = lowBits v k ++ List.replicate m false := by
  have hzero : ∀ m, lowBits (0#w) m = List.replicate m false := by
    intro m
    induction m with
    | zero => rfl
    | succ m ih => rw [lowBits, ih, List.replicate_succ, BitVec.getLsbD_zero]
  have hor := lowBits_shift_or (v := v) (x := 0#w) (m := m) (fun i _ => BitVec.getLsbD_zero) hk
  rw [BitVec.or_zero, hzero] at hor
  exact hor

/-! ## Numbers in registers -/

/-- The bits of a number below `2 ^ m` end there. -/
theorem getLsbD_ofNat_of_lt {m n i : Nat} (h : n < 2 ^ m) (hi : m ≤ i) :
    (BitVec.ofNat w n).getLsbD i = false := by
  have hn : n < 2 ^ i := Nat.lt_of_lt_of_le h (Nat.pow_le_pow_right (by decide) hi)
  rw [BitVec.getLsbD_ofNat, Nat.testBit_lt_two_pow hn, Bool.and_false]

/-- The low bits of a number do not depend on the register. -/
theorem lowBits_ofNat {m k n : Nat} (h : k ≤ w) (h' : k ≤ m) :
    lowBits (BitVec.ofNat w n) k = lowBits (BitVec.ofNat m n) k := by
  apply lowBits_congr
  intro i hi
  rw [BitVec.getLsbD_ofNat, BitVec.getLsbD_ofNat, decide_eq_true (by omega : i < w),
    decide_eq_true (by omega : i < m)]

/-- A register under a mask of `k` ones is a number of `k` bits. -/
theorem toNat_and_lt (v : BitVec w) (k : Nat) :
    (v &&& BitVec.ofNat w (2 ^ k - 1)).toNat < 2 ^ k := by
  have hmask : (BitVec.ofNat w (2 ^ k - 1)).toNat < 2 ^ k :=
    Nat.lt_of_le_of_lt (Nat.mod_le _ _) (Nat.sub_lt (Nat.two_pow_pos k) Nat.one_pos)
  rw [BitVec.toNat_and]
  exact Nat.and_lt_two_pow _ hmask

/-- **A mask of `k` ones** keeps the low `k` bits. -/
theorem lowBits_ofNat_and (v : BitVec w) {k : Nat} (hk : k ≤ w) :
    lowBits (BitVec.ofNat k (v &&& BitVec.ofNat w (2 ^ k - 1)).toNat) k = lowBits v k := by
  rw [lowBits_ofNat (m := w) (Nat.le_refl k) hk, BitVec.ofNat_toNat, BitVec.setWidth_eq]
  apply lowBits_congr
  intro i hi
  rw [BitVec.getLsbD_and, BitVec.getLsbD_ofNat, Nat.testBit_two_pow_sub_one, decide_eq_true hi,
    decide_eq_true (by omega : i < w), Bool.and_true, Bool.and_true]

/-! ## Prefixes -/

/-- The first bits of a register are the low ones of what a shift brings down. -/
theorem take_lowBits (v : BitVec w) {k n : Nat} (h : n + k = w) :
    (lowBits v w).take n = lowBits (v >>> k) n := by
  subst h
  rw [lowBits_add, List.take_left' (length_lowBits _ _)]

/-- **A mask of ones above `k` zeros** compares the first bits. -/
theorem and_allOnes_shift_eq_iff {u v : BitVec w} {k n : Nat} (h : n + k = w) :
    u &&& (BitVec.allOnes w <<< k) = v &&& (BitVec.allOnes w <<< k) ↔
      (lowBits u w).take n = (lowBits v w).take n := by
  rw [take_lowBits u h, take_lowBits v h]
  have hmask : ∀ (x : BitVec w) i, (x &&& (BitVec.allOnes w <<< k)).getLsbD i =
      (x.getLsbD i && decide (k ≤ i) && decide (i < w)) := by
    intro x i
    rw [BitVec.getLsbD_and, BitVec.getLsbD_shiftLeft, BitVec.getLsbD_allOnes]
    by_cases hk : i < k
    · simp [hk, Nat.not_le.mpr hk]
    · by_cases hw : i < w
      · simp [hk, hw, Nat.not_lt.mp hk, Nat.lt_of_le_of_lt (Nat.sub_le i k) hw]
      · simp [hw]
  constructor
  · intro heq
    apply lowBits_congr
    intro i hi
    have hbit := congrArg (fun x => x.getLsbD (k + i)) heq
    simp only [hmask] at hbit
    have hk : k ≤ k + i := Nat.le_add_right k i
    have hw : k + i < w := by omega
    rw [BitVec.getLsbD_ushiftRight, BitVec.getLsbD_ushiftRight]
    simpa [hk, hw] using hbit
  · intro heq
    apply BitVec.eq_of_getLsbD_eq
    intro i hi
    rw [hmask, hmask]
    by_cases hk : k ≤ i
    · have hbit := getLsbD_of_lowBits heq (i - k) (by omega)
      rw [BitVec.getLsbD_ushiftRight, BitVec.getLsbD_ushiftRight, Nat.add_sub_cancel' hk] at hbit
      rw [hbit]
    · simp [hk]

end YantraRgs
