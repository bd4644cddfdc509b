import YantraRgs.Games.KetapolaDice
import YantraRgs.Games.Uniform
import YantraRgs.Text.Bytes

/-! # The fairness of the dice

A round reads two samples of thirty-two bits from its digest: one decides the side, the other the face
within the side.

* **`agrees_iff`** — where the outcome is the one of the certified derivation, which compares the first
  sample with a whole number.
* **`Hmac.ofSamples`** — a digest for every pair of samples.
* **`dice_fair`** — every side and every face is as likely as its share, up to one sample, and the two
  are independent. -/

namespace YantraRgs.KetapolaDice

open Crash Uniform

/-! ## The certified derivation -/

/-- The first sample of a digest. -/
def Hmac.sideSample (h : Hmac) : Nat := uint32be (h.bytes.take 4)

/-- The second sample of a digest. -/
def Hmac.faceSample (h : Hmac) : Nat := uint32be ((h.bytes.drop 4).take 4)

/-- The threshold of the certified derivation: a whole number. -/
def certifiedThreshold (lowWeight highWeight : Int) : Int :=
  ⌊(lowWeight / (lowWeight + highWeight) : ℚ) * (2 ^ 32 - 1)⌋

/-- The side of the certified derivation. -/
def certifiedSide (h : Hmac) (lowWeight highWeight : Int) : Side :=
  if (h.sideSample : Int) < certifiedThreshold lowWeight highWeight then .low else .high

/-- The sum of the certified derivation. -/
def certifiedSum (h : Hmac) (lowWeight highWeight : Int) : Nat :=
  let faces := if certifiedSide h lowWeight highWeight = .low then [3, 6, 9] else [12, 15, 18]
  faces.getD (h.faceSample % faces.length) 0

/-- Whether an outcome was produced, and has a property. -/
def Yields (p : RoundOutcome → Prop) : Except WeightError RoundOutcome → Prop
  | .ok outcome => p outcome
  | .error _ => False

instance (p : RoundOutcome → Prop) [DecidablePred p] (outcome : Except WeightError RoundOutcome) :
    Decidable (Yields p outcome) :=
  match outcome with
  | .ok outcome => inferInstanceAs (Decidable (p outcome))
  | .error _ => inferInstanceAs (Decidable False)

/-- Whether the outcome of a digest is the one of the certified derivation. -/
def Agrees (h : Hmac) (lowWeight highWeight : Int) : Prop :=
  Yields (fun o => o.outcomeSide = certifiedSide h lowWeight highWeight ∧
    o.outcomeSum = certifiedSum h lowWeight highWeight) (determineOutcome h lowWeight highWeight)

variable {lowWeight highWeight : Int}

/-- The side that a sample decides. -/
def sideOf (lowWeight highWeight : Int) (s : Nat) : Side :=
  if (s : ℚ) < threshold lowWeight highWeight then .low else .high

/-- Every side has three faces. -/
theorem length_faces (side : Side) : (faces side).length = 3 := by
  cases side <;> rfl

/-- **An outcome is a side and a face**, each from its own sample. -/
theorem determineOutcome_eq (h : Hmac) (hlow : 0 < lowWeight) (hhigh : 0 < highWeight) :
    determineOutcome h lowWeight highWeight =
      let side := sideOf lowWeight highWeight h.sideSample
      let outcomeSum := (faces side).getD (h.faceSample % 3) 0
      .ok ⟨[outcomeSum], outcomeSum, side⟩ := by
  have hside : uint32At h.hex 0 = h.sideSample := by
    rw [show 0 = 2 * 0 from rfl, uint32At_hex, List.drop_zero, Hmac.sideSample]
  have hface : uint32At h.hex 8 = h.faceSample := by
    rw [show 8 = 2 * 4 from rfl, uint32At_hex, Hmac.faceSample]
  rw [determineOutcome_of_pos h hlow hhigh, hside, hface]
  simp only [length_faces, sideOf]

/-- The bound in whole numbers: a share of the last sample. -/
theorem threshold_eq : threshold lowWeight highWeight =
    (lowWeight * (2 ^ 32 - 1) : Int) / (lowWeight + highWeight : Int) := by
  rw [threshold, div_mul_eq_mul_div]
  norm_num

theorem certifiedThreshold_eq :
    certifiedThreshold lowWeight highWeight = ⌊threshold lowWeight highWeight⌋ := by
  rw [certifiedThreshold, threshold]
  norm_num

/-- The bound is a whole number exactly where its division comes out even. -/
theorem floor_threshold_eq_iff (hpos : 0 < lowWeight + highWeight) :
    (⌊threshold lowWeight highWeight⌋ : ℚ) = threshold lowWeight highWeight ↔
      lowWeight + highWeight ∣ lowWeight * (2 ^ 32 - 1) := by
  have hne : ((lowWeight + highWeight : Int) : ℚ) ≠ 0 := Int.cast_ne_zero.mpr hpos.ne'
  rw [threshold_eq]
  constructor
  · intro h
    rw [eq_div_iff hne] at h
    exact ⟨_, (mul_comm _ _).trans (Int.cast_inj.mp (by exact_mod_cast h)) |>.symm⟩
  · rintro ⟨c, hc⟩
    rw [hc, Int.cast_mul, mul_div_cancel_left₀ _ hne, Int.floor_intCast]

/-- A whole number is below the bound or below its floor, unless it is the floor of a bound that is no
whole number. -/
theorem lt_floor_iff (hpos : 0 < lowWeight + highWeight) (s : Int) :
    ((s : ℚ) < threshold lowWeight highWeight ↔ s < certifiedThreshold lowWeight highWeight) ↔
      s ≠ certifiedThreshold lowWeight highWeight ∨
        lowWeight + highWeight ∣ lowWeight * (2 ^ 32 - 1) := by
  rw [← floor_threshold_eq_iff hpos, certifiedThreshold_eq]
  have hfloor : (⌊threshold lowWeight highWeight⌋ : ℚ) ≤ threshold lowWeight highWeight :=
    Int.floor_le _
  rcases lt_trichotomy s ⌊threshold lowWeight highWeight⌋ with hlt | heq | hgt
  · have hbelow : (s : ℚ) < threshold lowWeight highWeight :=
      lt_of_lt_of_le (Int.cast_lt.mpr hlt) hfloor
    exact iff_of_true (iff_of_true hbelow hlt) (Or.inl hlt.ne)
  · -- at the floor itself, the bound is above only where it is no whole number
    rw [← heq] at hfloor ⊢
    simp only [lt_self_iff_false, iff_false, ne_eq, not_true_eq_false, false_or, not_lt]
    exact ⟨fun h => le_antisymm hfloor h, fun h => h.ge⟩
  · have habove : ¬ (s : ℚ) < threshold lowWeight highWeight :=
      not_lt.mpr (Int.floor_lt.mp hgt).le
    exact iff_of_true (iff_of_false habove (lt_asymm hgt)) (Or.inl hgt.ne')

/-- The outcomes agree where the sides do. -/
theorem agrees_iff_side (h : Hmac) (hlow : 0 < lowWeight) (hhigh : 0 < highWeight) :
    Agrees h lowWeight highWeight ↔
      ((h.sideSample : ℚ) < threshold lowWeight highWeight ↔
        (h.sideSample : Int) < certifiedThreshold lowWeight highWeight) := by
  have hsum : certifiedSum h lowWeight highWeight =
      (faces (certifiedSide h lowWeight highWeight)).getD (h.faceSample % 3) 0 := by
    rw [certifiedSum]
    cases certifiedSide h lowWeight highWeight <;> rfl
  have hagrees : Agrees h lowWeight highWeight ↔
      sideOf lowWeight highWeight h.sideSample = certifiedSide h lowWeight highWeight := by
    rw [Agrees, determineOutcome_eq h hlow hhigh, hsum]
    exact ⟨fun h => h.1, fun h => ⟨h, by rw [h]⟩⟩
  rw [hagrees, sideOf, certifiedSide]
  by_cases hcode : (h.sideSample : ℚ) < threshold lowWeight highWeight <;>
    by_cases hspec : (h.sideSample : Int) < certifiedThreshold lowWeight highWeight <;>
      simp [hcode, hspec]

/-- **An outcome is the one of the certified derivation** exactly where its first sample is not the
threshold itself, or the bound is a whole number. -/
theorem agrees_iff (h : Hmac) (hlow : 0 < lowWeight) (hhigh : 0 < highWeight) :
    Agrees h lowWeight highWeight ↔
      (h.sideSample : Int) ≠ certifiedThreshold lowWeight highWeight ∨
        lowWeight + highWeight ∣ lowWeight * (2 ^ 32 - 1) := by
  rw [agrees_iff_side h hlow hhigh]
  exact lt_floor_iff (add_pos hlow hhigh) _

/-- A digest of zeros is read alike. -/
theorem agrees_at_zero : Agrees ⟨List.replicate 32 0, rfl⟩ 50 50 :=
  (agrees_iff _ (by decide) (by decide)).mpr (Or.inl (by decide +kernel))

/-- Under even weights the two derivations part at one sample: half of the last one, rounded down. -/
theorem disagrees_at_half : ¬ ∀ (h : Hmac) (lowWeight highWeight : Int), 0 < lowWeight →
    0 < highWeight → Agrees h lowWeight highWeight := by
  intro hall
  have hagrees := hall ⟨[127, 255, 255, 255] ++ List.replicate 28 0, rfl⟩ 50 50 (by decide) (by decide)
  rw [agrees_iff_side _ (by decide) (by decide)] at hagrees
  exact absurd hagrees (by decide +kernel)

/-! ## Fair samples -/

/-- The bytes of a number below `2 ^ 32`, the highest one first. -/
def bytesOf (n : Nat) : List (Fin 256) :=
  [Fin.ofNat 256 (n / 2 ^ 24), Fin.ofNat 256 (n / 2 ^ 16), Fin.ofNat 256 (n / 2 ^ 8), Fin.ofNat 256 n]

theorem uint32be_bytesOf {n : Nat} (h : n < 2 ^ 32) : uint32be (bytesOf n) = n := by
  simp only [uint32be, bytesOf, List.foldl_cons, List.foldl_nil, Fin.val_ofNat]
  omega

/-- A pair of samples. -/
abbrev Samples := Fin (2 ^ 32) × Fin (2 ^ 32)

/-- **A digest for every pair of samples**; `rest` are its other bytes. -/
def Hmac.ofSamples (x : Samples) (rest : Fin 24 → Fin 256) : Hmac where
  bytes := bytesOf x.1 ++ bytesOf x.2 ++ List.ofFn rest
  length_eq := by simp [bytesOf]

theorem sideSample_ofSamples (x : Samples) (rest : Fin 24 → Fin 256) :
    (Hmac.ofSamples x rest).sideSample = x.1 := by
  rw [Hmac.sideSample]
  exact uint32be_bytesOf x.1.isLt

theorem faceSample_ofSamples (x : Samples) (rest : Fin 24 → Fin 256) :
    (Hmac.ofSamples x rest).faceSample = x.2 := by
  rw [Hmac.faceSample]
  exact uint32be_bytesOf x.2.isLt

/-- **The probability of an outcome with a property**, over uniform samples. -/
def chance (rest : Samples → Fin 24 → Fin 256) (lowWeight highWeight : Int) (p : RoundOutcome → Prop)
    [DecidablePred p] : ℚ :=
  prob fun x : Samples => Yields p (determineOutcome (.ofSamples x (rest x)) lowWeight highWeight)

/-- The place of the face of an outcome among the faces of its side. -/
def RoundOutcome.faceIndex (o : RoundOutcome) : Nat := (faces o.outcomeSide).idxOf o.outcomeSum

/-- Faces of different sides or places are different. -/
theorem getD_faces_inj (side side' : Side) : ∀ i < 3, ∀ j < 3,
    ((faces side).getD i 0 = (faces side').getD j 0 ↔ side = side' ∧ i = j) := by
  cases side <;> cases side' <;> decide

theorem idxOf_getD_faces (side : Side) : ∀ i < 3, (faces side).idxOf ((faces side).getD i 0) = i := by
  cases side <;> decide

theorem exists_getD_of_mem_faces (side : Side) : ∀ face ∈ faces side, ∃ i < 3,
    face = (faces side).getD i 0 := by
  cases side <;> decide

section Chances

variable (rest : Samples → Fin 24 → Fin 256) (hlow : 0 < lowWeight) (hhigh : 0 < highWeight)
include hlow hhigh

/-- Over uniform samples a side and a place are drawn independently. -/
theorem chance_eq (side : Side → Prop) (place : Nat → Prop) [DecidablePred side] [DecidablePred place]
    (p : RoundOutcome → Prop) [DecidablePred p]
    (hp : ∀ s, ∀ i < 3, p ⟨[(faces s).getD i 0], (faces s).getD i 0, s⟩ ↔ side s ∧ place i) :
    chance rest lowWeight highWeight p =
      prob (fun s : Fin (2 ^ 32) => side (sideOf lowWeight highWeight s)) *
        prob (fun f : Fin (2 ^ 32) => place (f.val % 3)) := by
  rw [chance, ← prob_fst_and_snd]
  refine prob_congr fun x => ?_
  rw [determineOutcome_eq _ hlow hhigh, sideSample_ofSamples, faceSample_ofSamples]
  exact hp _ _ (Nat.mod_lt _ (by decide))

theorem chance_side (side : Side) :
    chance rest lowWeight highWeight (fun o => o.outcomeSide = side) =
      prob fun s : Fin (2 ^ 32) => sideOf lowWeight highWeight s = side := by
  rw [chance_eq rest hlow hhigh (· = side) (fun _ => True) _ fun s i _ => (and_iff_left trivial).symm,
    prob_true, mul_one]

theorem chance_faceIndex (i : Nat) :
    chance rest lowWeight highWeight (fun o => o.faceIndex = i) =
      prob fun f : Fin (2 ^ 32) => f.val % 3 = i := by
  rw [chance_eq rest hlow hhigh (fun _ => True) (· = i) _ fun s j hj => ?_, prob_true, one_mul]
  rw [RoundOutcome.faceIndex, idxOf_getD_faces s j hj]
  exact (and_iff_right trivial).symm

/-- A face is drawn with its side and its place. -/
theorem chance_outcomeSum {side : Side} {i : Nat} (hi : i < 3) :
    chance rest lowWeight highWeight (fun o => o.outcomeSum = (faces side).getD i 0) =
      prob (fun s : Fin (2 ^ 32) => sideOf lowWeight highWeight s = side) *
        prob (fun f : Fin (2 ^ 32) => f.val % 3 = i) :=
  chance_eq rest hlow hhigh (· = side) (· = i) _ fun s j hj => getD_faces_inj s side j hj i hi

/-- A side is as likely as its weight, up to one sample. -/
theorem abs_chance_low_sub :
    |chance rest lowWeight highWeight (fun o => o.outcomeSide = .low) -
      lowWeight / (lowWeight + highWeight)| < 1 / 2 ^ 32 := by
  have hlow' : (0 : ℚ) < lowWeight := Int.cast_pos.mpr hlow
  have hhigh' : (0 : ℚ) < highWeight := Int.cast_pos.mpr hhigh
  have hbelow : ∀ s : Fin (2 ^ 32), sideOf lowWeight highWeight s = .low ↔
      (s.val : ℚ) < lowWeight / (lowWeight + highWeight) * ((2 ^ 32 : ℕ) - 1) := by
    intro s
    have hthreshold : threshold lowWeight highWeight =
        lowWeight / (lowWeight + highWeight) * ((2 ^ 32 : ℕ) - 1) := by
      rw [threshold]
      norm_num
    rw [sideOf, hthreshold]
    split
    · next h => exact iff_of_true rfl h
    · next h => exact iff_of_false (by decide) h
  have hbias := abs_prob_lt_sub (n := 2 ^ 32) (by positivity)
    (div_pos hlow' (add_pos hlow' hhigh'))
    ((div_lt_one (add_pos hlow' hhigh')).mpr (lt_add_of_pos_right _ hhigh'))
  rw [chance_side rest hlow hhigh, prob_congr hbelow]
  exact_mod_cast hbias

/-- A face is as likely as the third of its side, up to one sample. -/
theorem abs_chance_face_sub (side : Side) {face : Nat} (hface : face ∈ faces side) :
    |chance rest lowWeight highWeight (fun o => o.outcomeSum = face) -
      chance rest lowWeight highWeight (fun o => o.outcomeSide = side) / 3| < 1 / 2 ^ 32 := by
  obtain ⟨i, hi, rfl⟩ := exists_getD_of_mem_faces side face hface
  have hbias := abs_prob_mod_sub (n := 2 ^ 32) (by positivity) hi
  rw [chance_outcomeSum rest hlow hhigh hi, chance_side rest hlow hhigh]
  have hnonneg := prob_nonneg fun s : Fin (2 ^ 32) => sideOf lowWeight highWeight s = side
  have hone := prob_le_one fun s : Fin (2 ^ 32) => sideOf lowWeight highWeight s = side
  generalize (prob fun s : Fin (2 ^ 32) => sideOf lowWeight highWeight s = side) = share at hnonneg hone ⊢
  -- the bias within the side counts only as often as the side is drawn
  calc |share * prob (fun f : Fin (2 ^ 32) => f.val % 3 = i) - share / 3|
      = share * |prob (fun f : Fin (2 ^ 32) => f.val % 3 = i) - 1 / 3| := by
        rw [← mul_one_div, ← mul_sub, abs_mul, abs_of_nonneg hnonneg]
    _ ≤ 1 * |prob (fun f : Fin (2 ^ 32) => f.val % 3 = i) - 1 / 3| :=
        mul_le_mul_of_nonneg_right hone (abs_nonneg _)
    _ < 1 / 2 ^ 32 := by
        rw [one_mul]
        exact_mod_cast hbias

/-- A side and a place among its faces are drawn independently. -/
theorem chance_side_and_faceIndex (side : Side) (i : Nat) :
    chance rest lowWeight highWeight (fun o => o.outcomeSide = side ∧ o.faceIndex = i) =
      chance rest lowWeight highWeight (fun o => o.outcomeSide = side) *
        chance rest lowWeight highWeight (fun o => o.faceIndex = i) := by
  rw [chance_side rest hlow hhigh, chance_faceIndex rest hlow hhigh]
  refine chance_eq rest hlow hhigh (· = side) (· = i) _ fun s j hj => ?_
  rw [RoundOutcome.faceIndex, idxOf_getD_faces s j hj]

/-- **The dice are fair**, up to one sample: a side against its weight, a face against the third of its
side; and the side and the place of the face are independent. -/
theorem dice_fair :
    |chance rest lowWeight highWeight (fun o => o.outcomeSide = .low) -
        lowWeight / (lowWeight + highWeight)| < 1 / 2 ^ 32 ∧
      (∀ side, ∀ face ∈ faces side,
        |chance rest lowWeight highWeight (fun o => o.outcomeSum = face) -
          chance rest lowWeight highWeight (fun o => o.outcomeSide = side) / 3| < 1 / 2 ^ 32) ∧
      ∀ side i, chance rest lowWeight highWeight (fun o => o.outcomeSide = side ∧ o.faceIndex = i) =
        chance rest lowWeight highWeight (fun o => o.outcomeSide = side) *
          chance rest lowWeight highWeight (fun o => o.faceIndex = i) :=
  ⟨abs_chance_low_sub rest hlow hhigh, fun side _ => abs_chance_face_sub rest hlow hhigh side,
    chance_side_and_faceIndex rest hlow hhigh⟩

end Chances

/-- Under even weights the low side is drawn half of the time, up to one sample. -/
theorem dice_fair_even :
    |chance (fun _ _ => 0) 48 48 (fun o => o.outcomeSide = .low) - (48 : Int) / ((48 : Int) + (48 : Int))| <
      1 / 2 ^ 32 :=
  (dice_fair (fun _ _ => 0) (by decide) (by decide)).1

end YantraRgs.KetapolaDice
