import YantraRgs.Services.CanonicalJson
import YantraRgs.Text.Integer

/-! # Amounts as texts

Amounts are integers of micro units; on the wire of an operator they are decimal texts of whole units,
with at most five places.

* **`fromMicro`**, **`toMicro`** — the two conversions.
* **`toMicro_fromMicro`** — what an amount is read back as: the sign reaches its whole units alone.
* **`roundTrip_iff`** — an amount is read back exactly where it is not negative or has no places. -/

namespace YantraRgs.Money

open BigInt

/-- The micro units of a unit. -/
def microPerUnit : Nat := 100000

/-- A text without the zeros at its end. -/
def dropZeros (cs : Text) : Text := (cs.reverse.dropWhile (· = '0')).reverse

/-- The text of an amount that is not negative. -/
def unitsText (abs : Nat) : Text :=
  let intPart := Nat.toDigits 10 (abs / microPerUnit)
  let fracPart := dropZeros (pad 5 (abs % microPerUnit))
  if 0 < fracPart.length then intPart ++ '.' :: fracPart else intPart

/-- **The decimal text of an amount.** -/
def fromMicro (micro : Int) : Text :=
  if micro < 0 then '-' :: unitsText micro.natAbs else unitsText micro.natAbs

/-- **The amount of a decimal text**; there is none where the source throws. -/
def toMicro (value : Text) : Option Int := do
  let parts := value.splitOn '.'
  let intPart := parts.headD []
  let fracPart := (parts[1]?).getD []
  let frac := (fracPart ++ ['0', '0', '0', '0', '0']).take 5
  let units ← ofText (if intPart = [] then ['0'] else intPart)
  let micro ← ofText (if frac = [] then ['0'] else frac)
  pure (units * microPerUnit + micro)

/-! ## Reading an amount back -/

/-- The number of the places of an amount, written with five digits. -/
theorem length_pad_five {n : Nat} (h : n < microPerUnit) : (pad 5 n).length = 5 := by
  have hlen : (Nat.toDigits 10 n).length ≤ 5 :=
    (Nat.length_toDigits_le_iff (by omega) (by omega)).mpr h
  rw [pad, List.length_append, List.length_replicate]
  omega

/-- The zeros that were dropped are put back. -/
theorem take_dropZeros {cs : Text} (h : cs.length = 5) :
    (dropZeros cs ++ ['0', '0', '0', '0', '0']).take 5 = cs := by
  obtain ⟨k, hk⟩ : ∃ k, cs = dropZeros cs ++ List.replicate k '0' := by
    have hsplit : cs.reverse =
        cs.reverse.takeWhile (· = '0') ++ cs.reverse.dropWhile (· = '0') :=
      (List.takeWhile_append_dropWhile ..).symm
    have hzeros : ∀ c ∈ cs.reverse.takeWhile (· = '0'), c = '0' := fun c hc => by
      simpa using List.all_eq_true.mp List.all_takeWhile c hc
    refine ⟨(cs.reverse.takeWhile (· = '0')).length, ?_⟩
    rw [dropZeros, ← List.reverse_replicate, ← List.eq_replicate_of_mem hzeros,
      ← List.reverse_append, ← hsplit, List.reverse_reverse]
  have hlen : (dropZeros cs).length + k = 5 := by
    rw [← h]
    nth_rewrite 2 [hk]
    rw [List.length_append, List.length_replicate]
  have hreplicate : ['0', '0', '0', '0', '0'] = List.replicate k '0' ++
      List.replicate (5 - k) '0' := by
    rw [← List.replicate_add, show k + (5 - k) = 5 by omega]
    rfl
  rw [hreplicate, ← List.append_assoc, ← hk, List.take_append_of_le_length h.ge,
    List.take_of_length_le h.le]

/-- No digit is a point. -/
theorem point_notMem {cs : Text} (h : ∀ c ∈ cs, c.isDigit = true) : '.' ∉ cs := by
  intro hmem
  exact absurd (h _ hmem) (by decide)

theorem isDigit_of_mem_dropZeros {cs : Text} (h : ∀ c ∈ cs, c.isDigit = true) :
    ∀ c ∈ dropZeros cs, c.isDigit = true := by
  intro c hc
  rw [dropZeros, List.mem_reverse] at hc
  exact h c (List.mem_reverse.mp ((List.dropWhile_sublist _).mem hc))

/-- Texts joined by a point are taken apart again. -/
theorem splitOn_point {parts : List Text} (hne : parts ≠ []) (h : ∀ cs ∈ parts, '.' ∉ cs) :
    (List.intercalate ['.'] parts).splitOn '.' = parts :=
  List.splitOn_intercalate '.' h hne

/-- **A text of whole units and places is read in two parts.** -/
theorem toMicro_of_parts {sign : Text} {units micro : Int} {abs : Nat} (hsign : '.' ∉ sign)
    (hunits : ofText (sign ++ Nat.toDigits 10 (abs / microPerUnit)) = some units)
    (hmicro : ((abs % microPerUnit : Nat) : Int) = micro) :
    toMicro (sign ++ unitsText abs) = some (units * microPerUnit + micro) := by
  have hlt : abs % microPerUnit < microPerUnit := Nat.mod_lt _ (by decide)
  have hfive := length_pad_five hlt
  have hne : sign ++ Nat.toDigits 10 (abs / microPerUnit) ≠ [] :=
    List.append_ne_nil_of_right_ne_nil _ Nat.toDigits_ne_nil
  have hpoint : '.' ∉ sign ++ Nat.toDigits 10 (abs / microPerUnit) := by
    rw [List.mem_append, not_or]
    exact ⟨hsign, point_notMem fun c hc => isDigit_of_mem_toDigits hc⟩
  have hpoint' : '.' ∉ dropZeros (pad 5 (abs % microPerUnit)) :=
    point_notMem (isDigit_of_mem_dropZeros fun c hc => isDigit_of_mem_pad hc)
  -- in both shapes the second part is the places without the zeros at their end
  have hparts : ∃ rest, (sign ++ unitsText abs).splitOn '.' =
      (sign ++ Nat.toDigits 10 (abs / microPerUnit)) :: rest ∧
        (rest[0]?).getD [] = dropZeros (pad 5 (abs % microPerUnit)) := by
    rw [unitsText]
    by_cases hfrac : 0 < (dropZeros (pad 5 (abs % microPerUnit))).length
    · refine ⟨[dropZeros (pad 5 (abs % microPerUnit))], ?_, rfl⟩
      have hsplit := splitOn_point (List.cons_ne_nil
        (sign ++ Nat.toDigits 10 (abs / microPerUnit)) [dropZeros (pad 5 (abs % microPerUnit))])
        (List.forall_mem_cons.mpr ⟨hpoint, List.forall_mem_singleton.mpr hpoint'⟩)
      rw [if_pos hfrac, ← hsplit]
      simp
    · refine ⟨[], ?_, ?_⟩
      · have hsplit := splitOn_point
          (List.cons_ne_nil (sign ++ Nat.toDigits 10 (abs / microPerUnit)) [])
          (List.forall_mem_singleton.mpr hpoint)
        rw [if_neg hfrac, ← hsplit]
        simp
      · rw [List.length_pos_iff, not_not] at hfrac
        rw [hfrac]
        rfl
  obtain ⟨rest, hsplit, hrest⟩ := hparts
  have hfrac : ((rest[0]?).getD [] ++ ['0', '0', '0', '0', '0']).take 5 =
      pad 5 (abs % microPerUnit) := by
    rw [hrest]
    exact take_dropZeros hfive
  simp only [toMicro, hsplit, List.headD_cons, List.getElem?_cons_succ, hfrac, if_neg hne,
    if_neg (pad_ne_nil _ _), hunits, ofText_pad, hmicro]
  rfl

/-- **What an amount is read back as**: its sign reaches the whole units alone. -/
theorem toMicro_fromMicro (micro : Int) : toMicro (fromMicro micro) =
    some (if micro < 0 then -((micro.natAbs / microPerUnit : Nat) : Int) * microPerUnit +
      (micro.natAbs % microPerUnit : Nat) else micro) := by
  rw [fromMicro]
  by_cases hneg : micro < 0
  · rw [if_pos hneg, if_pos hneg]
    exact @toMicro_of_parts ['-'] _ _ _ (by decide) (ofText_neg _) rfl
  · rw [if_neg hneg, if_neg hneg]
    have hread := @toMicro_of_parts [] _ _ micro.natAbs (by decide) (ofText_toDigits _) rfl
    rw [List.nil_append] at hread
    rw [hread]
    have hsplit : ((micro.natAbs / microPerUnit : Nat) : Int) * microPerUnit +
        (micro.natAbs % microPerUnit : Nat) = micro := by
      rw [← Int.natCast_mul, ← Int.natCast_add, Nat.div_add_mod', Int.natAbs_of_nonneg (not_lt.mp hneg)]
    rw [hsplit]

/-- The text of an amount that is not negative starts with a digit. -/
theorem head_unitsText (abs : Nat) : ∃ c cs, unitsText abs = c :: cs ∧ c ≠ '-' := by
  obtain ⟨c, cs, hcs⟩ := List.exists_cons_of_ne_nil
    (Nat.toDigits_ne_nil (b := 10) (n := abs / microPerUnit))
  have hc : c ≠ '-' := by
    rintro rfl
    exact toDigits_ne_minus _ _ hcs
  rw [unitsText]
  by_cases hfrac : 0 < (dropZeros (pad 5 (abs % microPerUnit))).length
  · exact ⟨c, _, by rw [if_pos hfrac, hcs]; rfl, hc⟩
  · exact ⟨c, cs, by rw [if_neg hfrac, hcs], hc⟩

/-- The text of an amount that is not negative determines it. -/
theorem unitsText_inj {m n : Nat} (h : unitsText m = unitsText n) : m = n := by
  have hread : ∀ k : Nat, toMicro (unitsText k) = some (k : Int) := by
    intro k
    have hk := toMicro_fromMicro k
    rwa [fromMicro, if_neg (by omega), if_neg (by omega), Int.natAbs_natCast] at hk
  have hm := hread m
  rw [h, hread n] at hm
  exact (Int.natCast_inj.mp (Option.some.inj hm)).symm

/-- **The text of an amount determines it.** -/
theorem fromMicro_injective : Function.Injective fromMicro := by
  intro x y h
  have hsign : ∀ (m : Nat) (cs : Text), unitsText m ≠ '-' :: cs := by
    intro m cs hm
    obtain ⟨c, ds, hds, hc⟩ := head_unitsText m
    rw [hds] at hm
    exact hc (List.cons.inj hm).1
  rw [fromMicro, fromMicro] at h
  by_cases hx : x < 0 <;> by_cases hy : y < 0
  · rw [if_pos hx, if_pos hy] at h
    have habs := unitsText_inj (List.cons.inj h).2
    omega
  · rw [if_pos hx, if_neg hy] at h
    exact absurd h.symm (hsign _ _)
  · rw [if_neg hx, if_pos hy] at h
    exact absurd h (hsign _ _)
  · rw [if_neg hx, if_neg hy] at h
    have habs := unitsText_inj h
    omega

/-- **An amount is read back** exactly where it is not negative or has no places; its text always
determines it. -/
theorem roundTrip_iff (x : Int) : (toMicro (fromMicro x) = some x ∧ Function.Injective fromMicro) ↔
    0 ≤ x ∨ (microPerUnit : Int) ∣ x := by
  have hread := toMicro_fromMicro x
  rw [and_iff_left fromMicro_injective, hread, Option.some.injEq]
  have hsplit := Nat.div_add_mod' x.natAbs microPerUnit
  rw [microPerUnit] at *
  by_cases hneg : x < 0
  · rw [if_pos hneg]
    omega
  · rw [if_neg hneg]
    omega

/-- One and a half units below zero are read back as half a unit below zero. -/
theorem minus_one_and_half : ¬ ((∀ x : Int, toMicro (fromMicro x) = some x) ∧
    Function.Injective fromMicro) := by
  rintro ⟨h, -⟩
  have hread := h (-150000)
  exact absurd hread (by decide)

end YantraRgs.Money
