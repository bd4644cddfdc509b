import YantraRgs.Properties.DailyTotals
import YantraRgs.Properties.MockContract
import YantraRgs.Scripts.Reconcile

/-! # What a settlement file comes to

The verdict on a settlement is taken from a rounded quotient. Up to `2 ^ 53` it is the exact one: no two
amounts are so near to one part in a thousand that the quotient is rounded to the other side. So the exit
code of the script depends on the amounts alone, and not on how the file is laid out.

* **`rounded_lt_thousandth`** — the rounded quotient is below the threshold when the exact one is.
* **`Comparison`** — a settlement, and our totals beside it.
* **`SettlementFile`** — a file in any layout.
* **`exit_code`** — the exit code of a run. -/

namespace YantraRgs.Reconciliation

open Await
open BigInt (trim isSpace)
open Binary64 (rounded rounded_mono rounded_of_log rounded_dyadic)

variable {a b : Nat} {drift base : Int}

/-! ## The threshold -/

/-- The threshold is the nearest multiple of `2 ^ (-62)`. -/
theorem rounded_thousandth : rounded (1 / 1000) = 4611686018427388 * 2 ^ (-62 : ℤ) := by
  have hnear : Binary64.nearest ((1 / 1000) / 2 ^ (-62 : ℤ)) = 4611686018427388 := by
    norm_num [Binary64.nearest, Int.fract]
  rw [rounded_of_log (k := -10) (by norm_num) (by norm_num) (by norm_num)]
  rw [show (-10 - 52 : ℤ) = -62 by norm_num, hnear]
  norm_num

/-- What is below one part in a thousand by as little as two amounts can be, is rounded to the multiple
before. -/
theorem rounded_below_thousandth :
    rounded ((2 ^ 53 - 1) / (1000 * 2 ^ 53)) = 4611686018427387 * 2 ^ (-62 : ℤ) := by
  have hnear : Binary64.nearest (((2 ^ 53 - 1) / (1000 * 2 ^ 53)) / 2 ^ (-62 : ℤ)) =
      4611686018427387 := by
    norm_num [Binary64.nearest, Int.fract]
  rw [rounded_of_log (k := -10) (by norm_num) (by norm_num) (by norm_num)]
  rw [show (-10 - 52 : ℤ) = -62 by norm_num, hnear]
  norm_num

/-- **A rounded quotient is below the threshold** when the exact one is below one part in a thousand. -/
theorem rounded_lt_thousandth (hpos : 0 < b) (hb : b ≤ 2 ^ 53) :
    rounded (a / b) < rounded (1 / 1000) ↔ 1000 * a < b := by
  have hb₀ : (0 : ℚ) < b := Nat.cast_pos.mpr hpos
  constructor
  · -- rounding keeps the order
    intro h
    by_contra hnot
    have hle : (b : ℚ) ≤ 1000 * a := by exact_mod_cast not_lt.mp hnot
    have hthousandth : (1 : ℚ) / 1000 ≤ a / b := by
      rw [div_le_div_iff₀ (by norm_num) hb₀]
      linarith
    exact absurd (rounded_mono (by norm_num) hthousandth) (not_le.mpr h)
  · -- whole amounts are below one part in a thousand by more than the threshold was rounded
    intro h
    have hstep : 1000 * (a : ℚ) + 1 ≤ b := by exact_mod_cast h
    have hbound : (b : ℚ) ≤ 2 ^ 53 := by exact_mod_cast hb
    have hle : (a : ℚ) / b ≤ (2 ^ 53 - 1) / (1000 * 2 ^ 53) := by
      rw [div_le_div_iff₀ hb₀ (by norm_num)]
      nlinarith
    refine (rounded_mono (by positivity) hle).trans_lt ?_
    rw [rounded_below_thousandth, rounded_thousandth]
    norm_num

/-- A quotient of amounts is not rounded to nothing. -/
theorem rounded_div_pos (ha : 0 < a) (hpos : 0 < b) (hb : b ≤ 2 ^ 53) : 0 < rounded (a / b) := by
  have hleast := rounded_dyadic (n := 1) (e := -53) (by norm_num) (by norm_num)
  have hle : ((1 : ℕ) : ℚ) * 2 ^ (-53 : ℤ) ≤ a / b := by
    have ha₀ : (1 : ℚ) ≤ a := by exact_mod_cast ha
    have hbound : (b : ℚ) ≤ 2 ^ 53 := by exact_mod_cast hb
    rw [le_div_iff₀ (Nat.cast_pos.mpr hpos)]
    norm_num
    linarith
  refine lt_of_lt_of_le ?_ (rounded_mono (by positivity) hle)
  rw [hleast]
  positivity

theorem threshold_eq : ∃ hv, MINOR_DRIFT_THRESHOLD = .finite (rounded (1 / 1000)) hv := by
  have hlt : rounded (1 / 1000) < 2 ^ 1024 := by
    refine lt_of_lt_of_le ?_ (one_le_pow₀ one_le_two)
    rw [rounded_thousandth]
    norm_num
  exact ⟨_, dif_pos hlt⟩

/-! ## The verdict -/

/-- An amount that a floating-point number can hold. -/
def Fits (base : Int) : Prop := base.natAbs ≤ 2 ^ 53

instance (base : Int) : Decidable (Fits base) := inferInstanceAs (Decidable (_ ≤ _))

/-- A difference of less than one part in a thousand. -/
def Slight (drift base : Int) : Prop := drift = 0 ∨ 1000 * drift.natAbs < base.natAbs

instance (drift base : Int) : Decidable (Slight drift base) := inferInstanceAs (Decidable (_ ∨ _))

/-- **What the rounded difference of two amounts says.** -/
theorem pctDrift_exact (drift : Int) (hbase : Fits base) : pctDrift drift base ≠ .nan ∧
    (pctDrift drift base).isZero = decide (drift = 0) ∧
      (pctDrift drift base).lt MINOR_DRIFT_THRESHOLD = decide (Slight drift base) := by
  obtain ⟨hv, hthreshold⟩ := threshold_eq
  rw [hthreshold, pctDrift]
  by_cases hdrift : drift = 0
  · have hpos : (0 : ℚ) < rounded (1 / 1000) := by
      rw [rounded_thousandth]
      norm_num
    have hnone : rounded ((0 : ℕ) : ℚ) = 0 := by
      rw [Nat.cast_zero]
      exact Binary64.rounded_zero
    have hslight : Slight drift base := .inl hdrift
    rw [if_pos hdrift, Binary64.ofNat, Binary64.isZero_round, Binary64.lt_round,
      decide_eq_true hdrift, decide_eq_true hslight]
    exact ⟨Binary64.round_ne_nan _, decide_eq_true hnone, decide_eq_true (hnone ▸ hpos)⟩
  have hslight : Slight drift base ↔ 1000 * drift.natAbs < base.natAbs :=
    or_iff_right hdrift
  rw [if_neg hdrift, decide_eq_false hdrift]
  by_cases hzero : base = 0
  · have hnot : ¬ Slight drift base := by
      rw [hslight, hzero]
      exact Nat.not_lt_zero _
    rw [if_pos hzero, decide_eq_false hnot]
    exact ⟨Binary64.infinity_ne_nan, rfl, rfl⟩
  · have ha : 0 < drift.natAbs := Int.natAbs_pos.mpr hdrift
    have hb : 0 < base.natAbs := Int.natAbs_pos.mpr hzero
    have hlt := rounded_lt_thousandth (a := drift.natAbs) hb hbase
    have hpos := rounded_div_pos ha hb hbase
    obtain ⟨q, hq, hdiv, hquot⟩ := Binary64.div_ofNat (a := drift.natAbs) hb hbase
    have hexact : decide (Slight drift base) = decide (1000 * drift.natAbs < base.natAbs) :=
      decide_eq_decide.mpr hslight
    rw [if_neg hzero, hdiv, Binary64.isZero_round, Binary64.lt_round, hexact]
    refine ⟨Binary64.round_ne_nan _, ?_⟩
    rcases hquot with rfl | ⟨hone, hone'⟩
    · exact ⟨decide_eq_false hpos.ne', decide_eq_decide.mpr hlt⟩
    · -- both quotients are one at least
      have habove : rounded (1 / 1000) < rounded q := by
        refine lt_of_lt_of_le ?_ (rounded_mono zero_le_one hone)
        have hround := Binary64.rounded_natCast (n := 1) (by norm_num)
        rw [Nat.cast_one] at hround
        rw [hround, rounded_thousandth]
        norm_num
      have habove' : rounded (1 / 1000) ≤ rounded (drift.natAbs / base.natAbs) :=
        rounded_mono (by norm_num) (le_trans (by norm_num) hone')
      have hlow : (0 : ℚ) < rounded (1 / 1000) := by
        rw [rounded_thousandth]
        norm_num
      have hboth : rounded q < rounded (1 / 1000) ↔ 1000 * drift.natAbs < base.natAbs :=
        ⟨fun h => absurd h (not_lt.mpr habove.le), fun h => absurd (hlt.mpr h) (not_lt.mpr habove')⟩
      exact ⟨decide_eq_false (hlow.trans habove).ne', decide_eq_decide.mpr hboth⟩

/-- A settlement, and our totals beside it. -/
structure Comparison where
  ours : OperatorDailyTotals
  theirs : OperatorSettlementInput

namespace Comparison

variable (c : Comparison)

/-- Our amounts can be held by floating-point numbers. -/
def Held : Prop :=
  Fits c.ours.betsAmountMicro ∧ Fits c.ours.winsAmountMicro ∧ Fits c.ours.rollbacksAmountMicro

instance : Decidable c.Held := inferInstanceAs (Decidable (_ ∧ _))

/-- The amounts are the same. -/
def Agrees : Prop :=
  c.theirs.betsAmountMicro = c.ours.betsAmountMicro ∧
    c.theirs.winsAmountMicro = c.ours.winsAmountMicro ∧
      c.theirs.rollbacksAmountMicro = c.ours.rollbacksAmountMicro

instance : Decidable c.Agrees := inferInstanceAs (Decidable (_ ∧ _))

/-- Every amount is less than one part in a thousand of ours away from it. -/
def Close : Prop :=
  Slight (c.theirs.betsAmountMicro - c.ours.betsAmountMicro) c.ours.betsAmountMicro ∧
    Slight (c.theirs.winsAmountMicro - c.ours.winsAmountMicro) c.ours.winsAmountMicro ∧
      Slight (c.theirs.rollbacksAmountMicro - c.ours.rollbacksAmountMicro) c.ours.rollbacksAmountMicro

instance : Decidable c.Close := inferInstanceAs (Decidable (_ ∧ _))

/-- The exact verdict. -/
def verdict : ReconciliationStatus :=
  if c.Agrees then .matched else if c.Close then .minorDrift else .majorDrift

/-- The greatest of the three differences. -/
def maxDriftPct : Binary64 :=
  let drift := driftOf c.ours c.theirs
  ((pctDrift drift.bets c.ours.betsAmountMicro).max (pctDrift drift.wins c.ours.winsAmountMicro)).max
    (pctDrift drift.rollbacks c.ours.rollbacksAmountMicro)

variable {c}

/-- **The verdict on rounded differences is the exact one.** -/
theorem statusOf_exact (h : c.Held) : statusOf c.maxDriftPct = c.verdict := by
  obtain ⟨hbets, hbets₀, hbetsLt⟩ := pctDrift_exact (driftOf c.ours c.theirs).bets h.1
  obtain ⟨hwins, hwins₀, hwinsLt⟩ := pctDrift_exact (driftOf c.ours c.theirs).wins h.2.1
  obtain ⟨hrolls, hrolls₀, hrollsLt⟩ :=
    pctDrift_exact (driftOf c.ours c.theirs).rollbacks h.2.2
  have hmax := Binary64.max_ne_nan hbets hwins
  have hzero : c.maxDriftPct.isZero = decide c.Agrees := by
    rw [maxDriftPct, Binary64.isZero_max hmax hrolls, Binary64.isZero_max hbets hwins, hbets₀, hwins₀,
      hrolls₀, ← Bool.decide_and, ← Bool.decide_and, decide_eq_decide, Agrees, and_assoc]
    simp only [driftOf, sub_eq_zero]
  have hlt : c.maxDriftPct.lt MINOR_DRIFT_THRESHOLD = decide c.Close := by
    rw [maxDriftPct, Binary64.lt_max hmax hrolls, Binary64.lt_max hbets hwins, hbetsLt, hwinsLt,
      hrollsLt, ← Bool.decide_and, ← Bool.decide_and, decide_eq_decide, Close, and_assoc]
    rfl
  rw [statusOf, hzero, hlt, verdict]
  simp only [decide_eq_true_eq]

/-- Amounts that are the same match, whatever they are. -/
theorem statusOf_agrees (h : c.Agrees) : statusOf c.maxDriftPct = .matched := by
  have hnone : ∀ base, pctDrift 0 base = .ofNat 0 := fun base => if_pos rfl
  have hzero : (Binary64.ofNat 0).isZero = true := by
    rw [Binary64.ofNat, Binary64.isZero_round, decide_eq_true_eq, Nat.cast_zero]
    exact Binary64.rounded_zero
  have hnum : Binary64.ofNat 0 ≠ .nan := Binary64.round_ne_nan _
  have hmax := Binary64.max_ne_nan hnum hnum
  rw [maxDriftPct, driftOf, h.1, h.2.1, h.2.2]
  simp only [sub_self, hnone]
  rw [statusOf, Binary64.isZero_max hmax hnum, Binary64.isZero_max hnum hnum, hzero]
  rfl

theorem close_of_agrees (h : c.Agrees) : c.Close := by
  rw [Close, h.1, h.2.1, h.2.2]
  exact ⟨.inl (sub_self _), .inl (sub_self _), .inl (sub_self _)⟩

end Comparison

/-! ## Layouts -/

/-- A cell, with the blanks around it. -/
structure Cell where
  left : Text
  text : Text
  right : Text
  blankLeft : ∀ c ∈ left, isSpace c = true ∧ c ≠ '\n'
  blankRight : ∀ c ∈ right, isSpace c = true ∧ c ≠ '\n'
  trimmed : Lines.Trimmed text
  clean : ∀ c ∈ text, c ≠ ',' ∧ c ≠ '\n'

/-- What is written for a cell. -/
def Cell.printed (c : Cell) : Text := c.left ++ c.text ++ c.right

/-- A line of a file. -/
inductive Line
  /-- A line without anything, or a comment. -/
  | noise (text : Text) (single : '\n' ∉ text) (idle : (trim text).head? ∈ [none, some '#'])
  /-- Two cells or more, of which the first does not look like a comment. -/
  | cells (c d : Cell) (rest : List Cell) (first : c.text.head? ≠ some '#')

/-- What is written for a line. -/
def Line.printed : Line → Text
  | .noise text _ _ => text
  | .cells c d rest _ => Split.join ',' ((c :: d :: rest).map Cell.printed)

/-- The cells of a line that has some. -/
def Line.texts : Line → Option (List Text)
  | .noise _ _ _ => none
  | .cells c d rest _ => some ((c :: d :: rest).map Cell.text)

/-- The text of some lines. -/
def printed (lines : List Line) : Text := Split.join '\n' (lines.map Line.printed)

theorem Cell.mem_printed {x : Cell} {c : Char} (h : c ∈ x.printed) : c ≠ '\n' ∧ c ≠ ',' := by
  rw [Cell.printed, List.mem_append, List.mem_append] at h
  have hcomma : ∀ c, isSpace c = true → c ≠ ',' := by
    rintro c hc rfl
    exact absurd hc (by decide)
  rcases h with (h | h) | h
  · exact ⟨(x.blankLeft c h).2, hcomma c (x.blankLeft c h).1⟩
  · exact ⟨(x.clean c h).2, (x.clean c h).1⟩
  · exact ⟨(x.blankRight c h).2, hcomma c (x.blankRight c h).1⟩

/-- **The cells of a line are read back.** -/
theorem cellsOf_join {xs : List Cell} (hne : xs ≠ []) :
    cellsOf (trim (Split.join ',' (xs.map Cell.printed))) = xs.map Cell.text := by
  have hclean : ∀ p ∈ xs.map Cell.printed, ',' ∉ p := by
    intro p hp hc
    obtain ⟨x, -, rfl⟩ := List.mem_map.mp hp
    exact (Cell.mem_printed hc).2 rfl
  have hnonempty : xs.map Cell.printed ≠ [] := fun h => hne (List.map_eq_nil_iff.mp h)
  rw [cellsOf, Lines.map_trim_splitOn_trim (by decide), Split.splitOn_join hclean hnonempty,
    List.map_map]
  refine List.map_congr_left fun x _ => ?_
  exact Lines.trim_pad (fun c hc => (x.blankLeft c hc).1) (fun c hc => (x.blankRight c hc).1) x.trimmed

theorem Line.notMem_printed (line : Line) : '\n' ∉ line.printed := by
  cases line with
  | noise text single idle => exact single
  | cells c d rest first =>
      intro h
      rcases Split.mem_join h with h | ⟨p, hp, h⟩
      · cases h
      · obtain ⟨x, -, rfl⟩ := List.mem_map.mp hp
        exact (Cell.mem_printed h).1 rfl

/-- What a line gives, read on its own. -/
theorem Line.read (line : Line) :
    ([trim line.printed].filter fun l => l ≠ [] ∧ l.head? ≠ some '#').map cellsOf =
      line.texts.toList := by
  cases line with
  | noise text single idle =>
      have hidle : ¬ (trim text ≠ [] ∧ (trim text).head? ≠ some '#') := by
        rintro ⟨hne, hsharp⟩
        rcases List.mem_cons.mp idle with h | h
        · exact hne (List.head?_eq_none_iff.mp h)
        · exact hsharp (List.mem_singleton.mp h)
      rw [printed, List.filter_cons_of_neg (by simpa using hidle)]
      rfl
  | cells c d rest first =>
      have hread := cellsOf_join (List.cons_ne_nil c (d :: rest))
      rw [printed, texts, Option.toList_some]
      generalize trim (Split.join ',' ((c :: d :: rest).map Cell.printed)) = l at hread ⊢
      have hkeep : l ≠ [] ∧ l.head? ≠ some '#' := by
        constructor
        · -- an empty line has one cell
          rintro rfl
          have hlength := congrArg List.length hread
          simp [cellsOf] at hlength
        · -- what starts like a comment has a first cell that does
          intro hsharp
          obtain ⟨s, rfl⟩ : ∃ s, l = '#' :: s := by
            cases l with
            | nil => cases hsharp
            | cons x s => exact ⟨s, congrArg (· :: s) (Option.some.inj hsharp)⟩
          obtain ⟨p, ps, hsplit⟩ := List.exists_cons_of_ne_nil (List.splitOn_ne_nil ',' s)
          rw [cellsOf, Lines.splitOn_cons_of_ne (by decide) hsplit, List.map_cons, List.map_cons] at hread
          refine first ?_
          rw [← (List.cons.inj hread).1]
          exact Lines.head?_trim_cons (by decide)
      rw [List.filter_cons_of_pos (by simpa using hkeep), List.filter_nil, List.map_singleton, hread]

/-- **The cells of a file are read back.** -/
theorem map_cellsOf_linesOf {lines : List Line} (hne : lines ≠ []) :
    (linesOf (printed lines)).map cellsOf = lines.filterMap Line.texts := by
  have hclean : ∀ l ∈ lines.map Line.printed, '\n' ∉ l := by
    intro l hl
    obtain ⟨line, -, rfl⟩ := List.mem_map.mp hl
    exact line.notMem_printed
  rw [linesOf, Lines.map_trim_splitLines, printed,
    Split.splitOn_join hclean fun h => hne (List.map_eq_nil_iff.mp h)]
  clear hne hclean
  induction lines with
  | nil => rfl
  | cons line lines ih =>
      rw [List.map_cons, List.map_cons, ← List.singleton_append, List.filter_append, List.map_append,
        line.read, ih]
      cases h : line.texts with
      | none => rw [List.filterMap_cons_none h, Option.toList_none, List.nil_append]
      | some cells => rw [List.filterMap_cons_some h, Option.toList_some, List.singleton_append]

/-! ## Files -/

/-- The row that a settlement is written as. -/
def printedRow (s : OperatorSettlementInput) : CsvRow where
  operatorId := s.operatorId
  date := s.date
  currency := s.currency
  betsAmountMicro := MockOperator.microText s.betsAmountMicro
  winsAmountMicro := MockOperator.microText s.winsAmountMicro
  rollbacksAmountMicro := MockOperator.microText s.rollbacksAmountMicro

/-- What a row says in a column; other columns may say anything. -/
def CsvRow.entry (row : CsvRow) (other : Text → Text) (column : Text) : Text :=
  if column = "operatorId".toList then row.operatorId
  else if column = "date".toList then row.date
  else if column = "currency".toList then row.currency
  else if column = "betsAmountMicro".toList then row.betsAmountMicro
  else if column = "winsAmountMicro".toList then row.winsAmountMicro
  else if column = "rollbacksAmountMicro".toList then row.rollbacksAmountMicro
  else other column

/-- **A file of settlements**, in any layout. -/
structure SettlementFile where
  header : List Text
  records : List (OperatorSettlementInput × (Text → Text))
  lines : List Line
  complete : FIELDS ⊆ header
  nonempty : records ≠ []
  contents : lines.filterMap Line.texts =
    header :: records.map fun r => header.map ((printedRow r.1).entry r.2)

/-- The settlements of a file. -/
def SettlementFile.settlements (file : SettlementFile) : List OperatorSettlementInput :=
  file.records.map Prod.fst

/-- **The cell of a column is found**, wherever the column stands. -/
theorem cell_map {header : List Text} {f : Text → Text} {column : String}
    (h : column.toList ∈ header) : cell header (header.map f) column = f column.toList := by
  have hzip : header.zip (header.map f) = header.map fun x => (x, f x) :=
    List.map_prod_left_eq_zip.symm
  rw [cell, hzip]
  cases hfind : (header.map fun x => (x, f x)).reverse.find? fun c => c.1 = column.toList with
  | none =>
      have hnone := List.find?_eq_none.mp hfind (column.toList, f column.toList)
        (List.mem_reverse.mpr (List.mem_map_of_mem h))
      exact absurd (decide_eq_true rfl) hnone
  | some c =>
      obtain ⟨x, -, rfl⟩ := List.mem_map.mp (List.mem_reverse.mp (List.mem_of_find?_eq_some hfind))
      have hfound := List.find?_some hfind
      have hx : x = column.toList := of_decide_eq_true hfound
      rw [hx]
      rfl

/-- The row of a line is the one that was written. -/
theorem rowOf_entry {header : List Text} (hcomplete : FIELDS ⊆ header) (row : CsvRow)
    (other : Text → Text) : rowOf header (header.map (row.entry other)) = row := by
  have hcell : ∀ column : String, column.toList ∈ FIELDS →
      cell header (header.map (row.entry other)) column = row.entry other column.toList :=
    fun column h => cell_map (hcomplete h)
  rw [rowOf, hcell _ (by decide), hcell _ (by decide), hcell _ (by decide), hcell _ (by decide),
    hcell _ (by decide), hcell _ (by decide)]
  rfl

/-- Lines with as many cells as the header have rows. -/
theorem parseRows_eq {header : List Text} {lines : List Text} {i : Nat}
    (h : ∀ l ∈ lines, (cellsOf l).length = header.length) :
    parseRows header i lines = .ok ((lines.map cellsOf).map (rowOf header)) := by
  induction lines generalizing i with
  | nil => rfl
  | cons line lines ih =>
      rw [parseRows]
      simp only [h line List.mem_cons_self, ne_eq, not_true_eq_false, if_false]
      rw [ih fun l hl => h l (List.mem_cons_of_mem line hl)]
      rfl

/-- **A file is read back.** -/
theorem parseCsv_printed (file : SettlementFile) :
    parseCsv (printed file.lines) = .ok (file.settlements.map printedRow) := by
  have hne : file.lines ≠ [] := by
    intro h
    have hcontents := file.contents
    rw [h] at hcontents
    cases hcontents
  have hcells := (map_cellsOf_linesOf hne).trans file.contents
  obtain ⟨line, lines, hlines, hheader, hrows⟩ := List.map_eq_cons_iff.mp hcells
  have hfound : FIELDS.find? (fun f => !(cellsOf line).contains f) = none := by
    rw [List.find?_eq_none, hheader]
    intro f hf
    rw [List.contains_iff_mem.mpr (file.complete hf)]
    exact Bool.false_ne_true
  have hlength : ∀ l ∈ lines, (cellsOf l).length = (cellsOf line).length := by
    intro l hl
    have hmem : cellsOf l ∈ lines.map cellsOf := List.mem_map_of_mem hl
    rw [hrows] at hmem
    obtain ⟨r, -, hr⟩ := List.mem_map.mp hmem
    rw [← hr, hheader, List.length_map]
  rw [parseCsv, hlines]
  simp only [hfound]
  rw [parseRows_eq hlength, hrows, hheader, SettlementFile.settlements, List.map_map, List.map_map]
  refine congrArg Except.ok (List.map_congr_left fun r _ => ?_)
  exact rowOf_entry file.complete (printedRow r.1) r.2

/-- **The settlement of a row is the one that was written.** -/
theorem toInput_printedRow {s : OperatorSettlementInput} (h : isDate s.date = true) :
    toInput (printedRow s) = .ok s := by
  have hbig : ∀ n name, parseBig (MockOperator.microText n) name = .ok n := by
    intro n name
    rw [parseBig, MockOperator.ofText_microText]
  rw [toInput, if_pos (show isDate (printedRow s).date = true from h)]
  simp only [printedRow, hbig]
  rfl

theorem mapM_toInput {settlements : List OperatorSettlementInput}
    (h : ∀ s ∈ settlements, isDate s.date = true) :
    (settlements.map printedRow).mapM toInput = .ok settlements := by
  induction settlements with
  | nil => rfl
  | cons s settlements ih =>
      rw [List.map_cons, List.mapM_cons, toInput_printedRow (h s List.mem_cons_self),
        ih fun s' hs' => h s' (List.mem_cons_of_mem s hs')]
      rfl

/-! ## Runs of the script -/

variable {env : Env} {worlds : Nat → World} {readFile : Text → Option Text} {o : Options}
variable {inputs : List OperatorSettlementInput}

/-- **Where the settlements of a run come from**: a file, or the options. -/
inductive Says (readFile : Text → Option Text) (o : Options) : List OperatorSettlementInput → Prop
  | file (file : SettlementFile) (path : Text) (hpath : given o.file = some path)
      (hread : readFile path = some (printed file.lines)) : Says readFile o file.settlements
  | options (s : OperatorSettlementInput) (hpath : given o.file = none)
      (hrow : o.row = some (printedRow s)) : Says readFile o [s]

/-- **The settlements of a run are read back.** -/
theorem inputsOf_eq (h : Says readFile o inputs) (hdates : ∀ s ∈ inputs, isDate s.date = true) :
    inputsOf readFile o = some inputs := by
  cases h with
  | file file path hpath hread =>
      have hne : file.settlements ≠ [] := fun h => file.nonempty (List.map_eq_nil_iff.mp h)
      rw [inputsOf, hpath]
      simp only [hread, parseCsv_printed, Option.bind_eq_bind, Option.bind_some]
      rw [show (Except.ok (file.settlements.map printedRow)).bind (fun rows => rows.mapM toInput) =
        (.ok file.settlements : Except Text _) from mapM_toInput hdates]
      exact if_neg hne
  | options s hpath hrow =>
      rw [inputsOf, hpath]
      simp only [hrow, toInput_printedRow (hdates s List.mem_cons_self), Option.bind_eq_bind,
        Option.bind_some]
      rfl

/-- The settlements, each beside our totals at the time when it is compared. -/
def comparisons (env : Env) (worlds : Nat → World) : Nat → List OperatorSettlementInput → List Comparison
  | _, [] => []
  | i, s :: inputs =>
      ⟨(worlds i).computeDailyTotals (env.operatorOf s.operatorId) (env.currencyOf s.currency)
        ((env.dateOf s.date).getD 0), s⟩ :: comparisons env worlds (i + 1) inputs

/-- The exit code of some comparisons: whether all agree, or all are close. -/
def worstOf (cs : List Comparison) : Nat :=
  if ∀ c ∈ cs, c.Agrees then 0 else if ∀ c ∈ cs, c.Close then 1 else 2

theorem worstOf_cons (c : Comparison) (cs : List Comparison) :
    worstOf (c :: cs) = max (statusToExit c.verdict) (worstOf cs) := by
  have hclose : (∀ d ∈ cs, d.Agrees) → ∀ d ∈ cs, d.Close :=
    fun h d hd => Comparison.close_of_agrees (h d hd)
  have hclose' : c.Agrees → c.Close := Comparison.close_of_agrees
  simp only [worstOf, Comparison.verdict, List.forall_mem_cons]
  grind [statusToExit]

/-- **The greatest exit code is kept.** -/
theorem reconcileAll_eq {i worst : Nat} (hdates : ∀ s ∈ inputs, (env.dateOf s.date).isSome = true)
    (hexact : ∀ c ∈ comparisons env worlds i inputs, statusOf c.maxDriftPct = c.verdict) :
    reconcileAll env worlds i worst inputs =
      .ok (max worst (worstOf (comparisons env worlds i inputs))) := by
  induction inputs generalizing i worst with
  | nil => exact congrArg Except.ok (Nat.max_zero worst).symm
  | cons s inputs ih =>
      obtain ⟨day, hday⟩ := Option.isSome_iff_exists.mp (hdates s List.mem_cons_self)
      rw [comparisons, List.forall_mem_cons] at hexact
      obtain ⟨hverdict, hrest⟩ := hexact
      obtain ⟨diff, hdiff, hstatus⟩ : ∃ diff, reconcileAgainstOperator env (worlds i) s = .ok diff ∧
          diff.status = statusOf (Comparison.maxDriftPct
            ⟨(worlds i).computeDailyTotals (env.operatorOf s.operatorId) (env.currencyOf s.currency)
              ((env.dateOf s.date).getD 0), s⟩) := by
        rw [reconcileAgainstOperator, hday]
        exact ⟨_, rfl, rfl⟩
      have hgreater : ∀ code : Nat, (if code > worst then code else worst) = max worst code := by
        intro code
        split <;> omega
      rw [reconcileAll, hdiff, comparisons, worstOf_cons, ← hverdict, ← hstatus, ← max_assoc]
      change reconcileAll env worlds (i + 1) (if statusToExit diff.status > worst then
        statusToExit diff.status else worst) inputs = _
      rw [hgreater]
      exact ih (fun s' hs' => hdates s' (List.mem_cons_of_mem s hs')) hrest

/-- **What a run of the script comes to**: the exit code says whether all settlements agree with our
totals, or are all less than one part in a thousand away, whatever the layout of the file, as long as our
amounts are at most `2 ^ 53`. -/
theorem exit_code (h : Says readFile o inputs) (hhelp : o.help = false)
    (hdates : ∀ s ∈ inputs, isDate s.date = true ∧ (env.dateOf s.date).isSome = true)
    (hheld : ∀ c ∈ comparisons env worlds 0 inputs, c.Held) :
    main env readFile worlds o =
      if ∀ c ∈ comparisons env worlds 0 inputs, c.Agrees then 0
      else if ∀ c ∈ comparisons env worlds 0 inputs, c.Close then 1 else 2 := by
  have hall : reconcileAll env worlds 0 0 inputs =
      .ok (max 0 (worstOf (comparisons env worlds 0 inputs))) :=
    reconcileAll_eq (fun s hs => (hdates s hs).2) fun c hc => Comparison.statusOf_exact (hheld c hc)
  rw [main, hhelp, inputsOf_eq h fun s hs => (hdates s hs).1]
  simp only [hall, Bool.false_eq_true, if_false]
  exact Nat.zero_max _

namespace Sample

/-- A cell without blanks, before a separator or the end of the line. -/
def cell (s : String) (right : Text) (h : (s.toList.all fun c => !isSpace c && c != ',') = true)
    (hright : right ∈ [[], [' '], ['\r']]) : Cell where
  left := []
  text := s.toList
  right
  blankLeft := nofun
  blankRight := by
    simp only [List.mem_cons, List.not_mem_nil, or_false] at hright
    rcases hright with rfl | rfl | rfl
    · exact nofun
    · exact List.forall_mem_singleton.mpr ⟨rfl, by decide⟩
    · exact List.forall_mem_singleton.mpr ⟨rfl, by decide⟩
  trimmed := by
    have hblank : ∀ c ∈ s.toList, isSpace c = false := by
      intro c hc
      have hok := List.all_eq_true.mp h c hc
      rw [Bool.and_eq_true, Bool.not_eq_true'] at hok
      exact hok.1
    exact ⟨fun c hc => hblank c (List.mem_of_mem_head? hc),
      fun c hc => hblank c (List.mem_of_getLast? hc)⟩
  clean := by
    intro c hc
    have hok := List.all_eq_true.mp h c hc
    rw [Bool.and_eq_true, Bool.not_eq_true', bne_iff_ne] at hok
    refine ⟨hok.2, ?_⟩
    rintro rfl
    exact absurd hok.1 (by decide)

/-- A file with a comment, an empty line, another column and carriage returns. -/
def lines : List Line :=
  [.noise "# April".toList (by decide) (by decide),
    .cells (cell "currency" [] rfl (by decide)) (cell "operatorId" [' '] rfl (by decide))
      [cell "date" [] rfl (by decide), cell "note" [' '] rfl (by decide),
        cell "betsAmountMicro" [] rfl (by decide), cell "winsAmountMicro" [] rfl (by decide),
        cell "rollbacksAmountMicro" ['\r'] rfl (by decide)] (by decide),
    .noise ['\r'] (by decide) (by decide),
    .cells (cell "LKR" [] rfl (by decide)) (cell "op_a" [] rfl (by decide))
      [cell "2026-04-22" [] rfl (by decide), cell "paid" [] rfl (by decide),
        cell "2001" [] rfl (by decide), cell "1500" [' '] rfl (by decide),
        cell "0" ['\r'] rfl (by decide)] (by decide)]

example : printed lines =
    ("# April\ncurrency,operatorId ,date,note ,betsAmountMicro,winsAmountMicro,rollbacksAmountMicro\r\n" ++
      "\r\nLKR,op_a,2026-04-22,paid,2001,1500 ,0\r").toList := by decide +kernel

/-- The settlement of the file. -/
def settlement : OperatorSettlementInput :=
  ⟨"op_a".toList, "2026-04-22".toList, "LKR".toList, 2001, 1500, 0⟩

/-- The file. -/
def file : SettlementFile where
  header := ["currency", "operatorId", "date", "note", "betsAmountMicro", "winsAmountMicro",
    "rollbacksAmountMicro"].map String.toList
  records := [(settlement, fun _ => "paid".toList)]
  lines := lines
  complete := by decide
  nonempty := List.cons_ne_nil _ _
  contents := by decide

/-- The day of the settlement, and the first one. -/
def names : Env where
  operatorOf _ := 0
  currencyOf _ := 0
  dateOf date :=
    if date = "2026-04-22".toList then some 1776816000000
    else if date = "1970-01-01".toList then some 0 else none

/-- A wallet call of the day that was answered with `RS_OK`. -/
def paid (endpoint : WalletEndpoint) (amount : Int) : WalletCall where
  operatorId := 0
  endpoint
  requestUuid := stake
  transactionUuid := none
  referenceTransactionUuid := none
  sessionId := none
  roundId := none
  playerRef := .named "player"
  amountMicro := some amount
  currency := 0
  attempt := 1
  responseStatus := some .ok
  latencyMs := none
  succeeded := true
  createdAt := 1776816000000 + 3600000
  prevRowHash := none
  rowHash := none

/-- Bets of 2000, and a win of 1500. -/
def world : World := ⟨0, 0, [paid .bet 1200, paid .bet 800, paid .win 1500], [], [], [], []⟩

/-- The options that name the file. -/
def options : Options := ⟨false, some "april.csv".toList, none, none, none, none, none, none⟩

end Sample

/-- The operator has one micro-unit of bets more than the 2000 on the journal. -/
theorem exit_code_minor : main Sample.names (fun _ => some (printed Sample.lines))
    (fun _ => Sample.world) Sample.options = 1 :=
  (exit_code (.file Sample.file "april.csv".toList (by decide) rfl) rfl (by decide)
    (by decide +kernel)).trans (by decide +kernel)

/-! ## The operators' own books -/

/-- An operator says what it booked. -/
structure SaysBooks (env : Env) (w : World) (s : OperatorSettlementInput) : Prop where
  bets : s.betsAmountMicro = w.bookedTotal .bet (env.operatorOf s.operatorId)
    (env.currencyOf s.currency) ((env.dateOf s.date).getD 0)
  wins : s.winsAmountMicro = w.bookedTotal .win (env.operatorOf s.operatorId)
    (env.currencyOf s.currency) ((env.dateOf s.date).getD 0)
  rollbacks : s.rollbacksAmountMicro = w.bookedTotal .rollback (env.operatorOf s.operatorId)
    (env.currencyOf s.currency) ((env.dateOf s.date).getD 0)

/-- What an operator booked agrees with the totals that match its books. -/
theorem SaysBooks.agrees {w : World} (h : ∀ s ∈ inputs, SaysBooks env w s) (hmatch : w.Matches)
    {i : Nat} : ∀ c ∈ comparisons env (fun _ => w) i inputs, c.Agrees := by
  induction inputs generalizing i with
  | nil => exact nofun
  | cons s inputs ih =>
      obtain ⟨hs, hrest⟩ := List.forall_mem_cons.mp h
      rw [comparisons, List.forall_mem_cons]
      exact ⟨⟨hs.bets.trans (hmatch.bets _ _ _).symm, hs.wins.trans (hmatch.wins _ _ _).symm,
        hs.rollbacks.trans (hmatch.rollbacks _ _ _).symm⟩, ih hrest⟩

/-- **Operators that say what they booked match**: after a run of stakes, wins and polls as the totals
need it, when no wallet call is under way, the exit code of the script is 0 for what the operators have
on their books, in any layout and of any size. -/
theorem books_settle {now : Millis} {p : State} (h : ledgers.Run Orderly (initial now) p)
    (hquiet : p.world.Quiet) (hfile : Says readFile o inputs) (hhelp : o.help = false)
    (hdates : ∀ s ∈ inputs, isDate s.date = true ∧ (env.dateOf s.date).isSome = true)
    (hbooks : ∀ s ∈ inputs, SaysBooks env p.world s) :
    main env readFile (fun _ => p.world) o = 0 := by
  have hok : conduct.Ok (initial now) := Discipline.ok_of_no_tasks (initial_sound now)
  have hsound : Sound p.world := (hok.run h).inv
  have hagrees := SaysBooks.agrees (i := 0) hbooks (hsound.matches hquiet)
  have hall : reconcileAll env (fun _ => p.world) 0 0 inputs =
      .ok (max 0 (worstOf (comparisons env (fun _ => p.world) 0 inputs))) :=
    reconcileAll_eq (fun s hs => (hdates s hs).2) fun c hc =>
      (Comparison.statusOf_agrees (hagrees c hc)).trans (if_pos (hagrees c hc)).symm
  rw [main, hhelp, inputsOf_eq hfile fun s hs => (hdates s hs).1]
  simp only [hall, Bool.false_eq_true, if_false]
  exact (Nat.zero_max _).trans (if_pos hagrees)

namespace Sample

/-- What the operator says it booked on the first day. -/
def booked : OperatorSettlementInput :=
  ⟨"op_a".toList, "1970-01-01".toList, "LKR".toList, 100, 250, 0⟩

/-- The options that say so. -/
def flags : Options :=
  ⟨false, none, some "op_a".toList, some "LKR".toList, some "1970-01-01".toList, some "100".toList,
    some "250".toList, some "0".toList⟩

end Sample

/-- A stake of 100, and a win of 250 that was credited by the second retry. -/
theorem books_settle_retried : ∃ p, ledgers.Run Orderly (initial 0) p ∧
    main Sample.names (fun _ => none) (fun _ => p.world) Sample.flags = 0 := by
  have h : ((ledgers.exec Orderly (initial 0)
      (Sample.staked ++ Sample.unseen ++ Sample.refused ++ Sample.credited)).map fun p =>
        (decide p.world.Quiet, p.world.bookedTotal .bet 0 0 0, p.world.bookedTotal .win 0 0 0,
          p.world.bookedTotal .rollback 0 0 0)) = some (true, 100, 250, 0) := by
    decide +kernel
  obtain ⟨p, hp, hv⟩ := System.Run.of_exec_map h
  simp only [Prod.mk.injEq] at hv
  obtain ⟨hquiet, hbets, hwins, hrollbacks⟩ := hv
  refine ⟨p, hp, books_settle hp (of_decide_eq_true hquiet) (.options Sample.booked rfl (by decide))
    rfl (by decide) ?_⟩
  exact List.forall_mem_singleton.mpr ⟨hbets.symm, hwins.symm, hrollbacks.symm⟩

end YantraRgs.Reconciliation
