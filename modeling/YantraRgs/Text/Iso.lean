import Mathlib.Data.List.Basic
import YantraRgs.GameContract

/-! # Instants as text

An instant is a number of milliseconds since the epoch, and is printed as its date and time of day
in UTC.

* **`civil`** — the date of a day, in the calendar that starts its years in March and its eras every
  four hundred years, so that the leap day is the last day of its year, century and era.
* **`toISOString`** — the text of an instant.
* **`toISOString_inj`** — two instants of one text are one instant. -/

namespace YantraRgs

/-! ## Dates -/

/-- A date of the calendar. -/
structure CivilDate where
  year : Nat
  month : Nat
  day : Nat
  deriving DecidableEq

/-- The date of the day that lies `days` days after 1 January 1970. -/
def civil (days : Nat) : CivilDate :=
  let z := days + 719468
  let doe := z % 146097
  let century := min 3 (doe / 36524)
  let quad := (doe - 36524 * century) / 1461
  let doq := (doe - 36524 * century) % 1461
  let year := min 3 (doq / 365)
  let doy := doq - 365 * year
  let mp := (5 * doy + 2) / 153
  let start := z / 146097 * 400 + century * 100 + quad * 4 + year
  ⟨if mp < 10 then start else start + 1, if mp < 10 then mp + 3 else mp - 9,
    doy - (153 * mp + 2) / 5 + 1⟩

/-- A day is so many eras, centuries, leap cycles, years and days after the start. -/
theorem civil_split (days : Nat) : ∃ era century quad year mp dom : Nat,
    century ≤ 3 ∧ quad ≤ 24 ∧ year ≤ 3 ∧ mp ≤ 11 ∧
    days + 719468 = 146097 * era + 36524 * century + 1461 * quad + 365 * year +
      ((153 * mp + 2) / 5 + dom) ∧
    civil days = ⟨if mp < 10 then era * 400 + century * 100 + quad * 4 + year
      else era * 400 + century * 100 + quad * 4 + year + 1,
      if mp < 10 then mp + 3 else mp - 9, dom + 1⟩ := by
  let doe := (days + 719468) % 146097
  let century := min 3 (doe / 36524)
  let doq := (doe - 36524 * century) % 1461
  let year := min 3 (doq / 365)
  let doy := doq - 365 * year
  let mp := (5 * doy + 2) / 153
  refine ⟨(days + 719468) / 146097, century, (doe - 36524 * century) / 1461, year, mp,
    doy - (153 * mp + 2) / 5, ?_, ?_, ?_, ?_, ?_, ?_⟩
  · omega
  · omega
  · omega
  · omega
  · omega
  · simp only [civil, doe, century, doq, year, doy, mp]

/-- **Two days of one date are one day.** -/
theorem civil_inj {a b : Nat} (h : civil a = civil b) : a = b := by
  obtain ⟨e, c, q, y, mp, dom, hc, hq, hy, hmp, hsum, hcivil⟩ := civil_split a
  obtain ⟨e', c', q', y', mp', dom', hc', hq', hy', hmp', hsum', hcivil'⟩ := civil_split b
  rw [hcivil, hcivil', CivilDate.mk.injEq] at h
  obtain ⟨hyear, hmonth, hday⟩ := h
  -- the month tells whether the year of the date is the one that started in March
  have hm : mp = mp' := by
    clear hyear hday hsum hsum'
    split at hmonth <;> split at hmonth <;> omega
  subst hm
  have hstart : e * 400 + c * 100 + q * 4 + y = e' * 400 + c' * 100 + q' * 4 + y' := by
    clear hmonth hday hsum hsum' hcivil hcivil'
    split at hyear
    · exact hyear
    · exact Nat.succ.inj hyear
  have he : e = e' := by omega
  have hce : c = c' := by omega
  have hqe : q = q' := by omega
  omega

/-! ## The digits of a number -/

/-- The digits of a number, with zeros in front up to a width. -/
def pad (width n : Nat) : List Char :=
  List.replicate (width - (Nat.toDigits 10 n).length) '0' ++ Nat.toDigits 10 n

theorem isDigit_of_mem_pad {width n : Nat} {c : Char} (h : c ∈ pad width n) : c.isDigit := by
  rcases List.mem_append.mp h with h | h
  · rw [(List.mem_replicate.mp h).2]
    rfl
  · exact Nat.isDigit_of_mem_toDigits (by omega) (by omega) h

/-- Zeros in front do not change the number. -/
theorem ofDigitChars_pad (width n : Nat) : Nat.ofDigitChars 10 (pad width n) 0 = n := by
  have hzeros : ∀ (k : Nat) (cs : List Char),
      Nat.ofDigitChars 10 (List.replicate k '0' ++ cs) 0 = Nat.ofDigitChars 10 cs 0 := by
    intro k cs
    induction k with
    | zero => rfl
    | succ k ih =>
        rw [List.replicate_succ, List.cons_append, Nat.ofDigitChars_cons]
        exact ih
  rw [pad, hzeros, Nat.ofDigitChars_ten_toDigits]

theorem pad_inj {width n m : Nat} (h : pad width n = pad width m) : n = m := by
  rw [← ofDigitChars_pad width n, h, ofDigitChars_pad]

/-- A text is read up to a character it does not have. -/
theorem append_cons_inj {α : Type} {c : α} :
    ∀ {a b s t : List α}, c ∉ a → c ∉ b → a ++ c :: s = b ++ c :: t → a = b ∧ s = t
  | [], [], _, _, _, _, h => ⟨rfl, (List.cons.inj h).2⟩
  | [], x :: b, _, _, _, hb, h => absurd (List.mem_cons.mpr (.inl (List.cons.inj h).1)) hb
  | x :: a, [], _, _, ha, _, h => absurd (List.mem_cons.mpr (.inl (List.cons.inj h).1.symm)) ha
  | x :: a, y :: b, _, _, ha, hb, h => by
      obtain ⟨hxy, h⟩ := List.cons.inj h
      obtain ⟨hab, hst⟩ := append_cons_inj (fun hm => ha (List.mem_cons_of_mem x hm))
        (fun hm => hb (List.mem_cons_of_mem y hm)) h
      exact ⟨by rw [hxy, hab], hst⟩

/-- A number is read up to a character that is no digit. -/
theorem pad_append_inj {width width' n m : Nat} {c : Char} {s t : List Char} (hc : c.isDigit = false)
    (hw : width = width') (h : pad width n ++ c :: s = pad width' m ++ c :: t) : n = m ∧ s = t := by
  subst hw
  have hnot : ∀ k, c ∉ pad width k := by
    intro k hmem
    rw [isDigit_of_mem_pad hmem] at hc
    exact Bool.noConfusion hc
  obtain ⟨hpad, hrest⟩ := append_cons_inj (hnot n) (hnot m) h
  exact ⟨pad_inj hpad, hrest⟩

/-! ## Instants -/

/-- The year of an instant's text: four digits, or a sign and six. -/
def isoYear (year : Nat) : List Char :=
  if year ≤ 9999 then pad 4 year else '+' :: pad 6 year

/-- `Date.prototype.toISOString`. -/
def toISOString (t : Millis) : List Char :=
  let date := civil (t / 86400000)
  let ms := t % 86400000
  isoYear date.year ++ '-' :: (pad 2 date.month ++ '-' :: (pad 2 date.day ++ 'T' ::
    (pad 2 (ms / 3600000) ++ ':' :: (pad 2 (ms / 60000 % 60) ++ ':' ::
      (pad 2 (ms / 1000 % 60) ++ '.' :: (pad 3 (ms % 1000) ++ ['Z']))))))

/-- The year is read up to the sign behind it. -/
theorem isoYear_append_inj {n m : Nat} {s t : List Char}
    (h : isoYear n ++ '-' :: s = isoYear m ++ '-' :: t) : n = m ∧ s = t := by
  have hplus : ∀ k (r r' : List Char), '+' :: r ≠ pad 4 k ++ '-' :: r' := by
    intro k r r' hr
    rcases hp : pad 4 k with _ | ⟨c, cs⟩
    · rw [hp] at hr
      simp at hr
    · rw [hp, List.cons_append, List.cons.injEq] at hr
      have hdigit : c.isDigit := isDigit_of_mem_pad (by rw [hp]; exact List.mem_cons_self)
      rw [← hr.1] at hdigit
      exact absurd hdigit (by decide)
  unfold isoYear at h
  by_cases hn : n ≤ 9999 <;> by_cases hm : m ≤ 9999 <;>
    simp only [hn, hm, if_true, if_false, List.cons_append] at h
  · exact pad_append_inj rfl rfl h
  · exact absurd h.symm (hplus _ _ _)
  · exact absurd h (hplus _ _ _)
  · exact pad_append_inj rfl rfl (List.cons.inj h).2

/-- **Two instants of one text are one instant.** -/
theorem toISOString_inj {t t' : Millis} (h : toISOString t = toISOString t') : t = t' := by
  unfold toISOString at h
  obtain ⟨hyear, h⟩ := isoYear_append_inj h
  obtain ⟨hmonth, h⟩ := pad_append_inj rfl rfl h
  obtain ⟨hday, h⟩ := pad_append_inj rfl rfl h
  obtain ⟨hhours, h⟩ := pad_append_inj rfl rfl h
  obtain ⟨hminutes, h⟩ := pad_append_inj rfl rfl h
  obtain ⟨hseconds, h⟩ := pad_append_inj rfl rfl h
  have hms : t % 86400000 % 1000 = t' % 86400000 % 1000 := pad_inj (List.append_cancel_right h)
  have hdate : civil (t / 86400000) = civil (t' / 86400000) := by
    cases hd : civil (t / 86400000)
    cases hd' : civil (t' / 86400000)
    simp_all
  have hdays := civil_inj hdate
  clear hdate hyear hmonth hday h
  unfold Millis at *
  omega

example : String.ofList (toISOString 1777000000123) = "2026-04-24T03:06:40.123Z" := by decide

end YantraRgs
