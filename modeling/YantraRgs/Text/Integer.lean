import YantraRgs.Text.Iso

/-! # Texts of integers

How the language reads an integer from a text, and prints one.

* **`BigInt.ofText`** — the integer of a text: blanks around it do not count, no text at all is zero, and
  a prefix chooses another base.
* **`BigInt.ofText_pad`**, **`BigInt.ofText_neg`** — what is printed is read back. -/

namespace YantraRgs.BigInt

/-- White space and line ends. -/
def isSpace (c : Char) : Bool :=
  (9 ≤ c.toNat && c.toNat ≤ 13) || (0x2000 ≤ c.toNat && c.toNat ≤ 0x200A) ||
    c.toNat ∈ [0x20, 0xA0, 0x1680, 0x2028, 0x2029, 0x202F, 0x205F, 0x3000, 0xFEFF]

/-- A text without the white space at its ends. -/
def trim (cs : List Char) : List Char :=
  ((cs.dropWhile isSpace).reverse.dropWhile isSpace).reverse

/-- The value of a digit. -/
def digitValue (c : Char) : Option Nat :=
  if '0' ≤ c ∧ c ≤ '9' then some (c.toNat - 48)
  else if 'a' ≤ c ∧ c ≤ 'f' then some (c.toNat - 87)
  else if 'A' ≤ c ∧ c ≤ 'F' then some (c.toNat - 55)
  else none

/-- One more digit of a number. -/
def pushDigit (base n : Nat) (c : Char) : Option Nat :=
  (digitValue c).bind fun d => if d < base then some (base * n + d) else none

/-- The number of some digits. -/
def digits (base : Nat) (cs : List Char) : Option Nat :=
  if cs = [] then none else cs.foldlM (pushDigit base) 0

/-- **The integer of a text**; there is none where the source throws. -/
def ofText (s : List Char) : Option Int :=
  match trim s with
  | [] => some 0
  | '0' :: 'x' :: cs | '0' :: 'X' :: cs => (digits 16 cs).map Int.ofNat
  | '0' :: 'o' :: cs | '0' :: 'O' :: cs => (digits 8 cs).map Int.ofNat
  | '0' :: 'b' :: cs | '0' :: 'B' :: cs => (digits 2 cs).map Int.ofNat
  | '-' :: cs => (digits 10 cs).map fun n => -Int.ofNat n
  | '+' :: cs => (digits 10 cs).map Int.ofNat
  | cs => (digits 10 cs).map Int.ofNat

/-! ## What is printed is read back -/

theorem pushDigit_of_isDigit {n : Nat} {c : Char} (h : c.isDigit = true) :
    pushDigit 10 n c = some (10 * n + (c.toNat - '0'.toNat)) := by
  simp only [Char.isDigit, Bool.and_eq_true, decide_eq_true_eq] at h
  have hlow : 48 ≤ c.toNat := h.1
  have hhigh : c.toNat ≤ 57 := h.2
  have hvalue : digitValue c = some (c.toNat - 48) := if_pos h
  rw [pushDigit, hvalue, Option.bind_some, if_pos (by omega)]
  rfl

/-- Decimal digits are read as the number they show. -/
theorem digits_of_isDigit {cs : List Char} (hne : cs ≠ []) (h : ∀ c ∈ cs, c.isDigit = true) :
    digits 10 cs = some (Nat.ofDigitChars 10 cs 0) := by
  rw [digits, if_neg hne]
  clear hne
  have hfold : ∀ n, cs.foldlM (pushDigit 10) n = some (Nat.ofDigitChars 10 cs n) := by
    induction cs with
    | nil => intro n; rfl
    | cons c cs ih =>
        intro n
        rw [List.foldlM_cons, pushDigit_of_isDigit (h c List.mem_cons_self),
          Nat.ofDigitChars_cons]
        exact ih (fun d hd => h d (List.mem_cons_of_mem c hd)) _
  exact hfold 0

theorem isSpace_of_isDigit {c : Char} (h : c.isDigit = true) : isSpace c = false := by
  simp only [Char.isDigit, Bool.and_eq_true, decide_eq_true_eq] at h
  have hlow : 48 ≤ c.toNat := h.1
  have hhigh : c.toNat ≤ 57 := h.2
  have hmem : c.toNat ∉
      [0x20, 0xA0, 0x1680, 0x2028, 0x2029, 0x202F, 0x205F, 0x3000, 0xFEFF] := by
    simp only [List.mem_cons, List.not_mem_nil, or_false]
    omega
  simp only [isSpace, Bool.or_eq_false_iff, Bool.and_eq_false_imp, decide_eq_true_eq,
    decide_eq_false_iff_not]
  exact ⟨⟨fun _ => by omega, fun _ => by omega⟩, hmem⟩

/-- A text without blanks at its ends is left as it is. -/
theorem trim_eq_self {c d : Char} {cs ds : List Char} (hfirst : c :: cs = ds ++ [d])
    (hc : isSpace c = false) (hd : isSpace d = false) : trim (c :: cs) = c :: cs := by
  have hleft : (c :: cs).dropWhile isSpace = c :: cs := by simp [hc]
  have hright : (d :: ds.reverse).dropWhile isSpace = d :: ds.reverse := by simp [hd]
  rw [trim, hleft, hfirst, List.reverse_append, List.reverse_singleton, List.singleton_append, hright,
    List.reverse_cons, List.reverse_reverse]

/-- A text of digits, perhaps behind another character, has no blanks at its ends. -/
theorem trim_cons {c : Char} {cs : List Char} (hc : isSpace c = false)
    (h : ∀ d ∈ cs, d.isDigit = true) : trim (c :: cs) = c :: cs := by
  obtain ⟨ds, d, hds⟩ : ∃ ds d, c :: cs = ds ++ [d] :=
    ⟨_, _, (List.dropLast_append_getLast (List.cons_ne_nil c cs)).symm⟩
  refine trim_eq_self hds hc ?_
  have hmem : d ∈ c :: cs := by simp [hds]
  rcases List.mem_cons.mp hmem with rfl | hmem
  · exact hc
  · exact isSpace_of_isDigit (h d hmem)

/-- **Digits are read as the number they show.** -/
theorem ofText_of_isDigit {cs : List Char} (hne : cs ≠ []) (h : ∀ c ∈ cs, c.isDigit = true) :
    ofText cs = some (Nat.ofDigitChars 10 cs 0 : Int) := by
  obtain ⟨c, cs, rfl⟩ := List.exists_cons_of_ne_nil hne
  have hc := h c List.mem_cons_self
  have htrim : trim (c :: cs) = c :: cs :=
    trim_cons (isSpace_of_isDigit hc) fun d hd => h d (List.mem_cons_of_mem c hd)
  have hnot : ∀ d : Char, d.isDigit = false → d ∉ c :: cs := by
    intro d hd hmem
    rw [h d hmem] at hd
    cases hd
  have hdigits := digits_of_isDigit hne h
  rw [ofText, htrim]
  split
  · rename_i heq
    cases heq
  -- neither the second character of a prefix nor a sign is a digit
  case h_10 =>
    rw [hdigits]
    rfl
  all_goals
    rename_i heq
    rw [heq] at hnot
    first
    | exact absurd (List.mem_cons_of_mem _ List.mem_cons_self) (hnot _ (by decide))
    | exact absurd List.mem_cons_self (hnot _ (by decide))

theorem ofText_toDigits (n : Nat) : ofText (Nat.toDigits 10 n) = some (n : Int) := by
  rw [ofText_of_isDigit Nat.toDigits_ne_nil fun c hc =>
    Nat.isDigit_of_mem_toDigits (by omega) (by omega) hc, Nat.ofDigitChars_ten_toDigits]

theorem pad_ne_nil (width n : Nat) : pad width n ≠ [] := by
  rw [pad]
  exact List.append_ne_nil_of_right_ne_nil _ Nat.toDigits_ne_nil

/-- Zeros in front do not matter. -/
theorem ofText_pad (width n : Nat) : ofText (pad width n) = some (n : Int) := by
  rw [ofText_of_isDigit (pad_ne_nil width n) fun c hc => isDigit_of_mem_pad hc, ofDigitChars_pad]

/-- A sign in front of a number negates it. -/
theorem ofText_neg (n : Nat) : ofText ('-' :: Nat.toDigits 10 n) = some (-(n : Int)) := by
  have hdigit : ∀ c ∈ Nat.toDigits 10 n, c.isDigit = true := fun c hc =>
    Nat.isDigit_of_mem_toDigits (by omega) (by omega) hc
  have htrim : trim ('-' :: Nat.toDigits 10 n) = '-' :: Nat.toDigits 10 n :=
    trim_cons (by decide) hdigit
  have hdigits := digits_of_isDigit Nat.toDigits_ne_nil hdigit
  rw [Nat.ofDigitChars_ten_toDigits] at hdigits
  simp only [ofText, htrim, hdigits, Option.map_some]
  rfl

end YantraRgs.BigInt
