import Mathlib.Data.List.Lex
import Mathlib.Data.List.Sort
import YantraRgs.Text.Iso

/-! # The canonical text of a value

Rows are hashed by the text that `canonicalJson` gives them: objects with their keys in order, big
integers and dates as strings, no white space.

* **`Value`** — what the function is handed.
* **`canonicalJson`** — the text.
* **`Tree`**, **`Value.tree`** — a value as its text shows it: big integers and dates are strings,
  and the entries of an object are in order.
* **`canonicalJson_inj`** — the text of a value determines its tree. -/

namespace YantraRgs

/-- A text, as the list of its characters. -/
abbrev Text := List Char

/-! ## Values -/

/-- The characters that numbers are printed with. -/
def plainChar (c : Char) : Bool := c.isDigit || c ∈ ['-', '+', '.', 'e']

/-- A number, as `JSON.stringify` prints it. -/
structure Numeral where
  text : List Char
  nonempty : text ≠ []
  plain : ∀ c ∈ text, plainChar c = true
  deriving DecidableEq

/-- A text is looked through, not the alphabet. -/
local instance decidableBAllChar {p : Char → Prop} [DecidablePred p] (cs : List Char) :
    Decidable (∀ c ∈ cs, p c) :=
  List.decidableBAll p cs

/-- The numbers whose texts are plain. -/
def plainNumeral (cs : List Char) : Option Numeral :=
  if h : cs ≠ [] ∧ ∀ c ∈ cs, plainChar c = true then some ⟨cs, h.1, h.2⟩ else none

theorem plainNumeral_text (n : Numeral) : plainNumeral n.text = some n :=
  dif_pos ⟨n.nonempty, n.plain⟩

/-- A JSON value, or a value of one of the columns. A missing value is `null`. -/
inductive Value
  | null
  | bool (b : Bool)
  | number (n : Numeral)
  | string (s : String)
  | bigint (n : Int)
  | date (t : Millis)
  | array (vs : List Value)
  | object (es : List (String × Value))

/-- The digits of a natural number. -/
theorem toList_toString_nat (n : Nat) : (toString n).toList = Nat.toDigits 10 n := by
  rw [Nat.toString_eq_repr, Nat.toList_repr]

/-- The text of a negative integer. -/
theorem toList_toString_negSucc (n : Nat) :
    (toString (Int.negSucc n)).toList = '-' :: Nat.toDigits 10 (n + 1) := by
  change ("-" ++ toString (n + 1)).toList = _
  rw [String.toList_append, toList_toString_nat]
  rfl

theorem isDigit_of_mem_toDigits {n : Nat} {c : Char} (h : c ∈ Nat.toDigits 10 n) :
    c.isDigit = true :=
  Nat.isDigit_of_mem_toDigits (by omega) (by omega) h

theorem toDigits_inj {n m : Nat} (h : Nat.toDigits 10 n = Nat.toDigits 10 m) : n = m := by
  rw [← Nat.ofDigitChars_ten_toDigits (n := n), h, Nat.ofDigitChars_ten_toDigits]

/-- A natural number does not print as a negative one. -/
theorem toDigits_ne_minus (n : Nat) (cs : List Char) : Nat.toDigits 10 n ≠ '-' :: cs := by
  intro h
  have hmem : '-' ∈ Nat.toDigits 10 n := by
    rw [h]
    exact List.mem_cons_self
  exact absurd (isDigit_of_mem_toDigits hmem) (by decide)

/-- The text of an integer determines it. -/
theorem toString_int_inj : ∀ {n m : Int}, (toString n).toList = (toString m).toList → n = m
  | .ofNat n, .ofNat m, h => by
      change (toString n).toList = (toString m).toList at h
      rw [toList_toString_nat, toList_toString_nat] at h
      rw [toDigits_inj h]
  | .ofNat n, .negSucc m, h => by
      change (toString n).toList = _ at h
      rw [toList_toString_nat, toList_toString_negSucc] at h
      exact absurd h (toDigits_ne_minus n _)
  | .negSucc n, .ofNat m, h => by
      change _ = (toString m).toList at h
      rw [toList_toString_nat, toList_toString_negSucc] at h
      exact absurd h.symm (toDigits_ne_minus m _)
  | .negSucc n, .negSucc m, h => by
      rw [toList_toString_negSucc, toList_toString_negSucc] at h
      rw [Nat.succ.inj (toDigits_inj (List.cons.inj h).2)]

/-- The number an integer prints as. -/
def Numeral.ofInt (n : Int) : Numeral where
  text := (toString n).toList
  nonempty := by
    cases n with
    | ofNat m =>
        change (toString m).toList ≠ []
        rw [toList_toString_nat]
        exact Nat.toDigits_ne_nil
    | negSucc m =>
        rw [toList_toString_negSucc]
        exact List.cons_ne_nil _ _
  plain := by
    intro c h
    cases n with
    | ofNat m =>
        change c ∈ (toString m).toList at h
        rw [toList_toString_nat] at h
        simp [plainChar, isDigit_of_mem_toDigits h]
    | negSucc m =>
        rw [toList_toString_negSucc, List.mem_cons] at h
        rcases h with rfl | h
        · rfl
        · simp [plainChar, isDigit_of_mem_toDigits h]

theorem Numeral.ofInt_inj {n m : Int} (h : ofInt n = ofInt m) : n = m :=
  toString_int_inj (congrArg Numeral.text h)

/-! ## The text -/

/-- How a character stands in a string's text. -/
def escapeChar (c : Char) : List Char :=
  match c with
  | '\x22' => ['\\', '\x22']
  | '\\' => ['\\', '\\']
  | '\n' => ['\\', 'n']
  | '\r' => ['\\', 'r']
  | '\t' => ['\\', 't']
  | '\x08' => ['\\', 'b']
  | '\x0c' => ['\\', 'f']
  | c =>
      if c.toNat < 32 then
        ['\\', 'u', '0', '0', Nat.digitChar (c.toNat / 16), Nat.digitChar (c.toNat % 16)]
      else [c]

/-- `JSON.stringify` of a string. -/
def stringify (s : String) : Text := '\x22' :: (s.toList.flatMap escapeChar ++ ['\x22'])

/-- The order of keys: by their UTF-16 units. -/
def utf16 (s : String) : List Nat :=
  s.toList.flatMap fun c =>
    if c.toNat < 0x10000 then [c.toNat]
    else [0xD800 + (c.toNat - 0x10000) / 0x400, 0xDC00 + (c.toNat - 0x10000) % 0x400]

/-- The entries of an object, in the order of their keys. -/
def sortEntries {α : Type} (es : List (String × α)) : List (String × α) :=
  es.insertionSort fun a b => utf16 a.1 ≤ utf16 b.1

mutual

/-- **The canonical text of a value.** -/
def canonicalJson : Value → Text
  | .null => ['n', 'u', 'l', 'l']
  | .bigint n => '\x22' :: ((toString n).toList ++ ['\x22'])
  | .date t => '\x22' :: (toISOString t ++ ['\x22'])
  | .array vs => '[' :: ([','].intercalate (canonicalElements vs) ++ [']'])
  | .object es =>
      '\x7b' :: ([','].intercalate
        ((sortEntries (canonicalEntries es)).map fun e => stringify e.1 ++ ':' :: e.2) ++
          ['\x7d'])
  | .string s => stringify s
  | .number n => n.text
  | .bool b => if b then ['t', 'r', 'u', 'e'] else ['f', 'a', 'l', 's', 'e']

/-- The texts of the elements of an array. -/
def canonicalElements : List Value → List Text
  | [] => []
  | v :: vs => canonicalJson v :: canonicalElements vs

/-- The entries of an object, with the texts of their values. -/
def canonicalEntries : List (String × Value) → List (String × Text)
  | [] => []
  | e :: es => (e.1, canonicalJson e.2) :: canonicalEntries es

end

example : canonicalJson (.object [("z", .bigint 9), ("a", .array [.null, .bool true])]) =
    "\x7b\"a\":[null,true],\"z\":\"9\"\x7d".toList := by decide +kernel

/-! ## Reading a string back -/

/-- The value of a hexadecimal digit. -/
def hexValue (c : Char) : Nat := if c.isDigit then c.toNat - 48 else c.toNat - 87

theorem hexValue_digitChar : ∀ d < 16, hexValue (Nat.digitChar d) = d := by decide

/-- The first character of a string's text, and what follows it. -/
def unescape : List Char → Option (Char × List Char)
  | '\\' :: '\x22' :: cs => some ('\x22', cs)
  | '\\' :: '\\' :: cs => some ('\\', cs)
  | '\\' :: 'n' :: cs => some ('\n', cs)
  | '\\' :: 'r' :: cs => some ('\r', cs)
  | '\\' :: 't' :: cs => some ('\t', cs)
  | '\\' :: 'b' :: cs => some ('\x08', cs)
  | '\\' :: 'f' :: cs => some ('\x0c', cs)
  | '\\' :: 'u' :: '0' :: '0' :: a :: b :: cs =>
      some (Char.ofNat (16 * hexValue a + hexValue b), cs)
  | c :: cs => some (c, cs)
  | [] => none

/-- A character's text is read back. -/
theorem unescape_escapeChar (c : Char) (cs : List Char) :
    unescape (escapeChar c ++ cs) = some (c, cs) := by
  unfold escapeChar
  split
  · rfl
  · rfl
  · rfl
  · rfl
  · rfl
  · rfl
  · rfl
  · split
    · next hsmall =>
        have hhigh := hexValue_digitChar (c.toNat / 16) (by omega)
        have hlow := hexValue_digitChar (c.toNat % 16) (by omega)
        have hsum : 16 * (c.toNat / 16) + c.toNat % 16 = c.toNat := by omega
        simp only [List.cons_append, List.nil_append, unescape, hhigh, hlow, hsum, Char.ofNat_toNat]
    · rw [List.cons_append, List.nil_append, unescape.eq_def]
      split <;> simp_all

/-- No character's text starts with a quotation mark. -/
theorem escapeChar_ne_quote (c : Char) (cs ds : List Char) : escapeChar c ++ cs ≠ '\x22' :: ds := by
  intro h
  have hread := unescape_escapeChar c cs
  rw [h] at hread
  have hc : '\x22' = c := congrArg Prod.fst (Option.some.inj (show some ('\x22', ds) = _ from hread))
  rw [← hc] at h
  simp [escapeChar] at h

/-- A string is read up to its closing quotation mark. -/
theorem flatMap_escapeChar_inj : ∀ {a b s t : List Char},
    a.flatMap escapeChar ++ '\x22' :: s = b.flatMap escapeChar ++ '\x22' :: t → a = b ∧ s = t
  | [], [], _, _, h => ⟨rfl, (List.cons.inj h).2⟩
  | [], c :: b, s, t, h => by
      rw [List.flatMap_cons, List.append_assoc] at h
      exact absurd h.symm (escapeChar_ne_quote c _ s)
  | c :: a, [], s, t, h => by
      rw [List.flatMap_cons, List.append_assoc] at h
      exact absurd h (escapeChar_ne_quote c _ t)
  | c :: a, d :: b, s, t, h => by
      rw [List.flatMap_cons, List.flatMap_cons, List.append_assoc, List.append_assoc] at h
      have hread := congrArg unescape h
      rw [unescape_escapeChar, unescape_escapeChar, Option.some.injEq, Prod.mk.injEq] at hread
      obtain ⟨hab, hst⟩ := flatMap_escapeChar_inj hread.2
      exact ⟨by rw [hread.1, hab], hst⟩

/-! ## Values as their texts show them -/

/-- A value as its text shows it. -/
inductive Tree
  | null
  | bool (b : Bool)
  | number (n : Numeral)
  | string (s : String)
  | array (ts : List Tree)
  | object (es : List (String × Tree))

/-- What follows the first of the texts of a list. -/
def more (close : Char) : List (List Char) → List Char
  | [] => [close]
  | x :: xs => ',' :: (x ++ more close xs)

/-- The texts of a list, with commas between them and a closing sign behind. -/
def joined (close : Char) : List (List Char) → List Char
  | [] => [close]
  | x :: xs => x ++ more close xs

mutual

/-- The text of a tree. -/
def Tree.print : Tree → List Char
  | .null => ['n', 'u', 'l', 'l']
  | .bool b => if b then ['t', 'r', 'u', 'e'] else ['f', 'a', 'l', 's', 'e']
  | .number n => n.text
  | .string s => stringify s
  | .array ts => '[' :: joined ']' (printElements ts)
  | .object es => '\x7b' :: joined '\x7d' (printEntries es)

/-- The texts of the elements of an array. -/
def printElements : List Tree → List (List Char)
  | [] => []
  | t :: ts => t.print :: printElements ts

/-- The texts of the entries of an object. -/
def printEntries : List (String × Tree) → List (List Char)
  | [] => []
  | e :: es => (stringify e.1 ++ ':' :: e.2.print) :: printEntries es

end

/-- The text of an entry. -/
def printEntry (e : String × Tree) : List Char := stringify e.1 ++ ':' :: e.2.print

theorem printElements_eq (ts : List Tree) : printElements ts = ts.map Tree.print := by
  induction ts with
  | nil => rfl
  | cons t ts ih => rw [printElements, ih, List.map_cons]

theorem printEntries_eq (es : List (String × Tree)) : printEntries es = es.map printEntry := by
  induction es with
  | nil => rfl
  | cons e es ih => rw [printEntries, ih, List.map_cons, printEntry]

/-! ## Reading a tree back -/

/-- What may follow a value: nothing, a comma or a closing sign. -/
def Stops (s : List Char) : Prop := ∀ c ∈ s.head?, c ∈ [',', ']', '\x7d']

/-- A text is read back whatever follows it. -/
def Reads {α : Type} (print : α → List Char) (x : α) : Prop :=
  ∀ (y : α) (s t : List Char), Stops s → Stops t → print x ++ s = print y ++ t → x = y ∧ s = t

/-- A text starts with a character that does not close anything. -/
def Opens {α : Type} (print : α → List Char) : Prop :=
  ∀ x : α, ∃ c cs, print x = c :: cs ∧ c ∉ [',', ']', '\x7d']

theorem stops_more {close : Char} (hclose : close ∈ [',', ']', '\x7d']) (xs : List (List Char))
    (s : List Char) : Stops (more close xs ++ s) := by
  intro c hc
  cases xs with
  | nil =>
      simp only [more, List.cons_append, List.head?_cons, Option.mem_some_iff] at hc
      rwa [← hc]
  | cons x xs =>
      simp only [more, List.cons_append, List.head?_cons, Option.mem_some_iff] at hc
      rw [← hc]
      exact List.mem_cons_self

section Joined

variable {α : Type} {print : α → List Char} {close : Char}

/-- The rest of a list is read back. -/
theorem more_inj (hclose : close ∈ [']', '\x7d']) :
    ∀ {xs ys : List α} {s t : List Char}, (∀ x ∈ xs, Reads print x) →
      more close (xs.map print) ++ s = more close (ys.map print) ++ t → xs = ys ∧ s = t
  | [], [], _, _, _, h => ⟨rfl, (List.cons.inj h).2⟩
  | [], y :: ys, _, _, _, h => by
      have hcomma : close = ',' := (List.cons.inj h).1
      rw [hcomma] at hclose
      exact absurd hclose (by decide)
  | x :: xs, [], _, _, _, h => by
      have hcomma : ',' = close := (List.cons.inj h).1
      rw [← hcomma] at hclose
      exact absurd hclose (by decide)
  | x :: xs, y :: ys, s, t, hreads, h => by
      have hmem : close ∈ [',', ']', '\x7d'] := List.mem_cons_of_mem _ hclose
      simp only [List.map_cons, more, List.cons_append, List.append_assoc, List.cons.injEq,
        true_and] at h
      obtain ⟨hx, h⟩ := hreads x List.mem_cons_self y _ _ (stops_more hmem _ _)
        (stops_more hmem _ _) h
      obtain ⟨hxs, hst⟩ := more_inj hclose (fun z hz => hreads z (List.mem_cons_of_mem x hz)) h
      exact ⟨by rw [hx, hxs], hst⟩

/-- A list is read back. -/
theorem joined_inj (hclose : close ∈ [']', '\x7d']) (hopens : Opens print) {xs ys : List α}
    {s t : List Char} (hreads : ∀ x ∈ xs, Reads print x)
    (h : joined close (xs.map print) ++ s = joined close (ys.map print) ++ t) :
    xs = ys ∧ s = t := by
  have hmem : close ∈ [',', ']', '\x7d'] := List.mem_cons_of_mem _ hclose
  have hne : ∀ (x : α) (r r' : List Char), close :: r ≠ print x ++ r' := by
    intro x r r' hr
    obtain ⟨c, cs, hprint, hc⟩ := hopens x
    rw [hprint, List.cons_append, List.cons.injEq] at hr
    rw [← hr.1] at hc
    exact hc hmem
  cases xs with
  | nil =>
      cases ys with
      | nil => exact ⟨rfl, (List.cons.inj h).2⟩
      | cons y ys =>
          simp only [List.map_nil, List.map_cons, joined, List.append_assoc, List.cons_append,
            List.nil_append] at h
          exact absurd h (hne y _ _)
  | cons x xs =>
      cases ys with
      | nil =>
          simp only [List.map_nil, List.map_cons, joined, List.append_assoc, List.cons_append,
            List.nil_append] at h
          exact absurd h.symm (hne x _ _)
      | cons y ys =>
          simp only [List.map_cons, joined, List.append_assoc] at h
          obtain ⟨hx, h⟩ := hreads x List.mem_cons_self y _ _ (stops_more hmem _ _)
            (stops_more hmem _ _) h
          obtain ⟨hxs, hst⟩ := more_inj hclose (fun z hz => hreads z (List.mem_cons_of_mem x hz)) h
          exact ⟨by rw [hx, hxs], hst⟩

end Joined

/-- The text of a string is read back. -/
theorem stringify_inj {a b : String} {s t : List Char} (h : stringify a ++ s = stringify b ++ t) :
    a = b ∧ s = t := by
  simp only [stringify, List.cons_append, List.append_assoc, List.nil_append, List.cons.injEq,
    true_and] at h
  obtain ⟨hab, hst⟩ := flatMap_escapeChar_inj h
  exact ⟨String.toList_inj.mp hab, hst⟩

/-- Which of the kinds of trees a tree is. -/
def Tree.kind : Tree → Nat
  | .null => 0
  | .bool true => 1
  | .bool false => 2
  | .string _ => 3
  | .array _ => 4
  | .object _ => 5
  | .number _ => 6

/-- The kind of the trees whose texts start with a character. -/
def kindOf (c : Char) : Nat :=
  match c with
  | 'n' => 0
  | 't' => 1
  | 'f' => 2
  | '\x22' => 3
  | '[' => 4
  | '\x7b' => 5
  | _ => 6

/-- Numbers start with characters of their own. -/
theorem kindOf_of_plain {c : Char} (h : plainChar c = true) :
    kindOf c = 6 ∧ c ∉ [',', ']', '\x7d'] := by
  have hne : ∀ d : Char, plainChar d = false → c ≠ d := by
    rintro d hd rfl
    rw [h] at hd
    exact Bool.noConfusion hd
  have hcomma := hne ',' rfl
  have hbracket := hne ']' rfl
  have hbrace := hne '\x7d' rfl
  constructor
  · unfold kindOf
    split
    · exact absurd rfl (hne _ rfl)
    · exact absurd rfl (hne _ rfl)
    · exact absurd rfl (hne _ rfl)
    · exact absurd rfl (hne _ rfl)
    · exact absurd rfl (hne _ rfl)
    · exact absurd rfl (hne _ rfl)
    · rfl
  · simp [hcomma, hbracket, hbrace]

/-- The first character of a text tells the kind of the tree. -/
theorem Tree.print_eq_cons (t : Tree) :
    ∃ c cs, t.print = c :: cs ∧ kindOf c = t.kind ∧ c ∉ [',', ']', '\x7d'] := by
  cases t with
  | null => exact ⟨_, _, rfl, rfl, by decide⟩
  | bool b => cases b <;> exact ⟨_, _, rfl, rfl, by decide⟩
  | string s => exact ⟨_, _, rfl, rfl, by decide⟩
  | array ts => exact ⟨_, _, rfl, rfl, by decide⟩
  | object es => exact ⟨_, _, rfl, rfl, by decide⟩
  | number n =>
      obtain ⟨c, cs, hcs⟩ := List.exists_cons_of_ne_nil n.nonempty
      have hplain := n.plain c (by rw [hcs]; exact List.mem_cons_self)
      exact ⟨c, cs, hcs, kindOf_of_plain hplain⟩

theorem Tree.opens : Opens Tree.print := by
  intro t
  obtain ⟨c, cs, hprint, -, hc⟩ := t.print_eq_cons
  exact ⟨c, cs, hprint, hc⟩

/-- Equal texts are texts of trees of one kind. -/
theorem Tree.kind_eq {t u : Tree} {r s : List Char} (h : t.print ++ r = u.print ++ s) :
    t.kind = u.kind := by
  obtain ⟨c, cs, hc, hkind, -⟩ := t.print_eq_cons
  obtain ⟨d, ds, hd, hkind', -⟩ := u.print_eq_cons
  rw [hc, hd, List.cons_append, List.cons_append, List.cons.injEq] at h
  rw [← hkind, ← hkind', h.1]

/-- A number is read up to a character that numbers do not have. -/
theorem Numeral.text_append_inj {n m : Numeral} {s t : List Char} (hs : Stops s) (ht : Stops t)
    (h : n.text ++ s = m.text ++ t) : n = m ∧ s = t := by
  have hstop : ∀ r, Stops r → r.takeWhile plainChar = [] := by
    intro r hr
    cases r with
    | nil => rfl
    | cons c cs =>
        have hc := hr c rfl
        have hplain : plainChar c = false := by
          simp only [List.mem_cons, List.not_mem_nil, or_false] at hc
          rcases hc with rfl | rfl | rfl <;> rfl
        simp [hplain]
  have htake := congrArg (List.takeWhile plainChar) h
  rw [List.takeWhile_append_of_pos n.plain, List.takeWhile_append_of_pos m.plain, hstop s hs,
    hstop t ht, List.append_nil, List.append_nil] at htake
  rw [htake] at h
  exact ⟨by cases n; cases m; simp_all, List.append_cancel_left h⟩

theorem opens_printEntry : Opens printEntry := fun _ => ⟨'\x22', _, rfl, by decide⟩

/-- An entry is read back when its value is. -/
theorem reads_printEntry {e : String × Tree} (h : Reads Tree.print e.2) : Reads printEntry e := by
  intro e' s t hs ht heq
  simp only [printEntry, List.append_assoc, List.cons_append] at heq
  obtain ⟨hkey, heq⟩ := stringify_inj heq
  obtain ⟨hvalue, hst⟩ := h e'.2 s t hs ht (List.cons.inj heq).2
  exact ⟨Prod.ext hkey hvalue, hst⟩

mutual

/-- **The text of a tree is read back.** -/
theorem Tree.reads : ∀ t : Tree, Reads Tree.print t
  | .null, u, s, r, _, _, h => by
      have hkind := Tree.kind_eq h
      cases u with
      | null => exact ⟨rfl, by simpa [Tree.print] using h⟩
      | bool b => cases b <;> simp [Tree.kind] at hkind
      | number | string | array | object => simp [Tree.kind] at hkind
  | .bool b, u, s, r, _, _, h => by
      have hkind := Tree.kind_eq h
      cases u with
      | bool b' =>
          cases b <;> cases b' <;> simp [Tree.kind] at hkind <;>
            exact ⟨rfl, by simpa [Tree.print] using h⟩
      | null | number | string | array | object => cases b <;> simp [Tree.kind] at hkind
  | .number n, u, s, r, hs, hr, h => by
      have hkind := Tree.kind_eq h
      cases u with
      | number m =>
          obtain ⟨hnm, hsr⟩ := Numeral.text_append_inj hs hr h
          exact ⟨by rw [hnm], hsr⟩
      | bool b => cases b <;> simp [Tree.kind] at hkind
      | null | string | array | object => simp [Tree.kind] at hkind
  | .string a, u, s, r, _, _, h => by
      have hkind := Tree.kind_eq h
      cases u with
      | string b =>
          obtain ⟨hab, hsr⟩ := stringify_inj h
          exact ⟨by rw [hab], hsr⟩
      | bool b => cases b <;> simp [Tree.kind] at hkind
      | null | number | array | object => simp [Tree.kind] at hkind
  | .array ts, u, s, r, _, _, h => by
      have hkind := Tree.kind_eq h
      cases u with
      | array us =>
          simp only [Tree.print, printElements_eq, List.cons_append, List.cons.injEq,
            true_and] at h
          obtain ⟨hts, hsr⟩ := joined_inj (by decide) Tree.opens (elements_reads ts) h
          exact ⟨by rw [hts], hsr⟩
      | bool b => cases b <;> simp [Tree.kind] at hkind
      | null | number | string | object => simp [Tree.kind] at hkind
  | .object es, u, s, r, _, _, h => by
      have hkind := Tree.kind_eq h
      cases u with
      | object fs =>
          simp only [Tree.print, printEntries_eq, List.cons_append, List.cons.injEq,
            true_and] at h
          obtain ⟨hes, hsr⟩ := joined_inj (by decide) opens_printEntry (entries_reads es) h
          exact ⟨by rw [hes], hsr⟩
      | bool b => cases b <;> simp [Tree.kind] at hkind
      | null | number | string | array => simp [Tree.kind] at hkind

theorem elements_reads : ∀ ts : List Tree, ∀ t ∈ ts, Reads Tree.print t
  | [], _, h => absurd h List.not_mem_nil
  | t :: ts, u, h => by
      rcases List.mem_cons.mp h with heq | h
      · rw [heq]
        exact Tree.reads t
      · exact elements_reads ts u h

theorem entries_reads : ∀ es : List (String × Tree), ∀ e ∈ es, Reads printEntry e
  | [], _, h => absurd h List.not_mem_nil
  | (k, t) :: es, f, h => by
      rcases List.mem_cons.mp h with heq | h
      · rw [heq]
        exact reads_printEntry (Tree.reads t)
      · exact entries_reads es f h

end

/-- **The text of a tree determines it.** -/
theorem Tree.print_inj {t u : Tree} (h : t.print = u.print) : t = u := by
  have hstops : Stops [] := fun c hc => absurd hc (by simp)
  exact (Tree.reads t u [] [] hstops hstops (by rw [h])).1

/-! ## Texts are single lines -/

theorem newline_notMem_escapeChar (c : Char) : '\n' ∉ escapeChar c := by
  unfold escapeChar
  split
  · decide
  · decide
  · decide
  · decide
  · decide
  · decide
  · decide
  · next hline _ _ _ _ =>
      have hdigit : ∀ d < 16, '\n' ≠ Nat.digitChar d := by decide
      split
      · next hsmall =>
          have hhigh := hdigit (c.toNat / 16) (by omega)
          have hlow := hdigit (c.toNat % 16) (by omega)
          simp [hhigh, hlow]
      · simpa using fun h => hline h.symm

theorem newline_notMem_stringify (s : String) : '\n' ∉ stringify s := by
  intro h
  simp only [stringify, List.mem_cons, List.mem_append, List.mem_flatMap, List.not_mem_nil,
    or_false] at h
  rcases h with h | ⟨c, -, hc⟩ | h
  · exact absurd h (by decide)
  · exact newline_notMem_escapeChar c hc
  · exact absurd h (by decide)

theorem newline_notMem_joined {close : Char} (hclose : close ∈ [']', '\x7d'])
    {xs : List (List Char)} (h : ∀ x ∈ xs, '\n' ∉ x) : '\n' ∉ joined close xs := by
  have hend : '\n' ∉ [close] := by
    intro hmem
    rw [← List.mem_singleton.mp hmem] at hclose
    exact absurd hclose (by decide)
  have hmore : ∀ ys : List (List Char), (∀ y ∈ ys, '\n' ∉ y) → '\n' ∉ more close ys := by
    intro ys
    induction ys with
    | nil => exact fun _ => hend
    | cons y ys ih =>
        intro hys hmem
        rcases List.mem_cons.mp hmem with hcomma | hmem
        · exact absurd hcomma (by decide)
        · rcases List.mem_append.mp hmem with hy | hmem
          · exact hys y List.mem_cons_self hy
          · exact ih (fun z hz => hys z (List.mem_cons_of_mem y hz)) hmem
  cases xs with
  | nil => exact hend
  | cons x xs =>
      intro hmem
      rcases List.mem_append.mp hmem with hx | hmem
      · exact h x List.mem_cons_self hx
      · exact hmore xs (fun z hz => h z (List.mem_cons_of_mem x hz)) hmem

mutual

/-- **The text of a tree is a single line.** -/
theorem Tree.newline_notMem_print : ∀ t : Tree, '\n' ∉ t.print
  | .null => by
      rw [Tree.print]
      decide
  | .bool b => by
      rw [Tree.print]
      cases b <;> decide
  | .number n => by
      intro h
      exact absurd (n.plain _ h) (by decide)
  | .string s => newline_notMem_stringify s
  | .array ts => by
      intro h
      rw [Tree.print, printElements_eq] at h
      rcases List.mem_cons.mp h with h | h
      · exact absurd h (by decide)
      · refine newline_notMem_joined (by decide) ?_ h
        intro x hx
        obtain ⟨t, ht, rfl⟩ := List.mem_map.mp hx
        exact elements_newline ts t ht
  | .object es => by
      intro h
      rw [Tree.print, printEntries_eq] at h
      rcases List.mem_cons.mp h with h | h
      · exact absurd h (by decide)
      · refine newline_notMem_joined (by decide) ?_ h
        intro x hx
        obtain ⟨e, he, rfl⟩ := List.mem_map.mp hx
        intro hmem
        rcases List.mem_append.mp hmem with hmem | hmem
        · exact newline_notMem_stringify _ hmem
        · rcases List.mem_cons.mp hmem with hmem | hmem
          · exact absurd hmem (by decide)
          · exact entries_newline es e he hmem

theorem elements_newline : ∀ ts : List Tree, ∀ t ∈ ts, '\n' ∉ t.print
  | [], _, h => absurd h List.not_mem_nil
  | t :: ts, u, h => by
      rcases List.mem_cons.mp h with heq | h
      · rw [heq]
        exact Tree.newline_notMem_print t
      · exact elements_newline ts u h

theorem entries_newline : ∀ es : List (String × Tree), ∀ e ∈ es, '\n' ∉ e.2.print
  | [], _, h => absurd h List.not_mem_nil
  | (k, t) :: es, f, h => by
      rcases List.mem_cons.mp h with heq | h
      · rw [heq]
        exact Tree.newline_notMem_print t
      · exact entries_newline es f h

end

/-! ## The text of a value is the text of its tree -/

mutual

/-- **A value as its text shows it.** -/
def Value.tree : Value → Tree
  | .null => .null
  | .bool b => .bool b
  | .number n => .number n
  | .string s => .string s
  | .bigint n => .string (toString n)
  | .date t => .string (String.ofList (toISOString t))
  | .array vs => .array (elementTrees vs)
  | .object es => .object (sortEntries (entryTrees es))

/-- The elements of an array, as their texts show them. -/
def elementTrees : List Value → List Tree
  | [] => []
  | v :: vs => v.tree :: elementTrees vs

/-- The entries of an object, with their values as the texts show them. -/
def entryTrees : List (String × Value) → List (String × Tree)
  | [] => []
  | e :: es => (e.1, e.2.tree) :: entryTrees es

end

theorem entryTrees_eq (es : List (String × Value)) :
    entryTrees es = es.map fun e => (e.1, e.2.tree) := by
  induction es with
  | nil => rfl
  | cons e es ih => rw [entryTrees, ih, List.map_cons]

/-- What stands for itself in a string's text. -/
def bareChar (c : Char) : Bool := 32 ≤ c.toNat && c ≠ '\x22' && c ≠ '\\'

theorem escapeChar_of_bare {c : Char} (h : bareChar c = true) : escapeChar c = [c] := by
  have hne : ∀ d : Char, bareChar d = false → c ≠ d := by
    rintro d hd rfl
    rw [h] at hd
    exact Bool.noConfusion hd
  unfold escapeChar
  split
  · exact absurd rfl (hne _ rfl)
  · exact absurd rfl (hne _ rfl)
  · exact absurd rfl (hne _ rfl)
  · exact absurd rfl (hne _ rfl)
  · exact absurd rfl (hne _ rfl)
  · exact absurd rfl (hne _ rfl)
  · exact absurd rfl (hne _ rfl)
  · have hlarge : ¬ c.toNat < 32 := by
      simp only [bareChar, Bool.and_eq_true, decide_eq_true_eq] at h
      omega
    rw [if_neg hlarge]

/-- A text of such characters is stringify as it is. -/
theorem stringify_of_bare {cs : List Char} (h : ∀ c ∈ cs, bareChar c = true) :
    stringify (String.ofList cs) = '\x22' :: (cs ++ ['\x22']) := by
  rw [stringify, String.toList_ofList]
  congr 2
  induction cs with
  | nil => rfl
  | cons c cs ih =>
      rw [List.flatMap_cons, escapeChar_of_bare (h c List.mem_cons_self),
        ih fun d hd => h d (List.mem_cons_of_mem c hd)]
      rfl

theorem bareChar_of_isDigit {c : Char} (h : c.isDigit = true) : bareChar c = true := by
  have hlow : 48 ≤ c.toNat := by
    simp only [Char.isDigit, Bool.and_eq_true, decide_eq_true_eq] at h
    exact h.1
  have hhigh : c.toNat ≤ 57 := by
    simp only [Char.isDigit, Bool.and_eq_true, decide_eq_true_eq] at h
    exact h.2
  have hquote : c ≠ '\x22' := by
    rintro rfl
    exact absurd hlow (by decide)
  have hslash : c ≠ '\\' := by
    rintro rfl
    exact absurd hhigh (by decide)
  simp only [bareChar, Bool.and_eq_true, decide_eq_true_eq]
  exact ⟨⟨by omega, by simpa using hquote⟩, by simpa using hslash⟩

/-- An integer is stringify as it is. -/
theorem bare_toString (n : Int) : ∀ c ∈ (toString n).toList, bareChar c = true := by
  intro c hc
  have hplain := (Numeral.ofInt n).plain c hc
  simp only [plainChar, Bool.or_eq_true] at hplain
  rcases hplain with hdigit | hsign
  · exact bareChar_of_isDigit hdigit
  · simp only [List.mem_cons, List.not_mem_nil, or_false, decide_eq_true_eq] at hsign
    rcases hsign with rfl | rfl | rfl | rfl <;> rfl

/-- An instant is stringify as it is. -/
theorem bare_toISOString (t : Millis) : ∀ c ∈ toISOString t, bareChar c = true := by
  have hpad : ∀ w n, ∀ c ∈ pad w n, bareChar c = true := fun w n c hc =>
    bareChar_of_isDigit (isDigit_of_mem_pad hc)
  have hyear : ∀ y, ∀ c ∈ isoYear y, bareChar c = true := by
    intro y c hc
    unfold isoYear at hc
    split at hc
    · exact hpad _ _ c hc
    · rcases List.mem_cons.mp hc with rfl | hc
      · rfl
      · exact hpad _ _ c hc
  intro c hc
  simp only [toISOString, List.mem_append, List.mem_cons, List.not_mem_nil, or_false] at hc
  rcases hc with hc | rfl | hc | rfl | hc | rfl | hc | rfl | hc | rfl | hc | rfl | hc | rfl
  · exact hyear _ c hc
  all_goals first | rfl | exact hpad _ _ c hc

/-- Texts are put together with commas. -/
theorem intercalate_append (close : Char) (xs : List (List Char)) :
    [','].intercalate xs ++ [close] = joined close xs := by
  cases xs with
  | nil => rfl
  | cons x xs =>
      induction xs generalizing x with
      | nil => simp [joined, more]
      | cons y ys ih =>
          rw [List.intercalate_cons_cons, List.append_assoc, List.append_assoc, ih y]
          rfl

/-- Sorting entries looks at their keys alone. -/
theorem sortEntries_map {α β : Type} (f : α → β) (es : List (String × α)) :
    (sortEntries es).map (fun e => (e.1, f e.2)) = sortEntries (es.map fun e => (e.1, f e.2)) :=
  List.map_insertionSort _ _ _ _ fun _ _ _ _ => Iff.rfl

mutual

/-- **The text of a value is the text of its tree.** -/
theorem canonicalJson_eq_print : ∀ v : Value, canonicalJson v = v.tree.print
  | .null => by rw [canonicalJson, Value.tree, Tree.print]
  | .bool b => by rw [canonicalJson, Value.tree, Tree.print]
  | .number n => by rw [canonicalJson, Value.tree, Tree.print]
  | .string s => by rw [canonicalJson, Value.tree, Tree.print]
  | .bigint n => by
      have hbare := stringify_of_bare (bare_toString n)
      rw [String.ofList_toList] at hbare
      rw [canonicalJson, Value.tree, Tree.print, hbare]
  | .date t => by
      rw [canonicalJson, Value.tree, Tree.print, stringify_of_bare (bare_toISOString t)]
  | .array vs => by
      rw [canonicalJson, Value.tree, Tree.print, intercalate_append, printElements_eq,
        canonicalElements_eq vs]
  | .object es => by
      rw [canonicalJson, Value.tree, Tree.print, intercalate_append, printEntries_eq,
        canonicalEntries_eq es, ← sortEntries_map Tree.print, List.map_map]
      rfl

theorem canonicalElements_eq : ∀ vs : List Value,
    canonicalElements vs = (elementTrees vs).map Tree.print
  | [] => rfl
  | v :: vs => by
      rw [canonicalElements, elementTrees, List.map_cons, canonicalJson_eq_print v,
        canonicalElements_eq vs]

theorem canonicalEntries_eq : ∀ es : List (String × Value),
    canonicalEntries es = (entryTrees es).map fun e => (e.1, e.2.print)
  | [] => rfl
  | (k, v) :: es => by
      rw [canonicalEntries, entryTrees, List.map_cons, canonicalEntries_eq es,
        canonicalJson_eq_print v]

end

/-- **The text of a value determines its tree.** -/
theorem canonicalJson_inj {v w : Value} (h : canonicalJson v = canonicalJson w) :
    v.tree = w.tree := by
  apply Tree.print_inj
  rw [← canonicalJson_eq_print, ← canonicalJson_eq_print, h]

/-- Entries of distinct keys are determined by their order and by what they are when sorted. -/
theorem sortEntries_inj {α : Type} {es fs : List (String × α)}
    (hkeys : es.map Prod.fst = fs.map Prod.fst) (hnodup : (es.map Prod.fst).Nodup)
    (h : sortEntries es = sortEntries fs) : es = fs := by
  have hperm : es.Perm fs := by
    have hes := List.perm_insertionSort (fun a b : String × α => utf16 a.1 ≤ utf16 b.1) es
    have hfs := List.perm_insertionSort (fun a b : String × α => utf16 a.1 ≤ utf16 b.1) fs
    exact hes.symm.trans ((List.Perm.of_eq h).trans hfs)
  have hlen : es.length = fs.length := hperm.length_eq
  refine List.ext_getElem hlen ?_
  intro i hi hi'
  obtain ⟨j, hj, hji⟩ := List.getElem_of_mem (hperm.mem_iff.mp (List.getElem_mem hi))
  -- the key of the entry is found at one place only
  have hkey : ∀ k (hk : k < es.length) (hk' : k < fs.length), es[k].1 = fs[k].1 := by
    intro k hk hk'
    have hget := congrArg (·[k]?) hkeys
    simpa [hk, hk'] using hget
  have hj' : j < es.length := by omega
  have hij : i = j := by
    have hi' : i < (es.map Prod.fst).length := by simpa using hi
    have hj'' : j < (es.map Prod.fst).length := by simpa using hj'
    have hsame : (es.map Prod.fst)[i] = (es.map Prod.fst)[j] := by
      rw [List.getElem_map, List.getElem_map, hkey j hj' hj, hji]
    exact (List.Nodup.getElem_inj_iff hnodup).mp hsame
  subst hij
  exact hji.symm

end YantraRgs
