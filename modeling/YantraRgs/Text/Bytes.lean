import Mathlib.Data.Nat.Log
import Mathlib.Tactic.NormNum
import Mathlib.Tactic.Ring

/-! # Bytes and their texts

Numbers as bytes, the highest byte first, and bytes as base64 texts.

* **`bigEndian`** — a number in a given number of bytes; `bigEndian_add` pads it with zeros.
* **`width`** — the number of bytes that a number takes where the highest bit is kept clear.
* **`Base64.encode`**, **`Base64.decode`** — texts of bytes; characters outside the alphabet are skipped.
* **`Base64.decode_encode`** — bytes are read back from their text. -/

namespace YantraRgs

/-- A byte. -/
abbrev Byte := Fin 256

/-- There are bytes. -/
instance neZero_byte : NeZero 256 := ⟨by decide⟩

/-- A number in `k` bytes, the highest one first. -/
def bigEndian : Nat → Nat → List Byte
  | 0, _ => []
  | k + 1, n => Fin.ofNat 256 (n / 256 ^ k) :: bigEndian k n

theorem length_bigEndian (k n : Nat) : (bigEndian k n).length = k := by
  induction k with
  | zero => rfl
  | succ k ih => rw [bigEndian, List.length_cons, ih]

/-- **Bytes in front of a number that fits are zeros.** -/
theorem bigEndian_add {k n : Nat} (h : n < 256 ^ k) (j : Nat) :
    bigEndian (j + k) n = List.replicate j 0 ++ bigEndian k n := by
  induction j with
  | zero => rw [Nat.zero_add, List.replicate_zero, List.nil_append]
  | succ j ih =>
      have hsmall : n < 256 ^ (j + k) :=
        lt_of_lt_of_le h (Nat.pow_le_pow_right (by decide) (Nat.le_add_left k j))
      rw [Nat.succ_add, bigEndian, Nat.div_eq_of_lt hsmall, ih]
      rfl

/-- **The bytes that a number takes** where the highest bit is kept clear. -/
def width (n : Nat) : Nat := (Nat.log2 n + 1) / 8 + 1

/-- The least number of bytes in which the highest bit is clear. -/
theorem width_le_iff {n k : Nat} (hn : 0 < n) (hk : 0 < k) : width n ≤ k ↔ n < 2 ^ (8 * k - 1) := by
  have hlog := Nat.log2_lt hn.ne' (k := 8 * k - 1)
  rw [← hlog, width]
  omega

/-- A number fits in its bytes. -/
theorem lt_of_width {n : Nat} (hn : 0 < n) : n < 256 ^ width n := by
  have hfits := (width_le_iff hn (Nat.succ_pos _)).mp (Nat.le_refl (width n))
  have hpow : 2 ^ (8 * width n - 1) ≤ 256 ^ width n := by
    rw [show 256 = 2 ^ 8 by norm_num, ← pow_mul]
    exact Nat.pow_le_pow_right (by decide) (Nat.sub_le _ _)
  exact lt_of_lt_of_le hfits hpow

namespace Base64

/-- The character of six bits. -/
def sextetChar (n : Nat) : Char :=
  if n < 26 then Char.ofNat ('A'.toNat + n)
  else if n < 52 then Char.ofNat ('a'.toNat + (n - 26))
  else if n < 62 then Char.ofNat ('0'.toNat + (n - 52))
  else if n = 62 then '+'
  else '/'

/-- The six bits of a character, in either alphabet. -/
def sextetValue (c : Char) : Option Nat :=
  if 'A' ≤ c ∧ c ≤ 'Z' then some (c.toNat - 'A'.toNat)
  else if 'a' ≤ c ∧ c ≤ 'z' then some (c.toNat - 'a'.toNat + 26)
  else if '0' ≤ c ∧ c ≤ '9' then some (c.toNat - '0'.toNat + 52)
  else if c = '+' ∨ c = '-' then some 62
  else if c = '/' ∨ c = '_' then some 63
  else none

/-- **The base64 text of some bytes**, with its padding. -/
def encode : List Byte → List Char
  | a :: b :: c :: bytes =>
      sextetChar (a / 4) :: sextetChar (a % 4 * 16 + b / 16) :: sextetChar (b % 16 * 4 + c / 64) ::
        sextetChar (c % 64) :: encode bytes
  | [a, b] => [sextetChar (a / 4), sextetChar (a % 4 * 16 + b / 16), sextetChar (b % 16 * 4), '=']
  | [a] => [sextetChar (a / 4), sextetChar (a % 4 * 16), '=', '=']
  | [] => []

/-- The bytes of groups of six bits; what is left over of the last byte is dropped. -/
def fromSextets : List Nat → List Byte
  | w :: x :: y :: z :: rest =>
      Fin.ofNat 256 (w * 4 + x / 16) :: Fin.ofNat 256 (x % 16 * 16 + y / 4) ::
        Fin.ofNat 256 (y % 4 * 64 + z) :: fromSextets rest
  | [w, x, y] => [Fin.ofNat 256 (w * 4 + x / 16), Fin.ofNat 256 (x % 16 * 16 + y / 4)]
  | [w, x] => [Fin.ofNat 256 (w * 4 + x / 16)]
  | _ => []

/-- **The bytes of a base64 text**; other characters are skipped. -/
def decode (cs : List Char) : List Byte := fromSextets (cs.filterMap sextetValue)

theorem sextetValue_sextetChar : ∀ n < 64, sextetValue (sextetChar n) = some n := by decide

/-- The six bits of a text start with those of its first character. -/
theorem filterMap_sextetChar {n : Nat} (h : n < 64) (cs : List Char) :
    (sextetChar n :: cs).filterMap sextetValue = n :: cs.filterMap sextetValue :=
  List.filterMap_cons_some (sextetValue_sextetChar n h)

theorem ofNat_eq {n : Nat} {a : Byte} (h : n = a.val) : Fin.ofNat 256 n = a := by
  rw [h]
  exact Fin.ofNat_val_eq_self a

/-- **Bytes are read back from their text.** -/
theorem decode_encode : ∀ bytes : List Byte, decode (encode bytes) = bytes
  | a :: b :: c :: bytes => by
      have ih := decode_encode bytes
      rw [decode] at ih ⊢
      rw [encode, filterMap_sextetChar (by omega), filterMap_sextetChar (by omega),
        filterMap_sextetChar (by omega), filterMap_sextetChar (by omega), fromSextets, ih,
        ofNat_eq (a := a) (by omega), ofNat_eq (a := b) (by omega), ofNat_eq (a := c) (by omega)]
  | [a, b] => by
      rw [decode, encode, filterMap_sextetChar (by omega), filterMap_sextetChar (by omega),
        filterMap_sextetChar (by omega)]
      change [Fin.ofNat 256 _, Fin.ofNat 256 _] = [a, b]
      rw [ofNat_eq (a := a) (by omega), ofNat_eq (a := b) (by omega)]
  | [a] => by
      rw [decode, encode, filterMap_sextetChar (by omega), filterMap_sextetChar (by omega)]
      change [Fin.ofNat 256 _] = [a]
      rw [ofNat_eq (a := a) (by omega)]
  | [] => rfl

end Base64

end YantraRgs
