import YantraRgs.Services.CanonicalJson

/-! # Reading JSON

How the language reads a value from a text. Numbers are kept as the texts that they print as: reading
them is a parameter.

* **`JsonParse.readString`** — a string, from behind its opening quotation mark.
* **`JsonParse.readValue`** — a value, and what follows it; the first argument bounds the steps.
* **`JsonParse.parse`** — the value of a whole text.
* **`JsonParse.parse_print`** — the printed text of a value is read back. -/

namespace YantraRgs.JsonParse

/-- White space between the signs of a text. -/
def isBlank (c : Char) : Bool := c ∈ [' ', '\t', '\n', '\r']

/-- A text without the white space at its start. -/
def skip (cs : Text) : Text := cs.dropWhile isBlank

/-! ## Strings -/

/-- The value of a hexadecimal digit. -/
def hexDigit? (c : Char) : Option Nat :=
  if c.isDigit then some (c.toNat - 48)
  else if 'a' ≤ c ∧ c ≤ 'f' then some (c.toNat - 87)
  else if 'A' ≤ c ∧ c ≤ 'F' then some (c.toNat - 55)
  else none

/-- The value of four hexadecimal digits. -/
def hex4? (a b c d : Char) : Option Nat := do
  let w ← hexDigit? a
  let x ← hexDigit? b
  let y ← hexDigit? c
  let z ← hexDigit? d
  pure (((w * 16 + x) * 16 + y) * 16 + z)

/-- The character of a code unit, or of a pair of surrogates. A surrogate alone is no character. -/
def unicode (unit : Nat) (rest : Text) : Option (Char × Text) :=
  if unit < 0xD800 ∨ 0xE000 ≤ unit then some (Char.ofNat unit, rest)
  else if unit < 0xDC00 then
    match rest with
    | '\\' :: 'u' :: a :: b :: c :: d :: rest' => do
        let low ← hex4? a b c d
        if 0xDC00 ≤ low ∧ low < 0xE000 then
          some (Char.ofNat (0x10000 + (unit - 0xD800) * 0x400 + (low - 0xDC00)), rest')
        else none
    | _ => none
  else none

/-- The first character of a string's text, and what follows it. -/
def readChar : Text → Option (Char × Text)
  | '\\' :: '\x22' :: cs => some ('\x22', cs)
  | '\\' :: '\\' :: cs => some ('\\', cs)
  | '\\' :: '/' :: cs => some ('/', cs)
  | '\\' :: 'b' :: cs => some ('\x08', cs)
  | '\\' :: 'f' :: cs => some ('\x0c', cs)
  | '\\' :: 'n' :: cs => some ('\n', cs)
  | '\\' :: 'r' :: cs => some ('\r', cs)
  | '\\' :: 't' :: cs => some ('\t', cs)
  | '\\' :: 'u' :: a :: b :: c :: d :: cs => (hex4? a b c d).bind fun unit => unicode unit cs
  | c :: cs => if c.toNat < 32 ∨ c = '\\' then none else some (c, cs)
  | [] => none

/-- **A string**, from behind its opening quotation mark to its closing one. -/
def readString : Nat → Text → Option (List Char × Text)
  | 0, _ => none
  | n + 1, cs =>
      match cs with
      | '\x22' :: rest => some ([], rest)
      | cs => (readChar cs).bind fun x => (readString n x.2).map fun y => (x.1 :: y.1, y.2)

/-! ## Values -/

/-- The characters that numbers are written with. -/
def numberChar (c : Char) : Bool := plainChar c || c = 'E'

/-- An entry joins an object; an entry of the same key is replaced. -/
def setEntry (es : List (String × Value)) (e : String × Value) : List (String × Value) :=
  if es.any (·.1 = e.1) then es.map fun f => if f.1 = e.1 then e else f else es ++ [e]

section Values

variable (readNumber : Text → Option Numeral)

mutual

/-- **A value**, and what follows it; there is none where the source throws. -/
def readValue : Nat → Text → Option (Value × Text)
  | 0, _ => none
  | n + 1, cs =>
      match skip cs with
      | 'n' :: 'u' :: 'l' :: 'l' :: cs => some (.null, cs)
      | 't' :: 'r' :: 'u' :: 'e' :: cs => some (.bool true, cs)
      | 'f' :: 'a' :: 'l' :: 's' :: 'e' :: cs => some (.bool false, cs)
      | '\x22' :: cs => (readString n cs).map fun x => (.string (String.ofList x.1), x.2)
      | '[' :: cs =>
          match skip cs with
          | ']' :: cs => some (.array [], cs)
          | cs => (readElements n cs).map fun x => (.array x.1, x.2)
      | '\x7b' :: cs =>
          match skip cs with
          | '\x7d' :: cs => some (.object [], cs)
          | cs => (readEntries n cs).map fun x => (.object (x.1.foldl setEntry []), x.2)
      | cs => (readNumber (cs.takeWhile numberChar)).map fun k => (.number k, cs.dropWhile numberChar)

/-- The elements of an array, and what follows its closing sign. -/
def readElements : Nat → Text → Option (List Value × Text)
  | 0, _ => none
  | n + 1, cs =>
      (readValue n cs).bind fun x =>
        match skip x.2 with
        | ',' :: cs => (readElements n cs).map fun y => (x.1 :: y.1, y.2)
        | ']' :: cs => some ([x.1], cs)
        | _ => none

/-- The entries of an object, and what follows its closing sign. -/
def readEntries : Nat → Text → Option (List (String × Value) × Text)
  | 0, _ => none
  | n + 1, cs =>
      match skip cs with
      | '\x22' :: cs =>
          (readString n cs).bind fun key =>
            match skip key.2 with
            | ':' :: cs =>
                (readValue n cs).bind fun x =>
                  match skip x.2 with
                  | ',' :: cs =>
                      (readEntries n cs).map fun y => ((String.ofList key.1, x.1) :: y.1, y.2)
                  | '\x7d' :: cs => some ([(String.ofList key.1, x.1)], cs)
                  | _ => none
            | _ => none
      | _ => none

end

/-- **`JSON.parse`**: the value of a whole text; there is none where the source throws. -/
def parse (text : Text) : Option Value :=
  (readValue readNumber (text.length + 1) text).bind fun x =>
    if skip x.2 = [] then some x.1 else none

end Values

/-! ## Strings are read back -/

theorem hexDigit?_digitChar : ∀ d < 16, hexDigit? (Nat.digitChar d) = some d := by decide

/-- A character's text is read back. -/
theorem readChar_escapeChar (c : Char) (cs : List Char) :
    readChar (escapeChar c ++ cs) = some (c, cs) := by
  unfold escapeChar
  split
  · rfl
  · rfl
  · rfl
  · rfl
  · rfl
  · rfl
  · rfl
  · next hquote hslash _ _ _ _ _ =>
      split
      · next hsmall =>
          have hhigh := hexDigit?_digitChar (c.toNat / 16) (by omega)
          have hlow := hexDigit?_digitChar (c.toNat % 16) (by omega)
          have hzero : hexDigit? '0' = some 0 := rfl
          have hsum : ((0 * 16 + 0) * 16 + c.toNat / 16) * 16 + c.toNat % 16 = c.toNat := by omega
          have hunit : hex4? '0' '0' (Nat.digitChar (c.toNat / 16)) (Nat.digitChar (c.toNat % 16)) =
              some c.toNat := by
            rw [hex4?, hzero, hhigh, hlow]
            exact congrArg some hsum
          simp only [List.cons_append, List.nil_append, readChar, hunit, Option.bind_some]
          unfold unicode
          rw [if_pos (Or.inl (by omega)), Char.ofNat_toNat]
      · next hlarge =>
          have hnot : ¬ (c.toNat < 32 ∨ c = '\\') := not_or.mpr ⟨hlarge, fun h => hslash h⟩
          rw [List.cons_append, List.nil_append, readChar.eq_def]
          split <;> simp_all

/-- **A string's text is read back** up to its closing quotation mark. -/
theorem readString_flatMap (s rest : List Char) : ∀ n, s.length < n →
    readString n (s.flatMap escapeChar ++ '\x22' :: rest) = some (s, rest) := by
  induction s with
  | nil =>
      intro n hn
      obtain ⟨n, rfl⟩ := Nat.exists_eq_succ_of_ne_zero (Nat.ne_of_gt hn)
      rfl
  | cons c s ih =>
      intro n hn
      obtain ⟨n, rfl⟩ := Nat.exists_eq_succ_of_ne_zero (Nat.ne_of_gt (Nat.zero_lt_of_lt hn))
      have hread := readChar_escapeChar c (s.flatMap escapeChar ++ '\x22' :: rest)
      rw [List.flatMap_cons, List.append_assoc, readString, hread, Option.bind_some,
        ih n (Nat.lt_of_succ_lt_succ hn)]
      · rfl
      · exact fun ds h => escapeChar_ne_quote c _ ds h

end JsonParse

/-! ## The values of trees -/

mutual

/-- The value that a text shows. -/
def Tree.value : Tree → Value
  | .null => .null
  | .bool b => .bool b
  | .number n => .number n
  | .string s => .string s
  | .array ts => .array (elementValues ts)
  | .object es => .object (entryValues es)

/-- The elements of an array. -/
def elementValues : List Tree → List Value
  | [] => []
  | t :: ts => t.value :: elementValues ts

/-- The entries of an object. -/
def entryValues : List (String × Tree) → List (String × Value)
  | [] => []
  | e :: es => (e.1, e.2.value) :: entryValues es

end

theorem entryValues_eq (es : List (String × Tree)) :
    entryValues es = es.map fun e => (e.1, e.2.value) := by
  induction es with
  | nil => rfl
  | cons e es ih => rw [entryValues, ih, List.map_cons]

mutual

/-- Whether the text of a tree shows it: its numbers are read as they print, and no object has a key
twice. -/
def Tree.Readable (readNumber : Text → Option Numeral) : Tree → Prop
  | .null => True
  | .bool _ => True
  | .number n => readNumber n.text = some n
  | .string _ => True
  | .array ts => ElementsReadable readNumber ts
  | .object es => (es.map Prod.fst).Nodup ∧ EntriesReadable readNumber es

def ElementsReadable (readNumber : Text → Option Numeral) : List Tree → Prop
  | [] => True
  | t :: ts => t.Readable readNumber ∧ ElementsReadable readNumber ts

def EntriesReadable (readNumber : Text → Option Numeral) : List (String × Tree) → Prop
  | [] => True
  | e :: es => e.2.Readable readNumber ∧ EntriesReadable readNumber es

end

namespace JsonParse

/-! ## Trees are read back -/

/-- The signs that a value may start with are not blank. -/
theorem skip_print (t : Tree) (s : Text) : skip (t.print ++ s) = t.print ++ s := by
  have hkeep : ∀ c (cs : Text), isBlank c = false → skip (c :: cs) = c :: cs := by
    intro c cs hc
    rw [skip, List.dropWhile_cons_of_neg (by rw [hc]; decide)]
  cases t with
  | null => exact hkeep _ _ rfl
  | bool b => cases b <;> exact hkeep _ _ rfl
  | string a => exact hkeep _ _ rfl
  | array ts => exact hkeep _ _ rfl
  | object es => exact hkeep _ _ rfl
  | number n =>
      obtain ⟨c, cs, hcs⟩ := List.exists_cons_of_ne_nil n.nonempty
      have hplain := n.plain c (by rw [hcs]; exact List.mem_cons_self)
      have hblank : isBlank c = false := by
        rw [isBlank, decide_eq_false_iff_not]
        intro hmem
        simp only [List.mem_cons, List.not_mem_nil, or_false] at hmem
        rcases hmem with rfl | rfl | rfl | rfl <;> exact absurd hplain (by decide)
      rw [Tree.print, hcs]
      exact hkeep _ _ hblank

variable {readNumber : Text → Option Numeral}

/-- A number is read up to what stops it. -/
theorem readValue_number {k : Numeral} (hk : readNumber k.text = some k) {s : Text} (hs : Stops s)
    (n : Nat) : readValue readNumber (n + 1) (k.text ++ s) = some (.number k, s) := by
  have hskip := skip_print (.number k) s
  rw [Tree.print] at hskip
  have hrun : ∀ c ∈ k.text, numberChar c = true := fun c hc => by
    rw [numberChar, k.plain c hc]
    rfl
  have hstop : s.takeWhile numberChar = [] ∧ s.dropWhile numberChar = s := by
    cases s with
    | nil => exact ⟨rfl, rfl⟩
    | cons c cs =>
        have hc := hs c rfl
        have hnot : numberChar c = false := by
          simp only [List.mem_cons, List.not_mem_nil, or_false] at hc
          rcases hc with rfl | rfl | rfl <;> rfl
        simp [hnot]
  have htake : (k.text ++ s).takeWhile numberChar = k.text := by
    rw [List.takeWhile_append_of_pos hrun, hstop.1, List.append_nil]
  have hdrop : (k.text ++ s).dropWhile numberChar = s := by
    rw [List.dropWhile_append_of_pos hrun, hstop.2]
  obtain ⟨c, cs, hcs⟩ := List.exists_cons_of_ne_nil k.nonempty
  have hplain := k.plain c (by rw [hcs]; exact List.mem_cons_self)
  have hne : ∀ d : Char, plainChar d = false → c ≠ d := by
    rintro d hd rfl
    rw [hplain] at hd
    exact Bool.noConfusion hd
  rw [hcs] at hskip htake hdrop ⊢
  rw [List.cons_append] at hskip htake hdrop ⊢
  have hn := hne 'n' rfl
  have ht := hne 't' rfl
  have hf := hne 'f' rfl
  have hquote := hne '\x22' rfl
  have hbracket := hne '[' rfl
  have hbrace := hne '\x7b' rfl
  clear hstop hrun
  rw [readValue, hskip]
  split <;> simp_all

theorem skip_more {close : Char} (hclose : isBlank close = false) (xs : List Text) (s : Text) :
    skip (more close xs ++ s) = more close xs ++ s := by
  cases xs with
  | nil => simp [more, skip, hclose]
  | cons x xs => simp [more, skip, isBlank]

/-- Entries with different keys are collected as they stand. -/
theorem foldl_setEntry (es fs : List (String × Value)) (h : ((fs ++ es).map Prod.fst).Nodup) :
    es.foldl setEntry fs = fs ++ es := by
  induction es generalizing fs with
  | nil => exact (List.append_nil fs).symm
  | cons e es ih =>
      have hnot : fs.any (·.1 = e.1) = false := by
        rw [List.any_eq_false]
        intro f hf hkey
        rw [List.map_append, List.nodup_append] at h
        exact h.2.2 f.1 (List.mem_map_of_mem hf) e.1 List.mem_cons_self (by simpa using hkey)
      have happend : (fs ++ [e]) ++ es = fs ++ e :: es := by simp
      rw [List.foldl_cons, setEntry, hnot, if_neg (by decide), ih (fs ++ [e]) (by rwa [happend]), happend]

/-- A string is read back. -/
theorem readString_stringify (a : String) (s : Text) {n : Nat} (hn : (stringify a).length ≤ n) :
    readString n (a.toList.flatMap escapeChar ++ '\x22' :: s) = some (a.toList, s) := by
  refine readString_flatMap a.toList s n ?_
  have hlen : ∀ cs : List Char, cs.length ≤ (cs.flatMap escapeChar).length := by
    intro cs
    induction cs with
    | nil => exact Nat.le_refl 0
    | cons c cs ih =>
        have hc : 0 < (escapeChar c).length := by
          rw [List.length_pos_iff]
          intro hnil
          have hread := readChar_escapeChar c []
          rw [hnil] at hread
          cases hread
        rw [List.flatMap_cons, List.length_append, List.length_cons]
        omega
  have hlist := hlen a.toList
  rw [stringify, List.length_cons, List.length_append, List.length_singleton] at hn
  omega

mutual

/-- **The printed text of a tree is read back.** -/
theorem readValue_print : ∀ (t : Tree), t.Readable readNumber → ∀ n (s : Text), t.print.length < n →
    Stops s → readValue readNumber n (t.print ++ s) = some (t.value, s)
  | .null, _, n + 1, s, _, _ => by simp [Tree.print, readValue, skip, isBlank, Tree.value]
  | .bool b, _, n + 1, s, _, _ => by
      cases b <;> simp [Tree.print, readValue, skip, isBlank, Tree.value]
  | .number k, hread, n + 1, s, _, hs => readValue_number hread hs n
  | .string a, _, n + 1, s, hn, _ => by
      have hskip := skip_print (.string a) s
      have hstring := readString_stringify a s (Nat.le_of_lt_succ hn)
      simp only [Tree.print, stringify, List.cons_append, List.append_assoc, List.nil_append] at hskip ⊢
      rw [readValue, hskip]
      simp only [hstring, Option.map_some, String.ofList_toList, Tree.value]
  | .array ts, hread, n + 1, s, hn, _ => by
      have hskip := skip_print (.array ts) s
      rw [Tree.print, List.length_cons] at hn
      rw [Tree.print, List.cons_append] at hskip ⊢
      rw [readValue, hskip]
      cases ts with
      | nil => simp [printElements, joined, skip, isBlank, Tree.value, elementValues]
      | cons t ts =>
          have helements := readElements_print (t :: ts) hread (List.cons_ne_nil t ts) n s
            (Nat.lt_of_succ_lt_succ hn)
          obtain ⟨c, cs, hprint, -, hc⟩ := t.print_eq_cons
          have hfirst := skip_print t (more ']' (printElements ts) ++ s)
          rw [printElements, joined, List.append_assoc] at helements ⊢
          simp only [hfirst]
          split
          · next heq =>
              rw [hprint, List.cons_append, List.cons.injEq] at heq
              rw [heq.1] at hc
              exact absurd (by decide) hc
          · rw [helements]
            rfl
  | .object es, hread, n + 1, s, hn, _ => by
      have hskip := skip_print (.object es) s
      rw [Tree.print, List.length_cons] at hn
      rw [Tree.print, List.cons_append] at hskip ⊢
      rw [readValue, hskip]
      cases es with
      | nil => simp [printEntries, joined, skip, isBlank, Tree.value, entryValues]
      | cons e es =>
          have hentries := readEntries_print (e :: es) hread.2 (List.cons_ne_nil e es) n s
            (Nat.lt_of_succ_lt_succ hn)
          have hnodup : (([] ++ entryValues (e :: es)).map Prod.fst).Nodup := by
            rw [List.nil_append, entryValues_eq, List.map_map]
            exact hread.1
          have hfirst : skip (joined '\x7d' (printEntries (e :: es)) ++ s) =
              joined '\x7d' (printEntries (e :: es)) ++ s := rfl
          have hhead : joined '\x7d' (printEntries (e :: es)) ++ s =
              '\x22' :: (joined '\x7d' (printEntries (e :: es)) ++ s).tail := rfl
          simp only [hfirst]
          split
          · next heq =>
              rw [hhead, List.cons.injEq] at heq
              exact absurd heq.1 (by decide)
          · rw [hentries, Option.map_some, foldl_setEntry _ _ hnodup, List.nil_append, Tree.value]

theorem readElements_print : ∀ (ts : List Tree), ElementsReadable readNumber ts → ts ≠ [] → ∀ n (s : Text),
    (joined ']' (printElements ts)).length < n →
      readElements readNumber n (joined ']' (printElements ts) ++ s) = some (elementValues ts, s)
  | [], _, hne, _, _, _ => absurd rfl hne
  | t :: ts, hread, _, n + 1, s, hn => by
      have hmore := stops_more (show ']' ∈ [',', ']', '\x7d'] by decide) (printElements ts) s
      have hskip := skip_more (show isBlank ']' = false by rfl) (printElements ts) s
      rw [printElements, joined, List.length_append] at hn
      have hvalue := readValue_print t hread.1 n (more ']' (printElements ts) ++ s) (by
        have hpos : 0 < (more ']' (printElements ts)).length := by
          cases printElements ts <;> exact Nat.succ_pos _
        omega) hmore
      rw [printElements, joined, List.append_assoc, readElements, hvalue, Option.bind_some]
      simp only [hskip]
      cases ts with
      | nil => rfl
      | cons u us =>
          have hrest := readElements_print (u :: us) hread.2 (List.cons_ne_nil u us) n s (by
            rw [printElements, more, List.length_cons] at hn
            rw [printElements, joined]
            omega)
          have hcomma : more ']' (printElements (u :: us)) ++ s =
              ',' :: (joined ']' (printElements (u :: us)) ++ s) := rfl
          rw [hcomma]
          simp only [hrest, Option.map_some, elementValues]

theorem readEntries_print : ∀ (es : List (String × Tree)), EntriesReadable readNumber es → es ≠ [] →
    ∀ n (s : Text), (joined '\x7d' (printEntries es)).length < n →
      readEntries readNumber n (joined '\x7d' (printEntries es) ++ s) = some (entryValues es, s)
  | [], _, hne, _, _, _ => absurd rfl hne
  | (key, t) :: es, hread, _, n + 1, s, hn => by
      have hmore := stops_more (show '\x7d' ∈ [',', ']', '\x7d'] by decide) (printEntries es) s
      have hskip := skip_more (show isBlank '\x7d' = false by rfl) (printEntries es) s
      simp only [printEntries, joined, List.length_append, List.length_cons] at hn
      have hpos : 0 < (more '\x7d' (printEntries es)).length := by
        cases printEntries es <;> exact Nat.succ_pos _
      have hvalue := readValue_print t hread.1 n (more '\x7d' (printEntries es) ++ s) (by omega) hmore
      have hkey := readString_stringify key
        (':' :: (t.print ++ (more '\x7d' (printEntries es) ++ s))) (n := n) (by omega)
      have htext : joined '\x7d' (printEntries ((key, t) :: es)) ++ s =
          '\x22' :: (key.toList.flatMap escapeChar ++ '\x22' ::
            ':' :: (t.print ++ (more '\x7d' (printEntries es) ++ s))) := by
        simp [printEntries, joined, stringify]
      rw [htext, readEntries]
      have hquote : ∀ cs, skip ('\x22' :: cs) = '\x22' :: cs := fun _ => rfl
      have hcolon : ∀ cs, skip (':' :: cs) = ':' :: cs := fun _ => rfl
      simp only [hquote, hkey, Option.bind_some, hcolon, hvalue, hskip]
      cases es with
      | nil =>
          simp only [printEntries, more, List.cons_append, List.nil_append, entryValues,
            String.ofList_toList]
      | cons f fs =>
          have hrest := readEntries_print (f :: fs) hread.2 (List.cons_ne_nil f fs) n s (by
            rw [printEntries, more, List.length_cons] at hn
            rw [printEntries, joined]
            omega)
          have hcomma : more '\x7d' (printEntries (f :: fs)) ++ s =
              ',' :: (joined '\x7d' (printEntries (f :: fs)) ++ s) := rfl
          rw [hcomma]
          simp only [hrest, Option.map_some, String.ofList_toList, entryValues]

end

/-- **`JSON.parse`** reads the printed text of a tree. -/
theorem parse_print {t : Tree} (h : t.Readable readNumber) :
    parse readNumber t.print = some t.value := by
  have hread := readValue_print t h (t.print.length + 1) [] (Nat.lt_succ_self _)
    fun c hc => absurd hc (by simp)
  rw [List.append_nil] at hread
  rw [parse, hread]
  rfl

end JsonParse

end YantraRgs
