import YantraRgs.Text.Bits
import YantraRgs.Text.Integer
import YantraRgs.Text.Split

/-! # Addresses and how they are spelled

An IPv4 address is spelled as four numbers between dots, an IPv6 address as groups of hexadecimal digits
between colons: a double colon stands for as many zeros as are missing, and the last two groups may be
spelled as an IPv4 address. One address has many spellings.

* **`Address`** — a spelling; **`Address.text`** — as a text.
* **`Address.bits`** — the address: its 128 bits, those of an IPv4 address behind `::ffff:`.
* **`parts_injective`** — groups and an IPv4 address at the end are read back from what stands between
  colons.
* **`Address.text_injective`** — a text is one spelling only. -/

namespace YantraRgs.IpAddress

open Split

abbrev Text := List Char

/-! ## Spellings -/

/-- A number of an IPv4 address: one to three decimal digits. -/
structure Octet where
  digits : Text
  value : Nat
  read : BigInt.digits 10 digits = some value
  short : digits.length ≤ 3
  small : value ≤ 255

/-- A group of an IPv6 address: one to four hexadecimal digits of either case. -/
structure HexGroup where
  digits : Text
  value : Nat
  read : BigInt.digits 16 digits = some value
  short : digits.length ≤ 4

/-- **A spelling of an IPv4 address.** -/
structure Quad where
  a : Octet
  b : Octet
  c : Octet
  d : Octet

/-- The number of groups that an IPv4 address at the end stands for. -/
def tailGroups (tail : Option Quad) : Nat := if tail.isSome then 2 else 0

/-- **A spelling of an IPv6 address**, in full or with a double colon. -/
inductive V6
  | full (groups : List HexGroup) (tail : Option Quad) (count : groups.length + tailGroups tail = 8)
  | compressed (left right : List HexGroup) (tail : Option Quad)
      (count : left.length + right.length + tailGroups tail ≤ 7)

/-- **A spelling of an address.** -/
inductive Address
  | v4 (q : Quad)
  | v6 (a : V6)

/-! ## Texts -/

def Quad.octets (q : Quad) : List Octet := [q.a, q.b, q.c, q.d]

def Quad.text (q : Quad) : Text := join '.' (q.octets.map Octet.digits)

/-- What stands between colons. -/
def parts (groups : List HexGroup) (tail : Option Quad) : List Text :=
  groups.map HexGroup.digits ++ tail.toList.map Quad.text

def V6.text : V6 → Text
  | .full groups tail _ => join ':' (parts groups tail)
  | .compressed left right tail _ =>
      join ':' (parts left none) ++ ':' :: ':' :: join ':' (parts right tail)

/-- **The text of a spelling.** -/
def Address.text : Address → Text
  | .v4 q => q.text
  | .v6 a => a.text

/-! ## Bits -/

def Octet.bits (o : Octet) : List Bool := lowBits (BitVec.ofNat 8 o.value) 8

def Quad.bits (q : Quad) : List Bool := q.octets.flatMap Octet.bits

/-- The bits of a group's number. -/
def wordBits (n : Nat) : List Bool := lowBits (BitVec.ofNat 16 n) 16

def groupBits (groups : List HexGroup) : List Bool := groups.flatMap fun g => wordBits g.value

def tailBits (tail : Option Quad) : List Bool := tail.toList.flatMap Quad.bits

def V6.bits : V6 → List Bool
  | .full groups tail _ => groupBits groups ++ tailBits tail
  | .compressed left right tail _ =>
      groupBits left ++
        List.replicate (16 * (8 - (left.length + right.length + tailGroups tail))) false ++
          groupBits right ++ tailBits tail

/-- **The address that is spelled.** -/
def Address.bits : Address → List Bool
  | .v4 q => List.replicate 80 false ++ List.replicate 16 true ++ q.bits
  | .v6 a => a.bits

/-- The bits that an address has of its own kind. -/
def Address.width : Address → Nat
  | .v4 _ => 32
  | .v6 _ => 128

/-! ## Digits -/

/-- The digits of a number are digits. -/
theorem lt_of_digits {base n : Nat} {cs : Text} (h : BigInt.digits base cs = some n) :
    cs ≠ [] ∧ ∀ c ∈ cs, ∃ d < base, BigInt.digitValue c = some d := by
  unfold BigInt.digits at h
  split at h
  · cases h
  · next hne =>
    refine ⟨hne, ?_⟩
    clear hne
    revert h
    generalize 0 = m
    induction cs generalizing m with
    | nil => exact fun _ c hc => (nomatch hc)
    | cons c cs ih =>
        intro h
        rw [List.foldlM_cons] at h
        obtain ⟨k, hk, hrest⟩ := Option.bind_eq_some_iff.mp h
        obtain ⟨d, hd, hlt⟩ := Option.bind_eq_some_iff.mp hk
        have hsmall : d < base := by
          by_contra hnot
          rw [if_neg hnot] at hlt
          cases hlt
        rintro e (_ | ⟨_, he⟩)
        · exact ⟨d, hsmall, hd⟩
        · exact ih k hrest e he

/-- What stands between the numbers of an address is no digit. -/
theorem digitValue_separator : ∀ c ∈ ['.', ':', '/', 'x', 'X'], BigInt.digitValue c = none := by
  intro c hc
  simp only [List.mem_cons, List.not_mem_nil, or_false] at hc
  rcases hc with rfl | rfl | rfl | rfl | rfl <;> decide

/-- Such a sign is not among the digits of a number. -/
theorem notMem_of_digits {base n : Nat} {cs : Text} (h : BigInt.digits base cs = some n) {c : Char}
    (hc : c ∈ ['.', ':', '/', 'x', 'X']) : c ∉ cs := by
  intro hmem
  obtain ⟨d, -, hd⟩ := (lt_of_digits h).2 c hmem
  rw [digitValue_separator c hc] at hd
  cases hd

theorem Octet.ext_digits {o p : Octet} (h : o.digits = p.digits) : o = p := by
  obtain ⟨ds, n, hread, _, _⟩ := o
  obtain ⟨es, m, hread', _, _⟩ := p
  obtain rfl : ds = es := h
  obtain rfl := Option.some.inj (hread.symm.trans hread')
  rfl

theorem HexGroup.ext_digits {g h : HexGroup} (heq : g.digits = h.digits) : g = h := by
  obtain ⟨ds, n, hread, _⟩ := g
  obtain ⟨es, m, hread', _⟩ := h
  obtain rfl : ds = es := heq
  obtain rfl := Option.some.inj (hread.symm.trans hread')
  rfl

/-! ## Texts are read back -/

/-- The numbers of an IPv4 address are read back. -/
theorem Quad.splitOn_text (q : Quad) : q.text.splitOn '.' = q.octets.map Octet.digits := by
  refine splitOn_join (fun p hp => ?_) (by simp [octets])
  obtain ⟨o, -, rfl⟩ := List.mem_map.mp hp
  exact notMem_of_digits o.read (by decide)

theorem Quad.text_injective {q r : Quad} (h : q.text = r.text) : q = r := by
  have hsplit := congrArg (List.splitOn '.') h
  rw [splitOn_text, splitOn_text] at hsplit
  obtain ⟨a, b, c, d⟩ := q
  obtain ⟨a', b', c', d'⟩ := r
  simp only [octets, List.map_cons, List.map_nil, List.cons.injEq, and_true] at hsplit
  obtain ⟨ha, hb, hc, hd⟩ := hsplit
  rw [Octet.ext_digits ha, Octet.ext_digits hb, Octet.ext_digits hc, Octet.ext_digits hd]

/-- An IPv4 address has points and digits only. -/
theorem Quad.mem_text {q : Quad} {c : Char} (h : c ∈ q.text) :
    c = '.' ∨ ∃ d < 10, BigInt.digitValue c = some d := by
  rcases mem_join h with rfl | ⟨p, hp, hc⟩
  · exact .inl rfl
  · obtain ⟨o, -, rfl⟩ := List.mem_map.mp hp
    exact .inr ((lt_of_digits o.read).2 c hc)

theorem Quad.notMem_text (q : Quad) {c : Char} (h : c ∈ [':', '/', 'x', 'X']) : c ∉ q.text := by
  intro hmem
  have hsep : c ∈ ['.', ':', '/', 'x', 'X'] := List.mem_cons_of_mem '.' h
  rcases Quad.mem_text hmem with rfl | ⟨d, -, hd⟩
  · exact absurd h (by decide)
  · rw [digitValue_separator c hsep] at hd
    cases hd

theorem Quad.text_eq (q : Quad) :
    q.text = q.a.digits ++ '.' :: join '.' [q.b.digits, q.c.digits, q.d.digits] := rfl

theorem Quad.point_mem_text (q : Quad) : '.' ∈ q.text := by
  rw [text_eq]
  exact List.mem_append_right _ List.mem_cons_self

/-- What stands between colons is not empty, and has no colon. -/
theorem of_mem_parts {groups : List HexGroup} {tail : Option Quad} {p : Text}
    (h : p ∈ parts groups tail) : p ≠ [] ∧ ':' ∉ p := by
  rcases List.mem_append.mp h with h | h
  · obtain ⟨g, -, rfl⟩ := List.mem_map.mp h
    exact ⟨(lt_of_digits g.read).1, notMem_of_digits g.read (by decide)⟩
  · obtain ⟨q, -, rfl⟩ := List.mem_map.mp h
    refine ⟨?_, q.notMem_text (by decide)⟩
    rw [q.text_eq]
    exact List.append_ne_nil_of_right_ne_nil _ (List.cons_ne_nil _ _)

/-- **What stands between colons** determines the groups and the IPv4 address at the end: it alone has
points. -/
theorem parts_injective {groups groups' : List HexGroup} {tail tail' : Option Quad}
    (h : parts groups tail = parts groups' tail') : groups = groups' ∧ tail = tail' := by
  have hgroups : ∀ gs : List HexGroup, (gs.map HexGroup.digits).filter (fun p => '.' ∈ p) = [] := by
    intro gs
    rw [List.filter_eq_nil_iff]
    intro p hp
    obtain ⟨g, -, rfl⟩ := List.mem_map.mp hp
    simpa using notMem_of_digits g.read (show '.' ∈ ['.', ':', '/', 'x', 'X'] by decide)
  have htails : ∀ t : Option Quad, (t.toList.map Quad.text).filter (fun p => '.' ∈ p) =
      t.toList.map Quad.text := by
    intro t
    rw [List.filter_eq_self]
    intro p hp
    obtain ⟨q, -, rfl⟩ := List.mem_map.mp hp
    simpa using q.point_mem_text
  have htail : tail = tail' := by
    have hfilter := congrArg (List.filter fun p => '.' ∈ p) h
    rw [parts, parts, List.filter_append, List.filter_append, hgroups, hgroups, htails, htails,
      List.nil_append, List.nil_append] at hfilter
    cases tail with
    | none =>
        cases tail' with
        | none => rfl
        | some r => cases hfilter
    | some q =>
        cases tail' with
        | none => cases hfilter
        | some r => rw [Quad.text_injective (List.cons.inj hfilter).1]
  subst htail
  refine ⟨?_, rfl⟩
  exact List.map_injective_iff.mpr (fun _ _ => HexGroup.ext_digits) (List.append_cancel_right h)

/-- An IPv6 address has a colon. -/
theorem V6.colon_mem_text (a : V6) : ':' ∈ a.text := by
  cases a with
  | compressed left right tail count =>
      exact List.mem_append_right _ List.mem_cons_self
  | full groups tail count =>
      -- there are two groups at least
      rcases groups with _ | ⟨g, _ | ⟨g', groups⟩⟩
      · cases tail <;> simp [tailGroups] at count
      · cases tail <;> simp [tailGroups] at count
      · rw [text, parts, List.map_cons, List.map_cons, List.cons_append, List.cons_append,
          join_cons_cons]
        exact List.mem_append_right _ List.mem_cons_self

/-- What double colons split an IPv6 address into. -/
theorem V6.splitDouble_text : ∀ a : V6, splitDouble a.text =
    match a with
    | .full groups tail _ => [join ':' (parts groups tail)]
    | .compressed left right tail _ => [join ':' (parts left none), join ':' (parts right tail)]
  | .full _ _ _ => splitDouble_spaced (spaced_join fun _ => of_mem_parts)
  | .compressed _ _ _ _ =>
      splitDouble_double (spaced_join fun _ => of_mem_parts) (spaced_join fun _ => of_mem_parts)

theorem V6.text_injective {a b : V6} (h : a.text = b.text) : a = b := by
  have hsplit := congrArg splitDouble h
  rw [splitDouble_text, splitDouble_text] at hsplit
  cases a with
  | full groups tail count =>
      cases b with
      | full groups' tail' count' =>
          have hparts := join_injective (fun _ => of_mem_parts) (fun _ => of_mem_parts)
            (List.cons.inj hsplit).1
          obtain ⟨rfl, rfl⟩ := parts_injective hparts
          rfl
      | compressed _ _ _ _ => cases (List.cons.inj hsplit).2
  | compressed left right tail count =>
      cases b with
      | full _ _ _ => cases (List.cons.inj hsplit).2
      | compressed left' right' tail' count' =>
          obtain ⟨hleft, hrest⟩ := List.cons.inj hsplit
          have hleft := join_injective (fun _ => of_mem_parts) (fun _ => of_mem_parts) hleft
          have hright := join_injective (fun _ => of_mem_parts) (fun _ => of_mem_parts)
            (List.cons.inj hrest).1
          obtain ⟨rfl, -⟩ := parts_injective hleft
          obtain ⟨rfl, rfl⟩ := parts_injective hright
          rfl

/-- **A text is one spelling only.** -/
theorem Address.text_injective {a b : Address} (h : a.text = b.text) : a = b := by
  cases a with
  | v4 q =>
      cases b with
      | v4 r => rw [Quad.text_injective h]
      | v6 b =>
          have hcolon := b.colon_mem_text
          rw [← show q.text = b.text from h] at hcolon
          exact absurd hcolon (q.notMem_text (by decide))
  | v6 a =>
      cases b with
      | v4 r =>
          have hcolon := a.colon_mem_text
          rw [show a.text = r.text from h] at hcolon
          exact absurd hcolon (r.notMem_text (by decide))
      | v6 b => rw [V6.text_injective h]

end YantraRgs.IpAddress
