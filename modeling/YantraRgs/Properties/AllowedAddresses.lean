import YantraRgs.Middleware.AddressReading

/-! # Addresses are allowed by what they are

A pattern is to let through the addresses whose bits start as its own do, however any of them is spelled.
Without a slash the program compares spellings, and with one what it reads of them.

* **`normal`** — the spelling that is compared; it spells the same address.
* **`matchCidrIPv4_text`**, **`matchCidrIPv6_text`** — comparisons are of first bits of what is read.
* **`Decides`** — what is to be said of a client and a pattern; **`Legible`** — where that holds.
* **`decides_iff`** — there and nowhere else. -/

namespace YantraRgs.IpAllowList

open Split IpAddress

/-! ## Comparisons -/

/-- **A comparison with an IPv4 range** is one of first bits. -/
theorem matchCidrIPv4_text (c : Address) (q : Quad) {n : Nat} (hn : n ≤ 32) :
    matchCidrIPv4 c.text q.text n = (hear4 c).any fun bits => bits.take n = q.bits.take n := by
  obtain ⟨y, hy, hbits⟩ := Option.map_eq_some_iff.mp (ipv4ToInt_quad q)
  unfold matchCidrIPv4
  rw [if_neg (by omega), ← ipv4ToInt_text c, hy, ← hbits]
  cases ipv4ToInt c.text with
  | none => rfl
  | some x =>
      show (if n = 0 then true else decide (x &&& _ = y &&& _)) =
        decide ((lowBits x 32).take n = (lowBits y 32).take n)
      by_cases hzero : n = 0
      · rw [if_pos hzero, hzero, List.take_zero, List.take_zero, decide_eq_true rfl]
      · rw [if_neg hzero]
        exact decide_eq_decide.mpr (and_allOnes_shift_eq_iff (by omega))

theorem length_bytesBits (bytes : List (BitVec 8)) : (bytesBits bytes).length = 8 * bytes.length := by
  induction bytes with
  | nil => rfl
  | cons b bytes ih =>
      have hcons : bytesBits (b :: bytes) = lowBits b 8 ++ bytesBits bytes := rfl
      rw [hcons, List.length_append, length_lowBits, ih, List.length_cons]
      omega

/-- **Bytes start alike** where their first bits are the same. -/
theorem sameBits_eq {as bs : List (BitVec 8)} (h : as.length = bs.length) (n : Nat) :
    sameBits as bs n = decide ((bytesBits as).take n = (bytesBits bs).take n) := by
  induction as generalizing bs n with
  | nil =>
      obtain rfl := List.length_eq_zero_iff.mp h.symm
      rw [decide_eq_true rfl]
      rfl
  | cons a as ih =>
      cases bs with
      | nil => cases h
      | cons b bs =>
          have ha : bytesBits (a :: as) = lowBits a 8 ++ bytesBits as := rfl
          have hb : bytesBits (b :: bs) = lowBits b 8 ++ bytesBits bs := rfl
          rw [sameBits, ha, hb, List.take_append, List.take_append, length_lowBits, length_lowBits]
          by_cases hzero : n = 0
          · rw [if_pos hzero, hzero, decide_eq_true]
            rfl
          rw [if_neg hzero]
          by_cases hfull : 8 ≤ n
          · have hwhole : ∀ x : BitVec 8, (lowBits x 8).take n = lowBits x 8 := fun x =>
              List.take_of_length_le (by rwa [length_lowBits])
            rw [if_pos hfull, ih (Nat.succ.inj h), hwhole, hwhole, ← Bool.decide_and]
            refine decide_eq_decide.mpr ⟨?_, fun heq => ?_⟩
            · rintro ⟨rfl, heq⟩
              rw [heq]
            · obtain ⟨hbits, hrest⟩ := List.append_inj heq (by simp)
              exact ⟨lowBits_injective hbits, hrest⟩
          · rw [if_neg hfull, show n - 8 = 0 by omega, List.take_zero, List.take_zero, List.append_nil,
              List.append_nil]
            exact decide_eq_decide.mpr (and_allOnes_shift_eq_iff (by omega))

theorem length_groupBits (groups : List HexGroup) : (groupBits groups).length = 16 * groups.length := by
  induction groups with
  | nil => rfl
  | cons g groups ih =>
      have hcons : groupBits (g :: groups) = wordBits g.value ++ groupBits groups := rfl
      rw [hcons, List.length_append, wordBits, length_lowBits, ih, List.length_cons]
      omega

/-- What is read as an IPv6 address has 128 bits. -/
theorem length_hear6 {a : Address} {bits : List Bool} (h : hear6 a = some bits) :
    bits.length = 128 := by
  cases a with
  | v4 q => cases h
  | v6 a =>
      cases a with
      | full groups tail count =>
          cases tail with
          | none =>
              obtain rfl := Option.some.inj h
              have hcount : groups.length + 0 = 8 := count
              rw [length_groupBits]
              omega
          | some q => cases h
      | compressed left right tail count =>
          obtain rfl := Option.some.inj h
          simp only [List.length_append, length_groupBits, List.length_replicate]
          cases tail with
          | none =>
              have hcount : left.length + right.length + 0 ≤ 7 := count
              simp only [Option.toList_none, List.length_nil, List.flatMap_nil]
              omega
          | some q =>
              have hcount : left.length + right.length + 2 ≤ 7 := count
              simp only [Option.toList_some, List.length_singleton, List.flatMap_singleton, wordBits,
                length_lowBits]
              omega

/-- Whether what is read of two addresses starts alike. -/
def heardAlike (c r : Address) (n : Nat) : Bool :=
  (hear6 c).any fun a => (hear6 r).any fun b => a.take n = b.take n

/-- **A comparison with an IPv6 range** is one of first bits. -/
theorem matchCidrIPv6_text (c r : Address) {n : Nat} (hn : n ≤ 128) :
    matchCidrIPv6 c.text r.text n = heardAlike c r n := by
  have hlength : ∀ (a : Address) bytes, ipv6ToBytes a.text = some bytes → bytes.length = 16 := by
    intro a bytes hbytes
    have hheard := ipv6ToBytes_text a
    rw [hbytes] at hheard
    have hlen := length_hear6 hheard.symm
    rw [length_bytesBits] at hlen
    omega
  unfold matchCidrIPv6 heardAlike
  rw [if_neg (by omega), ← ipv6ToBytes_text c, ← ipv6ToBytes_text r]
  cases hc : ipv6ToBytes c.text with
  | none => rfl
  | some as =>
      cases hr : ipv6ToBytes r.text with
      | none => rfl
      | some bs => exact sameBits_eq ((hlength c as hc).trans (hlength r bs hr).symm) n

/-! ## The spelling that is compared -/

/-- Lower case does not change the value of a digit. -/
theorem digits_map_toLower {base n : Nat} {cs : Text} (h : BigInt.digits base cs = some n) :
    BigInt.digits base (cs.map Char.toLower) = some n := by
  obtain ⟨hne, hall⟩ := lt_of_digits h
  rw [BigInt.digits, if_neg hne] at h
  rw [BigInt.digits, if_neg (by simpa using hne)]
  clear hne
  revert h
  generalize 0 = m
  induction cs generalizing m with
  | nil => exact id
  | cons c cs ih =>
      obtain ⟨d, -, hd⟩ := hall c List.mem_cons_self
      have hlower : BigInt.digitValue c.toLower = BigInt.digitValue c := by
        have hcheck := of_digitValue (p := fun c =>
          decide (BigInt.digitValue c.toLower = BigInt.digitValue c)) (by decide +kernel)
          (show (BigInt.digitValue c).isSome = true by rw [hd]; rfl)
        exact of_decide_eq_true hcheck
      rw [List.map_cons, List.foldlM_cons, List.foldlM_cons, BigInt.pushDigit, BigInt.pushDigit,
        hlower]
      intro h
      obtain ⟨k, hk, hrest⟩ := Option.bind_eq_some_iff.mp h
      exact Option.bind_eq_some_iff.mpr
        ⟨k, hk, ih (fun e he => hall e (List.mem_cons_of_mem c he)) k hrest⟩

def lowerGroup (g : HexGroup) : HexGroup :=
  ⟨g.digits.map Char.toLower, g.value, digits_map_toLower g.read, by simpa using g.short⟩

/-- An IPv6 address in lower case. -/
def lower : V6 → V6
  | .full groups tail count => .full (groups.map lowerGroup) tail (by simpa using count)
  | .compressed left right tail count =>
      .compressed (left.map lowerGroup) (right.map lowerGroup) tail (by simpa using count)

/-- The IPv4 address that is embedded in the usual way. -/
def usual : V6 → Option Quad
  | .compressed [] [g] (some q) _ => if g.digits = "ffff".toList then some q else none
  | _ => none

/-- **The spelling that is compared.** -/
def normal : Address → Address
  | .v4 q => .v4 q
  | .v6 a =>
      match usual a with
      | some q => .v4 q
      | none => .v6 (lower a)

theorem toLower_quad (q : Quad) : q.text.map Char.toLower = q.text := by
  conv_rhs => rw [← List.map_id q.text]
  refine List.map_congr_left fun c hc => ?_
  rcases Quad.mem_text hc with rfl | ⟨d, hd, heq⟩
  · decide
  · have hcheck := of_digitValue (p := fun c =>
      (BigInt.digitValue c).all fun d => decide (d < 10 → c.toLower = c)) (by decide +kernel)
      (show (BigInt.digitValue c).isSome = true by rw [heq]; rfl)
    rw [heq] at hcheck
    exact of_decide_eq_true hcheck hd

/-- The text of an IPv6 address in lower case. -/
theorem text_lower (a : V6) : a.text.map Char.toLower = (lower a).text := by
  have hparts : ∀ gs t, (join ':' (parts gs t)).map Char.toLower =
      join ':' (parts (gs.map lowerGroup) t) := by
    intro gs t
    rw [map_join, parts, parts, List.map_append, List.map_map, List.map_map, List.map_map]
    have hquads : t.toList.map (List.map Char.toLower ∘ Quad.text) = t.toList.map Quad.text :=
      List.map_congr_left fun q _ => toLower_quad q
    rw [hquads]
    rfl
  cases a with
  | full groups tail count => exact hparts groups tail
  | compressed left right tail count =>
      have hleft := hparts left none
      have hright := hparts right tail
      rw [V6.text, List.map_append, List.map_cons, List.map_cons, hleft, hright]
      rfl

theorem isQuad_text (q : Quad) : isQuad q.text = true := by
  have hoctet : ∀ o : Octet, isOctet o.digits = true := by
    intro o
    obtain ⟨hne, hall⟩ := lt_of_digits o.read
    have hdigits : ∀ c ∈ o.digits, c.isDigit = true := by
      intro c hc
      obtain ⟨d, hd, heq⟩ := hall c hc
      have hcheck := of_digitValue (p := fun c =>
        (BigInt.digitValue c).all fun d => decide (d < 10 → c.isDigit = true)) (by decide +kernel)
        (show (BigInt.digitValue c).isSome = true by rw [heq]; rfl)
      rw [heq] at hcheck
      exact of_decide_eq_true hcheck hd
    have hpos := List.length_pos_iff.mpr hne
    have hshort := o.short
    simp only [isOctet, Bool.and_eq_true, decide_eq_true_eq, List.all_eq_true]
    exact ⟨⟨hpos, hshort⟩, hdigits⟩
  unfold isQuad
  rw [q.splitOn_text]
  simp [Quad.octets, hoctet]

/-- Four numbers between points have no colon. -/
theorem colon_notMem_of_isQuad {s : Text} (h : isQuad s = true) : ':' ∉ s ∧ '.' ∈ s := by
  unfold isQuad at h
  simp only [Bool.and_eq_true, decide_eq_true_eq, List.all_eq_true] at h
  obtain ⟨hlen, hall⟩ := h
  have hjoin : s = join '.' (s.splitOn '.') := (List.intercalate_splitOn '.').symm
  constructor
  · intro hmem
    rw [hjoin] at hmem
    rcases mem_join hmem with h | ⟨p, hp, hc⟩
    · exact absurd h (by decide)
    · have hoctet := hall p hp
      simp only [isOctet, Bool.and_eq_true, List.all_eq_true] at hoctet
      exact absurd (hoctet.2 ':' hc) (by decide)
  · by_contra hnot
    rw [splitOn_of_notMem hnot] at hlen
    cases hlen

/-- An address that is embedded in the usual way. -/
theorem of_usual {a : V6} {q : Quad} (h : usual a = some q) :
    a.text = ':' :: ':' :: 'f' :: 'f' :: 'f' :: 'f' :: ':' :: q.text ∧
      a.bits = (Address.v4 q).bits := by
  unfold usual at h
  split at h
  · next g r count =>
    split at h
    · next hg =>
      obtain rfl := Option.some.inj h
      have hvalue : g.value = 65535 := by
        have hread := g.read
        rw [hg] at hread
        exact (Option.some.inj hread).symm
      constructor
      · show [] ++ ':' :: ':' :: join ':' [g.digits, r.text] = _
        rw [join_cons_cons, join_singleton, hg]
        rfl
      · show [] ++ List.replicate 80 false ++ ([g].flatMap fun g => wordBits g.value) ++
          [r].flatMap Quad.bits = _
        rw [List.flatMap_singleton, List.flatMap_singleton, hvalue]
        rfl
    · cases h
  · cases h

/-- Such an address is known by its text. -/
theorem usual_of_text {a : V6} {v4 : Text}
    (h : a.text = ':' :: ':' :: 'f' :: 'f' :: 'f' :: 'f' :: ':' :: v4) (hquad : isQuad v4 = true) :
    ∃ q, usual a = some q ∧ q.text = v4 := by
  have hv4 := colon_notMem_of_isQuad hquad
  have hends : ∀ p ∈ ["ffff".toList, v4], p ≠ [] ∧ ':' ∉ p := by
    intro p hp
    rcases List.mem_pair.mp hp with rfl | rfl
    · exact ⟨by decide, by decide⟩
    · refine ⟨?_, hv4.1⟩
      rintro rfl
      exact absurd hv4.2 List.not_mem_nil
  have hsplit := V6.splitDouble_text a
  rw [h, show 'f' :: 'f' :: 'f' :: 'f' :: ':' :: v4 = join ':' ["ffff".toList, v4] by
    rw [join_cons_cons, join_singleton]; rfl, splitDouble, splitDouble_spaced (spaced_join hends)] at hsplit
  cases a with
  | full groups tail count => cases (List.cons.inj hsplit).2
  | compressed left right tail count =>
      obtain ⟨hleft, hright⟩ := List.cons.inj hsplit
      have hleft : parts left none = [] := by
        by_contra hne
        exact join_ne_nil (fun p hp => (of_mem_parts hp).1) hne hleft.symm
      have hright : parts right tail = ["ffff".toList, v4] :=
        (join_injective hends (fun _ => of_mem_parts) (List.cons.inj hright).1).symm
      cases tail with
      | none =>
          -- no group has a point
          rw [parts, Option.toList_none, List.map_nil, List.append_nil] at hright
          have hmem : v4 ∈ right.map HexGroup.digits := by
            rw [hright]
            simp
          obtain ⟨g, -, hg⟩ := List.mem_map.mp hmem
          exact absurd (hg ▸ hv4.2) (notMem_of_digits g.read (by decide))
      | some q =>
          have happend : right.map HexGroup.digits ++ [q.text] = ["ffff".toList] ++ [v4] := hright
          obtain ⟨hgroups, hq⟩ := List.append_inj' happend rfl
          rw [parts, Option.toList_none, List.map_nil, List.append_nil, List.map_eq_nil_iff] at hleft
          subst hleft
          rcases right with _ | ⟨g, _ | ⟨g', right⟩⟩
          · cases hgroups
          · refine ⟨q, ?_, (List.cons.inj hq).1⟩
            rw [usual, if_pos (List.cons.inj hgroups).1]
          · cases (List.cons.inj hgroups).2

/-- **What is compared of a text** is the text of that spelling. -/
theorem normalise_text (a : Address) : normalise a.text = (normal a).text := by
  cases a with
  | v4 q =>
      show normalise q.text = q.text
      unfold normalise
      split
      · next heq =>
        have hcolon := q.notMem_text (show ':' ∈ [':', '/', 'x', 'X'] by decide)
        rw [heq] at hcolon
        exact absurd List.mem_cons_self hcolon
      · exact toLower_quad q
  | v6 a =>
      have hlower : usual a = none → (normal (.v6 a)).text = a.text.map Char.toLower := by
        intro husual
        rw [normal, husual]
        exact (text_lower a).symm
      show normalise a.text = _
      unfold normalise
      split
      · next v4 heq =>
        split
        · next hquad =>
          obtain ⟨q, husual, rfl⟩ := usual_of_text heq hquad
          rw [normal, husual]
          rfl
        · next hquad =>
          refine (hlower ?_).symm
          by_contra hsome
          obtain ⟨q, husual⟩ := Option.ne_none_iff_exists'.mp hsome
          have htext := (of_usual husual).1
          rw [heq] at htext
          simp only [List.cons.injEq, true_and] at htext
          exact hquad (htext ▸ isQuad_text q)
      · next hno =>
        refine (hlower ?_).symm
        by_contra hsome
        obtain ⟨q, husual⟩ := Option.ne_none_iff_exists'.mp hsome
        exact hno q.text (of_usual husual).1

/-- **It spells the same address.** -/
theorem bits_normal (a : Address) : (normal a).bits = a.bits := by
  cases a with
  | v4 q => rfl
  | v6 a =>
      unfold normal
      dsimp only
      cases husual : usual a with
      | some q => exact (of_usual husual).2.symm
      | none =>
          have hgroups : ∀ gs : List HexGroup, groupBits (gs.map lowerGroup) = groupBits gs := by
            intro gs
            rw [groupBits, groupBits, List.flatMap_map]
            rfl
          cases a with
          | full groups tail count =>
              show groupBits (groups.map lowerGroup) ++ _ = groupBits groups ++ _
              rw [hgroups]
          | compressed left right tail count =>
              show groupBits (left.map lowerGroup) ++ List.replicate (16 * (8 -
                ((left.map lowerGroup).length + (right.map lowerGroup).length + tailGroups tail))) false ++
                  groupBits (right.map lowerGroup) ++ tailBits tail = _
              rw [hgroups, hgroups, List.length_map, List.length_map]
              rfl

/-! ## Patterns -/

/-- The length of a prefix: decimal digits. -/
structure PrefixLength (width : Nat) where
  digits : Text
  value : Nat
  read : BigInt.digits 10 digits = some value
  le : value ≤ width

/-- **A pattern**: an address, and the length of its prefix behind a slash; without one the prefix is the
whole address. -/
structure Pattern where
  address : Address
  slash : Option (PrefixLength address.width)

def Pattern.text (p : Pattern) : Text :=
  p.address.text ++ p.slash.elim [] fun n => '/' :: n.digits

/-- How many of the 128 bits a pattern fixes. -/
def Pattern.length (p : Pattern) : Nat :=
  p.slash.elim 128 fun n => 128 - p.address.width + n.value

/-- **What a pattern stands for**: the addresses whose bits start as its own do. -/
def Pattern.Contains (p : Pattern) (c : Address) : Prop :=
  c.bits.take p.length = p.address.bits.take p.length

/-- **A client is let through** exactly where its address is in the prefix. -/
def Decides (c : Address) (p : Pattern) : Prop :=
  matchIp c.text p.text = true ↔ p.Contains c

/-- **The clients and patterns that are decided**: where there is no slash, the same address is spelled
alike, up to case and `::ffff:` in front of an IPv4 address; where there is one, client and range are both
IPv4 addresses, or IPv6 addresses without an IPv4 address at the end, or else what is read of them puts the
client where it is. Nothing is read of one kind of address where the other is asked for, but of an IPv6
address with an IPv4 address at its end. -/
def Legible (c : Address) : Pattern → Prop
  | ⟨a, none⟩ => c.bits = a.bits → normal c = normal a
  | ⟨.v4 q, some n⟩ =>
      match normal c with
      | .v4 _ => True
      | .v6 a =>
          if tail a = none then ¬ Pattern.Contains ⟨.v4 q, some n⟩ c
          else ((hear4 (.v6 a)).any fun bits => bits.take n.value = q.bits.take n.value) = true ↔
            Pattern.Contains ⟨.v4 q, some n⟩ c
  | ⟨.v6 r, some n⟩ =>
      match normal c with
      | .v4 _ => ¬ Pattern.Contains ⟨.v6 r, some n⟩ c
      | .v6 a =>
          if tail a = none ∧ tail r = none then True
          else heardAlike (.v6 a) (.v6 r) n.value = true ↔ Pattern.Contains ⟨.v6 r, some n⟩ c

/-! ## The answer to a pattern -/

theorem length_bits (a : Address) : a.bits.length = 128 := by
  have hquad : ∀ q : Quad, q.bits.length = 32 := fun q => by
    simp [Quad.bits, Quad.octets, Octet.bits]
  cases a with
  | v4 q => simp [Address.bits, hquad]
  | v6 a =>
      cases a with
      | full groups tail count =>
          show (groupBits groups ++ tailBits tail).length = 128
          rw [List.length_append, length_groupBits]
          cases tail with
          | none =>
              have hcount : groups.length + 0 = 8 := count
              simp only [tailBits, Option.toList_none, List.flatMap_nil, List.length_nil]
              omega
          | some q =>
              have hcount : groups.length + 2 = 8 := count
              simp only [tailBits, Option.toList_some, List.flatMap_singleton, hquad]
              omega
      | compressed left right tail count =>
          simp only [Address.bits, V6.bits, List.length_append, length_groupBits,
            List.length_replicate]
          cases tail with
          | none =>
              have hcount : left.length + right.length + 0 ≤ 7 := count
              simp only [tailBits, tailGroups, Option.toList_none, List.flatMap_nil, List.length_nil]
              simp only [Option.isSome_none, if_neg Bool.false_ne_true]
              omega
          | some q =>
              have hcount : left.length + right.length + 2 ≤ 7 := count
              simp only [tailBits, tailGroups, Option.toList_some, List.flatMap_singleton, hquad]
              simp only [Option.isSome_some, if_true]
              omega

theorem slash_notMem_text (a : Address) : '/' ∉ a.text :=
  fun h => (Plain.of_mem_text h).notMem.1 (by decide)

/-- **Without a slash** spellings are compared. -/
theorem matchIp_exact (c a : Address) :
    matchIp c.text (Pattern.text ⟨a, none⟩) = true ↔ normal c = normal a := by
  have htext : Pattern.text ⟨a, none⟩ = a.text := List.append_nil _
  rw [htext, matchIp, if_pos (slash_notMem_text a), decide_eq_true_iff, normalise_text, normalise_text]
  exact ⟨Address.text_injective, congrArg Address.text⟩

/-- **With a slash** the range decides which bits are read. -/
theorem matchIp_slash (c a : Address) (n : PrefixLength a.width) :
    matchIp c.text (Pattern.text ⟨a, some n⟩) =
      if ':' ∈ a.text then matchCidrIPv6 (normal c).text a.text n.value
      else matchCidrIPv4 (normal c).text a.text n.value := by
  have htext : Pattern.text ⟨a, some n⟩ = join '/' [a.text, n.digits] := by
    rw [join_cons_cons, join_singleton]
    rfl
  have hslash : ¬ '/' ∉ Pattern.text ⟨a, some n⟩ := by
    rw [htext, join_cons_cons]
    exact not_not.mpr (List.mem_append_right _ List.mem_cons_self)
  have hsplit : (Pattern.text ⟨a, some n⟩).splitOn '/' = [a.text, n.digits] := by
    rw [htext]
    refine splitOn_join (fun p hp => ?_) (List.cons_ne_nil _ _)
    rcases List.mem_pair.mp hp with rfl | rfl
    · exact slash_notMem_text a
    · exact notMem_of_digits n.read (by decide)
  have hne : ¬ (a.text = [] ∨ n.digits = []) := by
    rintro (h | h)
    · cases a with
      | v4 q =>
          have hpoint := q.point_mem_text
          rw [show q.text = [] from h] at hpoint
          exact List.not_mem_nil hpoint
      | v6 a =>
          have hcolon := a.colon_mem_text
          rw [show a.text = [] from h] at hcolon
          exact List.not_mem_nil hcolon
    · exact (lt_of_digits n.read).1 h
  rw [matchIp, if_neg hslash, matchCidr, hsplit, normalise_text]
  dsimp only
  rw [if_neg hne, parseInt_digits n.read]
  dsimp only
  rw [if_neg (by omega)]
  rfl

/-- Without an IPv4 address at its end an IPv6 address is read as it is. -/
theorem hear6_of_tail {a : V6} (h : tail a = none) : hear6 (.v6 a) = some a.bits := by
  cases a with
  | full groups t count =>
      obtain rfl : t = none := h
      show some (groupBits groups) = some (groupBits groups ++ [])
      rw [List.append_nil]
  | compressed left right t count =>
      obtain rfl : t = none := h
      rfl

/-- The prefix of an IPv4 pattern. -/
theorem contains_v4_iff {q r : Quad} (n : PrefixLength (Address.v4 q).width) {c : Address}
    (hc : normal c = .v4 r) :
    Pattern.Contains ⟨.v4 q, some n⟩ c ↔ r.bits.take n.value = q.bits.take n.value := by
  have hlength : Pattern.length ⟨.v4 q, some n⟩ = 96 + n.value := rfl
  have htake : ∀ q : Quad, (Address.v4 q).bits.take (96 + n.value) =
      List.replicate 80 false ++ List.replicate 16 true ++ q.bits.take n.value := by
    intro q
    rw [Address.bits, List.take_append, List.take_of_length_le (by simp)]
    congr 2
    simp
  rw [Pattern.Contains, hlength, ← bits_normal c, hc, htake, htake, List.append_cancel_left_eq]

/-- The prefix of an IPv6 pattern. -/
theorem contains_v6_iff {r : V6} (n : PrefixLength (Address.v6 r).width) (c : Address) :
    Pattern.Contains ⟨.v6 r, some n⟩ c ↔
      (normal c).bits.take n.value = r.bits.take n.value := by
  have hlength : Pattern.length ⟨.v6 r, some n⟩ = n.value := Nat.zero_add _
  rw [Pattern.Contains, hlength, bits_normal]
  rfl

theorem false_iff_iff {q : Prop} : (false = true ↔ q) ↔ ¬ q := by simp

/-- **A client is decided** exactly where client and pattern are legible. -/
theorem decides_iff (c : Address) (p : Pattern) : Decides c p ↔ Legible c p := by
  obtain ⟨a, _ | n⟩ := p
  · -- spellings are compared
    have hcontains : Pattern.Contains ⟨a, none⟩ c ↔ c.bits = a.bits := by
      have hwhole : ∀ b : Address, b.bits.take 128 = b.bits := fun b =>
        List.take_of_length_le (length_bits b).le
      show c.bits.take 128 = a.bits.take 128 ↔ _
      rw [hwhole, hwhole]
    rw [Decides, matchIp_exact, hcontains]
    refine ⟨fun h => h.mpr, fun h => ⟨fun hnormal => ?_, h⟩⟩
    rw [← bits_normal c, hnormal, bits_normal]
  · cases a with
    | v4 q =>
        have hmatch : matchIp c.text (Pattern.text ⟨.v4 q, some n⟩) =
            (hear4 (normal c)).any fun bits => bits.take n.value = q.bits.take n.value := by
          rw [matchIp_slash,
            if_neg (show ':' ∉ (Address.v4 q).text from q.notMem_text (by decide))]
          exact matchCidrIPv4_text _ q n.le
        rw [Decides, hmatch, Legible]
        cases hc : normal c with
        | v4 r =>
            refine iff_of_true ?_ trivial
            rw [contains_v4_iff n hc]
            exact decide_eq_true_iff
        | v6 a =>
            dsimp only
            by_cases htail : tail a = none
            · rw [if_pos htail, hear4, htail]
              exact false_iff_iff
            · rw [if_neg htail]
    | v6 r =>
        have hmatch : matchIp c.text (Pattern.text ⟨.v6 r, some n⟩) =
            heardAlike (normal c) (.v6 r) n.value := by
          rw [matchIp_slash, if_pos (show ':' ∈ (Address.v6 r).text from r.colon_mem_text)]
          exact matchCidrIPv6_text _ (.v6 r) n.le
        rw [Decides, hmatch, Legible]
        cases hc : normal c with
        | v4 q => exact false_iff_iff
        | v6 a =>
            dsimp only
            by_cases htail : tail a = none ∧ tail r = none
            · rw [if_pos htail]
              refine iff_of_true ?_ trivial
              rw [contains_v6_iff n c, hc, heardAlike, hear6_of_tail htail.1, hear6_of_tail htail.2]
              exact decide_eq_true_iff
            · rw [if_neg htail]

/-! ## An address that is spelled otherwise -/

namespace Sample

/-- The groups `2001`, `db8`, `0` and `1`. -/
def g2001 : HexGroup := ⟨"2001".toList, 0x2001, by decide +kernel, by decide⟩

def gdb8 : HexGroup := ⟨"db8".toList, 0xdb8, by decide +kernel, by decide⟩

def g0 : HexGroup := ⟨"0".toList, 0, by decide +kernel, by decide⟩

def g1 : HexGroup := ⟨"1".toList, 1, by decide +kernel, by decide⟩

/-- The client `2001:db8::1`. -/
def client : Address := .v6 (.compressed [g2001, gdb8] [g1] none (by decide))

/-- The pattern `2001:db8:0::1`. -/
def pattern : Pattern := ⟨.v6 (.compressed [g2001, gdb8, g0] [g1] none (by decide)), none⟩

end Sample

/-- **The same address** is refused where it is spelled otherwise. -/
theorem refused_spelling : ¬ ∀ (c : Address) (p : Pattern), Decides c p := by
  intro h
  have hdecides := h Sample.client Sample.pattern
  have hcontains : Sample.pattern.Contains Sample.client := by
    show Sample.client.bits.take 128 = Sample.pattern.address.bits.take 128
    decide +kernel
  have hrefused : matchIp Sample.client.text Sample.pattern.text = false := by decide +kernel
  rw [Decides, hrefused] at hdecides
  exact Bool.noConfusion (hdecides.mpr hcontains)

end YantraRgs.IpAllowList
