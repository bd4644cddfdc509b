import YantraRgs.Text.Bits
import YantraRgs.Text.Bytes

/-! # Bytes as base32 texts

Both directions shift bytes and groups of five bits through a register of 32 bits that is never
cleared; its number of pending bits says how much of it still counts.

* **`base32Encode`**, **`base32Decode`** — the two directions, without padding characters.
* **`pentets_encodeFrom`**, **`octets_decodeFrom`** — what goes in comes out, up to the bits that are
  pending.
* **`base32Decode_base32Encode`** — bytes are read back from their text. -/

namespace YantraRgs

/-- The alphabet of base32. -/
def BASE32_ALPHABET : List Char := "ABCDEFGHIJKLMNOPQRSTUVWXYZ234567".toList

/-- Upper case. What it makes of a text outside ASCII is left open. -/
structure Uppercase where
  toUpperCase : List Char → List Char
  ascii : ∀ s, (∀ c ∈ s, c.toNat < 128) → toUpperCase s = s.map Char.toUpper

/-- The character of the low five bits of a register. -/
def base32Char (value : BitVec 32) : Char :=
  BASE32_ALPHABET.getD (value &&& 0x1f).toNat 'A'

/-- The characters that a register hands out while five of its bits are pending, and how many bits
are then left. -/
def base32Drain (value : BitVec 32) : Nat → List Char × Nat
  | bits + 5 =>
      (base32Char (value >>> bits) :: (base32Drain value bits).1, (base32Drain value bits).2)
  | bits => ([], bits)

/-- **The text of the remaining bytes**, after what is pending in the register. -/
def encodeFrom (bits : Nat) (value : BitVec 32) : List Byte → List Char
  | [] => if 0 < bits then [base32Char (value <<< (5 - bits))] else []
  | b :: buf =>
      let value := value <<< 8 ||| BitVec.ofNat 32 b
      let (out, bits) := base32Drain value (bits + 8)
      out ++ encodeFrom bits value buf

/-- **The base32 text of some bytes.** -/
def base32Encode (buf : List Byte) : List Char := encodeFrom 0 0 buf

/-- The byte of the low eight bits of a register. -/
def base32Byte (value : BitVec 32) : Byte := Fin.ofNat 256 (value &&& 0xff).toNat

/-- **The bytes of the remaining characters**, after what is pending in the register. -/
def decodeFrom (bits : Nat) (value : BitVec 32) : List Char → List Byte
  | [] => []
  | ch :: clean =>
      match BASE32_ALPHABET.idxOf? ch with
      | none => decodeFrom bits value clean
      | some idx =>
          let value := value <<< 5 ||| BitVec.ofNat 32 idx
          if 8 ≤ bits + 5 then
            base32Byte (value >>> (bits + 5 - 8)) :: decodeFrom (bits + 5 - 8) value clean
          else decodeFrom (bits + 5) value clean

/-- The characters that are kept before decoding. -/
def isBase32 (c : Char) : Bool := ('A' ≤ c ∧ c ≤ 'Z') ∨ ('2' ≤ c ∧ c ≤ '7')

/-- **The bytes of a base32 text**; case does not matter, and other characters are skipped. -/
def base32Decode (env : Uppercase) (s : List Char) : List Byte :=
  decodeFrom 0 0 ((env.toUpperCase s).filter isBase32)

/-! ## Streams of bits -/

/-- The bits of some bytes. -/
def octets (buf : List Byte) : List Bool := buf.flatMap fun b => lowBits (BitVec.ofNat 8 b) 8

/-- The bits of some characters, five of each. -/
def pentets (s : List Char) : List Bool :=
  s.flatMap fun c => lowBits (BitVec.ofNat 5 (BASE32_ALPHABET.idxOf c)) 5

theorem octets_cons (b : Byte) (buf : List Byte) :
    octets (b :: buf) = lowBits (BitVec.ofNat 8 b) 8 ++ octets buf := List.flatMap_cons

theorem pentets_cons (c : Char) (s : List Char) :
    pentets (c :: s) = lowBits (BitVec.ofNat 5 (BASE32_ALPHABET.idxOf c)) 5 ++ pentets s :=
  List.flatMap_cons

theorem pentets_append (s t : List Char) : pentets (s ++ t) = pentets s ++ pentets t :=
  List.flatMap_append

@[simp] theorem length_octets (buf : List Byte) : (octets buf).length = 8 * buf.length := by
  induction buf with
  | nil => rfl
  | cons b buf ih =>
      rw [octets_cons, List.length_append, length_lowBits, ih, List.length_cons]
      omega

@[simp] theorem length_pentets (s : List Char) : (pentets s).length = 5 * s.length := by
  induction s with
  | nil => rfl
  | cons c s ih =>
      rw [pentets_cons, List.length_append, length_lowBits, ih, List.length_cons]
      omega

/-- **Bytes are determined by their bits.** -/
theorem octets_injective {a b : List Byte} (h : octets a = octets b) : a = b := by
  induction a generalizing b with
  | nil =>
      have hlen := congrArg List.length h
      rw [length_octets, length_octets, List.length_nil] at hlen
      exact (List.length_eq_zero_iff.mp (by omega)).symm
  | cons x a ih =>
      cases b with
      | nil =>
          have hlen := congrArg List.length h
          rw [length_octets, length_octets, List.length_nil, List.length_cons] at hlen
          omega
      | cons y b =>
          rw [octets_cons, octets_cons] at h
          obtain ⟨hx, ha⟩ := List.append_inj h (by rw [length_lowBits, length_lowBits])
          have hv := congrArg BitVec.toNat (lowBits_injective hx)
          rw [BitVec.toNat_ofNat, BitVec.toNat_ofNat] at hv
          have hxy : x = y := by
            apply Fin.ext
            have h1 := x.isLt
            have h2 := y.isLt
            omega
          rw [hxy, ih ha]

/-! ## The two directions -/

theorem idxOf_getD : ∀ n < 32, BASE32_ALPHABET.idxOf (BASE32_ALPHABET.getD n 'A') = n := by
  decide

theorem base32Char_mem (value : BitVec 32) : base32Char value ∈ BASE32_ALPHABET := by
  have hlt : (value &&& 0x1f).toNat < 32 := toNat_and_lt value 5
  have hall : ∀ n < 32, BASE32_ALPHABET.getD n 'A' ∈ BASE32_ALPHABET := by decide
  exact hall _ hlt

/-- A character stands for the low five bits of the register. -/
theorem lowBits_base32Char (value : BitVec 32) :
    lowBits (BitVec.ofNat 5 (BASE32_ALPHABET.idxOf (base32Char value))) 5 = lowBits value 5 := by
  have hlt : (value &&& 0x1f).toNat < 32 := toNat_and_lt value 5
  rw [base32Char, idxOf_getD _ hlt]
  exact lowBits_ofNat_and value (by decide)

/-- **Draining a register** moves its bits into the text; fewer than five stay pending. -/
theorem pentets_base32Drain (value : BitVec 32) (bits : Nat) :
    pentets (base32Drain value bits).1 ++ lowBits value (base32Drain value bits).2 =
        lowBits value bits ∧
      (base32Drain value bits).2 < 5 := by
  induction bits using base32Drain.induct with
  | case1 bits ih =>
      have hadd : lowBits value (5 + bits) = lowBits (value >>> bits) 5 ++ lowBits value bits :=
        lowBits_add value 5 bits
      rw [Nat.add_comm] at hadd
      rw [base32Drain, pentets_cons, lowBits_base32Char, List.append_assoc, ih.1]
      exact ⟨hadd.symm, ih.2⟩
  | case2 bits hsmall =>
      have hlt : bits < 5 := by
        by_contra hge
        exact hsmall (bits - 5) (by omega)
      have hdrain : base32Drain value bits = ([], bits) := by
        rw [base32Drain.eq_def]
        split
        · omega
        · rfl
      rw [hdrain]
      exact ⟨rfl, hlt⟩

theorem base32Drain_mem (value : BitVec 32) (bits : Nat) :
    ∀ c ∈ (base32Drain value bits).1, c ∈ BASE32_ALPHABET := by
  induction bits using base32Drain.induct with
  | case1 bits ih =>
      rw [base32Drain]
      exact List.forall_mem_cons.mpr ⟨base32Char_mem _, ih⟩
  | case2 bits hsmall =>
      rw [base32Drain.eq_def]
      split
      · exact absurd rfl (hsmall _)
      · exact List.forall_mem_nil _

theorem encodeFrom_cons (bits : Nat) (value : BitVec 32) (b : Byte) (buf : List Byte) :
    encodeFrom bits value (b :: buf) =
      (base32Drain (value <<< 8 ||| BitVec.ofNat 32 b) (bits + 8)).1 ++
        encodeFrom (base32Drain (value <<< 8 ||| BitVec.ofNat 32 b) (bits + 8)).2
          (value <<< 8 ||| BitVec.ofNat 32 b) buf := rfl

/-- **The text of the remaining bytes** holds what was pending, then their bits, then fewer than five
zeros. -/
theorem pentets_encodeFrom {bits : Nat} (hbits : bits < 5) (value : BitVec 32) (buf : List Byte) :
    ∃ pad : List Bool, pad.length < 5 ∧
      pentets (encodeFrom bits value buf) = lowBits value bits ++ octets buf ++ pad := by
  induction buf generalizing bits value with
  | nil =>
      rw [encodeFrom]
      by_cases hpos : 0 < bits
      · have hshift : lowBits (value <<< (5 - bits)) (bits + (5 - bits)) =
            lowBits value bits ++ List.replicate (5 - bits) false := lowBits_shift (by omega)
        rw [show bits + (5 - bits) = 5 by omega] at hshift
        refine ⟨List.replicate (5 - bits) false, by rw [List.length_replicate]; omega, ?_⟩
        rw [if_pos hpos, pentets_cons, lowBits_base32Char, hshift]
        simp [octets, pentets]
      · refine ⟨[], by decide, ?_⟩
        rw [if_neg hpos, show bits = 0 by omega]
        rfl
  | cons b buf ih =>
      obtain ⟨hdrain, hleft⟩ :=
        pentets_base32Drain (value <<< 8 ||| BitVec.ofNat 32 b) (bits + 8)
      obtain ⟨pad, hpad, hrest⟩ := ih hleft (value <<< 8 ||| BitVec.ofNat 32 b)
      have hin : lowBits (value <<< 8 ||| BitVec.ofNat 32 b) (bits + 8) =
          lowBits value bits ++ lowBits (BitVec.ofNat 8 b) 8 := by
        rw [lowBits_shift_or (fun i hi => getLsbD_ofNat_of_lt (m := 8) b.isLt hi) (by omega),
          lowBits_ofNat (w := 32) (m := 8) (by decide) (by decide)]
      refine ⟨pad, hpad, ?_⟩
      rw [encodeFrom_cons, pentets_append, hrest, ← List.append_assoc, ← List.append_assoc, hdrain,
        hin, octets_cons, List.append_assoc (lowBits value bits)]

theorem encodeFrom_mem (bits : Nat) (value : BitVec 32) (buf : List Byte) :
    ∀ c ∈ encodeFrom bits value buf, c ∈ BASE32_ALPHABET := by
  induction buf generalizing bits value with
  | nil =>
      intro c hc
      rw [encodeFrom] at hc
      split at hc
      · rw [List.mem_singleton.mp hc]
        exact base32Char_mem _
      · cases hc
  | cons b buf ih =>
      intro c hc
      rw [encodeFrom_cons] at hc
      rcases List.mem_append.mp hc with h | h
      · exact base32Drain_mem _ _ c h
      · exact ih _ _ c h

/-- The text of some bytes has no more characters than it takes to hold them. -/
theorem length_base32Encode (b : List Byte) :
    8 * b.length ≤ 5 * (base32Encode b).length ∧ 5 * (base32Encode b).length < 8 * b.length + 5 := by
  obtain ⟨pad, hpad, henc⟩ := pentets_encodeFrom (show 0 < 5 by decide) 0 b
  have hlen := congrArg List.length henc
  rw [length_pentets, List.length_append, List.length_append, length_octets, length_lowBits] at hlen
  rw [base32Encode]
  omega

/-- What can be checked of each character of the alphabet holds of all of them. -/
theorem forall_mem_alphabet {p : Char → Bool} (h : BASE32_ALPHABET.all p = true) :
    ∀ c ∈ BASE32_ALPHABET, p c = true :=
  List.all_eq_true.mp h

theorem idxOf?_mem : ∀ c ∈ BASE32_ALPHABET,
    BASE32_ALPHABET.idxOf? c = some (BASE32_ALPHABET.idxOf c) ∧ BASE32_ALPHABET.idxOf c < 32 := by
  have hall := forall_mem_alphabet (p := fun c => decide (BASE32_ALPHABET.idxOf? c =
    some (BASE32_ALPHABET.idxOf c) ∧ BASE32_ALPHABET.idxOf c < 32)) (by decide +kernel)
  exact fun c hc => of_decide_eq_true (hall c hc)

/-- A byte holds the low eight bits of the register. -/
theorem lowBits_base32Byte (value : BitVec 32) :
    lowBits (BitVec.ofNat 8 (base32Byte value)) 8 = lowBits value 8 := by
  have hlt : (value &&& 0xff).toNat < 256 := toNat_and_lt value 8
  have hbyte : (base32Byte value).val = (value &&& 0xff).toNat := Nat.mod_eq_of_lt hlt
  rw [hbyte]
  exact lowBits_ofNat_and value (by decide)

theorem decodeFrom_cons {bits idx : Nat} {value : BitVec 32} {c : Char} {s : List Char}
    (h : BASE32_ALPHABET.idxOf? c = some idx) :
    decodeFrom bits value (c :: s) =
      if 8 ≤ bits + 5 then
        base32Byte ((value <<< 5 ||| BitVec.ofNat 32 idx) >>> (bits + 5 - 8)) ::
          decodeFrom (bits + 5 - 8) (value <<< 5 ||| BitVec.ofNat 32 idx) s
      else decodeFrom (bits + 5) (value <<< 5 ||| BitVec.ofNat 32 idx) s := by
  rw [decodeFrom, h]

/-- **The bytes of the remaining characters** are what was pending and then the characters' bits, up
to fewer than eight bits that are left over. -/
theorem octets_decodeFrom {bits : Nat} (hbits : bits < 8) (value : BitVec 32) (s : List Char)
    (hs : ∀ c ∈ s, c ∈ BASE32_ALPHABET) :
    ∃ rest : List Bool, rest.length < 8 ∧
      octets (decodeFrom bits value s) ++ rest = lowBits value bits ++ pentets s := by
  induction s generalizing bits value with
  | nil =>
      refine ⟨lowBits value bits, by rw [length_lowBits]; exact hbits, ?_⟩
      simp [decodeFrom, octets, pentets]
  | cons c s ih =>
      obtain ⟨hc, hs⟩ := List.forall_mem_cons.mp hs
      obtain ⟨hidx, hlt⟩ := idxOf?_mem c hc
      have hin : lowBits (value <<< 5 ||| BitVec.ofNat 32 (BASE32_ALPHABET.idxOf c)) (bits + 5) =
          lowBits value bits ++ lowBits (BitVec.ofNat 5 (BASE32_ALPHABET.idxOf c)) 5 := by
        rw [lowBits_shift_or (fun i hi => getLsbD_ofNat_of_lt (m := 5) hlt hi) (by omega),
          lowBits_ofNat (w := 32) (m := 5) (by decide) (by decide)]
      rw [pentets_cons, ← List.append_assoc, ← hin, decodeFrom_cons hidx]
      generalize value <<< 5 ||| BitVec.ofNat 32 (BASE32_ALPHABET.idxOf c) = value'
      by_cases hfull : 8 ≤ bits + 5
      · have hleft : bits + 5 - 8 < 8 := by omega
        obtain ⟨rest, hrest, heq⟩ := ih hleft value' hs
        refine ⟨rest, hrest, ?_⟩
        have hsplit : lowBits value' (8 + (bits + 5 - 8)) =
            lowBits (value' >>> (bits + 5 - 8)) 8 ++ lowBits value' (bits + 5 - 8) :=
          lowBits_add value' 8 (bits + 5 - 8)
        rw [show 8 + (bits + 5 - 8) = bits + 5 by omega] at hsplit
        rw [if_pos hfull, octets_cons, lowBits_base32Byte, List.append_assoc, heq, hsplit,
          List.append_assoc]
      · obtain ⟨rest, hrest, heq⟩ := ih (Nat.lt_of_not_le hfull) value' hs
        rw [if_neg hfull]
        exact ⟨rest, hrest, heq⟩

/-! ## The round trip -/

/-- A text in the alphabet is decoded as it is. -/
theorem clean_eq (env : Uppercase) {s : List Char} (hs : ∀ c ∈ s, c ∈ BASE32_ALPHABET) :
    (env.toUpperCase s).filter isBase32 = s := by
  have hall : ∀ c ∈ BASE32_ALPHABET, c.toNat < 128 ∧ c.toUpper = c ∧ isBase32 c = true := by
    have hcheck := forall_mem_alphabet (p := fun c =>
      decide (c.toNat < 128 ∧ c.toUpper = c ∧ isBase32 c = true)) (by decide +kernel)
    exact fun c hc => of_decide_eq_true (hcheck c hc)
  rw [env.ascii s fun c hc => (hall c (hs c hc)).1]
  have hmap : s.map Char.toUpper = s := by
    conv_rhs => rw [← List.map_id s]
    exact List.map_congr_left fun c hc => (hall c (hs c hc)).2.1
  rw [hmap]
  exact List.filter_eq_self.mpr fun c hc => (hall c (hs c hc)).2.2

/-- **Bytes are read back from their text**, for every number of bytes. -/
theorem base32Decode_base32Encode (env : Uppercase) (b : List Byte) :
    base32Decode env (base32Encode b) = b := by
  have hmem : ∀ c ∈ base32Encode b, c ∈ BASE32_ALPHABET := encodeFrom_mem 0 0 b
  obtain ⟨pad, hpad, henc⟩ := pentets_encodeFrom (show 0 < 5 by decide) 0 b
  obtain ⟨rest, hrest, hdec⟩ :=
    octets_decodeFrom (show 0 < 8 by decide) 0 (base32Encode b) hmem
  rw [base32Decode, clean_eq env hmem]
  have hstream : octets (decodeFrom 0 0 (base32Encode b)) ++ rest = octets b ++ pad :=
    hdec.trans henc
  -- both ends are shorter than a byte, so the two texts have the same number of whole bytes
  have hlen := congrArg List.length hstream
  rw [List.length_append, List.length_append, length_octets, length_octets] at hlen
  exact octets_injective (List.append_inj hstream (by rw [length_octets, length_octets]; omega)).1

end YantraRgs
