import YantraRgs.Services.SigningKeys

/-! # The encoding of signatures

A signature is a pair of numbers below `2 ^ 256`. Its DER text writes each of them in as few bytes as
keep the highest bit clear; the token writes each in thirty-two bytes.

* **`derSignature`** — the canonical DER text of a signature.
* **`derToJose_derSignature`** — it is taken apart into the two numbers.
* **`joseToDer_bigEndian_iff`** — put together again, it is canonical exactly where neither number is
  short.
* **`reencoded_iff`** — so is what a launch token is verified with. -/

namespace YantraRgs.SigningKeys

/-- The canonical bytes of a number: as few as keep the highest bit clear. -/
def derInteger (n : Nat) : List Byte := bigEndian (width n) n

/-- **The canonical DER text of a signature.** -/
def derSignature (r s : Nat) : List Byte :=
  let body := [0x02, lengthByte (derInteger r)] ++ derInteger r ++
    [0x02, lengthByte (derInteger s)] ++ derInteger s
  [0x30, lengthByte body] ++ body

/-- A number of a signature. -/
structure IsScalar (n : Nat) : Prop where
  pos : 0 < n
  lt : n < 2 ^ 256

/-- A strictly valid DER signature. -/
def StrictDer (der : List Byte) : Prop := ∃ r s, IsScalar r ∧ IsScalar s ∧ der = derSignature r s

variable {r s n : Nat}

theorem IsScalar.width_le (h : IsScalar n) : width n ≤ 33 := by
  have hlog := (Nat.log2_lt h.pos.ne').mpr h.lt
  rw [width]
  omega

theorem length_derInteger (n : Nat) : (derInteger n).length = width n := length_bigEndian _ _

/-- The length of a number of a signature fits in its byte. -/
theorem IsScalar.val_lengthByte (h : IsScalar n) : (lengthByte (derInteger n)).val = width n := by
  have hwidth := h.width_le
  rw [lengthByte, Fin.val_ofNat, length_derInteger]
  omega

/-- **The canonical bytes of a number are brought to thirty-two.** -/
theorem padTo32_derInteger (h : IsScalar n) :
    padTo32 (stripLeadingZero (derInteger n)) = .ok (bigEndian 32 n) := by
  have hwidth := h.width_le
  have hfits : n < 256 ^ 32 := lt_of_lt_of_le h.lt (by norm_num)
  by_cases hlong : width n = 33
  · -- the one number too long has a zero in front
    have hzero : derInteger n = 0 :: bigEndian 32 n := by
      rw [derInteger, hlong]
      exact bigEndian_add hfits 1
    have hstrip : stripLeadingZero (derInteger n) = bigEndian 32 n := by
      rw [stripLeadingZero, hzero, if_pos ⟨rfl, by rw [List.length_cons, length_bigEndian]; decide⟩]
      rfl
    rw [hstrip, padTo32, length_bigEndian]
    rfl
  · have hshort : ¬ 32 < (derInteger n).length := by
      rw [length_derInteger]
      omega
    have hpad := bigEndian_add (lt_of_width h.pos) (32 - width n)
    rw [Nat.sub_add_cancel (by omega)] at hpad
    rw [stripLeadingZero, if_neg fun h => hshort h.2, padTo32, if_neg hshort, length_derInteger, hpad]
    rfl

section Parts

variable (tag len kind rLen kind' sLen : Byte) (rInt sInt : List Byte)

/-- A sequence of two numbers, as it stands in a buffer. -/
theorem subarray_fst : subarray ([tag, len] ++ ([kind, rLen] ++ rInt ++ [kind', sLen] ++ sInt)) 4
    (4 + rInt.length) = rInt := by
  rw [subarray, Nat.add_comm 4]
  simp

theorem subarray_snd : subarray ([tag, len] ++ ([kind, rLen] ++ rInt ++ [kind', sLen] ++ sInt))
    (4 + rInt.length + 2) (4 + rInt.length + 2 + sInt.length) = sInt := by
  have hsplit : [tag, len] ++ ([kind, rLen] ++ rInt ++ [kind', sLen] ++ sInt) =
      ([tag, len, kind, rLen] ++ rInt ++ [kind', sLen]) ++ sInt := by simp
  have hlen : ([tag, len, kind, rLen] ++ rInt ++ [kind', sLen]).length = 4 + rInt.length + 2 := by
    simp
    omega
  rw [subarray, hsplit, List.take_of_length_le (by rw [List.length_append, hlen]), ← hlen,
    List.drop_left]

theorem getElem?_sLen : ([tag, len] ++ ([kind, rLen] ++ rInt ++ [kind', sLen] ++ sInt))[
    4 + rInt.length + 1]? = some sLen := by
  have hsplit : [tag, len] ++ ([kind, rLen] ++ rInt ++ [kind', sLen] ++ sInt) =
      ([tag, len, kind, rLen] ++ rInt ++ [kind']) ++ sLen :: sInt := by simp
  have hlen : ([tag, len, kind, rLen] ++ rInt ++ [kind']).length = 4 + rInt.length + 1 := by
    simp
    omega
  rw [hsplit, ← hlen, List.getElem?_append_right (Nat.le_refl _), Nat.sub_self]
  rfl

end Parts

/-- **A canonical signature is taken apart into its two numbers.** -/
theorem derToJose_derSignature (hr : IsScalar r) (hs : IsScalar s) :
    derToJose (derSignature r s) = .ok (bigEndian 32 r ++ bigEndian 32 s) := by
  have hrLen : (derSignature r s)[3]?.map Fin.val = some (derInteger r).length := by
    rw [length_derInteger, ← hr.val_lengthByte]
    rfl
  have hsLen : (derSignature r s)[4 + (derInteger r).length + 1]?.map Fin.val =
      some (derInteger s).length := by
    rw [length_derInteger s, ← hs.val_lengthByte, derSignature, getElem?_sLen]
    rfl
  have hfst : subarray (derSignature r s) 4 (4 + (derInteger r).length) = derInteger r :=
    subarray_fst ..
  have hsnd : subarray (derSignature r s) (4 + (derInteger r).length + 2)
      (4 + (derInteger r).length + 2 + (derInteger s).length) = derInteger s := subarray_snd ..
  have htag : ¬ (derSignature r s)[0]? ≠ some 0x30 := fun h => h rfl
  rw [derToJose, if_neg htag]
  simp only [hrLen, Option.bind_some, hsLen, hfst, hsnd, padTo32_derInteger hr, padTo32_derInteger hs]
  rfl

/-- The highest bit of thirty-two bytes. -/
theorem addLeadingZeroIfHighBit_bigEndian (h : IsScalar n) :
    addLeadingZeroIfHighBit (bigEndian 32 n) =
      if 2 ^ 255 ≤ n then 0 :: bigEndian 32 n else bigEndian 32 n := by
  have htop : n / 256 ^ 31 < 256 := Nat.div_lt_of_lt_mul (lt_of_lt_of_le h.lt (by norm_num))
  have hbit : (bigEndian 32 n)[0]?.any (128 ≤ ·) = true ↔ 2 ^ 255 ≤ n := by
    have hhead : (bigEndian 32 n)[0]? = some (Fin.ofNat 256 (n / 256 ^ 31)) := rfl
    rw [hhead, Option.any_some, decide_eq_true_iff, Fin.le_def, Fin.val_ofNat, Nat.mod_eq_of_lt htop]
    change 128 ≤ n / 256 ^ 31 ↔ _
    rw [Nat.le_div_iff_mul_le (by norm_num)]
    norm_num
  rw [addLeadingZeroIfHighBit]
  simp only [hbit]

/-- **Thirty-two bytes are canonical** exactly where the number is not short. -/
theorem addLeadingZeroIfHighBit_eq_iff (h : IsScalar n) :
    addLeadingZeroIfHighBit (bigEndian 32 n) = derInteger n ↔ 2 ^ 247 ≤ n := by
  have hwidth := h.width_le
  have hfits : n < 256 ^ 32 := lt_of_lt_of_le h.lt (by norm_num)
  have h31 : width n ≤ 31 ↔ n < 2 ^ 247 := width_le_iff h.pos (by decide)
  have h32 : width n ≤ 32 ↔ n < 2 ^ 255 := width_le_iff h.pos (by decide)
  rw [addLeadingZeroIfHighBit_bigEndian h]
  constructor
  · intro heq
    have hlen := congrArg List.length heq
    rw [length_derInteger] at hlen
    have hlong : 32 ≤ width n := by
      rw [← hlen]
      split
      · rw [List.length_cons, length_bigEndian]
        decide
      · rw [length_bigEndian]
    by_contra hshort
    have hnarrow := h31.mpr (not_le.mp hshort)
    omega
  · intro hlong
    by_cases hhigh : 2 ^ 255 ≤ n
    · have hwide : width n = 33 := by
        have hnot : ¬ width n ≤ 32 := fun hle => absurd (h32.mp hle) (not_lt.mpr hhigh)
        omega
      rw [if_pos hhigh, derInteger, hwide]
      exact (bigEndian_add hfits 1).symm
    · have hwide : width n = 32 := by
        have hle := h32.mpr (not_le.mp hhigh)
        have hnot : ¬ width n ≤ 31 := fun hle => absurd (h31.mp hle) (not_lt.mpr hlong)
        omega
      rw [if_neg hhigh, derInteger, hwide]

/-- The text of two numbers determines them. -/
theorem sequence_inj {rInt rInt' sInt sInt' : List Byte} {len len' : Byte} (hr : rInt.length < 256)
    (hr' : rInt'.length < 256) (h : [(0x30 : Byte), len] ++ ([0x02, lengthByte rInt] ++ rInt ++
      [0x02, lengthByte sInt] ++ sInt) = [0x30, len'] ++ ([0x02, lengthByte rInt'] ++ rInt' ++
        [0x02, lengthByte sInt'] ++ sInt')) : rInt = rInt' ∧ sInt = sInt' := by
  simp only [List.cons_append, List.nil_append, List.append_assoc, List.cons.injEq, true_and] at h
  have hlen : rInt.length = rInt'.length := by
    have hbyte := congrArg Fin.val h.2.1
    rwa [lengthByte, lengthByte, Fin.val_ofNat, Fin.val_ofNat, Nat.mod_eq_of_lt hr,
      Nat.mod_eq_of_lt hr'] at hbyte
  obtain ⟨hfst, hrest⟩ := List.append_inj h.2.2 hlen
  simp only [List.cons.injEq, true_and] at hrest
  exact ⟨hfst, hrest.2⟩

theorem length_addLeadingZeroIfHighBit (buf : List Byte) :
    (addLeadingZeroIfHighBit buf).length ≤ buf.length + 1 := by
  rw [addLeadingZeroIfHighBit]
  split
  · exact Nat.le_refl _
  · exact Nat.le_succ _

/-- **Taken apart and put together, a signature is the canonical one** exactly where neither number is
short. -/
theorem joseToDer_eq_iff (hr : IsScalar r) (hs : IsScalar s) :
    joseToDer (bigEndian 32 r ++ bigEndian 32 s) = .ok (derSignature r s) ↔
      2 ^ 247 ≤ r ∧ 2 ^ 247 ≤ s := by
  have hlen : ¬ (bigEndian 32 r ++ bigEndian 32 s).length ≠ 64 := by
    rw [List.length_append, length_bigEndian, length_bigEndian]
    exact not_not.mpr rfl
  have hfst : (bigEndian 32 r ++ bigEndian 32 s).take 32 = bigEndian 32 r :=
    List.take_left' (length_bigEndian 32 r)
  have hsnd : (bigEndian 32 r ++ bigEndian 32 s).drop 32 = bigEndian 32 s :=
    List.drop_left' (length_bigEndian 32 r)
  rw [joseToDer, if_neg hlen, ← addLeadingZeroIfHighBit_eq_iff hr, ← addLeadingZeroIfHighBit_eq_iff hs]
  simp only [hfst, hsnd, Except.ok.injEq]
  constructor
  · intro h
    refine sequence_inj ?_ ?_ h
    · have hbound := length_addLeadingZeroIfHighBit (bigEndian 32 r)
      rw [length_bigEndian] at hbound
      omega
    · have hbound := hr.width_le
      rw [length_derInteger]
      omega
  · rintro ⟨hrInt, hsInt⟩
    rw [hrInt, hsInt]
    rfl

/-! ## Launch tokens -/

/-- Six bits are told apart from padding, and from each other in either alphabet. -/
theorem filterMap_dropPadding (cs : Text) :
    (dropPadding cs).filterMap Base64.sextetValue = cs.filterMap Base64.sextetValue := by
  have hpadding : ∀ c ∈ cs.reverse.takeWhile (· = '='), c = '=' := fun c hc => by
    simpa using List.all_eq_true.mp List.all_takeWhile c hc
  have hnone : (cs.reverse.takeWhile (· = '=')).filterMap Base64.sextetValue = [] := by
    rw [List.filterMap_eq_nil_iff]
    intro c hc
    rw [hpadding c hc]
    rfl
  have hsplit := List.takeWhile_append_dropWhile (p := (· = '=')) (l := cs.reverse)
  have hreverse := congrArg (List.filterMap Base64.sextetValue) hsplit
  rw [List.filterMap_append, hnone, List.nil_append, List.filterMap_reverse] at hreverse
  rw [dropPadding, List.filterMap_reverse, hreverse, List.reverse_reverse]

theorem filterMap_map {f : Char → Char} (h : ∀ c, Base64.sextetValue (f c) = Base64.sextetValue c)
    (cs : Text) : (cs.map f).filterMap Base64.sextetValue = cs.filterMap Base64.sextetValue := by
  rw [List.filterMap_map]
  exact List.filterMap_congr fun c _ => h c

/-- A sign of one alphabet for that of the other. -/
theorem sextetValue_replace {a b : Char} (h : Base64.sextetValue b = Base64.sextetValue a) (c : Char) :
    Base64.sextetValue (if c = a then b else c) = Base64.sextetValue c := by
  split
  · next heq => rw [heq, h]
  · rfl

/-- **Bytes are read back from their text.** -/
theorem fromBase64Url_toBase64Url (buf : List Byte) : fromBase64Url (toBase64Url buf) = buf := by
  have hpadding : ∀ cs : Text, (if cs.length % 4 = 0 then [] else
      List.replicate (4 - cs.length % 4) '=').filterMap Base64.sextetValue = [] := by
    intro cs
    rw [List.filterMap_eq_nil_iff]
    intro c hc
    split at hc
    · cases hc
    · rw [List.eq_of_mem_replicate hc]
      rfl
  have hdecode := Base64.decode_encode buf
  rw [Base64.decode] at hdecode
  rw [fromBase64Url, Base64.decode, List.filterMap_append, hpadding, List.append_nil,
    filterMap_map (sextetValue_replace (a := '_') (b := '/') rfl),
    filterMap_map (sextetValue_replace (a := '-') (b := '+') rfl), toBase64Url,
    filterMap_map (sextetValue_replace (a := '/') (b := '_') rfl),
    filterMap_map (sextetValue_replace (a := '+') (b := '-') rfl), filterMap_dropPadding, hdecode]

theorem sextetChar_ne_point : ∀ n < 64, '.' ≠ Base64.sextetChar n := by decide

theorem point_notMem_encode : ∀ buf : List Byte, '.' ∉ Base64.encode buf
  | [] => List.not_mem_nil
  | [a] => by
      have h1 := sextetChar_ne_point (a / 4) (by omega)
      have h2 := sextetChar_ne_point (a % 4 * 16) (by omega)
      simp [Base64.encode, h1, h2]
  | [a, b] => by
      have h1 := sextetChar_ne_point (a / 4) (by omega)
      have h2 := sextetChar_ne_point (a % 4 * 16 + b / 16) (by omega)
      have h3 := sextetChar_ne_point (b % 16 * 4) (by omega)
      simp [Base64.encode, h1, h2, h3]
  | a :: b :: c :: buf => by
      have h1 := sextetChar_ne_point (a / 4) (by omega)
      have h2 := sextetChar_ne_point (a % 4 * 16 + b / 16) (by omega)
      have h3 := sextetChar_ne_point (b % 16 * 4 + c / 64) (by omega)
      have h4 := sextetChar_ne_point (c % 64) (by omega)
      simp [Base64.encode, h1, h2, h3, h4, point_notMem_encode buf]

/-- No address text has a point. -/
theorem point_notMem_toBase64Url (buf : List Byte) : '.' ∉ toBase64Url buf := by
  have hdrop : '.' ∉ dropPadding (Base64.encode buf) := by
    rw [dropPadding, List.mem_reverse]
    intro hmem
    exact point_notMem_encode buf (List.mem_reverse.mp ((List.dropWhile_sublist _).mem hmem))
  have hmap : ∀ (cs : Text) (a b : Char), b ≠ '.' → '.' ∉ cs →
      '.' ∉ cs.map fun c => if c = a then b else c := by
    intro cs a b hb hcs hmem
    obtain ⟨c, hc, heq⟩ := List.mem_map.mp hmem
    split at heq
    · exact hb heq
    · exact hcs (heq ▸ hc)
  exact hmap _ '/' '_' (by decide) (hmap _ '+' '-' (by decide) hdrop)

/-- The signature of a token is read back from it. -/
theorem splitOn_token (h p s : List Byte) :
    (toBase64Url h ++ '.' :: toBase64Url p ++ '.' :: toBase64Url s).splitOn '.' =
      [toBase64Url h, toBase64Url p, toBase64Url s] := by
  have hsplit := List.splitOn_intercalate '.'
    (List.forall_mem_cons.mpr ⟨point_notMem_toBase64Url h, List.forall_mem_cons.mpr
      ⟨point_notMem_toBase64Url p, List.forall_mem_singleton.mpr (point_notMem_toBase64Url s)⟩⟩)
    (List.cons_ne_nil _ _)
  rw [← hsplit]
  simp

/-- **A signature is re-encoded faithfully**: its two numbers are read, it is put together again as it
was, and a launch token with it is verified with a strictly valid signature. -/
structure Reencoded (r s : Nat) : Prop where
  jose : derToJose (derSignature r s) = .ok (bigEndian 32 r ++ bigEndian 32 s)
  der : (derToJose (derSignature r s)).bind joseToDer = .ok (derSignature r s)
  token : ∀ (env : Env) key payload expiresInSec now token rows operatorId now' call,
    env.sign key.privateJwk (env.ofUtf8 (signingInput env key payload expiresInSec now)) =
      .ok (derSignature r s) →
    signLaunchJwt env key payload expiresInSec now = .ok token →
    verifyCall env rows operatorId token now' = .ok (some call) → StrictDer call.derSig

/-- What a token is verified with, once its signature is known. -/
theorem derSig_of_verifyCall {env : Env} {rows : List OperatorSigningKey} {operatorId : String}
    {h p s : Text} {token : Text} (htoken : token.splitOn '.' = [h, p, s]) {now : Millis}
    {call : VerifyCall env.Key} (hcall : verifyCall env rows operatorId token now = .ok (some call)) :
    joseToDer (fromBase64Url s) = .ok call.derSig := by
  simp only [verifyCall, htoken] at hcall
  split at hcall
  · cases hcall
  · next header hheader =>
      obtain ⟨kid, -, hcall⟩ := bind_eq_ok hcall
      obtain ⟨filter, -, hcall⟩ := bind_eq_ok hcall
      split at hcall
      · cases hcall
      · next row hrow =>
          obtain ⟨publicKey, -, hcall⟩ := bind_eq_ok hcall
          obtain ⟨derSig, hder, hcall⟩ := bind_eq_ok hcall
          cases hcall
          exact hder

/-- **A signature is re-encoded faithfully** exactly where neither of its numbers is short. -/
theorem reencoded_iff (hr : IsScalar r) (hs : IsScalar s) :
    Reencoded r s ↔ 2 ^ 247 ≤ r ∧ 2 ^ 247 ≤ s := by
  have hbind : (derToJose (derSignature r s)).bind joseToDer =
      joseToDer (bigEndian 32 r ++ bigEndian 32 s) := by
    rw [derToJose_derSignature hr hs]
    rfl
  rw [← joseToDer_eq_iff hr hs]
  constructor
  · intro h
    rw [← hbind]
    exact h.der
  · intro hder
    refine ⟨derToJose_derSignature hr hs, hbind.trans hder, ?_⟩
    intro env key payload expiresInSec now token rows operatorId now' call hsign htoken hcall
    -- the token ends with the two numbers
    obtain ⟨derSig, hderSig, htoken⟩ := bind_eq_ok htoken
    rw [hsign] at hderSig
    cases hderSig
    obtain ⟨joseSig, hjose, htoken⟩ := bind_eq_ok htoken
    rw [derToJose_derSignature hr hs] at hjose
    cases hjose
    cases htoken
    rw [signingInput] at hcall
    have hsig := derSig_of_verifyCall (splitOn_token _ _ _) hcall
    rw [fromBase64Url_toBase64Url, hder] at hsig
    exact ⟨r, s, hr, hs, (Except.ok.inj hsig).symm⟩

/-- Numbers of full length are re-encoded faithfully. -/
theorem reencoded_full : Reencoded (2 ^ 255) (2 ^ 247) :=
  (reencoded_iff ⟨by norm_num, by norm_num⟩ ⟨by norm_num, by norm_num⟩).mpr ⟨by norm_num, le_refl _⟩

/-- The numbers one and one are put together with thirty-one zeros too many each. -/
theorem not_reencoded_one : ¬ ∀ r s, IsScalar r → IsScalar s → Reencoded r s := by
  intro h
  have hder := (h 1 1 ⟨by decide, by norm_num⟩ ⟨by decide, by norm_num⟩).der
  have hlen := congrArg (fun x => (x.toOption.map List.length)) hder
  exact absurd hlen (by decide +kernel)

end YantraRgs.SigningKeys
