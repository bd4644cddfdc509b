import YantraRgs.Text.Bits
import YantraRgs.Text.Integer
import YantraRgs.Text.Split

/-! # The allow-list of addresses

An operator may list the addresses that its requests come from, one by one or by the prefixes of
networks. Addresses are compared as texts; with a prefix their bits are, which are read out of the texts
by hand.

* **`normalise`** — the text of an address that is compared.
* **`ipv4ToInt`**, **`ipv6ToBytes`** — the bits of an address.
* **`matchCidrIPv4`**, **`matchCidrIPv6`** — whether the bits of two addresses start alike.
* **`matchIp`** — whether an address meets a pattern; **`ipAllowList`** — the middleware. -/

namespace YantraRgs.IpAllowList

open Split

abbrev Text := List Char

/-! ## Numbers in texts -/

/-- The digits that a number in a text starts with. -/
def leadingDigits (radix : Nat) (s : Text) : Text :=
  s.takeWhile fun c => (BigInt.digitValue c).any (· < radix)

/-- The sign of a number, and what follows it. -/
def readSign : Text → Int × Text
  | '-' :: s => (-1, s)
  | '+' :: s => (1, s)
  | s => (1, s)

/-- A text without the prefix of hexadecimal numbers. -/
def dropHexPrefix : Text → Text
  | '0' :: 'x' :: s => s
  | '0' :: 'X' :: s => s
  | s => s

/-- **The number that a text starts with**; what follows it does not matter. -/
def parseInt (s : Text) (radix : Nat) : Option Int :=
  let signed := readSign (s.dropWhile BigInt.isSpace)
  let unsigned := if radix = 16 then dropHexPrefix signed.2 else signed.2
  (BigInt.digits radix (leadingDigits radix unsigned)).map fun n => signed.1 * Int.ofNat n

/-! ## Addresses as texts -/

/-- Whether a text is one, two or three digits. -/
def isOctet (s : Text) : Bool := 1 ≤ s.length && s.length ≤ 3 && s.all Char.isDigit

/-- Whether a text is four of these between dots. -/
def isQuad (s : Text) : Bool := (s.splitOn '.').length = 4 && (s.splitOn '.').all isOctet

/-- **The text of an address that is compared**: an IPv4 address stands for itself where it is embedded in
an IPv6 address in the usual way. -/
def normalise (ip : Text) : Text :=
  match ip with
  | ':' :: ':' :: 'f' :: 'f' :: 'f' :: 'f' :: ':' :: v4 =>
      if isQuad v4 then v4 else ip.map Char.toLower
  | _ => ip.map Char.toLower

/-! ## Prefixes of IPv4 addresses -/

/-- The numbers of the parts of an address, each of which fits in a byte. -/
def octets (parts : List Text) : Option (List Nat) :=
  parts.mapM fun p => (parseInt p 10).bind fun v => if v < 0 ∨ 255 < v then none else some v.toNat

/-- The thirty-two bits of an address. -/
def ipv4ToInt (ip : Text) : Option (BitVec 32) :=
  let parts := ip.splitOn '.'
  if parts.length ≠ 4 then none
  else (octets parts).map fun vs => vs.foldl (fun n v => n <<< 8 ||| BitVec.ofNat 32 v) 0

/-- **Whether an address starts like a range.** -/
def matchCidrIPv4 (ip range : Text) (bits : Nat) : Bool :=
  if 32 < bits then false
  else
    match ipv4ToInt ip, ipv4ToInt range with
    | some a, some b =>
        if bits = 0 then true
        else
          let mask := BitVec.allOnes 32 <<< (32 - bits)
          a &&& mask = b &&& mask
    | _, _ => false

/-! ## Prefixes of IPv6 addresses -/

/-- The groups of a part; an empty part has none. -/
def groupsOf (part : Text) : List Text := if part = [] then [] else part.splitOn ':'

/-- The groups of an address, with the zeros that a double colon stands for. -/
def expand (ip : Text) : Option (List Text) :=
  match splitDouble ip with
  | [left] => if (groupsOf left).length = 8 then some (groupsOf left) else none
  | [left, right] =>
      let groupCount := (groupsOf left).length + (groupsOf right).length
      if 7 < groupCount then none
      else some (groupsOf left ++ List.replicate (8 - groupCount) ['0'] ++ groupsOf right)
  | _ => none

/-- The two bytes of a group; an empty one is zero. -/
def groupBytes (group : Text) : Option (List (BitVec 8)) :=
  (parseInt (if group = [] then ['0'] else group) 16).bind fun v =>
    if v < 0 ∨ 0xffff < v then none
    else some [BitVec.ofNat 8 (v.toNat / 256), BitVec.ofNat 8 v.toNat]

/-- **The sixteen bytes of an address.** -/
def ipv6ToBytes (ip : Text) : Option (List (BitVec 8)) :=
  (expand ip).bind fun groups => (groups.mapM groupBytes).map List.flatten

/-- Whether some bytes start alike. -/
def sameBits : List (BitVec 8) → List (BitVec 8) → Nat → Bool
  | a :: as, b :: bs, remaining =>
      if remaining = 0 then true
      else if 8 ≤ remaining then a = b && sameBits as bs (remaining - 8)
      else
        let mask := BitVec.allOnes 8 <<< (8 - remaining)
        a &&& mask = b &&& mask
  | _, _, _ => true

/-- **Whether an address starts like a range.** -/
def matchCidrIPv6 (ip range : Text) (bits : Nat) : Bool :=
  if 128 < bits then false
  else
    match ipv6ToBytes ip, ipv6ToBytes range with
    | some a, some b => sameBits a b bits
    | _, _ => false

/-! ## Patterns -/

/-- **Whether an address meets a range** with a prefix length. -/
def matchCidr (clientIp cidr : Text) : Bool :=
  match cidr.splitOn '/' with
  | range :: bitsStr :: _ =>
      if range = [] ∨ bitsStr = [] then false
      else
        match parseInt bitsStr 10 with
        | none => false
        | some bits =>
            if bits < 0 then false
            else if ':' ∈ range then matchCidrIPv6 clientIp range bits.toNat
            else matchCidrIPv4 clientIp range bits.toNat
  | _ => false

/-- **Whether an address meets a pattern.** -/
def matchIp (clientIp pattern : Text) : Bool :=
  if '/' ∉ pattern then normalise clientIp = normalise pattern
  else matchCidr (normalise clientIp) pattern

/-- What becomes of a request. -/
inductive Answer
  | next
  | refused (status : Nat) (error : String)
  deriving DecidableEq

/-- **The middleware** of an operator's requests; no list lets all of them through. -/
def ipAllowList (operator : Option (Option (List Text))) (clientIp : Option Text) : Answer :=
  match operator with
  | none => .refused 401 "no_operator"
  | some list =>
      match list.getD [] with
      | [] => .next
      | list =>
          match clientIp with
          | none | some [] => .refused 403 "client_ip_missing"
          | some clientIp =>
              if list.any fun pattern => matchIp clientIp pattern then .next
              else .refused 403 "ip_not_allowed"

end YantraRgs.IpAllowList
