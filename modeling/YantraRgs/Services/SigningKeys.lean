import YantraRgs.Services.JsonParse
import YantraRgs.Text.Bytes

/-! # The keys that launch tokens are signed with

An operator's launch token is signed with its active key, and verified with any key of the operator
that is not retired. The signature is made and verified as DER, and stands in the token as the bare
pair of its two numbers.

* **`derToJose`**, **`joseToDer`** — the two conversions of a signature.
* **`signLaunchJwt`** — a token.
* **`verifyCall`** — what a token is verified with; **`verifyLaunchJwt`** — its claims.

What is thrown is an error with its text. -/

namespace YantraRgs.SigningKeys

/-! ## Texts of bytes -/

/-- A text without the padding at its end. -/
def dropPadding (cs : Text) : Text := (cs.reverse.dropWhile (· = '=')).reverse

/-- The text of some bytes in the alphabet of addresses, without padding. -/
def toBase64Url (buf : List Byte) : Text :=
  (((dropPadding (Base64.encode buf)).map fun c => if c = '+' then '-' else c).map
    fun c => if c = '/' then '_' else c)

/-- The bytes of such a text. -/
def fromBase64Url (s : Text) : List Byte :=
  let padding := if s.length % 4 = 0 then [] else List.replicate (4 - s.length % 4) '='
  Base64.decode (((s.map fun c => if c = '-' then '+' else c).map
    fun c => if c = '_' then '/' else c) ++ padding)

/-! ## Signatures -/

/-- The part of a buffer from `start` up to `stop`. -/
def subarray (buf : List Byte) (start stop : Nat) : List Byte := (buf.take stop).drop start

/-- A number of a signature without a leading zero that makes it too long. -/
def stripLeadingZero (n : List Byte) : List Byte :=
  if n[0]? = some 0 ∧ 32 < n.length then n.drop 1 else n

/-- A number of a signature in thirty-two bytes; a longer one is refused. -/
def padTo32 (n : List Byte) : Except String (List Byte) :=
  if 32 < n.length then .error "The value of \"targetStart\" is out of range."
  else .ok (List.replicate (32 - n.length) 0 ++ n)

/-- **The two numbers of a DER signature**, in thirty-two bytes each. A length that the buffer does not
have reaches no byte. -/
def derToJose (der : List Byte) : Except String (List Byte) :=
  if der[0]? ≠ some 0x30 then .error "invalid_der"
  else
    let rLen : Option Nat := der[3]?.map Fin.val
    let sLen : Option Nat := rLen.bind fun rLen => der[4 + rLen + 1]?.map Fin.val
    let r := match rLen with
      | some rLen => subarray der 4 (4 + rLen)
      | none => []
    let s := match rLen, sLen with
      | some rLen, some sLen => subarray der (4 + rLen + 2) (4 + rLen + 2 + sLen)
      | _, _ => []
    do
      let r ← padTo32 (stripLeadingZero r)
      let s ← padTo32 (stripLeadingZero s)
      pure (r ++ s)

/-- A number of a signature, with a zero in front where it would be read as negative. -/
def addLeadingZeroIfHighBit (buf : List Byte) : List Byte :=
  if buf[0]?.any (128 ≤ ·) then 0 :: buf else buf

/-- A byte of a length. -/
def lengthByte (bytes : List Byte) : Byte := Fin.ofNat 256 bytes.length

/-- **The DER signature of two numbers** of thirty-two bytes each. -/
def joseToDer (jose : List Byte) : Except String (List Byte) :=
  if jose.length ≠ 64 then .error "invalid_jose_sig"
  else
    let rInt := addLeadingZeroIfHighBit (jose.take 32)
    let sInt := addLeadingZeroIfHighBit (jose.drop 32)
    let seqBody := [0x02, lengthByte rInt] ++ rInt ++ [0x02, lengthByte sInt] ++ sInt
    .ok ([0x30, lengthByte seqBody] ++ seqBody)

/-! ## Keys -/

/-- Whether a key signs and verifies. -/
inductive SigningKeyStatus
  | active
  | retiring
  | retired
  deriving DecidableEq

/-- A key of an operator. -/
structure OperatorSigningKey where
  operatorId : String
  kid : String
  algorithm : String
  publicJwk : Value
  status : SigningKeyStatus
  notAfter : Option Millis

/-- The key a token is signed with. -/
structure ActiveKey where
  kid : String
  algorithm : String
  privateJwk : Value

/-- **What the service takes from elsewhere**: texts and their bytes, JSON, the primitives of
signatures, and what the database takes as the filter of a key identifier. -/
structure Env where
  /-- The imported public keys. -/
  Key : Type
  ofUtf8 : Text → List Byte
  utf8 : List Byte → Text
  stringifyJson : Value → Text
  parseJson : Text → Option Value
  /-- The value of a number. -/
  numberValue : Numeral → Rat
  sign : Value → List Byte → Except String (List Byte)
  createPublicKey : Value → Except String Key
  verify : Key → List Byte → List Byte → Except String Bool
  /-- The filter that a value other than a text stands for; there may be none. -/
  kidFilter : Value → Except String (String → Bool)

variable (env : Env)

/-- The text of a value in the alphabet of addresses. -/
def b64urlJson (v : Value) : Text := toBase64Url (env.ofUtf8 (env.stringifyJson v))

/-- What is signed of a launch token: its header and its claims. -/
def signingInput (key : ActiveKey) (payload : List (String × Value)) (expiresInSec : Int)
    (now : Millis) : Text :=
  let header := Value.object
    [("alg", .string key.algorithm), ("typ", .string "JWT"), ("kid", .string key.kid)]
  let iat : Int := (now / 1000 : Nat)
  let claims := Value.object (JsonParse.setEntry
    (JsonParse.setEntry payload ("iat", .number (.ofInt iat)))
      ("exp", .number (.ofInt (iat + expiresInSec))))
  b64urlJson env header ++ '.' :: b64urlJson env claims

/-- **A launch token** for some claims, valid for a time. -/
def signLaunchJwt (key : ActiveKey) (payload : List (String × Value)) (expiresInSec : Int)
    (now : Millis) : Except String Text := do
  let input := signingInput env key payload expiresInSec now
  let derSig ← env.sign key.privateJwk (env.ofUtf8 input)
  let joseSig ← derToJose derSig
  pure (input ++ '.' :: toBase64Url joseSig)

/-- A property of a value; `null` has none to ask for. -/
def property (v : Value) (name : String) : Except String (Option Value) :=
  match v with
  | .null => .error ("Cannot read properties of null (reading '" ++ name ++ "')")
  | .object es => .ok (es.lookup name)
  | _ => .ok none

/-- The keys that a lookup admits: all of them where no identifier is given. -/
def kidWhere : Option Value → Except String (String → Bool)
  | none => .ok fun _ => true
  | some (.string kid) => .ok (· = kid)
  | some v => env.kidFilter v

/-- The first key of an operator that still verifies and that a lookup admits. -/
def findKey (rows : List OperatorSigningKey) (operatorId : String) (filter : String → Bool)
    (now : Millis) : Option OperatorSigningKey :=
  rows.find? fun row => row.operatorId = operatorId && filter row.kid &&
    row.status ∈ [.active, .retiring] && row.notAfter.all (now < ·)

/-- The stored public key under its identifier. -/
def OperatorSigningKey.jwk (row : OperatorSigningKey) : Value :=
  match row.publicJwk with
  | .object es => .object (JsonParse.setEntry es ("kid", .string row.kid))
  | _ => .object [("kid", .string row.kid)]

/-- What a signature is verified with. -/
structure VerifyCall (Key : Type) where
  publicKey : Key
  signingInput : Text
  derSig : List Byte
  /-- The part of the token with the claims. -/
  payload : Text

/-- **What a token is verified with**; there is nothing where it is refused before. -/
def verifyCall (rows : List OperatorSigningKey) (operatorId : String) (token : Text) (now : Millis) :
    Except String (Option (VerifyCall env.Key)) :=
  match token.splitOn '.' with
  | [h, p, s] =>
      match env.parseJson (env.utf8 (fromBase64Url h)) with
      | none => pure none
      | some header => do
          let kid ← property header "kid"
          let filter ← kidWhere env kid
          match findKey rows operatorId filter now with
          | none => pure none
          | some row => do
              let publicKey ← env.createPublicKey row.jwk
              let derSig ← joseToDer (fromBase64Url s)
              pure (some ⟨publicKey, h ++ '.' :: p, derSig, p⟩)
  | _ => pure none

/-- The claims of a payload, unless they are expired. -/
def claimsOf (payload : Text) (now : Millis) : Except String (Option Value) :=
  match env.parseJson (env.utf8 (fromBase64Url payload)) with
  | none => pure none
  | some claims => do
      let exp ← property claims "exp"
      match exp with
      | some (.number n) =>
          if env.numberValue n * 1000 < now then pure none else pure (some claims)
      | _ => pure (some claims)

/-- **The claims of a token**; there are none where it is refused. -/
def verifyLaunchJwt (rows : List OperatorSigningKey) (operatorId : String) (token : Text)
    (now : Millis) : Except String (Option Value) := do
  match ← verifyCall env rows operatorId token now with
  | none => pure none
  | some call =>
      let ok ← env.verify call.publicKey (env.ofUtf8 call.signingInput) call.derSig
      if !ok then pure none else claimsOf env call.payload now

theorem ok_bind {α β : Type} (a : α) (f : α → Except String β) : (.ok a >>= f) = f a := rfl

/-- A step that succeeds, and what follows it. -/
theorem bind_eq_ok {α β : Type} {x : Except String α} {f : α → Except String β} {b : β}
    (h : x >>= f = .ok b) : ∃ a, x = .ok a ∧ f a = .ok b := by
  cases x with
  | error e => cases h
  | ok a => exact ⟨a, rfl, h⟩

end YantraRgs.SigningKeys
