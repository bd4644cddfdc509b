import YantraRgs.Db.Jsonb
import YantraRgs.Db.Table
import YantraRgs.Games.KetapolaDice
import YantraRgs.Services.SigningKeys

/-! # The rotation of signing keys

An operator's launch tokens are signed with its newest active key, which is made when there is none. A
rotation lets that key verify for a grace period more, and makes a new one.

* **`getActiveSigningKey`** — the key that signs.
* **`rotateSigningKey`** — a rotation.
* **`Operation.apply`** — a signing, a verification or a rotation; **`perform`** — one after another.

The private part of a key is stored encrypted, and the public part in a JSON column. -/

namespace YantraRgs.SigningKeys

/-! ## Key pairs -/

inductive SigningAlgorithm
  | es256
  | rs256
  deriving DecidableEq

def SigningAlgorithm.text : SigningAlgorithm → String
  | .es256 => "ES256"
  | .rs256 => "RS256"

/-- A key as it is exported: texts under different names. -/
structure ExportedJwk where
  members : List (String × String)
  distinct : (members.map Prod.fst).Nodup

/-- An exported pair of keys. -/
structure ExportedPair where
  publicKey : ExportedJwk
  privateKey : ExportedJwk

/-- The members of an object whose values are texts. -/
def texts (es : List (String × String)) : List (String × Value) := es.map fun e => (e.1, .string e.2)

/-- An exported key with some members set. -/
def ExportedJwk.withMembers (jwk : ExportedJwk) (es : List (String × String)) : Value :=
  .object ((texts es).foldl JsonParse.setEntry (texts jwk.members))

/-- Those members of an exported key that it has. -/
def ExportedJwk.present (jwk : ExportedJwk) (names : List String) : List (String × String) :=
  names.filterMap fun name => (jwk.members.lookup name).map fun text => (name, text)

/-- The two parts of a key. -/
structure KeyPair where
  publicJwk : Value
  privateJwk : Value

/-- **What keys are made and stored with.** -/
structure KeyEnv extends Env where
  /-- What the making of a pair draws. -/
  Seed : Type
  generateEc : Seed → ExportedPair
  generateRsa : Seed → ExportedPair
  encryptSecret : Vector Byte 12 → Text → List Byte
  decryptSecret : List Byte → Except String Text

variable (env : KeyEnv)

/-- A pair on the curve P-256. -/
def generateEs256Pair (kid : String) (seed : env.Seed) : KeyPair :=
  let pair := env.generateEc seed
  { publicJwk := .object (texts
      ([("kty", (pair.publicKey.members.lookup "kty").getD "EC"), ("use", "sig"), ("alg", "ES256"),
        ("kid", kid)] ++ pair.publicKey.present ["crv", "x", "y"]))
    privateJwk := pair.privateKey.withMembers [("kid", kid), ("alg", "ES256"), ("use", "sig")] }

/-- A pair of 2048 bits. -/
def generateRs256Pair (kid : String) (seed : env.Seed) : KeyPair :=
  let pair := env.generateRsa seed
  { publicJwk := pair.publicKey.withMembers [("kid", kid), ("alg", "RS256"), ("use", "sig")]
    privateJwk := pair.privateKey.withMembers [("kid", kid), ("alg", "RS256"), ("use", "sig")] }

/-! ## The table of keys -/

/-- A stored key. -/
structure KeyRow extends OperatorSigningKey where
  privateJwkCipher : List Byte
  createdAt : Millis

/-- What is drawn for a new key. -/
structure KeyDraw where
  bytes : Vector Byte 8
  seed : env.Seed
  iv : Vector Byte 12

variable {env}

/-- The identifier of a new key. -/
def KeyDraw.kid (draw : KeyDraw env) : String :=
  String.ofList ("osk_".toList ++ KetapolaDice.hexOf draw.bytes.toList)

variable (env)

/-- The row of a new key. -/
def newRow (operatorId : String) (algorithm : SigningAlgorithm) (kid : String) (pair : KeyPair)
    (iv : Vector Byte 12) (now : Millis) : KeyRow where
  operatorId := operatorId
  kid := kid
  algorithm := algorithm.text
  publicJwk := jsonb .byLength pair.publicJwk
  status := .active
  notAfter := none
  privateJwkCipher := env.encryptSecret iv (env.stringifyJson pair.privateJwk)
  createdAt := now

/-- A row joins the table, unless its key identifier is taken. -/
def create (keys : List KeyRow) (row : KeyRow) : Except String (List KeyRow) :=
  if keys.any fun other => other.kid = row.kid then .error "P2002" else .ok (keys ++ [row])

/-- Whether a query for the newest row that satisfies `p` may hand out `found`; rows of one time come in
any order. -/
def findsNewest (keys : List KeyRow) (p : KeyRow → Bool) : Option Nat → Bool
  | some n => keys[n]?.any fun row =>
      p row && keys.all fun other => !p other || other.createdAt ≤ row.createdAt
  | none => !keys.any p

/-- The keys that sign for an operator. -/
def signs (operatorId : String) (algorithm : SigningAlgorithm) (now : Millis) (row : KeyRow) : Bool :=
  row.operatorId = operatorId && row.status = .active && row.notAfter.all (now < ·) &&
    row.algorithm = algorithm.text

/-- The keys that a rotation replaces. -/
def replaced (operatorId : String) (algorithm : SigningAlgorithm) (row : KeyRow) : Bool :=
  row.operatorId = operatorId && row.status = .active && row.algorithm = algorithm.text

/-- A stored key, ready to sign. -/
def KeyRow.activeKey (row : KeyRow) : Except String ActiveKey := do
  let text ← env.decryptSecret row.privateJwkCipher
  match env.parseJson text with
  | none => .error "SyntaxError"
  | some privateJwk => pure ⟨row.kid, row.algorithm, privateJwk⟩

/-- **The key that signs** and the table after it: the newest active key, or a new one where the query
finds none. -/
def getActiveSigningKey (keys : List KeyRow) (operatorId : String) (algorithm : SigningAlgorithm)
    (now : Millis) (found : Option Nat) (draw : KeyDraw env) :
    Except String ActiveKey × List KeyRow :=
  match found.bind (keys[·]?) with
  | some existing => (existing.activeKey env, keys)
  | none =>
      let kid := draw.kid
      let pair := match algorithm with
        | .es256 => generateEs256Pair env kid draw.seed
        | .rs256 => generateRs256Pair env kid draw.seed
      match create keys (newRow env operatorId algorithm kid pair draw.iv now) with
      | .error e => (.error e, keys)
      | .ok keys => (.ok ⟨kid, algorithm.text, pair.privateJwk⟩, keys)

/-- The end of a key that was replaced. -/
def KeyRow.retire (row : KeyRow) (notAfter : Millis) : KeyRow :=
  { row with status := .retiring, notAfter := some notAfter }

/-- **A rotation**: the key that the query found verifies for the grace period more, and a new one is
made. The new pair is on the curve whatever the algorithm. -/
def rotateSigningKey (keys : List KeyRow) (operatorId : String) (algorithm : SigningAlgorithm)
    (graceMs now : Millis) (found : Option Nat) (draw : KeyDraw env) :
    Except String (List KeyRow) :=
  let retired := match found with
    | some n => keys.modify n (·.retire (now + graceMs))
    | none => keys
  let kid := draw.kid
  create retired
    (newRow env operatorId algorithm kid (generateEs256Pair env kid draw.seed) draw.iv now)

/-! ## Operations -/

/-- The claims that a caller hands over. -/
structure Payload where
  entries : List (String × Value)
  isJson : (Value.object entries).isJson = true

/-- A token that was handed out. -/
structure Issued where
  operatorId : String
  token : Text
  payload : Payload
  expiresInSec : Int
  issuedAt : Millis

/-- When a token expires, in seconds. -/
def Issued.exp (t : Issued) : Int := (t.issuedAt / 1000 : Nat) + t.expiresInSec

/-- The claims of a token. -/
def Issued.claims (t : Issued) : Value :=
  .object (JsonParse.setEntry
    (JsonParse.setEntry t.payload.entries ("iat", .number (.ofInt (t.issuedAt / 1000 : Nat))))
      ("exp", .number (.ofInt t.exp)))

/-- The table of keys at a time, and the tokens that were handed out. -/
structure KeyState where
  now : Millis
  keys : List KeyRow
  issued : List Issued

/-- No keys yet. -/
def KeyState.initial (now : Millis) : KeyState := ⟨now, [], []⟩

/-- What a verification looks at. -/
def KeyState.rows (s : KeyState) : List OperatorSigningKey := s.keys.map KeyRow.toOperatorSigningKey

/-- The operations, with what their queries find and draw. -/
inductive Operation
  | wait (ms : Millis)
  | sign (operatorId : String) (payload : Payload) (expiresInSec : Int) (found : Option Nat)
      (draw : KeyDraw env)
  | verify (operatorId : String) (token : Text)
  | rotate (operatorId : String) (algorithm : SigningAlgorithm) (found : Option Nat)
      (draw : KeyDraw env)

variable {env}

/-- **One operation.** One that fails leaves what its database calls have written: the transaction of a
rotation nothing, a signing the new key. -/
def Operation.apply (graceMs : Millis) (s : KeyState) : Operation env → Option KeyState
  | .wait ms => some { s with now := s.now + ms }
  | .sign operatorId payload expiresInSec found draw =>
      if findsNewest s.keys (signs operatorId .es256 s.now) found then
        let (key, keys) := getActiveSigningKey env s.keys operatorId .es256 s.now found draw
        match key.bind fun key => signLaunchJwt env.toEnv key payload.entries expiresInSec s.now with
        | .error _ => some { s with keys }
        | .ok token =>
            some { s with
              keys
              issued := s.issued ++ [⟨operatorId, token, payload, expiresInSec, s.now⟩] }
      else none
  | .verify _ _ => some s
  | .rotate operatorId algorithm found draw =>
      if findsNewest s.keys (replaced operatorId algorithm) found then
        match rotateSigningKey env s.keys operatorId algorithm graceMs s.now found draw with
        | .error _ => some s
        | .ok keys => some { s with keys }
      else none

/-- Operations, one after another. -/
def perform (graceMs : Millis) : KeyState → List (Operation env) → Option KeyState
  | s, [] => some s
  | s, op :: ops => (op.apply graceMs s).bind fun s' => perform graceMs s' ops

end YantraRgs.SigningKeys
