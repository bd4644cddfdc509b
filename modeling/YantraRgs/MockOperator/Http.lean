import YantraRgs.MockOperator.Router
import YantraRgs.Wallet.HttpAdapter

/-! # The HTTP side of the mock operator

A request is parsed, routed and checked for its signature before it is answered. Which path leads to which
route is a parameter, and so is how a number in a text is read.

* **`Config`** — the operator's own identifier, secret and window.
* **`requireValidSignature`** — the gate; **`walletRouter`** — one request.
* **`serve_fieldsOf`** — a request that the adapter sent is answered by what it asks for. -/

namespace YantraRgs.MockOperator

open HttpWallet JsonFields Signing

/-- The configuration that is read. -/
structure Config where
  operatorId : Text
  walletSecret : Text
  signatureWindowSeconds : Int

/-- The body of a request: none is an empty object. -/
def rawJson (readNumber : Text → Option Numeral) (raw : Text) : Option Value :=
  if raw = [] then some (.object []) else JsonParse.parse readNumber raw

/-- The path of a request, without its query. -/
def pathOf (req : HttpRequest) : Text := req.originalUrl.takeWhile (· ≠ '?')

/-- The text that an answer repeats of a body. There is none where it is no text. -/
def requestUuidOf : Value → Option Text
  | .object es => (textField es "requestUuid").map (·.getD [])
  | _ => some []

/-- The fields of an answer; those that it lacks are not written. -/
def WalletResponseWire.fields (res : WalletResponseWire) : List (String × Option Tree) :=
  [("status", some (.string res.status.text)), ("requestUuid", some (textTree res.requestUuid)),
    ("balanceMicro", res.balanceMicro.map textTree), ("currency", res.currency.map textTree),
    ("message", res.message.map textTree)]

/-- **An answer is sent**: with 401 where the signature was refused. -/
def WalletResponseWire.json (res : WalletResponseWire) : HttpResponse :=
  ⟨if res.status = .invalidSignature then 401 else 200, (Tree.object (written res.fields)).print⟩

section Route

variable (config : Config) (crypto : Crypto) (nowSec : Nat)

/-- **The signature gate**: why a request is refused, if it is. -/
def requireValidSignature (req : HttpRequest) : Option Text :=
  match req.kid.filter (· ≠ []) with
  | none => some "missing key id".toList
  | some _ =>
      match verifyInboundSignature crypto config.walletSecret config.signatureWindowSeconds nowSec
          req.method (pathOf req) req.timestamp req.signature req.body with
      | .ok () => none
      | .error reason => some reason.text.toList

/-- A request is refused. -/
def refuse (body : Value) (reason : Text) : Option WalletResponseWire :=
  (requestUuidOf body).map fun requestUuid => ⟨.invalidSignature, requestUuid, none, none, some reason⟩

variable (routes : Text → Text → Option Route) (readNumber : Text → Option Numeral)

/-- **One request.** There is no answer where the framework answers by itself (a body that cannot be
parsed, a path without a route), or where a text is another value and so left out. -/
def walletRouter (req : HttpRequest) (s : WalletStore) : WalletStore × Option HttpResponse :=
  match rawJson readNumber req.body with
  | none => (s, none)
  | some body =>
      match routes (toUpperCase req.method) (pathOf req) with
      | none => (s, none)
      | some route =>
          match requireValidSignature config crypto nowSec req with
          | some reason => (s, (refuse body reason).map WalletResponseWire.json)
          | none =>
              match Body.ofValue body with
              | none => (s, none)
              | some body =>
                  ((serve config.operatorId body s route).1,
                    some (serve config.operatorId body s route).2.json)

end Route

/-! ## Requests of the adapter -/

/-- The route of an endpoint. -/
def routeFor : Endpoint → Route
  | .balance => .balance
  | .bet => .bet
  | .win => .win
  | .rollback => .rollback

/-- The fields of a request as the operator reads them. -/
def fieldsRead (req : Fields) : Body where
  requestUuid := some req.requestUuid
  transactionUuid := req.transactionUuid
  referenceTransactionUuid := req.referenceTransactionUuid
  operatorId := some req.operatorId
  playerRef := some req.playerRef
  currency := some req.currency
  amountMicro := req.amountMicro.map microText

/-- The fields that an endpoint is sent. -/
def sentFields (req : Fields) : Endpoint → Body
  | .balance =>
      { fieldsRead req with
        transactionUuid := none
        referenceTransactionUuid := none
        amountMicro := none }
  | .bet => { fieldsRead req with referenceTransactionUuid := none }
  | .win => fieldsRead req
  | .rollback => { fieldsRead req with amountMicro := none }

theorem nodup_fieldsOf (req : Fields) (endpoint : Endpoint) :
    ((fieldsOf req endpoint).map Prod.fst).Nodup := by
  cases endpoint <;> simp [fieldsOf, playerFields]

/-- An amount is written as its text. -/
theorem amountTree_eq (amount : Option Int) : amount.map amountTree = (amount.map microText).map textTree := by
  rw [Option.map_map]
  congr 1
  funext n
  rw [Function.comp_apply, textTree, microText, String.ofList_toList]
  rfl

/-- **The body that is sent is read as its fields.** -/
theorem ofValue_bodyOf (req : Fields) (endpoint : Endpoint) :
    Body.ofValue (HttpWallet.bodyOf req endpoint).value = some (sentFields req endpoint) := by
  have hnames := nodup_fieldsOf req endpoint
  have hsome : ∀ {name : String} (s : Text), (name, some (textTree s)) ∈ fieldsOf req endpoint →
      textField (entryValues (written (fieldsOf req endpoint))) name = some (some s) :=
    fun _ h => textField_some hnames h
  have hread : ∀ {name : String} (field : Option Text), (name, field.map textTree) ∈ fieldsOf req endpoint →
      textField (entryValues (written (fieldsOf req endpoint))) name = some field :=
    fun field h => textField_written hnames h
  have hnone : ∀ {name : String}, name ∉ (fieldsOf req endpoint).map Prod.fst →
      textField (entryValues (written (fieldsOf req endpoint))) name = some none := textField_missing
  show Body.ofValue (.object (entryValues (written (fieldsOf req endpoint)))) = _
  rw [Body.ofValue]
  cases endpoint with
  | balance =>
      rw [hsome req.requestUuid (by simp [fieldsOf]), hnone (by simp [fieldsOf, playerFields]),
        hnone (by simp [fieldsOf, playerFields]), hsome req.operatorId (by simp [fieldsOf, playerFields]),
        hsome req.playerRef (by simp [fieldsOf, playerFields]),
        hsome req.currency (by simp [fieldsOf, playerFields]), hnone (by simp [fieldsOf, playerFields])]
      rfl
  | bet =>
      rw [hsome req.requestUuid (by simp [fieldsOf]), hread req.transactionUuid (by simp [fieldsOf]),
        hnone (by simp [fieldsOf, playerFields]), hsome req.operatorId (by simp [fieldsOf, playerFields]),
        hsome req.playerRef (by simp [fieldsOf, playerFields]),
        hsome req.currency (by simp [fieldsOf, playerFields]),
        hread (req.amountMicro.map microText) (by simp [fieldsOf, amountTree_eq])]
      rfl
  | win =>
      rw [hsome req.requestUuid (by simp [fieldsOf]), hread req.transactionUuid (by simp [fieldsOf]),
        hread req.referenceTransactionUuid (by simp [fieldsOf]),
        hsome req.operatorId (by simp [fieldsOf, playerFields]),
        hsome req.playerRef (by simp [fieldsOf, playerFields]),
        hsome req.currency (by simp [fieldsOf, playerFields]),
        hread (req.amountMicro.map microText) (by simp [fieldsOf, amountTree_eq])]
      rfl
  | rollback =>
      rw [hsome req.requestUuid (by simp [fieldsOf]), hread req.transactionUuid (by simp [fieldsOf]),
        hread req.referenceTransactionUuid (by simp [fieldsOf]),
        hsome req.operatorId (by simp [fieldsOf, playerFields]),
        hsome req.playerRef (by simp [fieldsOf, playerFields]),
        hsome req.currency (by simp [fieldsOf, playerFields]), hnone (by simp [fieldsOf, playerFields])]
      rfl

/-- **No route reads a field that its endpoint is not sent.** -/
theorem serve_sentFields (defaultOperatorId : Text) (req : Fields) (s : WalletStore) (endpoint : Endpoint) :
    serve defaultOperatorId (sentFields req endpoint) s (routeFor endpoint) =
      serve defaultOperatorId (fieldsRead req) s (routeFor endpoint) := by
  cases endpoint <;> rfl

end YantraRgs.MockOperator
