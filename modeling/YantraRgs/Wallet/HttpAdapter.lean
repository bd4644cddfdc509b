import YantraRgs.Services.JsonFields
import YantraRgs.Text.Integer
import YantraRgs.Wallet.Signing
import YantraRgs.Wallet.Types

/-! # Wallet calls over HTTP

The adapter that calls an operator's wallet sends each request as a signed JSON text, and reads the status
and the fields of the answer.

* **`HttpRequest`**, **`HttpResponse`** — what goes over the wire.
* **`BalanceRequest`** and the others are one type, **`Fields`**; **`bodyOf`** says which of them each endpoint
  sends.
* **`HttpWalletAdapter.send`** — the signed request; **`HttpWalletAdapter.receive`** — what comes of an
  answer, or of none.
* **`parse_body`** — the body is read back. -/

namespace YantraRgs

/-- The statuses of the contract. -/
def RsStatus.all : List RsStatus :=
  [.ok, .unknown, .invalidToken, .invalidSignature, .invalidPartner, .notEnoughMoney, .userDisabled,
    .tokenExpired, .wrongCurrency, .wrongSyntax, .wrongTypes, .duplicateTransaction, .transactionNotFound,
    .limitReached, .timeout]

/-- The status that a text stands for. -/
def RsStatus.ofText (text : String) : RsStatus :=
  (RsStatus.all.find? (·.text = text)).getD (.unrecognised text)

/-- A status of the contract is read back. -/
theorem RsStatus.ofText_text : ∀ status ∈ RsStatus.all, RsStatus.ofText status.text = status := by decide

namespace HttpWallet

open JsonFields Signing

/-- A request, with the headers of the signature. -/
structure HttpRequest where
  method : Text
  originalUrl : Text
  kid : Option Text
  timestamp : Option Text
  signature : Option Text
  body : Text
  deriving DecidableEq

/-- An answer. -/
structure HttpResponse where
  status : Nat
  body : Text
  deriving DecidableEq

/-- The endpoints that are called. -/
inductive Endpoint
  | balance
  | bet
  | win
  | rollback
  deriving DecidableEq

/-- The last part of an endpoint's path. -/
def Endpoint.text : Endpoint → Text
  | .balance => "balance".toList
  | .bet => "bet".toList
  | .win => "win".toList
  | .rollback => "rollback".toList

/-- **What a caller asks for.** Each endpoint has some of the fields. -/
structure Fields where
  requestUuid : Text
  transactionUuid : Option Text
  referenceTransactionUuid : Option Text
  operatorId : Text
  playerRef : Text
  currency : Text
  gameCode : Text
  amountMicro : Option Int
  roundId : Option Text
  isFree : Option Bool
  /-- The entries of `meta`. -/
  extra : Option (List (String × Tree))

/-- The decimal text of an amount. -/
def amountTree (n : Int) : Tree := .string (toString n)

/-- The fields that name the player and the game. -/
def playerFields (req : Fields) : List (String × Option Tree) :=
  [("operatorId", some (textTree req.operatorId)), ("playerRef", some (textTree req.playerRef)),
    ("currency", some (textTree req.currency)), ("gameCode", some (textTree req.gameCode))]

/-- **What is sent** to an endpoint. -/
def fieldsOf (req : Fields) : Endpoint → List (String × Option Tree)
  | .balance => ("requestUuid", some (textTree req.requestUuid)) :: playerFields req
  | .bet =>
      [("requestUuid", some (textTree req.requestUuid)),
        ("transactionUuid", req.transactionUuid.map textTree)] ++ playerFields req ++
      [("amountMicro", req.amountMicro.map amountTree), ("roundId", req.roundId.map textTree),
        ("isFree", some (.bool (req.isFree.getD false))), ("meta", some (.object (req.extra.getD [])))]
  | .win =>
      [("requestUuid", some (textTree req.requestUuid)),
        ("transactionUuid", req.transactionUuid.map textTree),
        ("referenceTransactionUuid", req.referenceTransactionUuid.map textTree)] ++ playerFields req ++
      [("amountMicro", req.amountMicro.map amountTree), ("roundId", req.roundId.map textTree),
        ("meta", some (.object (req.extra.getD [])))]
  | .rollback =>
      [("requestUuid", some (textTree req.requestUuid)),
        ("transactionUuid", req.transactionUuid.map textTree),
        ("referenceTransactionUuid", req.referenceTransactionUuid.map textTree)] ++ playerFields req ++
      [("roundId", req.roundId.map textTree), ("meta", some (.object (req.extra.getD [])))]

/-- **The body of a request** to an endpoint. -/
def bodyOf (req : Fields) (endpoint : Endpoint) : Tree := .object (written (fieldsOf req endpoint))

/-- **The adapter of an operator.** -/
structure HttpWalletAdapter where
  kid : Text
  secret : Text
  /-- The path of the operator's wallet, without a slash at its end. -/
  basePath : Text

/-- What a caller gets. -/
structure WalletReply where
  status : RsStatus
  requestUuid : Text
  balanceMicro : Option Int
  currency : Option Text
  message : Option Text
  deriving DecidableEq

/-- How a call over the network ends. -/
inductive Outcome
  | answered (res : HttpResponse)
  /-- The caller waited too long. -/
  | aborted
  | failed

namespace HttpWalletAdapter

variable (adapter : HttpWalletAdapter) (crypto : Crypto)

/-- The path of an endpoint on the operator's host. -/
def path (endpoint : Endpoint) : Text := adapter.basePath ++ '/' :: endpoint.text

/-- The message that a request is signed as. -/
def message (nowSec : Nat) (endpoint : Endpoint) (req : Fields) : Message :=
  ⟨"POST".toList, adapter.path endpoint, .text (Nat.toDigits 10 nowSec), (bodyOf req endpoint).print⟩

/-- **The request that is sent.** -/
def send (nowSec : Nat) (endpoint : Endpoint) (req : Fields) : HttpRequest :=
  let m := adapter.message nowSec endpoint req
  ⟨m.method, m.path, some adapter.kid, some m.timestamp.toText,
    some (signPayload crypto adapter.secret m), m.body⟩

/-- An answer without a balance. -/
def failure (status : RsStatus) (requestUuid : Text) (message : String) : WalletReply :=
  ⟨status, requestUuid, none, none, some message.toList⟩

variable (readNumber : Text → Option Numeral)

/-- **What comes of a call.** A field of an answer that is none of its texts is left out. -/
def receive (requestUuid : Text) : Outcome → Option WalletReply
  | .answered res =>
      if 500 ≤ res.status then
        some (failure .unknown requestUuid ("operator_5xx_" ++ toString res.status))
      else
        match JsonParse.parse readNumber res.body with
        | none => some (failure .unknown requestUuid "invalid_json_response")
        -- reading a field of `null` throws
        | some .null => some (failure .unknown requestUuid "network_error")
        | some (.object es) => do
            let status ← textField es "status"
            let uuid ← textField es "requestUuid"
            let message ← textField es "message"
            some {
              status := (status.map fun s => RsStatus.ofText (String.ofList s)).getD .unknown
              requestUuid := uuid.getD requestUuid
              balanceMicro := (stringField es "balanceMicro").bind BigInt.ofText
              currency := stringField es "currency"
              message := message }
        | some _ => some ⟨.unknown, requestUuid, none, none, none⟩
  | .aborted => some (failure .timeout requestUuid "timeout")
  | .failed => some (failure .unknown requestUuid "network_error")

end HttpWalletAdapter

/-! ## The body is read back -/

section Reading

variable {readNumber : Text → Option Numeral}

/-- What `meta` holds is read as it prints. -/
def Fields.Readable (readNumber : Text → Option Numeral) (req : Fields) : Prop :=
  (Tree.object (req.extra.getD [])).Readable readNumber

/-- Texts, amounts, flags and `meta` are readable. -/
theorem readable_fieldsOf {req : Fields} (h : req.Readable readNumber) (endpoint : Endpoint) :
    ∀ field ∈ fieldsOf req endpoint, ∀ value ∈ field.2, value.Readable readNumber := by
  have htext : ∀ (field : Option Text), ∀ value ∈ field.map textTree, value.Readable readNumber := by
    intro field value hvalue
    obtain ⟨s, -, rfl⟩ := Option.map_eq_some_iff.mp hvalue
    exact trivial
  have hamount : ∀ value ∈ req.amountMicro.map amountTree, value.Readable readNumber := by
    intro value hvalue
    obtain ⟨n, -, rfl⟩ := Option.map_eq_some_iff.mp hvalue
    exact trivial
  have hsome : ∀ {tree : Tree}, tree.Readable readNumber →
      ∀ value ∈ some tree, value.Readable readNumber := by
    rintro tree htree value hvalue
    obtain rfl := Option.some.inj hvalue
    exact htree
  intro field hfield
  cases endpoint <;>
    simp only [fieldsOf, playerFields, List.cons_append, List.nil_append, List.mem_cons,
      List.not_mem_nil, or_false] at hfield
  case balance =>
    rcases hfield with rfl | rfl | rfl | rfl | rfl <;> exact hsome trivial
  case bet =>
    rcases hfield with rfl | rfl | rfl | rfl | rfl | rfl | rfl | rfl | rfl | rfl <;>
      first | exact hsome trivial | exact htext _ | exact hamount | exact hsome h
  case win =>
    rcases hfield with rfl | rfl | rfl | rfl | rfl | rfl | rfl | rfl | rfl | rfl <;>
      first | exact hsome trivial | exact htext _ | exact hamount | exact hsome h
  case rollback =>
    rcases hfield with rfl | rfl | rfl | rfl | rfl | rfl | rfl | rfl | rfl <;>
      first | exact hsome trivial | exact htext _ | exact hsome h

/-- **The text of a body is read back.** -/
theorem parse_body {req : Fields} (h : req.Readable readNumber) (endpoint : Endpoint) :
    JsonParse.parse readNumber (bodyOf req endpoint).print = some (bodyOf req endpoint).value := by
  refine JsonParse.parse_print (readable_written ?_ (readable_fieldsOf h endpoint))
  cases endpoint <;> simp [fieldsOf, playerFields]

end Reading

end HttpWallet

end YantraRgs
