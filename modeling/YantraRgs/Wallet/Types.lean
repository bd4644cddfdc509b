import Mathlib.Data.Rat.Defs

/-! # The wallet contract between the game server and the operator

Statuses, requests and responses of the four outbound wallet calls. Money is integer micro-units.

* **`RsStatus`** with `isRejectStatus` and `isSuccessOrDuplicate` — how a caller reads an answer.
* **`Uuid`** — a generated identifier. Generated identifiers never repeat; the model draws them from
  one counter and notes which call drew them, and what for.
* **`WalletRequest`** — one outbound request; `WalletResponse` — what the caller gets back. -/

namespace YantraRgs

/-- An operator's identifier. -/
abbrev OperatorId := Nat

/-- A game code. -/
abbrev GameCode := Nat

/-- A currency code. -/
abbrev Currency := Nat

/-- Milliseconds, as `Date.now()` counts them. -/
abbrev Millis := Nat

/-- What an identifier is generated for. -/
inductive UuidUse
  | request
  /-- The transaction that takes a stake. -/
  | stake
  /-- The transaction that pays a win. -/
  | credit
  /-- The transaction that takes a stake back. -/
  | refund
  deriving DecidableEq

/-- A **generated identifier**: its serial number, which call drew it, and what for. -/
structure Uuid where
  use : UuidUse
  /-- The call that drew it. -/
  owner : Nat
  /-- Its place in the sequence of all drawn identifiers. -/
  serial : Nat
  deriving DecidableEq

/-- An opaque player reference. The server itself uses one per game and currency for the sessions
of its engines; `named` covers every other text. -/
inductive PlayerRef
  | named (text : String)
  | engine (gameCode : GameCode) (currency : Currency)
  deriving DecidableEq

/-- The text of a player reference. -/
def PlayerRef.text : PlayerRef → String
  | .named text => text
  | .engine g c => "__engine__:" ++ toString g ++ ":" ++ toString c

/-- The player reference as other players see it. -/
def maskPlayerRef (playerRef : PlayerRef) : String :=
  let cs := playerRef.text.toList
  if cs.length ≤ 4 then String.ofList (cs.take 1) ++ "***"
  else String.ofList (cs.take 3) ++ "***" ++ String.ofList (cs.drop (cs.length - 1))

/-- Status codes returned by the operator's wallet, or by the caller itself on a timeout. -/
inductive RsStatus
  | ok
  | unknown
  | invalidToken
  | invalidSignature
  | invalidPartner
  | notEnoughMoney
  | userDisabled
  | tokenExpired
  | wrongCurrency
  | wrongSyntax
  | wrongTypes
  | duplicateTransaction
  | transactionNotFound
  | limitReached
  | timeout
  /-- A text outside the contract. -/
  | unrecognised (text : String)
  deriving DecidableEq

/-- The code as it stands on the wire. -/
def RsStatus.text : RsStatus → String
  | .ok => "RS_OK"
  | .unknown => "RS_ERROR_UNKNOWN"
  | .invalidToken => "RS_ERROR_INVALID_TOKEN"
  | .invalidSignature => "RS_ERROR_INVALID_SIGNATURE"
  | .invalidPartner => "RS_ERROR_INVALID_PARTNER"
  | .notEnoughMoney => "RS_ERROR_NOT_ENOUGH_MONEY"
  | .userDisabled => "RS_ERROR_USER_DISABLED"
  | .tokenExpired => "RS_ERROR_TOKEN_EXPIRED"
  | .wrongCurrency => "RS_ERROR_WRONG_CURRENCY"
  | .wrongSyntax => "RS_ERROR_WRONG_SYNTAX"
  | .wrongTypes => "RS_ERROR_WRONG_TYPES"
  | .duplicateTransaction => "RS_ERROR_DUPLICATE_TRANSACTION"
  | .transactionNotFound => "RS_ERROR_TRANSACTION_DOES_NOT_EXIST"
  | .limitReached => "RS_ERROR_LIMIT_REACHED"
  | .timeout => "RS_ERROR_TIMEOUT"
  | .unrecognised text => text

/-- Errors on which a bet is cleanly rejected, with no rollback. -/
def isRejectStatus : RsStatus → Bool
  | .notEnoughMoney | .limitReached | .userDisabled => true
  | _ => false

/-- The operator has the transaction: a success, or it already had it. -/
def isSuccessOrDuplicate : RsStatus → Bool
  | .ok | .duplicateTransaction => true
  | _ => false

/-- No status is both a success and a clean rejection. -/
theorem isRejectStatus_of_isSuccessOrDuplicate {s : RsStatus} (h : isSuccessOrDuplicate s = true) :
    isRejectStatus s = false := by
  cases s <;> first | rfl | cases h

/-- The endpoints of the operator's wallet. -/
inductive WalletEndpoint
  | balance
  | bet
  | win
  | rollback
  | endRound
  deriving DecidableEq

/-- An outbound wallet request. `transactionUuid` is absent on a balance request,
`referenceTransactionUuid` also on a bet, and `amountMicro` also on a rollback. -/
structure WalletRequest where
  endpoint : WalletEndpoint
  requestUuid : Uuid
  transactionUuid : Option Uuid
  referenceTransactionUuid : Option Uuid
  operatorId : OperatorId
  playerRef : PlayerRef
  currency : Currency
  gameCode : GameCode
  amountMicro : Option Int
  roundId : Option Nat
  deriving DecidableEq

/-- What a wallet call hands back to its caller. -/
structure WalletResponse where
  status : RsStatus
  requestUuid : Uuid
  balanceMicro : Option Int
  message : Option String
  deriving DecidableEq

/-- Why a wallet call did not succeed: its message, or else its status. -/
def WalletResponse.lastError (res : WalletResponse) : String := res.message.getD res.status.text

end YantraRgs
