import YantraRgs.Wallet.Types

/-! # The operator's side of the wallet

The operator keeps one ledger entry per transaction it booked. It books a transaction at most once,
reverses an entry at most once, and says `RS_ERROR_TRANSACTION_DOES_NOT_EXIST` only about a
transaction it has not booked. Whether it books a new request, and what it answers where the
contract leaves it a choice (an internal error after booking, say), is a **verdict**. -/

namespace YantraRgs

/-- What a ledger entry moved. -/
inductive TxKind
  | bet
  | win
  deriving DecidableEq

/-- A booked transaction. -/
structure LedgerEntry where
  kind : TxKind
  transactionUuid : Uuid
  referenceTransactionUuid : Option Uuid
  playerRef : PlayerRef
  amountMicro : Int
  rolledBack : Bool
  deriving DecidableEq

/-- What the entry does to its player's balance. -/
def LedgerEntry.net (entry : LedgerEntry) : Int :=
  if entry.rolledBack then 0
  else match entry.kind with
    | .bet => -entry.amountMicro
    | .win => entry.amountMicro

/-- The ledger of an operator, oldest entry first. -/
abbrev Ledger := List LedgerEntry

/-- The operator's choice for one delivered request. -/
structure Verdict where
  /-- Whether it carries the request out. -/
  book : Bool
  /-- What it answers. -/
  status : RsStatus
  balanceMicro : Option Int
  deriving DecidableEq

namespace Ledger

/-- Whether a transaction is booked. -/
def booked (ledger : Ledger) (uuid : Uuid) : Bool :=
  ledger.any fun entry => entry.transactionUuid = uuid

/-- Whether a booked transaction was reversed. -/
def reversed (ledger : Ledger) (uuid : Uuid) : Bool :=
  ledger.any fun entry => entry.transactionUuid = uuid ∧ entry.rolledBack

/-- Mark a transaction as reversed. -/
def reverse (ledger : Ledger) (uuid : Uuid) : Ledger :=
  ledger.map fun entry =>
    if entry.transactionUuid = uuid then { entry with rolledBack := true } else entry

/-- Carry out a bet or a win: a booked transaction is not booked again. -/
def post (ledger : Ledger) (kind : TxKind) (uuid : Uuid) (req : WalletRequest) (v : Verdict) :
    Option Ledger :=
  if ledger.booked uuid then
    if isRejectStatus v.status ∨ v.status = .transactionNotFound then none else some ledger
  else if v.book then
    if isRejectStatus v.status ∨ v.status = .transactionNotFound then none
    else some (ledger ++ [⟨kind, uuid, req.referenceTransactionUuid, req.playerRef,
      req.amountMicro.getD 0, false⟩])
  else if isSuccessOrDuplicate v.status then none
  else some ledger

/-- Carry out a rollback of the transaction `reference`. -/
def rollback (ledger : Ledger) (reference : Uuid) (v : Verdict) : Option Ledger :=
  if ledger.booked reference then
    if v.status = .transactionNotFound then none
    else if v.book then some (ledger.reverse reference)
    else if isSuccessOrDuplicate v.status ∧ ¬ ledger.reversed reference then none
    else some ledger
  else if isSuccessOrDuplicate v.status then none
  else some ledger

/-- **One delivered request**: the ledger after it, or `none` when the verdict is not one the
contract allows. -/
def process (ledger : Ledger) (req : WalletRequest) (v : Verdict) : Option Ledger :=
  match req.endpoint, req.transactionUuid with
  | .bet, some uuid => ledger.post .bet uuid req v
  | .win, some uuid => ledger.post .win uuid req v
  | .rollback, some _ =>
      match req.referenceTransactionUuid with
      | some reference => ledger.rollback reference v
      | none => some ledger
  | _, _ => some ledger

end Ledger

end YantraRgs
