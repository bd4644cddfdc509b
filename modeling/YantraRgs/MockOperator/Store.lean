import Mathlib.Data.Finset.Insert
import YantraRgs.Collections.Entries
import YantraRgs.Services.CanonicalJson
import YantraRgs.Wallet.Operator

/-! # The wallets of the mock operator

The operator that stands in for a real one in development keeps its players' balances in memory, with a
ledger of the bets and wins that it booked, by their transactions.

* **`WalletStore`** — what it keeps.
* **`WalletStore.bet`**, **`win`**, **`rollback`** — what a movement does; the first two are `post`. -/

namespace YantraRgs.MockOperator

/-- A booked movement. -/
structure LedgerEntry where
  kind : TxKind
  key : Text
  amountMicro : Int
  /-- Set once a rollback has reversed it. -/
  rolledBack : Bool
  deriving DecidableEq

/-- What a movement does to the balance of its player as it is booked. -/
def LedgerEntry.delta (entry : LedgerEntry) : Int :=
  match entry.kind with
  | .bet => -entry.amountMicro
  | .win => entry.amountMicro

/-- What is left of a movement. -/
def LedgerEntry.net (entry : LedgerEntry) : Int := if entry.rolledBack then 0 else entry.delta

/-- The key of a player's wallet. -/
def keyOf (operatorId playerRef : Text) : Text := operatorId ++ ':' :: playerRef

/-- The balance that a wallet starts with. -/
def SEED_BALANCE_MICRO : Int := 1000000000

/-- The players that have a wallet from the start. -/
def SEED_PLAYERS : List Text := ["p-alice".toList, "p-bob".toList, "p-charlie".toList]

/-- **What the operator keeps**: balances, the ledger, the requests that it answered with a success, with
the balance it answered, and the rollbacks that it carried out. -/
structure WalletStore where
  wallets : AList fun _ : Text => Int
  ledger : AList fun _ : Text => LedgerEntry
  processed : AList fun _ : Text => Int
  rollbackTxs : Finset Text

/-- The outcome of a movement. -/
structure TxResult where
  status : RsStatus
  balanceMicro : Int
  deriving DecidableEq

/-- The balance once a movement is reversed: it does not fall below zero. -/
def reversedBalance (balance : Int) (original : LedgerEntry) : Int :=
  match original.kind with
  | .bet => balance + original.amountMicro
  | .win => if balance - original.amountMicro < 0 then 0 else balance - original.amountMicro

namespace WalletStore

/-- **The store at the start.** -/
def init (operatorId : Text) : WalletStore where
  wallets := SEED_PLAYERS.foldl (fun wallets p => wallets.insert (keyOf operatorId p) SEED_BALANCE_MICRO) ∅
  ledger := ∅
  processed := ∅
  rollbackTxs := ∅

variable (s : WalletStore)

/-- The balance under a key: a wallet that is not there yet is made with the balance to start with. -/
def balanceAt (key : Text) : Int := (s.wallets.lookup key).getD SEED_BALANCE_MICRO

/-- Set the balance under a key. -/
def setBalance (key : Text) (balanceMicro : Int) : WalletStore :=
  { s with wallets := s.wallets.insert key balanceMicro }

/-- The store with a wallet under a key. -/
def getOrInit (key : Text) : WalletStore :=
  if (s.wallets.lookup key).isSome then s else s.setBalance key SEED_BALANCE_MICRO

/-- Put a ledger entry. -/
def setEntry (uuid : Text) (entry : LedgerEntry) : WalletStore :=
  { s with ledger := s.ledger.insert uuid entry }

/-- Remember a request that was answered with a success. -/
def rememberRequest (requestUuid : Text) (balanceMicro : Int) : WalletStore :=
  { s with processed := s.processed.insert requestUuid balanceMicro }

/-- The balance that a remembered request was answered with. -/
def recallRequest (requestUuid : Text) : Option Int := s.processed.lookup requestUuid

/-- **Book a bet or a win**, unless `refusal` speaks against it: a transaction that is booked is not booked
again, and is a duplicate when it was another movement. -/
def post (kind : TxKind) (key transactionUuid : Text) (amountMicro : Int)
    (refusal : Int → Option RsStatus) : WalletStore × TxResult :=
  let balance := s.balanceAt key
  match s.ledger.lookup transactionUuid with
  | some existing =>
      if existing.kind ≠ kind ∨ existing.key ≠ key ∨ existing.amountMicro ≠ amountMicro then
        (s.getOrInit key, ⟨.duplicateTransaction, balance⟩)
      else (s.getOrInit key, ⟨.ok, balance⟩)
  | none =>
      match refusal balance with
      | some status => (s.getOrInit key, ⟨status, balance⟩)
      | none =>
          let entry : LedgerEntry := ⟨kind, key, amountMicro, false⟩
          ((s.setBalance key (balance + entry.delta)).setEntry transactionUuid entry,
            ⟨.ok, balance + entry.delta⟩)

/-- **A bet**: a debit that the balance covers. -/
def bet (operatorId playerRef transactionUuid : Text) (amountMicro : Int) : WalletStore × TxResult :=
  s.post .bet (keyOf operatorId playerRef) transactionUuid amountMicro fun balance =>
    if amountMicro ≤ 0 then some .wrongSyntax
    else if balance < amountMicro then some .notEnoughMoney
    else none

/-- **A win**: a credit. -/
def win (operatorId playerRef transactionUuid : Text) (amountMicro : Int) : WalletStore × TxResult :=
  s.post .win (keyOf operatorId playerRef) transactionUuid amountMicro fun _ =>
    if amountMicro < 0 then some .wrongSyntax else none

/-- **A rollback** of the movement `referenceTxUuid`. -/
def rollback (operatorId playerRef rollbackTxUuid referenceTxUuid : Text) : WalletStore × TxResult :=
  let key := keyOf operatorId playerRef
  let balance := s.balanceAt key
  if rollbackTxUuid ∈ s.rollbackTxs then (s.getOrInit key, ⟨.ok, balance⟩)
  else
    match s.ledger.lookup referenceTxUuid with
    | none => (s.getOrInit key, ⟨.transactionNotFound, balance⟩)
    | some original =>
        if original.key ≠ key then (s.getOrInit key, ⟨.transactionNotFound, balance⟩)
        else if original.rolledBack then
          ({ s.getOrInit key with rollbackTxs := insert rollbackTxUuid s.rollbackTxs }, ⟨.ok, balance⟩)
        else
          let balance := reversedBalance balance original
          ({ (s.setBalance key balance).setEntry referenceTxUuid { original with rolledBack := true } with
             rollbackTxs := insert rollbackTxUuid s.rollbackTxs }, ⟨.ok, balance⟩)

/-! ## What the store says after a step -/

@[simp] theorem balanceAt_setBalance (key k : Text) (balance : Int) :
    (s.setBalance key balance).balanceAt k = if k = key then balance else s.balanceAt k := by
  rw [balanceAt, setBalance, Entries.lookup_insert_eq]
  split <;> rfl

@[simp] theorem balanceAt_setEntry (uuid k : Text) (entry : LedgerEntry) :
    (s.setEntry uuid entry).balanceAt k = s.balanceAt k := rfl

@[simp] theorem balanceAt_rememberRequest (uuid k : Text) (balance : Int) :
    (s.rememberRequest uuid balance).balanceAt k = s.balanceAt k := rfl

/-- A wallet is made with the balance to start with. -/
@[simp] theorem balanceAt_getOrInit (key k : Text) : (s.getOrInit key).balanceAt k = s.balanceAt k := by
  rw [getOrInit]
  split
  · rfl
  · rename_i h
    rw [balanceAt_setBalance]
    split
    · rename_i hk
      rw [hk, balanceAt, Option.not_isSome_iff_eq_none.mp h]
      rfl
    · rfl

@[simp] theorem ledger_getOrInit (key : Text) : (s.getOrInit key).ledger = s.ledger := by
  rw [getOrInit]
  split <;> rfl

@[simp] theorem processed_getOrInit (key : Text) : (s.getOrInit key).processed = s.processed := by
  rw [getOrInit]
  split <;> rfl

@[simp] theorem rollbackTxs_getOrInit (key : Text) : (s.getOrInit key).rollbackTxs = s.rollbackTxs := by
  rw [getOrInit]
  split <;> rfl

/-- Every wallet at the start has the balance to start with. -/
theorem balanceAt_init (operatorId key : Text) : (init operatorId).balanceAt key = SEED_BALANCE_MICRO := by
  have hfold : ∀ (ps : List Text) (wallets : AList fun _ : Text => Int),
      (wallets.lookup key).getD SEED_BALANCE_MICRO = SEED_BALANCE_MICRO →
        ((ps.foldl (fun wallets p => wallets.insert (keyOf operatorId p) SEED_BALANCE_MICRO) wallets).lookup
          key).getD SEED_BALANCE_MICRO = SEED_BALANCE_MICRO := by
    intro ps
    induction ps with
    | nil => exact fun _ h => h
    | cons p ps ih =>
        intro wallets h
        refine ih _ ?_
        rw [Entries.lookup_insert_eq]
        split
        · rfl
        · exact h
  exact hfold SEED_PLAYERS ∅ rfl

end WalletStore

end YantraRgs.MockOperator
