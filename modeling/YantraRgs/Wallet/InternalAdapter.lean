import Mathlib.Algebra.Group.Pi.Lemmas
import YantraRgs.Services.CanonicalJson
import YantraRgs.Wallet.Reversals
import YantraRgs.Wallet.Types

/-! # The internal wallet

The wallet that lives in the server's memory, for demos and development: a balance for every player,
and the transactions that took effect, by their identifiers.

* **`Adapter`** — what the wallet keeps.
* **`Adapter.serve`** — one call.
* **`Adapter.after`** — a run of calls. -/

namespace YantraRgs.InternalWallet

/-- The identifier of an operator: a text without colons. -/
structure OperatorUuid where
  text : Text
  colon_notMem : ':' ∉ text
  deriving DecidableEq

/-- A player of an operator. -/
structure Player where
  operatorId : OperatorUuid
  playerRef : Text
  deriving DecidableEq

/-- The text under which the balance of a player is kept. -/
def Player.key (p : Player) : Text := p.operatorId.text ++ ':' :: ':' :: p.playerRef

/-- What every request says. -/
structure Request where
  requestUuid : Text
  player : Player
  currency : Text
  deriving DecidableEq

/-- **A call**: a balance, a bet, a win or a rollback. -/
inductive Call
  | balance (req : Request)
  | bet (req : Request) (transactionUuid : Text) (amountMicro : Int)
  | win (req : Request) (transactionUuid : Text) (amountMicro : Int)
  | rollback (req : Request) (transactionUuid referenceTransactionUuid : Text)
  deriving DecidableEq

/-- An answer of the wallet. -/
structure Answer where
  status : RsStatus
  requestUuid : Text
  balanceMicro : Option Int
  currency : Option Text
  message : Option String
  deriving DecidableEq

/-- What is kept of a player. -/
structure Row where
  balance : Int
  currency : Text
  deriving DecidableEq

/-- The kinds of transactions. -/
inductive TxKind
  | bet
  | win
  | rollback
  deriving DecidableEq

/-- What is kept of a transaction that took effect. -/
structure Committed where
  kind : TxKind
  delta : Int
  deriving DecidableEq

/-- **What the wallet keeps.** -/
structure Adapter where
  balances : Text → Option Row
  committedTxs : Text → Option Committed

/-- A balance the wallet starts with. -/
structure Seed where
  player : Player
  currency : Text
  balanceMicro : Int

namespace Adapter

variable (a : Adapter)

/-- Put a row under the key of a player. -/
def setRow (p : Player) (row : Row) : Adapter :=
  { a with balances := Function.update a.balances p.key (some row) }

/-- Note a transaction. -/
def commit (uuid : Text) (tx : Committed) : Adapter :=
  { a with committedTxs := Function.update a.committedTxs uuid (some tx) }

/-- Forget a transaction. -/
def forget (uuid : Text) : Adapter :=
  { a with committedTxs := Function.update a.committedTxs uuid none }

/-- Start with a balance. -/
def seed (s : Seed) : Adapter := a.setRow s.player ⟨s.balanceMicro, s.currency⟩

/-- **The wallet with its seeds.** -/
def ofSeeds (seeds : List Seed) : Adapter := seeds.foldl seed ⟨fun _ => none, fun _ => none⟩

/-- The row of the player of a request; a new player starts with nothing. -/
def row (req : Request) : Row := (a.balances req.player.key).getD ⟨0, req.currency⟩

/-- The wallet with the row of the player of a request. -/
def getOrCreate (req : Request) : Adapter := a.setRow req.player (a.row req)

/-- An answer with the balance of the player. -/
def answer (status : RsStatus) (req : Request) : Answer where
  status := status
  requestUuid := req.requestUuid
  balanceMicro := some (a.row req).balance
  currency := some (a.row req).currency
  message := none

/-- Change the balance of the player of a request, under a transaction. -/
def book (req : Request) (uuid : Text) (tx : Committed) : Adapter :=
  let row := a.row req
  (a.setRow req.player { row with balance := row.balance + tx.delta }).commit uuid tx

/-- **One call.** -/
def serve : Call → Adapter × Answer
  | .balance req => (a.getOrCreate req, a.answer .ok req)
  | .bet req transactionUuid amountMicro =>
      if (a.committedTxs transactionUuid).isSome then
        (a.getOrCreate req, a.answer .duplicateTransaction req)
      else if (a.row req).balance < amountMicro then
        (a.getOrCreate req, a.answer .notEnoughMoney req)
      else
        let a' := a.book req transactionUuid ⟨.bet, -amountMicro⟩
        (a', a'.answer .ok req)
  | .win req transactionUuid amountMicro =>
      if (a.committedTxs transactionUuid).isSome then
        (a.getOrCreate req, a.answer .duplicateTransaction req)
      else
        let a' := a.book req transactionUuid ⟨.win, amountMicro⟩
        (a', a'.answer .ok req)
  | .rollback req transactionUuid referenceTransactionUuid =>
      match a.committedTxs referenceTransactionUuid with
      | none =>
          (a, ⟨.transactionNotFound, req.requestUuid, none, none, some "unknown_reference_transaction"⟩)
      | some ref =>
          if (a.committedTxs transactionUuid).isSome then
            (a.getOrCreate req, a.answer .duplicateTransaction req)
          else
            let a' := (a.book req transactionUuid ⟨.rollback, -ref.delta⟩).forget referenceTransactionUuid
            (a', a'.answer .ok req)

/-- **A run of calls**, the latest one first. -/
def after : List Call → Adapter
  | [] => a
  | c :: past => ((after past).serve c).1

/-- The balance of a player. -/
def balanceOf (p : Player) : Int := ((a.balances p.key).map Row.balance).getD 0

end Adapter

/-! ## Players and keys -/

/-- No two players share a key. -/
theorem key_injective : Function.Injective Player.key := by
  have hstop : ∀ p : Player, p.key.takeWhile (· ≠ ':') = p.operatorId.text := by
    intro p
    rw [Player.key, List.takeWhile_append_of_pos, List.takeWhile_cons_of_neg (by simp), List.append_nil]
    intro c hc
    simpa using ne_of_mem_of_not_mem hc p.operatorId.colon_notMem
  intro p q h
  have hoperator : p.operatorId.text = q.operatorId.text := by
    rw [← hstop p, ← hstop q, h]
  rw [Player.key, Player.key, hoperator] at h
  have hrest := List.append_cancel_left h
  obtain ⟨⟨text, htext⟩, ref⟩ := p
  obtain ⟨⟨text', htext'⟩, ref'⟩ := q
  cases hoperator
  cases hrest
  rfl

namespace Adapter

variable (a : Adapter) (req : Request)

theorem balanceOf_setRow (p : Player) (row : Row) :
    (a.setRow p row).balanceOf = Function.update a.balanceOf p row.balance := by
  funext q
  show ((Function.update a.balances p.key (some row) q.key).map Row.balance).getD 0 = _
  rw [Function.update_apply, Function.update_apply]
  by_cases h : q = p
  · rw [h, if_pos rfl, if_pos rfl]
    rfl
  · rw [if_neg (mt (@key_injective q p) h), if_neg h]
    rfl

@[simp] theorem balanceOf_commit (uuid : Text) (tx : Committed) :
    (a.commit uuid tx).balanceOf = a.balanceOf := rfl

@[simp] theorem balanceOf_forget (uuid : Text) : (a.forget uuid).balanceOf = a.balanceOf := rfl

theorem balance_row : (a.row req).balance = a.balanceOf req.player := by
  rw [row, balanceOf]
  cases a.balances req.player.key <;> rfl

/-- A row that is looked up keeps its balance. -/
@[simp] theorem balanceOf_getOrCreate : (a.getOrCreate req).balanceOf = a.balanceOf := by
  rw [getOrCreate, balanceOf_setRow, balance_row, Function.update_eq_self]

@[simp] theorem committedTxs_getOrCreate : (a.getOrCreate req).committedTxs = a.committedTxs := rfl

/-- A transaction changes the balance of the player of its request alone. -/
theorem balanceOf_book (uuid : Text) (tx : Committed) :
    (a.book req uuid tx).balanceOf = a.balanceOf + Pi.single req.player tx.delta := by
  rw [book, balanceOf_commit, balanceOf_setRow]
  funext p
  rw [Pi.add_apply, Function.update_apply, Pi.single_apply, balance_row]
  by_cases h : p = req.player
  · rw [if_pos h, if_pos h, h]
  · rw [if_neg h, if_neg h, add_zero]

theorem committedTxs_book (uuid : Text) (tx : Committed) :
    (a.book req uuid tx).committedTxs = Function.update a.committedTxs uuid (some tx) := rfl

/-- A wallet with nothing but its seeds has noted no transaction. -/
theorem committedTxs_ofSeeds (seeds : List Seed) (uuid : Text) :
    (ofSeeds seeds).committedTxs uuid = none := by
  have hfold : ∀ a : Adapter, (seeds.foldl seed a).committedTxs = a.committedTxs := by
    induction seeds with
    | nil => exact fun _ => rfl
    | cons s seeds ih => exact fun a => ih (a.seed s)
  rw [ofSeeds, hfold]

end Adapter

end YantraRgs.InternalWallet
