import Mathlib.Data.List.Sort
import YantraRgs.Db.Cursor
import YantraRgs.Server.World

/-! # The lists that are read page by page

Five routes answer lists, newest rows first: the operator's rounds, the bets of a player, the bets of
a session's player in its game, and the rounds and the wallet calls of the admin. All five cut pages
the same way: they ask for one row more than the limit and hand that row out as the next cursor.

* **`Listing`** — what a route lists.
* **`ListRoute`** — the five routes. -/

namespace YantraRgs

/-- **What a route lists**: its rows in order, every row once, and the bounds on the limit. -/
structure Listing (α : Type) where
  rows : List (Nat × α)
  nodup : (rows.map Prod.fst).Nodup
  maxLimit : Nat
  defaultLimit : Nat

/-- Newest first; rows of one date by their identifiers, the largest first. -/
def newer {α : Type} (date : α → Millis) (a b : Nat × α) : Prop :=
  date b.2 < date a.2 ∨ (date b.2 = date a.2 ∧ b.1 ≤ a.1)

instance {α : Type} (date : α → Millis) : DecidableRel (newer date) := fun a b =>
  inferInstanceAs (Decidable (date b.2 < date a.2 ∨ (date b.2 = date a.2 ∧ b.1 ≤ a.1)))

namespace Listing

variable {α : Type}

/-- The rows of a table that satisfy `p`, newest first. -/
def newest (table : List α) (p : α → Bool) (date : α → Millis) (maxLimit defaultLimit : Nat) :
    Listing α where
  rows := (Table.select p table).insertionSort (newer date)
  nodup := ((List.perm_insertionSort _ _).map Prod.fst).nodup_iff.mpr (Table.nodup_ids p table)
  maxLimit := maxLimit
  defaultLimit := defaultLimit

/-- **One page**; a limit out of bounds is refused. -/
def page (l : Listing α) (limit cursor : Option Nat) : Except String (Cursor.Page α) :=
  let limit := limit.getD l.defaultLimit
  if 1 ≤ limit ∧ limit ≤ l.maxLimit then .ok (Cursor.overshoot limit l.rows cursor)
  else .error "invalid_query"

/-- What a client reads that asks for page after page, at most `n` of them. -/
def readAll (l : Listing α) (limit : Option Nat) (n : Nat) : Option (List (Nat × α)) :=
  Cursor.fetch (fun cursor => (l.page limit cursor).toOption) n none

end Listing

/-- **The five routes.** -/
inductive ListRoute
  /-- `GET /rounds` -/
  | rounds (operatorId : OperatorId) (gameCode : Option GameCode) (currency : Option Currency)
  /-- `GET /rounds/history` -/
  | history (operatorId : OperatorId) (playerRef : PlayerRef) (fromDate toDate : Millis)
  /-- `GET /session/history` -/
  | sessionHistory (session : GameSession)
  /-- `GET /admin/rounds` -/
  | adminRounds (operatorId : OperatorId)
  /-- `GET /admin/wallet-calls` -/
  | adminWalletCalls (operatorId : OperatorId)

namespace ListRoute

/-- What a route's rows are. -/
abbrev Item : ListRoute → Type
  | .rounds .. => Round
  | .history .. => Bet
  | .sessionHistory _ => Bet
  | .adminRounds _ => Round
  | .adminWalletCalls _ => WalletCall

/-- **What a route lists.** -/
def listing (w : World) : (route : ListRoute) → Listing route.Item
  | .rounds operatorId gameCode currency =>
      .newest w.rounds (fun r => r.operatorId = operatorId ∧ gameCode.all (· = r.gameCode) ∧
        currency.all (· = r.currency)) Round.startedAt 200 50
  | .history operatorId playerRef fromDate toDate =>
      .newest w.bets (fun b => b.operatorId = operatorId ∧ b.playerRef = playerRef ∧
        fromDate ≤ b.placedAt ∧ b.placedAt ≤ toDate) Bet.placedAt 500 100
  | .sessionHistory session =>
      .newest w.bets (fun b => b.operatorId = session.operatorId ∧
        b.playerRef = session.playerRef ∧ b.selectionType = session.gameCode ∧
        b.currency = session.currency ∧ (b.status = .settled ∨ b.status = .failed))
        Bet.placedAt 100 40
  | .adminRounds operatorId =>
      .newest w.rounds (fun r => r.operatorId = operatorId) Round.startedAt 200 50
  | .adminWalletCalls operatorId =>
      .newest w.walletCalls (fun c => c.operatorId = operatorId) WalletCall.createdAt 200 50

end ListRoute

end YantraRgs
