import YantraRgs.Audit.Anchors

/-! # What the program does to the audited tables

Rounds are created, hashed at once, and written again whenever they go on; wallet calls are
journalled before they are sent, and completed and hashed when they are answered. Rows that missed
their hash are backfilled, and days are anchored.

* **`Operation`** — the operations on the two tables and on the anchors.
* **`Clocked.apply`** — what an operation does.
* **`Keyed`** — the rows of both tables are told apart by their identifiers, which every operation
  keeps. -/

namespace YantraRgs.AuditChain

/-! ## Writes -/

/-- The writes of a round after its creation. -/
inductive RoundWrite
  /-- A bet was accepted. -/
  | stake (amountMicro : Int)
  /-- Betting is over. -/
  | roll
  /-- The outcome of a one-shot game is known. -/
  | reveal (outcomeType : String) (outcome : Value)
  /-- The outcome of a live game is drawn. -/
  | takeOff (outcomeType : String) (outcome : Value)
  /-- A live game is over. -/
  | land
  | settle (totalPayoutsMicro : Int)
  | void

/-- A round, written at an instant. -/
def RoundWrite.apply (now : Millis) (row : RoundRow) : RoundWrite → RoundRow
  | .stake amount => { row with totalBetsMicro := row.totalBetsMicro + amount }
  | .roll => { row with state := .rolling }
  | .reveal type outcome =>
      { row with
        state := .result
        outcomeType := some type
        outcomeData := some outcome
        rolledAt := some now }
  | .takeOff type outcome =>
      { row with
        state := .rolling
        outcomeType := some type
        outcomeData := some outcome }
  | .land => { row with state := .result, rolledAt := some now }
  | .settle payouts =>
      { row with
        state := .settled
        settledAt := some now
        totalPayoutsMicro := payouts }
  | .void => { row with state := .voided, voidedAt := some now }

/-- The answer to a wallet call. -/
structure CallResponse where
  status : String
  body : Value
  latencyMs : Int
  succeeded : Bool

/-- A wallet call with its answer. -/
def CallResponse.complete (response : CallResponse) (row : WalletCallRow) : WalletCallRow :=
  { row with
    responseStatus := some response.status
    responseBody := some response.body
    latencyMs := some response.latencyMs
    succeeded := response.succeeded }

/-! ## Operations -/

/-- The tables and the time. -/
structure Clocked where
  now : Millis
  db : Db

/-- What the program does to the audited tables. -/
inductive Operation
  | tick (elapsed : Millis)
  /-- A round is created, and hashed unless that fails. -/
  | createRound (row : RoundRow) (chained : Bool)
  | writeRound (id : String) (write : RoundWrite)
  /-- A wallet call is journalled before it is sent. -/
  | journal (row : WalletCallRow)
  /-- A wallet call is completed and hashed when its answer is there. -/
  | answer (id : String) (response : CallResponse)
  | backfillWalletCalls (operatorId : String)
  | backfillRounds (operatorId : String)
  | anchorDay (date : Millis)

section Rows

variable {R : Type} (env : Env) (S : Stream R)

/-- A row is inserted, unless its identifier is taken. -/
def insertRow (rows : List R) (row : R) : List R :=
  if rows.any fun r => S.id r = S.id row then rows else row :: rows

/-- A row is hashed over the tip of its operator's chain, and its hash columns are written. -/
def chainRow (rows : List R) (row : R) : List R :=
  let prev := latestTip S rows (S.operatorId row)
  let hash := hashRow env prev (S.hashInput row)
  S.update rows (S.id row) fun r => S.link r prev hash

end Rows

/-- A round as it is created. -/
def freshRound (now : Millis) (row : RoundRow) : RoundRow :=
  { row with
    state := .bettingOpen
    startedAt := some now
    prevRowHash := none
    rowHash := none }

/-- A wallet call as it is journalled. -/
def freshCall (now : Millis) (row : WalletCallRow) : WalletCallRow :=
  { row with
    responseStatus := none
    responseBody := none
    httpStatus := none
    latencyMs := none
    succeeded := false
    createdAt := now
    prevRowHash := none
    rowHash := none }

/-- **What an operation does.** -/
def Clocked.apply (env : Env) (s : Clocked) : Operation → Clocked
  | .tick elapsed => { s with now := s.now + elapsed }
  | .createRound draft chained =>
      let row := freshRound s.now draft
      if s.db.rounds.any fun r => r.id = row.id then s
      else
        let created := row :: s.db.rounds
        { s with db := { s.db with
            rounds := if chained then chainRow env rounds created row else created } }
  | .writeRound id write =>
      { s with db := { s.db with
          rounds := rounds.update s.db.rounds id fun r => write.apply s.now r } }
  | .journal draft =>
      { s with db := { s.db with
          walletCalls := insertRow walletCalls s.db.walletCalls (freshCall s.now draft) } }
  | .answer id response =>
      match s.db.walletCalls.find? (·.id = id) with
      | none => s
      | some call =>
          let prev := latestWalletCallTip s.db.walletCalls call.operatorId
          let hash := hashRow env prev (walletCallHashInput (response.complete call))
          { s with db := { s.db with
              walletCalls := walletCalls.update s.db.walletCalls id fun r =>
                walletCalls.link (response.complete r) prev hash } }
  | .backfillWalletCalls operatorId =>
      { s with db := { s.db with
          walletCalls := (backfillWalletCallChain env s.db.walletCalls operatorId).1 } }
  | .backfillRounds operatorId =>
      { s with db := { s.db with
          rounds := (backfillRoundChain env s.db.rounds operatorId).1 } }
  | .anchorDay date => { s with db := (AuditChain.anchorDay env s.db date).1 }

/-- **A run of operations.** -/
def Clocked.run (env : Env) (s : Clocked) (ops : List Operation) : Clocked :=
  ops.foldl (·.apply env) s

end YantraRgs.AuditChain
