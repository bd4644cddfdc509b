import YantraRgs.Await.Pool
import YantraRgs.Services.AuditChain
import YantraRgs.Services.PendingJobRunner

/-! # Daily totals, and what the operators booked

The totals of a day are sums over the journal of wallet calls. What was really moved stands in the
books of the operators, which learn of it by the requests that reach them: an operator books a
transaction at most once, and reverses the referenced amount on a rollback. Whether it carries a new
request out, and what it answers where the contract leaves it a choice, is a verdict.

* **`WalletCallState`**, **`Booking`**, **`World`** — the journal, the queue of jobs, the wallet calls
  and how far each has come, and the books.
* **`invoke`**, **`takeStake`**, **`payWin`**, **`tick`** — a wallet call, and who makes one.
* **`computeDailyTotals`** — the totals of a day.
* **`ledgers`** — all of it as a system. -/

namespace YantraRgs.Reconciliation

open Await

/-- How far a wallet call has come. -/
inductive Phase
  /-- The breaker let it through, and the journal was asked for a row. -/
  | opened
  /-- The adapter has the request. -/
  | awaiting
  /-- The caller has an answer. -/
  | told (status : RsStatus)
  /-- The answer is on the journal. -/
  | journalled
  /-- It is over, and its answer is not on the journal. -/
  | lost
  deriving DecidableEq

/-- A wallet call that the breaker let through. -/
structure WalletCallState where
  request : WalletRequest
  /-- Its row of the journal. -/
  row : Option Nat
  /-- Who made it. -/
  caller : Nat
  phase : Phase
  deriving DecidableEq

/-- What an operator booked. -/
structure Booking where
  endpoint : WalletEndpoint
  operatorId : OperatorId
  currency : Currency
  transactionUuid : Uuid
  referenceTransactionUuid : Option Uuid
  amountMicro : Int
  bookedAt : Millis
  /-- The wallet call that brought it. -/
  sent : Nat
  deriving DecidableEq

/-- The world of the two ledgers. -/
structure World where
  now : Millis
  /-- How many identifiers were generated. -/
  serial : Nat
  walletCalls : List WalletCall
  jobs : List PendingWalletJob
  calls : List WalletCallState
  replies : List Reply
  book : List Booking

namespace World

variable (w : World)

/-- Wallet call `n` comes to a phase. -/
def enter (n : Nat) (phase : Phase) : World :=
  { w with calls := w.calls.modify n fun x => { x with phase } }

/-- Change a row of the journal. -/
def updateWalletCall (id : Nat) (f : WalletCall → WalletCall) : World :=
  { w with walletCalls := w.walletCalls.modify id f }

/-- Change a job. -/
def updateJob (jobId : Nat) (f : PendingWalletJob → PendingWalletJob) : World :=
  { w with jobs := w.jobs.modify jobId f }

/-! ## The operators -/

/-- Whether an operator booked a transaction. -/
def booked (operatorId : OperatorId) (uuid : Uuid) : Bool :=
  w.book.any fun b => b.operatorId = operatorId ∧ b.transactionUuid = uuid

/-- Whether an operator reversed a transaction. -/
def reversed (operatorId : OperatorId) (uuid : Uuid) : Bool :=
  w.book.any fun b => b.operatorId = operatorId ∧ b.endpoint = .rollback ∧
    b.referenceTransactionUuid = some uuid

/-- The amount of a stake or a win that an operator booked. -/
def amountOf (operatorId : OperatorId) (uuid : Uuid) : Option Int :=
  (w.book.find? fun b => b.operatorId = operatorId ∧ b.endpoint ≠ .rollback ∧
    b.transactionUuid = uuid).map Booking.amountMicro

/-- What a request moves when its operator carries it out: its own amount, or for a rollback the one
of the transaction it refers to, which is reversed once. -/
def moves (req : WalletRequest) : Option Int :=
  match req.endpoint with
  | .bet | .win => some (req.amountMicro.getD 0)
  | .rollback =>
      req.referenceTransactionUuid.bind fun reference =>
        if w.reversed req.operatorId reference then none else w.amountOf req.operatorId reference
  | _ => none

/-- Whether a request asks for what was reversed already. -/
def undone (req : WalletRequest) : Bool :=
  req.endpoint = .rollback ∧ req.referenceTransactionUuid.any fun r => w.reversed req.operatorId r

/-- Note an answer to wallet call `n`. -/
def answered (n : Nat) (v : Verdict) (message : Option String) : World :=
  { w with replies := w.replies ++ [⟨n, v.status, v.balanceMicro, message⟩] }

/-- Book a transaction. -/
def booking (n : Nat) (req : WalletRequest) (uuid : Uuid) (amountMicro : Int) : World :=
  { w with book := w.book ++ [⟨req.endpoint, req.operatorId, req.currency, uuid,
    req.referenceTransactionUuid, amountMicro, w.now, n⟩] }

/-- **A copy of a request reaches its operator**, or `none` when the verdict is not one that the
contract allows: what is booked is not booked again and not refused, and success is not said of what
is not booked. -/
def deliver (n : Nat) (v : Verdict) (message : Option String) : Option World :=
  (w.calls[n]?).bind fun x =>
    if x.phase = .opened then none
    else match x.request.transactionUuid with
      | none => some (w.answered n v message)
      | some uuid =>
          if w.booked x.request.operatorId uuid then
            if isRejectStatus v.status ∨ v.status = .transactionNotFound then none
            else some (w.answered n v message)
          else if v.book then
            if isRejectStatus v.status ∨ v.status = .transactionNotFound then none
            else (w.moves x.request).map fun amount =>
              (w.booking n x.request uuid amount).answered n v message
          else if isSuccessOrDuplicate v.status ∧ ¬ w.undone x.request then none
          else some (w.answered n v message)

end World

/-- What the outside chooses for one action. -/
inductive Choice
  /-- Nothing special. -/
  | ok
  /-- The action throws. -/
  | throw
  /-- The breaker does not let the call through. -/
  | refuse
  /-- The rows that a query hands out. -/
  | order (ids : List Nat)
  /-- The wallet answers, with the reply of the given number. -/
  | reply (n : Nat)
  /-- The wallet call times out. -/
  | timeout
  /-- The wallet call ends in an error. -/
  | error (message : String)
  deriving DecidableEq

/-- A piece of a call. -/
abbrev Action := Prog World Choice

/-- `newUuid()`. -/
def newUuid (use : UuidUse) : Action Uuid :=
  Prog.request fun i w => (⟨use, i, w.serial⟩, { w with serial := w.serial + 1 })

/-! ## The wallet client -/

/-- Ask the breaker. -/
def tryAcquire : Action Bool := Prog.lift fun _ c w => some (decide (c ≠ .refuse), w)

/-- Insert the journal row of a wallet call, unless there is one of the same operator, endpoint,
request and attempt, or the database fails; the number of the wallet call. -/
def createWalletCall (req : WalletRequest) (audit : AuditContext) : Action Nat :=
  Prog.lift fun i c w =>
    let row := WalletClient.journalRow ⟨req.operatorId, none⟩ req audit
    if c = .throw ∨ w.walletCalls.any (fun r => r.operatorId = row.operatorId ∧
        r.endpoint = row.endpoint ∧ r.requestUuid = row.requestUuid ∧ r.attempt = row.attempt) then
      some (w.calls.length, { w with calls := w.calls ++ [⟨req, none, i, .opened⟩] })
    else
      some (w.calls.length,
        { w with
          walletCalls := w.walletCalls ++ [{ row with createdAt := w.now }]
          calls := w.calls ++ [⟨req, some w.walletCalls.length, i, .opened⟩] })

/-- Hand a request to the adapter. -/
def handOver (n : Nat) : Action Unit := Prog.modify fun w => w.enter n .awaiting

/-- What the adapter answers. -/
def awaitReply (req : WalletRequest) (n : Nat) : Action WalletResponse :=
  Prog.lift fun _ c w =>
    match c with
    | .reply k =>
        match w.replies[k]? with
        | some r =>
            if r.sent = n then
              some (⟨r.status, req.requestUuid, r.balanceMicro, r.message⟩,
                w.enter n (.told r.status))
            else none
        | none => none
    | .timeout => some (⟨.timeout, req.requestUuid, none, some "timeout"⟩, w.enter n (.told .timeout))
    | .error message =>
        some (⟨.unknown, req.requestUuid, none, some message⟩, w.enter n (.told .unknown))
    | _ => none

/-- A journal row with the answer noted on it. -/
def noteAnswer (status : RsStatus) (r : WalletCall) : WalletCall :=
  { r with responseStatus := some status, succeeded := decide (status = .ok) }

/-- Note the answer on the journal row, unless the database fails. -/
def journalAnswer (n : Nat) (status : RsStatus) : Action Unit :=
  Prog.lift fun _ c w =>
    match (w.calls[n]?).bind WalletCallState.row with
    | none => some ((), w.enter n .lost)
    | some id =>
        if c = .throw then some ((), w.enter n .lost)
        else some ((), (w.enter n .journalled).updateWalletCall id (noteAnswer status))

/-- **One wallet call.** -/
def invoke (req : WalletRequest) (audit : AuditContext) : Action WalletResponse := do
  let allow ← tryAcquire
  if !allow then pure ⟨.timeout, req.requestUuid, none, some "circuit_open"⟩
  else
    let n ← createWalletCall req audit
    handOver n
    let res ← awaitReply req n
    journalAnswer n res.status
    pure res

/-! ## Stakes and wins -/

/-- What the wallet calls of a bet are made from. -/
structure Wager where
  operatorId : OperatorId
  sessionId : Nat
  roundId : Nat
  betId : Nat
  playerRef : PlayerRef
  currency : Currency
  gameCode : GameCode
  amountMicro : Int
  deriving DecidableEq

/-- The request for the stake of a bet. -/
def Wager.betRequest (b : Wager) (requestUuid txUuid : Uuid) : WalletRequest where
  endpoint := .bet
  requestUuid := requestUuid
  transactionUuid := some txUuid
  referenceTransactionUuid := none
  operatorId := b.operatorId
  playerRef := b.playerRef
  currency := b.currency
  gameCode := b.gameCode
  amountMicro := some b.amountMicro
  roundId := some b.roundId

/-- The request for the credit of a bet. -/
def Wager.winRequest (b : Wager) (betTransactionUuid : Uuid) (payoutMicro : Int)
    (requestUuid winTxUuid : Uuid) : WalletRequest where
  endpoint := .win
  requestUuid := requestUuid
  transactionUuid := some winTxUuid
  referenceTransactionUuid := some betTransactionUuid
  operatorId := b.operatorId
  playerRef := b.playerRef
  currency := b.currency
  gameCode := b.gameCode
  amountMicro := some payoutMicro
  roundId := some b.roundId

/-- Queue a wallet call of a bet. -/
def queueJob (b : Wager) (endpoint : WalletEndpoint) (requestUuid transactionUuid : Uuid)
    (referenceTransactionUuid : Uuid) (amountMicro : Option Int) (lastError : String) :
    Action Unit :=
  Prog.modify fun w =>
    { w with jobs := w.jobs ++ [{
        operatorId := b.operatorId, endpoint, betId := some b.betId, roundId := some b.roundId
        payload :=
          { requestUuid, transactionUuid, referenceTransactionUuid := some referenceTransactionUuid
            playerRef := b.playerRef, currency := b.currency, gameCode := b.gameCode, amountMicro
            roundId := some b.roundId }
        attempts := 0, nextAttemptAt := w.now, lastError := some lastError, lockedUntil := none
        completedAt := none, createdAt := w.now }] }

/-- **Take the stake of a bet**; when nobody knows whether it was debited, a rollback is queued. -/
def takeStake (b : Wager) : Action Unit := do
  let txUuid ← newUuid .stake
  let requestUuid ← newUuid .request
  let res ← invoke (b.betRequest requestUuid txUuid) ⟨some b.sessionId, some b.roundId, none⟩
  if isSuccessOrDuplicate res.status || isRejectStatus res.status then pure ()
  else do
    let requestUuid ← newUuid .request
    let transactionUuid ← newUuid .refund
    queueJob b .rollback requestUuid transactionUuid txUuid none res.lastError

/-- **Credit a winning bet**, or queue its credit. -/
def payWin (b : Wager) (betTransactionUuid : Uuid) (payoutMicro : Int) : Action Unit := do
  let winTxUuid ← newUuid .credit
  let requestUuid ← newUuid .request
  let res ← invoke (b.winRequest betTransactionUuid payoutMicro requestUuid winTxUuid)
    ⟨some b.sessionId, some b.roundId, none⟩
  if isSuccessOrDuplicate res.status then pure ()
  else queueJob b .win requestUuid winTxUuid betTransactionUuid (some payoutMicro) res.lastError

/-! ## The runner -/

/-- Lock a job, unless another run holds it. -/
def lockJob (jobId : Nat) : Action Bool :=
  Prog.request fun i w =>
    if (w.jobs[jobId]?).any fun j => j.lockable w.now then
      (true, w.updateJob jobId fun j => { j with lockedUntil := some ⟨i, w.now + lockTtlMs⟩ })
    else (false, w)

/-- Whether the operator has an outbound credential and a wallet to call. -/
def buildAdapter : Action Bool := Prog.lift fun _ c w => some (decide (c ≠ .throw), w)

/-- Complete a job. -/
def complete (jobId attempts : Nat) : Action Unit :=
  Prog.modify fun w => w.updateJob jobId fun j =>
    { j with completedAt := some w.now, lockedUntil := none, attempts }

/-- Put a job off after a failed attempt. -/
def reschedule (jobId attempts : Nat) (lastError : String) : Action Unit :=
  Prog.modify fun w => w.updateJob jobId fun j =>
    { j with
      attempts
      lastError := some lastError
      lockedUntil := none
      nextAttemptAt :=
        if maxAttempts ≤ attempts then w.now + 3600000
        else w.now + min 300000 (1000 * 2 ^ min attempts 8) }

/-- The wallet call of a job, and its status. -/
def callWallet (job : PendingWalletJob) : Action RsStatus :=
  match job.request with
  | none => pure (.unrecognised "MALFORMED_JOB")
  | some req => do
      let res ← invoke req ⟨none, job.roundId, some (job.attempts + 1)⟩
      pure res.status

/-- **One run of one job.** -/
def runJob (jobId : Nat) : Action Unit := do
  let locked ← lockJob jobId
  if !locked then pure ()
  else
    let job ← Prog.query fun w => w.jobs[jobId]?
    match job.filter fun job => job.completedAt = none with
    | none => pure ()
    | some job =>
        let adapter ← buildAdapter
        if !adapter then reschedule jobId (job.attempts + 1) "no_outbound_credential"
        else
          let status ← callWallet job
          if endsJob status then complete jobId (job.attempts + 1)
          else reschedule jobId (job.attempts + 1) status.text

/-- **One poll of the queue**: up to ten jobs that are due, one after the other. -/
def tick : Action Unit := do
  let jobs ← Prog.lift fun _ c w =>
    match c with
    | .order ids =>
        let due := Table.ids (PendingWalletJob.due w.now) w.jobs
        if ids.Nodup ∧ ids ⊆ due ∧ ids.length = min 10 due.length then some (ids, w) else none
    | _ => none
  Prog.each runJob jobs

/-! ## The totals of a day -/

/-- The totals of an operator, a currency and a day. -/
structure OperatorDailyTotals where
  operatorId : OperatorId
  /-- `YYYY-MM-DD`, in UTC. -/
  date : String
  currency : Currency
  betsCount : Nat
  betsAmountMicro : Int
  winsCount : Nat
  winsAmountMicro : Int
  rollbacksCount : Nat
  rollbacksAmountMicro : Int
  netRevenueMicro : Int
  failedCallsCount : Nat
  pendingJobsCount : Nat
  deriving DecidableEq

/-- Whether an instant lies in the day of a date. -/
def inDay (date t : Millis) : Bool :=
  AuditChain.startOfDay date ≤ t ∧ t < AuditChain.startOfDay date + AuditChain.dayMs

/-- The journal rows of an operator and a currency within a day. -/
def windowed (operatorId : OperatorId) (currency : Currency) (date : Millis) (r : WalletCall) : Bool :=
  r.operatorId = operatorId ∧ r.currency = currency ∧ inDay date r.createdAt

/-- The journal rows that a total of an endpoint is made of. -/
def counts (endpoint : WalletEndpoint) (operatorId : OperatorId) (currency : Currency)
    (date : Millis) (r : WalletCall) : Bool :=
  r.endpoint = endpoint ∧ r.succeeded ∧ windowed operatorId currency date r

/-- **Aggregate the wallet calls of an operator and a currency on a day.** -/
def World.computeDailyTotals (w : World) (operatorId : OperatorId) (currency : Currency)
    (date : Millis) : OperatorDailyTotals :=
  let count (endpoint : WalletEndpoint) := w.walletCalls.countP (counts endpoint operatorId currency date)
  let amount (endpoint : WalletEndpoint) := Table.total (counts endpoint operatorId currency date)
    (fun r => r.amountMicro.getD 0) w.walletCalls
  { operatorId
    date := AuditChain.dateText (AuditChain.startOfDay date)
    currency
    betsCount := count .bet
    betsAmountMicro := amount .bet
    winsCount := count .win
    winsAmountMicro := amount .win
    rollbacksCount := count .rollback
    rollbacksAmountMicro := amount .rollback
    netRevenueMicro := amount .bet - amount .win - amount .rollback
    failedCallsCount := w.walletCalls.countP fun r =>
      !r.succeeded && windowed operatorId currency date r
    pendingJobsCount := w.jobs.countP fun j =>
      j.operatorId = operatorId ∧ j.completedAt = none ∧ inDay date j.createdAt }

/-- The bookings that a sum of an operator is made of. -/
def moved (endpoint : WalletEndpoint) (operatorId : OperatorId) (currency : Currency)
    (date : Millis) (b : Booking) : Bool :=
  b.endpoint = endpoint ∧ b.operatorId = operatorId ∧ b.currency = currency ∧ inDay date b.bookedAt

/-- The sum that an operator booked in a currency on a day. -/
def World.bookedTotal (w : World) (endpoint : WalletEndpoint) (operatorId : OperatorId)
    (currency : Currency) (date : Millis) : Int :=
  Table.total (moved endpoint operatorId currency date) Booking.amountMicro w.book

/-! ## The system -/

/-- What can be called. -/
inductive Call
  | takeStake (b : Wager)
  | payWin (b : Wager) (betTransactionUuid : Uuid) (payoutMicro : Int)
  | tick
  deriving DecidableEq

/-- The program of a call. -/
def Call.code : Call → Action Unit
  | .takeStake b => Reconciliation.takeStake b
  | .payWin b betTransactionUuid payoutMicro => Reconciliation.payWin b betTransactionUuid payoutMicro
  | .tick => Reconciliation.tick

/-- What happens outside. -/
inductive Outside
  /-- Time passes. -/
  | elapse (ms : Millis)
  /-- A copy of a request reaches its operator. -/
  | deliver (n : Nat) (verdict : Verdict) (message : Option String)
  deriving DecidableEq

/-- What happens to the world from outside. -/
def World.outside (w : World) : Outside → Option World
  | .elapse ms => some { w with now := w.now + ms }
  | .deliver n v message => w.deliver n v message

/-- **The journal and the operators.** -/
def ledgers : System World Choice Call Outside where
  code := Call.code
  admits _ _ := true
  env x w := w.outside x
  dies _ _ := false

/-- A state of the ledgers. -/
abbrev State := Pool World Choice Call

/-- An event of the ledgers. -/
abbrev Happening := Event Choice Call Outside

/-- Nothing was called or booked yet. -/
def initial (now : Millis) : State := ⟨⟨now, 0, [], [], [], [], []⟩, []⟩

end YantraRgs.Reconciliation
