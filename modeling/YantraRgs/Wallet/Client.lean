import YantraRgs.Server.Env
import YantraRgs.Server.World

/-! # The wallet client

Every outbound wallet call passes the circuit breaker, is journalled, is handed to the adapter, and
its answer is recorded in the breaker and on the journal row. A journal row that cannot be written
does not hold the call back.

* **`WalletClient.invoke`** — one call.
* **`Action.awaitReply`** — the adapter's answer: the operator's, a timeout, or an error. -/

namespace YantraRgs

open Await

/-- What the journal notes about a call besides its request. -/
structure AuditContext where
  sessionId : Option Nat
  roundId : Option Nat
  attempt : Option Nat

/-- A wallet client: for an operator, with the breaker of an engine, or with one of its own that
nobody has used yet. -/
structure WalletClient where
  operatorId : OperatorId
  breaker : Option EngineRef

namespace Action

/-- Insert a journal row: refused when a row with the same operator, endpoint, request and attempt
exists, or when the database fails. -/
def createWalletCall (row : WalletCall) : Action (Option Nat) :=
  Prog.lift fun _ c w =>
    if c = .fail ∨ w.walletCalls.any (fun r => r.operatorId = row.operatorId ∧
        r.endpoint = row.endpoint ∧ r.requestUuid = row.requestUuid ∧ r.attempt = row.attempt) then
      some (none, w)
    else some (some w.walletCalls.length, w.addWalletCall { row with createdAt := w.now })

/-- Hand a request to the adapter. -/
def handOver (req : WalletRequest) (attempt : Nat) (row : Option Nat) : Action Nat :=
  Prog.request fun i w => (w.wire.length, w.hand ⟨req, attempt, row, i⟩)

/-- What the adapter answers to the request at place `sent` of the wire. -/
def awaitReply (req : WalletRequest) (sent : Nat) : Action WalletResponse :=
  Prog.lift fun _ c w =>
    match c with
    | .reply n =>
        match w.replies[n]? with
        | some r =>
            if r.sent = sent then some (⟨r.status, req.requestUuid, r.balanceMicro, r.message⟩, w)
            else none
        | none => none
    | .timeout => some (⟨.timeout, req.requestUuid, none, some "timeout"⟩, w)
    | .error message => some (⟨.unknown, req.requestUuid, none, some message⟩, w)
    | _ => none

/-- The hash of the operator's last chained journal row. -/
def latestWalletCallTip (operatorId : OperatorId) : Action (Option RowHash) :=
  Prog.query fun w =>
    (w.walletCalls.filter fun r => r.operatorId = operatorId ∧ r.rowHash.isSome).getLast?.bind
      WalletCall.rowHash

end Action

namespace WalletClient

variable (client : WalletClient)

/-- Ask the breaker. A balance call has no circuit. -/
def tryAcquire (endpoint : WalletEndpoint) : Action BreakerDecision :=
  Prog.request fun _ w =>
    match client.breaker with
    | none => ((BreakerEntry.fresh.tryAcquire .default w.now).1, w)
    | some e =>
        match (w.engine? e).bind fun engine => engine.breaker.get endpoint with
        | none => (⟨.closed, true⟩, w)
        | some entry =>
            let (decision, entry) := entry.tryAcquire .default w.now
            (decision, w.updateEngine e fun engine =>
              { engine with breaker := engine.breaker.set endpoint entry })

/-- Record the status of an answer. Business rejections come from a healthy wallet. -/
def record (endpoint : WalletEndpoint) (status : RsStatus) : Action Unit :=
  Prog.modify fun w =>
    match client.breaker with
    | none => w
    | some e =>
        match (w.engine? e).bind fun engine => engine.breaker.get endpoint with
        | none => w
        | some entry =>
            let entry :=
              if isSuccessOrDuplicate status || isRejectStatus status then entry.recordSuccess
              else entry.recordFailure .default w.now
            w.updateEngine e fun engine =>
              { engine with breaker := engine.breaker.set endpoint entry }

/-- The journal row of a request before it is answered. -/
def journalRow (req : WalletRequest) (audit : AuditContext) : WalletCall where
  operatorId := client.operatorId
  endpoint := req.endpoint
  requestUuid := req.requestUuid
  transactionUuid := req.transactionUuid
  referenceTransactionUuid := req.referenceTransactionUuid
  sessionId := audit.sessionId
  roundId := audit.roundId.orElse fun _ => req.roundId
  playerRef := req.playerRef
  amountMicro := req.amountMicro
  currency := req.currency
  attempt := audit.attempt.getD 1
  responseStatus := none
  latencyMs := none
  succeeded := false
  createdAt := 0
  prevRowHash := none
  rowHash := none

/-- Note the answer on the journal row and chain the row. -/
def journalAnswer (env : Env) (row : WalletCall) (id : Nat) (res : WalletResponse)
    (latencyMs : Millis) : Action Unit := do
  let prevRowHash ← (Action.latestWalletCallTip client.operatorId).catching (· = .throw)
  let prevRowHash := prevRowHash.getD none
  let succeeded := decide (res.status = .ok)
  let final := { row with responseStatus := some res.status, latencyMs := some latencyMs, succeeded }
  let rowHash := env.hashWalletCall prevRowHash id final
  Prog.modify fun w => w.updateWalletCall id fun r =>
    { r with
      responseStatus := some res.status
      latencyMs := some latencyMs
      succeeded
      prevRowHash
      rowHash := some rowHash }

/-- **One wallet call.** -/
def invoke (env : Env) (req : WalletRequest) (audit : AuditContext) : Action WalletResponse := do
  let decision ← client.tryAcquire req.endpoint
  if !decision.allow then
    pure ⟨.timeout, req.requestUuid, none,
      some (if decision.state = .open then "circuit_open" else "circuit_probing")⟩
  else
    let started ← Action.now
    let row := client.journalRow req audit
    let call ← Action.createWalletCall row
    let sent ← Action.handOver req (audit.attempt.getD 1) call
    let res ← Action.awaitReply req sent
    let ended ← Action.now
    client.record req.endpoint res.status
    match call with
    | none => pure res
    | some id =>
        let _ ← (client.journalAnswer env row id res (ended - started)).catching (· = .fail)
        pure res

end WalletClient

end YantraRgs
