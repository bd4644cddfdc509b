import YantraRgs.Wallet.BreakerCalls
import YantraRgs.Wallet.Client

/-! # A wallet call on every path

One client's calls, with the exceptions around them. A journal row may fail to be written before the
adapter is called and after it answered; the adapter answers, or throws.

* **`Invocation.World`** — the client's circuits and journal, and the probe that each circuit awaits,
  which the circuit does not note.
* **`invoke`** — one call with its journal; what the adapter throws leaves it.
* **`client`** — the calls of one client as a system. -/

namespace YantraRgs.Invocation

open Await

/-- The circuits and the journal of a client. -/
structure World where
  now : Millis
  breaker : Breaker
  walletCalls : List WalletCall
  /-- The call that a circuit let through as its probe last. -/
  probe : WalletEndpoint → Option Nat

/-- What comes back from outside. -/
inductive Answer
  /-- A statement of the database is carried out. -/
  | done
  /-- A statement of the database fails. -/
  | failed
  /-- The adapter answers. -/
  | reply (res : WalletResponse)
  /-- The adapter throws, or its promise is rejected. -/
  | throws (message : String)
  deriving DecidableEq

/-- A piece of a call. -/
abbrev Action := Prog World Answer

namespace World

variable (w : World)

/-- Call `i` asks the circuit of an endpoint, which is in the given state. -/
def acquire (opts : BreakerOptions) (i : Nat) (endpoint : WalletEndpoint) (entry : BreakerEntry) :
    World :=
  let (decision, entry) := entry.tryAcquire opts w.now
  { w with
    breaker := w.breaker.set endpoint entry
    probe := if decision.allow ∧ decision.state = .halfOpen then
        fun e => if e = endpoint then some i else w.probe e
      else w.probe }

/-- Report an answer to the circuit of an endpoint. -/
def record (opts : BreakerOptions) (endpoint : WalletEndpoint) (status : RsStatus) : World :=
  match w.breaker.get endpoint with
  | none => w
  | some entry => { w with breaker := w.breaker.set endpoint (entry.record opts w.now status) }

end World

namespace Action

/-- Read the clock; nothing but the call itself moves. -/
def now : Action Millis :=
  Prog.lift fun _ c w =>
    match c with
    | .done => some (w.now, w)
    | _ => none

/-- Insert a journal row: refused when the call is journalled already, or when the database fails. -/
def createWalletCall (row : WalletCall) : Action (Option Nat) :=
  Prog.lift fun _ c w =>
    match c with
    | .done =>
        if w.walletCalls.any (fun r => r.operatorId = row.operatorId ∧ r.endpoint = row.endpoint ∧
            r.requestUuid = row.requestUuid ∧ r.attempt = row.attempt) then
          some (none, w)
        else
          some (some w.walletCalls.length,
            { w with walletCalls := w.walletCalls ++ [{ row with createdAt := w.now }] })
    | .failed => some (none, w)
    | _ => none

/-- The hash of the operator's last chained journal row, if the database answers. -/
def latestWalletCallTip (operatorId : OperatorId) : Action (Option RowHash) :=
  Prog.lift fun _ c w =>
    match c with
    | .done =>
        some ((w.walletCalls.filter fun r =>
          r.operatorId = operatorId ∧ r.rowHash.isSome).getLast?.bind WalletCall.rowHash, w)
    | .failed => some (none, w)
    | _ => none

/-- Write the journal row with the given number, if the database does. -/
def updateWalletCall (id : Nat) (f : WalletCall → WalletCall) : Action Unit :=
  Prog.lift fun _ c w =>
    match c with
    | .done => some ((), { w with walletCalls := w.walletCalls.modify id f })
    | .failed => some ((), w)
    | _ => none

end Action

variable (opts : BreakerOptions) (env : Env) (client : WalletClient)

/-- Ask to proceed. A balance call has no circuit. -/
def tryAcquire (endpoint : WalletEndpoint) : Action BreakerDecision :=
  Prog.request fun i w =>
    match w.breaker.get endpoint with
    | none => (⟨.closed, true⟩, w)
    | some entry => ((entry.tryAcquire opts w.now).1, w.acquire opts i endpoint entry)

/-- Await the adapter, and report its answer to the circuit. What it throws is not reported. -/
def exchange (endpoint : WalletEndpoint) : Action (Except String (WalletResponse × Millis)) :=
  Prog.lift fun _ c w =>
    match c with
    | .reply res => some (.ok (res, w.now), w.record opts endpoint res.status)
    | .throws message => some (.error message, w)
    | _ => none

/-- Note the answer on the journal row and chain the row. -/
def journalAnswer (row : WalletCall) (id : Nat) (res : WalletResponse) (latencyMs : Millis) :
    Action Unit := do
  let prevRowHash ← Action.latestWalletCallTip client.operatorId
  let succeeded := decide (res.status = .ok)
  let final := { row with responseStatus := some res.status, latencyMs := some latencyMs, succeeded }
  Action.updateWalletCall id fun r =>
    { r with
      responseStatus := some res.status
      latencyMs := some latencyMs
      succeeded
      prevRowHash
      rowHash := some (env.hashWalletCall prevRowHash id final) }

/-- What follows the adapter: its answer is journalled and handed back, what it threw is thrown on. -/
def finish (row : WalletCall) (call : Option Nat) (started : Millis) :
    Except String (WalletResponse × Millis) → Action (Except String WalletResponse)
  | .error message => pure (.error message)
  | .ok (res, ended) =>
      match call with
      | none => pure (.ok res)
      | some id => do
          journalAnswer env client row id res (ended - started)
          pure (.ok res)

/-- **One wallet call.** -/
def invoke (req : WalletRequest) (audit : AuditContext) : Action (Except String WalletResponse) := do
  let decision ← tryAcquire opts req.endpoint
  if !decision.allow then
    pure (.ok ⟨.timeout, req.requestUuid, none,
      some (if decision.state = .open then "circuit_open" else "circuit_probing")⟩)
  else
    let started ← Action.now
    let row := client.journalRow req audit
    let call ← Action.createWalletCall row
    let answered ← exchange opts req.endpoint
    finish env client row call started answered

/-- What a caller asks of the client. -/
structure Call where
  req : WalletRequest
  audit : AuditContext

/-- A caller makes a call and takes what comes of it. -/
def serve (call : Call) : Action Unit := do
  let _ ← invoke opts env client call.req call.audit
  pure ()

/-- **The calls of one client**; outside, time passes. -/
def system : System World Answer Call Millis where
  code := serve opts env client
  admits _ _ := true
  env ms w := some { w with now := w.now + ms }
  dies _ _ := false

/-- A state of the client. -/
abbrev State := Pool World Answer Call

/-- An event of the client. -/
abbrev Happening := Event Answer Call Millis

/-- A client that nobody has used yet, over a journal. -/
def initial (now : Millis) (walletCalls : List WalletCall) : State :=
  ⟨⟨now, .fresh, walletCalls, fun _ => none⟩, []⟩

end YantraRgs.Invocation
