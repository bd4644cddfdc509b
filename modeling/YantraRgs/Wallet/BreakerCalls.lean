import YantraRgs.Await.Pool
import YantraRgs.Wallet.CircuitBreaker

/-! # Concurrent calls through the circuits of a wallet client

The calls of a wallet client share its circuits. A call asks to proceed, waits for the operator, and
reports what the operator answered, at any later time and perhaps never; meanwhile others ask and
report. A report carries no identity: the circuit does not know which call it comes from.

* **`Admission`** — a call that was let through and has not reported, which the circuit does not note.
* **`invoke`** — one call, as far as the circuit sees it.
* **`client`** — the calls of one client as a system. -/

namespace YantraRgs

open Await

/-- Whether an answer comes from a healthy wallet. -/
def RsStatus.healthy (status : RsStatus) : Bool :=
  isSuccessOrDuplicate status || isRejectStatus status

/-- Report an answer to the circuit: business rejections come from a healthy wallet. -/
def BreakerEntry.record (opts : BreakerOptions) (now : Millis) (status : RsStatus)
    (entry : BreakerEntry) : BreakerEntry :=
  if status.healthy then entry.recordSuccess else entry.recordFailure opts now

namespace CircuitBreaker

/-- A call that was let through and has not reported yet. -/
structure Admission where
  caller : Nat
  endpoint : WalletEndpoint
  /-- The state that the call was told. -/
  state : CircuitState
  deriving DecidableEq

/-- The circuits of a client, the time, and the calls that are let through. -/
structure World where
  now : Millis
  breaker : Breaker
  outstanding : List Admission

namespace World

variable (w : World)

/-- Call `i` asks the circuit of an endpoint, which is in the given state. -/
def acquire (opts : BreakerOptions) (i : Nat) (endpoint : WalletEndpoint) (entry : BreakerEntry) :
    World :=
  let (decision, entry) := entry.tryAcquire opts w.now
  { w with
    breaker := w.breaker.set endpoint entry
    outstanding := if decision.allow then w.outstanding ++ [⟨i, endpoint, decision.state⟩]
      else w.outstanding }

/-- Call `i` reports an answer to the circuit of an endpoint, which is in the given state. -/
def report (opts : BreakerOptions) (i : Nat) (endpoint : WalletEndpoint) (entry : BreakerEntry)
    (status : RsStatus) : World :=
  { w with
    breaker := w.breaker.set endpoint (entry.record opts w.now status)
    outstanding := w.outstanding.filter fun x => x.caller ≠ i }

/-- The probes of an endpoint that have not reported. -/
def probes (endpoint : WalletEndpoint) : List Nat :=
  (w.outstanding.filter fun x => x.endpoint = endpoint ∧ x.state = .halfOpen).map Admission.caller

end World

/-- A piece of a call; the outside chooses what the operator answers. -/
abbrev Action := Prog World RsStatus

variable (opts : BreakerOptions)

/-- Ask to proceed. A balance call has no circuit. -/
def tryAcquire (endpoint : WalletEndpoint) : Action BreakerDecision :=
  Prog.request fun i w =>
    match w.breaker.get endpoint with
    | none => (⟨.closed, true⟩, w)
    | some entry => ((entry.tryAcquire opts w.now).1, w.acquire opts i endpoint entry)

/-- Await the answer and report it. -/
def answer (endpoint : WalletEndpoint) : Action Unit :=
  Prog.lift fun i status w =>
    match w.breaker.get endpoint with
    | none => some ((), w)
    | some entry => some ((), w.report opts i endpoint entry status)

/-- **One wallet call**, as far as its circuit sees it. -/
def invoke (endpoint : WalletEndpoint) : Action Unit := do
  let decision ← tryAcquire opts endpoint
  if !decision.allow then pure () else answer opts endpoint

/-- **The calls of one client**; outside, time passes. -/
def client : System World RsStatus WalletEndpoint Millis where
  code := invoke opts
  admits _ _ := true
  env ms w := some { w with now := w.now + ms }
  dies _ _ := false

/-- A state of the client. -/
abbrev State := Pool World RsStatus WalletEndpoint

/-- An event of the client. -/
abbrev Happening := Event RsStatus WalletEndpoint Millis

/-- A client that nobody has used yet. -/
def initial : State := ⟨⟨0, .fresh, []⟩, []⟩

end CircuitBreaker

end YantraRgs
