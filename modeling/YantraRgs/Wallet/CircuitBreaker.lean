import YantraRgs.Wallet.Types

/-! # The in-process circuit breaker of outbound wallet calls

One entry per endpoint: after `failureThreshold` failures in a row the circuit opens, after
`cooldownMs` one probe may pass, and the probe's result closes or reopens it. -/

namespace YantraRgs

/-- The state of a circuit. -/
inductive CircuitState
  | closed
  | open
  | halfOpen
  deriving DecidableEq

/-- One circuit. -/
structure BreakerEntry where
  state : CircuitState
  consecutiveFailures : Nat
  openedAt : Millis
  probeInflight : Bool
  deriving DecidableEq

/-- A circuit nobody has used yet. -/
def BreakerEntry.fresh : BreakerEntry := ⟨.closed, 0, 0, false⟩

/-- Whether the caller may proceed, and the state it was told. -/
structure BreakerDecision where
  state : CircuitState
  allow : Bool
  deriving DecidableEq

/-- How many failures in a row open a circuit, and for how long. -/
structure BreakerOptions where
  failureThreshold : Nat
  cooldownMs : Millis
  deriving DecidableEq

/-- The options of every wallet client of the server. -/
def BreakerOptions.default : BreakerOptions := ⟨5, 30000⟩

namespace BreakerEntry

/-- An open circuit whose cooldown has elapsed turns half-open. -/
def thaw (opts : BreakerOptions) (now : Millis) (entry : BreakerEntry) : BreakerEntry :=
  if entry.state = .open ∧ opts.cooldownMs ≤ now - entry.openedAt then
    { entry with state := .halfOpen, probeInflight := false }
  else entry

/-- Ask to proceed. A half-open circuit lets one probe through. -/
def tryAcquire (opts : BreakerOptions) (now : Millis) (entry : BreakerEntry) :
    BreakerDecision × BreakerEntry :=
  let entry := entry.thaw opts now
  match entry.state with
  | .open => (⟨.open, false⟩, entry)
  | .halfOpen =>
      if entry.probeInflight then (⟨.halfOpen, false⟩, entry)
      else (⟨.halfOpen, true⟩, { entry with probeInflight := true })
  | .closed => (⟨.closed, true⟩, entry)

/-- A healthy answer closes the circuit. -/
def recordSuccess (entry : BreakerEntry) : BreakerEntry :=
  { entry with state := .closed, consecutiveFailures := 0, probeInflight := false }

/-- A failure counts; on a half-open circuit, or at the threshold, it opens the circuit. -/
def recordFailure (opts : BreakerOptions) (now : Millis) (entry : BreakerEntry) : BreakerEntry :=
  let failures := entry.consecutiveFailures + 1
  if entry.state = .halfOpen ∨ opts.failureThreshold ≤ failures then
    ⟨.open, failures, now, false⟩
  else { entry with consecutiveFailures := failures, probeInflight := false }

/-- A circuit nobody has used lets every call through. -/
@[simp] theorem tryAcquire_fresh (opts : BreakerOptions) (now : Millis) :
    fresh.tryAcquire opts now = (⟨.closed, true⟩, fresh) := by
  simp [tryAcquire, thaw, fresh]

end BreakerEntry

/-- The circuits of one wallet client, per state-changing endpoint. -/
structure Breaker where
  bet : BreakerEntry
  win : BreakerEntry
  rollback : BreakerEntry
  deriving DecidableEq

/-- The breaker of a new wallet client. -/
def Breaker.fresh : Breaker := ⟨.fresh, .fresh, .fresh⟩

/-- The circuit of an endpoint; a balance call has none. -/
def Breaker.get (b : Breaker) : WalletEndpoint → Option BreakerEntry
  | .bet => some b.bet
  | .win => some b.win
  | .rollback => some b.rollback
  | .balance | .endRound => none

/-- Replace the circuit of an endpoint. -/
def Breaker.set (b : Breaker) (endpoint : WalletEndpoint) (entry : BreakerEntry) : Breaker :=
  match endpoint with
  | .bet => { b with bet := entry }
  | .win => { b with win := entry }
  | .rollback => { b with rollback := entry }
  | .balance | .endRound => b

end YantraRgs
