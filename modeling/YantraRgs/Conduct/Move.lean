import Mathlib.Algebra.Order.Ring.Unbundled.Rat
import YantraRgs.Server.System

/-! # What one action of a call may do

Every action of every call of the server is a **move**: it leaves the tracked part of the world
alone, or it writes one row, and then it has a reason for it. The reasons are what the invariants
of the server are derived from.

* **`Policy`** — which conditions a run is known to meet; some reasons rest on them.
* **`SessionStep`**, **`RoundStep`**, **`BetStep`**, **`JobStep`** — how a row may change.
* **`NewBet`**, **`NewJob`**, **`NewCall`**, **`Handing`** — when a row or a request is new.
* **`Move`** — one action; **`Later`** — what every action preserves. -/

namespace YantraRgs

/-- The key of a round's engine. -/
def Round.key (r : Round) : EngineKey := ⟨r.operatorId, r.gameCode, r.currency⟩

/-- Whether the operator took the stake of a bet, as far as the status says. -/
def BetStatus.taken : BetStatus → Bool
  | .pending | .rejected => false
  | .accepted | .settled | .voided | .failed => true

/-- What the unique constraint of the journal is over. -/
def WalletCall.key (c : WalletCall) : OperatorId × WalletEndpoint × Uuid × Nat :=
  (c.operatorId, c.endpoint, c.requestUuid, c.attempt)

/-- What the outcome of a round is derived from. -/
def Round.rngContext (r : Round) : RngContext := ⟨r.serverSeed, r.clientSeed, r.nonce⟩

/-- The tracked part of a round in an engine's memory. -/
def ActiveRound.tracked (a : ActiveRound) : Nat × RngContext := (a.id, GameEngine.rngContext a)

/-- The tracked part of an engine's memory. -/
def Engine.tracked (engine : Engine) : EngineKey × List (Nat × RngContext) × Bool :=
  (engine.key, engine.actives.map ActiveRound.tracked, engine.running)

/-- The tracked part of a stored configuration. -/
def OperatorGameConfig.tracked (c : OperatorGameConfig) : EngineKey × Option GameMathConfig :=
  (⟨c.operatorId, c.gameCode, c.currency⟩, c.config)

namespace World

variable (w : World)

/-- The round `id` exists and is of the given key. -/
def RoundOf (id : Nat) (key : EngineKey) : Prop := ∃ r, w.rounds[id]? = some r ∧ r.key = key

/-- An engine reference carries the key of its engine. -/
def Keyed (e : EngineRef) : Prop := ∃ engine, w.engine? e = some engine ∧ engine.key = e.key

/-- The rounds that an engine made active so far. -/
def activeIds (e : EngineRef) : List Nat :=
  ((w.engine? e).map fun engine => engine.actives.map ActiveRound.id).getD []

/-- The rounds whose bets a call may touch. -/
def Reaches (k : Call) (id : Nat) : Prop :=
  match k with
  | .start e | .iteration e _ => w.RoundOf id e.key
  | .placeBet e _ | .cashOut e _ => w.Keyed e ∧ id ∈ w.activeIds e
  | _ => False

/-- The outcome of a round is stored. -/
def OutcomeKnown (id : Nat) : Prop := ∃ r, w.rounds[id]? = some r ∧ r.outcome.isSome = true

/-- A round is marked settled. -/
def RoundSettled (id : Nat) : Prop := ∃ r, w.rounds[id]? = some r ∧ r.settled = true

/-- Every round of a key is settled. -/
def AllSettled (key : EngineKey) : Prop := ∀ r ∈ w.rounds, r.key = key → r.settled = true

/-- No bet of a round is accepted. -/
def NoneAccepted (id : Nat) : Prop := ∀ b ∈ w.bets, b.roundId = id → b.status ≠ .accepted

/-- A request uuid is in use. -/
def RequestKnown (q : Uuid) : Prop :=
  (∃ s ∈ w.wire, s.request.requestUuid = q) ∨ (∃ c ∈ w.walletCalls, c.requestUuid = q) ∨
    ∃ j ∈ w.jobs, j.payload.requestUuid = q

/-- A win transaction was handed out for the bet with the given stake transaction: to the wallet or
to the queue. -/
def HandedOut (stake credit : Uuid) : Prop :=
  (∃ s ∈ w.wire, s.request.endpoint = .win ∧ s.request.referenceTransactionUuid = some stake ∧
    s.request.transactionUuid = some credit) ∨
  ∃ j ∈ w.jobs, j.endpoint = .win ∧ j.payload.referenceTransactionUuid = some stake ∧
    j.payload.transactionUuid = credit

/-- A bet has a queued wallet call, open or completed. -/
def HasJob (endpoint : WalletEndpoint) (betId : Nat) : Prop :=
  ∃ j ∈ w.jobs, j.endpoint = endpoint ∧ j.betId = some betId

/-- The win of a bet is queued, under the transaction noted on the bet and with the given payout. -/
def Credited (betId : Nat) (b : Bet) (payoutMicro : Int) : Prop :=
  ∃ j ∈ w.jobs, j.endpoint = .win ∧ j.betId = some betId ∧
    b.winTransactionUuid = some j.payload.transactionUuid ∧ j.payload.amountMicro = some payoutMicro

/-- What is tracked of the stored configurations. -/
def storedConfigs : List (EngineKey × Option GameMathConfig) :=
  w.gameConfigs.map OperatorGameConfig.tracked

/-- The configuration that is stored for a key, when the game's schema reads it. -/
def storedConfig (key : EngineKey) : Option GameMathConfig := (w.storedConfigs.lookup key).join

/-- The request of a job was answered with a status that ends the job. -/
def Answered (j : PendingWalletJob) : Prop :=
  ∃ r ∈ w.replies, ∃ s, w.wire[r.sent]? = some s ∧ j.request = some s.request ∧
    endsJob r.status = true

end World

/-- What the game pays a bet of a round whose outcome is stored, under a configuration and a
commission. -/
def Env.Settles (env : Env) (r : Round) (b : Bet) (config : GameMathConfig)
    (commissionMicro payoutMicro : Int) : Prop :=
  ∃ plugin outcome, env.getPlugin r.gameCode = some plugin ∧ r.outcome = some outcome ∧
    plugin.settleBet { selection := b.selection, amountMicro := b.amountMicro, outcome, config
                       commissionMicro } = ⟨true, payoutMicro⟩

namespace World

variable (env : Env) (w : World)

/-- What the game's settlement pays a bet under the configuration that its round was created under
and the commission noted on the bet. -/
def Earns (b : Bet) (payoutMicro : Int) : Prop :=
  ∃ r config, w.rounds[b.roundId]? = some r ∧ r.createdUnder = some config ∧
    env.Settles r b config b.commissionMicro payoutMicro

/-- The game's settlement pays a bet nothing, on the same terms. -/
def Loses (b : Bet) : Prop :=
  ∃ r config plugin outcome, w.rounds[b.roundId]? = some r ∧ r.createdUnder = some config ∧
    env.getPlugin r.gameCode = some plugin ∧ r.outcome = some outcome ∧
    (plugin.settleBet { selection := b.selection, amountMicro := b.amountMicro, outcome, config
                        commissionMicro := b.commissionMicro }).won = false

/-- What the game pays a bet that is cashed out, on the same terms: the multiplier is the one shown
at the elapsed time, unless a smaller one was asked for or the round crashes before. -/
def CashesOut (b : Bet) (elapsedMs : Millis) (multiplier : Rat) (payoutMicro : Int) : Prop :=
  ∃ r config plugin live, w.rounds[b.roundId]? = some r ∧ r.createdUnder = some config ∧
    env.getPlugin r.gameCode = some plugin ∧ plugin.liveCrash = some live ∧
    (∃ (forced : Option Rat) (crashMultiplier : Rat),
      multiplier = min (min (forced.getD (live.multiplierAtElapsedMs elapsedMs config))
        (live.multiplierAtElapsedMs elapsedMs config)) crashMultiplier) ∧
    live.settleCashout { selection := b.selection, amountMicro := b.amountMicro
                         cashoutMultiplier := multiplier, config
                         commissionMicro := b.commissionMicro } = ⟨true, payoutMicro⟩

/-- What a bet is due, at the end of its round or when it is cashed out. -/
def Due (b : Bet) (payoutMicro : Int) : Prop :=
  w.Earns env b payoutMicro ∨ ∃ elapsedMs multiplier, w.CashesOut env b elapsedMs multiplier payoutMicro

end World

/-- An answer that shows a settled round with an outcome says that the outcome was recomputed, and
that it matches. -/
def Answer.Agrees : Answer → Prop
  | .replay bundle => bundle.state = .settled → ∀ outcome ∈ bundle.outcome,
      bundle.recomputedOutcome = some (outcome, true)
  | .disputePack pack => pack.round.state = .settled → pack.round.outcome.isSome = true →
      pack.provablyFairCheck = some true
  | _ => True

/-- Which server runs, and which conditions its runs are known to meet. -/
structure Policy where
  /-- What the server is built and configured with. -/
  env : Env
  /-- One engine per key at a time. -/
  oneEngine : Prop
  /-- A bet is accepted only while its round takes bets or rolls, and no round with accepted bets is
  voided. -/
  inTime : Prop
  /-- Jobs are locked only when nobody holds them and their attempt is new. -/
  freeLocks : Prop
  /-- A round is created only when the nonces of the rounds before it were counted up. -/
  countedUp : Prop
  /-- An engine starts only when every win handed out is noted on its bet. -/
  durable : Prop
  /-- A replay or a dispute pack finds a stored configuration that draws what was drawn. -/
  agreeing : Prop
  /-- An engine that pays holds the configuration and the commission that its bets were placed
  under. -/
  priced : Prop
  /-- A turn of the loop begins only when every round of the engine's key is settled. -/
  closed : Prop
  /-- An engine starts only when no win was handed out for a bet whose round will be voided. -/
  unpaid : Prop
  /-- The call `start` looked at, and the world in which it was called. -/
  focus : Option (Nat × World)

/-- No condition at all. -/
def Policy.free (env : Env) : Policy where
  env := env
  oneEngine := False
  inTime := False
  freeLocks := False
  countedUp := False
  durable := False
  agreeing := False
  priced := False
  closed := False
  unpaid := False
  focus := none

/-- What a roll may store: what is stored, or what the game draws from the round's seeds under a
configuration, which is then noted. -/
inductive Draws (P : Policy) (r : Round) : Option GameOutcome → Option GameMathConfig → Prop
  | keep : Draws P r r.outcome r.drawnUnder
  | draw (plugin : GamePlugin) (config : GameMathConfig)
      (h : P.env.getPlugin r.gameCode = some plugin)
      (hn : P.oneEngine → r.outcome = none ∧ r.settled = false) :
      Draws P r (some (plugin.computeOutcome r.rngContext config)) (some config)

/-! ## How a row may change -/

/-- How session `id` may change. -/
inductive SessionStep (w : World) (id : Nat) : GameSession → GameSession → Prop
  | terminate (s : GameSession) (at' : Millis) (reason : String) :
      SessionStep w id s { s with terminatedAt := some at', terminationReason := some reason }
  | countUp (s : GameSession) : SessionStep w id s { s with nonce := s.nonce + 1 }
  | reseed (s : GameSession) (c : ClientSeed) :
      SessionStep w id s (SessionService.reseed id w.serial c s)

/-- How a round may change, by a `k`. -/
inductive RoundStep (P : Policy) (k : Call) (w : World) (id : Nat) : Round → Round → Prop
  | note (r : Round) (total : Int) (prevRowHash rowHash : Option RowHash) :
      RoundStep P k w id r { r with totalBetsMicro := total, prevRowHash, rowHash }
  | roll (r : Round) (outcome : Option GameOutcome) (drawnUnder : Option GameMathConfig)
      (hk : k.drives.isSome = true) (hs : P.oneEngine → r.settled = false)
      (h : Draws P r outcome drawnUnder) :
      RoundStep P k w id r { r with state := .rolling, outcome, drawnUnder }
  | result (r : Round) (outcome : Option GameOutcome) (drawnUnder : Option GameMathConfig)
      (at' : Option Millis) (hk : k.drives.isSome = true) (h : Draws P r outcome drawnUnder) :
      RoundStep P k w id r { r with state := .result, outcome, drawnUnder, rolledAt := at' }
  | settle (r : Round) (total : Int) (now : Millis) (hk : k.drives.isSome = true)
      (h : P.oneEngine → P.inTime → w.NoneAccepted id) :
      RoundStep P k w id r (r.settle total now)
  | void (r : Round) (now : Millis) (hk : k.drives.isSome = true) :
      RoundStep P k w id r (r.void now)

/-- How a bet may change, by call `i`, a `k`. -/
inductive BetStep (P : Policy) (i : Nat) (k : Call) (w : World) : Bet → Bet → Prop
  | accept (b : Bet) (hi : b.betTransactionUuid.owner = i) (hb : b.status = .pending) :
      BetStep P i k w b { b with status := .accepted }
  | reject (b : Bet) (hi : b.betTransactionUuid.owner = i) (hb : b.status = .pending) :
      BetStep P i k w b { b with status := .rejected }
  | lose (b : Bet) (now : Millis) (hk : k.drives.isSome = true) (hb : b.status.taken = true)
      (hv : P.oneEngine → b.status ≠ .voided)
      (hd : P.oneEngine → P.priced → w.Loses P.env b) : BetStep P i k w b (b.lose now)
  | win (b : Bet) (payoutMicro : Int) (u : Uuid) (now : Millis) (hb : b.status.taken = true)
      (hv : P.oneEngine → b.status ≠ .voided) (hu : u.use = .credit)
      (hd : P.oneEngine → P.priced → w.Earns P.env b payoutMicro) :
      BetStep P i k w b (b.win payoutMicro u now)
  | fail (b : Bet) (u : Uuid) (hb : b.status.taken = true)
      (hv : P.oneEngine → b.status ≠ .voided) (ho : w.OutcomeKnown b.roundId)
      (hu : u.use = .credit) : BetStep P i k w b (b.fail u)
  | cashOut (b : Bet) (mode : CashoutMode) (m : Rat) (ms : Millis) (payoutMicro : Int) (u : Uuid)
      (status : BetStatus) (now : Millis) (hb : b.status.taken = true)
      (hv : P.oneEngine → b.status ≠ .voided) (hs : status = .settled ∨ status = .failed)
      (hu : u.use = .credit)
      (hd : P.oneEngine → P.priced → w.CashesOut P.env b ms m payoutMicro) :
      BetStep P i k w b (b.cashOut mode m ms payoutMicro u status now)
  | void (b : Bet) (hb : b.status.taken = true) (hr : w.RoundSettled b.roundId)
      (hk : ∃ e, k = .start e ∧ (P.oneEngine → w.activeIds e = [])) : BetStep P i k w b b.void

/-- Every use of a job's request so far was for an attempt up to `n`. -/
structure World.Tallied (w : World) (j : PendingWalletJob) (n : Nat) : Prop where
  wire : ∀ s ∈ w.wire, s.request.requestUuid = j.payload.requestUuid → s.attempt ≤ n
  calls : ∀ c ∈ w.walletCalls, c.requestUuid = j.payload.requestUuid → c.attempt ≤ n

/-- Call `i` holds the lock of a job and gives it back after the attempt `attempts`. -/
structure Unlocking (i : Nat) (w : World) (j : PendingWalletJob) (attempts : Nat) : Prop where
  holder : j.lockedUntil.map JobLock.holder = some i
  tallied : w.Tallied j attempts

/-- How a queued job may change, by call `i`. -/
inductive JobStep (P : Policy) (i : Nat) (w : World) : PendingWalletJob → PendingWalletJob → Prop
  | lock (j : PendingWalletJob) (expiresAt : Millis) (hn : w.now ≤ expiresAt)
      (hl : j.lockable w.now = true) :
      JobStep P i w j { j with lockedUntil := some ⟨i, expiresAt⟩ }
  | complete (j : PendingWalletJob) (attempts : Nat) (now : Millis) (ha : w.Answered j)
      (hl : P.freeLocks → Unlocking i w j attempts) :
      JobStep P i w j { j with completedAt := some now, lockedUntil := none, attempts }
  | putOff (j : PendingWalletJob) (attempts : Nat) (error : String) (nextAttemptAt : Millis)
      (hl : P.freeLocks → Unlocking i w j attempts) :
      JobStep P i w j
        { j with attempts, lastError := some error, lockedUntil := none, nextAttemptAt }

/-! ## When a row or a request is new -/

/-- A round is created by an engine's loop. -/
structure NewRound (P : Policy) (k : Call) (w : World) (r : Round) : Prop where
  loop : ∃ e polls, k = .iteration e polls ∧ r.key = e.key
  state : r.state = .bettingOpen
  outcome : r.outcome = none
  settled : r.settled = false
  /-- The seed was drawn for the round's session, and not just now. -/
  seed : r.serverSeed.serial < w.serial
  session : r.serverSeed.session = r.sessionId
  engine : ∃ s, w.sessions[r.sessionId]? = some s ∧ s.operatorId = r.operatorId ∧
    s.playerRef = .engine r.gameCode r.currency
  nonce : P.oneEngine → P.countedUp → ∀ r' ∈ w.rounds, r'.serverSeed = r.serverSeed →
    r'.nonce < r.nonce
  alone : P.oneEngine → P.closed → w.AllSettled r.key

/-- A bet is created by the call that places it. -/
structure NewBet (i : Nat) (k : Call) (w : World) (b : Bet) : Prop where
  owner : b.betTransactionUuid.owner = i
  use : b.betTransactionUuid.use = .stake
  sole : ∀ b' ∈ w.bets, b'.betTransactionUuid.owner ≠ i
  status : b.status = .pending
  unpaid : b.winTransactionUuid = none
  uncashed : b.cashoutPayoutMicro = none
  undecided : b.won = none
  session : ∃ s, w.sessions[b.sessionId]? = some s
  reach : w.Reaches k b.roundId
  placing : ∃ e params, k = .placeBet e params
  placedAt : b.placedAt = w.now

/-- What a job is queued for. -/
inductive JobPurpose (P : Policy) (k : Call) (w : World) (b : Bet) (j : PendingWalletJob) : Prop
  | refund (he : j.endpoint = .rollback) (hb : b.status ≠ .pending)
      (hr : b.status = .rejected ∨ (P.oneEngine → b.status = .voided ∧
        (P.unpaid → ∀ u, ¬ w.HandedOut b.betTransactionUuid u)))
  | credit (he : j.endpoint = .win) (hb : b.status.taken = true)
      (hv : P.oneEngine → b.status ≠ .voided)
      (hu : j.payload.transactionUuid.use = .credit)
      (hd : P.oneEngine → P.durable → (∃ e, k = .start e) →
        ∀ u, w.HandedOut b.betTransactionUuid u → u = j.payload.transactionUuid)
      (hp : P.oneEngine → P.priced → ∃ payoutMicro, j.payload.amountMicro = some payoutMicro ∧
        w.Due P.env b payoutMicro)

/-- A job is queued for a bet, under a request of its own. -/
structure NewJob (P : Policy) (i : Nat) (k : Call) (w : World) (j : PendingWalletJob) : Prop where
  attempts : j.attempts = 0
  free : j.lockedUntil = none
  opened : j.completedAt = none
  owner : j.payload.requestUuid.owner = i
  serial : j.payload.requestUuid.serial < w.serial
  request : ∀ j' ∈ w.jobs, j'.payload.requestUuid ≠ j.payload.requestUuid
  journalled : ∀ c ∈ w.walletCalls, c.requestUuid = j.payload.requestUuid →
    c.attempt = 1 ∧ ∃ s ∈ w.wire, s.request.requestUuid = j.payload.requestUuid
  handed : ∀ s ∈ w.wire, s.request.requestUuid = j.payload.requestUuid → s.attempt = 1
  bet : ∃ id b, j.betId = some id ∧ w.bets[id]? = some b ∧
    j.payload.referenceTransactionUuid = some b.betTransactionUuid ∧ w.Reaches k b.roundId ∧
    JobPurpose P k w b j

/-- Call `i` runs a job, whose next attempt is `attempt`. -/
def Running (P : Policy) (i : Nat) (w : World) (j : PendingWalletJob) (attempt : Nat) : Prop :=
  j ∈ w.jobs ∧ (P.freeLocks → j.lockedUntil.map JobLock.holder = some i ∧ attempt = j.attempts + 1)

/-- A journal row is written under a request nobody uses yet, or for the next attempt of a job. -/
inductive NewCall (P : Policy) (i : Nat) (w : World) (c : WalletCall) : Prop
  | first (ho : c.requestUuid.owner = i) (hq : ¬ w.RequestKnown c.requestUuid) (ha : c.attempt = 1)
      (hn : c.requestUuid.serial < w.serial)
  | again (j : PendingWalletJob) (hj : Running P i w j c.attempt)
      (hq : c.requestUuid = j.payload.requestUuid)

/-- A request is handed to the adapter: a stake, a win, or the attempt of a job. -/
inductive Handing (P : Policy) (i : Nat) (k : Call) (w : World) (s : Sent) : Prop
  | stake (b : Bet) (hb : b ∈ w.bets) (hi : b.betTransactionUuid.owner = i)
      (hp : b.status = .pending) (he : s.request.endpoint = .bet)
      (ht : s.request.transactionUuid = some b.betTransactionUuid) (ha : s.attempt = 1)
      (ho : s.request.requestUuid.owner = i)
      (hw : ∀ s' ∈ w.wire, s'.request.requestUuid ≠ s.request.requestUuid)
      (hj : ∀ j ∈ w.jobs, j.payload.requestUuid ≠ s.request.requestUuid)
      (hn : s.request.requestUuid.serial < w.serial)
  | credit (b : Bet) (hb : b ∈ w.bets) (ht : b.status.taken = true)
      (hv : P.oneEngine → b.status ≠ .voided) (hr : w.Reaches k b.roundId)
      (he : s.request.endpoint = .win)
      (hs : s.request.referenceTransactionUuid = some b.betTransactionUuid) (u : Uuid)
      (hu : s.request.transactionUuid = some u) (huse : u.use = .credit) (ha : s.attempt = 1)
      (ho : s.request.requestUuid.owner = i)
      (hw : ∀ s' ∈ w.wire, s'.request.requestUuid ≠ s.request.requestUuid)
      (hj : ∀ j ∈ w.jobs, j.payload.requestUuid ≠ s.request.requestUuid)
      (hn : s.request.requestUuid.serial < w.serial)
      (hp : P.oneEngine → P.priced → ∃ payoutMicro, s.request.amountMicro = some payoutMicro ∧
        w.Due P.env b payoutMicro)
  | job (j : PendingWalletJob) (hj : Running P i w j s.attempt)
      (hq : j.request = some s.request)
      (hw : P.freeLocks → ∀ s' ∈ w.wire, s'.request.requestUuid = s.request.requestUuid →
        s'.attempt < s.attempt)

/-- The journal row noted on a request is a row of that request; when there is none, no row was in
its way. -/
structure Journalled (P : Policy) (w : World) (s : Sent) : Prop where
  row : ∀ n, s.row = some n → ∃ c, w.walletCalls[n]? = some c ∧ c.endpoint = s.request.endpoint ∧
    c.requestUuid = s.request.requestUuid ∧ c.attempt = s.attempt
  none : P.freeLocks → s.row = none → ∀ c ∈ w.walletCalls,
    c.requestUuid = s.request.requestUuid → c.attempt ≠ s.attempt

/-! ## Moves -/

/-- The tracked part of the world is left alone. -/
structure Alike (w w' : World) : Prop where
  now : w'.now = w.now
  serial : w.serial ≤ w'.serial
  sessions : w'.sessions = w.sessions
  rounds : w'.rounds = w.rounds
  bets : w'.bets = w.bets
  jobs : w'.jobs = w.jobs
  wire : w'.wire = w.wire
  inflight : w'.inflight = w.inflight
  replies : w'.replies = w.replies
  book : w'.book = w.book
  calls : w'.walletCalls.map WalletCall.key = w.walletCalls.map WalletCall.key
  engines : w'.engines.map Engine.tracked = w.engines.map Engine.tracked
  configs : w'.gameConfigs = w.gameConfigs
  answers : w'.answers = w.answers

/-- So are the phases of the rounds in the memory of the engines. -/
structure Same (w w' : World) : Prop extends Alike w w' where
  actives : w'.engines.map Engine.actives = w.engines.map Engine.actives

/-- A bet whose win was queued anew, with what the game pays it under the configuration and the
commission of the engine. -/
def Requeued (env : Env) (w : World) (id : Nat) (r₀ : Round) (b : Bet) : Prop :=
  b.status = .failed ∧ ∃ config commissionMicro payoutMicro,
    env.Settles r₀ b config commissionMicro payoutMicro ∧ w.Credited id b payoutMicro

/-- A bet of an unsettled round that resuming the round leaves alone. -/
def Bet.Skipped (r : Round) (b : Bet) : Prop :=
  (b.status ≠ .accepted ∧ b.status ≠ .failed) ∨
    (b.status = .failed ∧ (b.cashoutPayoutMicro.isSome = true ∨ r.outcome.isSome = false))

/-- What became of a bet while the unsettled rounds of its key were resumed. -/
structure Recovered (env : Env) (w : World) (id : Nat) (r₀ : Round) (b₀ b : Bet) : Prop where
  cashed : b.cashoutPayoutMicro = b₀.cashoutPayoutMicro
  left : b₀.status ≠ .accepted ∧ b₀.status ≠ .failed → b.status = b₀.status
  accepted : b₀.status = .accepted → b.status = .settled ∨ Requeued env w id r₀ b ∨
    (b.status = .voided ∧ w.HasJob .rollback id)
  failed : b₀.status = .failed → b.status = .failed ∨ b.status = .settled
  owed : b₀.status = .failed → b₀.cashoutPayoutMicro = none → r₀.outcome.isSome = true →
    b.status = .settled ∨ Requeued env w id r₀ b
  skipped : b₀.status = .failed →
    b₀.cashoutPayoutMicro.isSome = true ∨ r₀.outcome.isSome = false → b = b₀

/-- **The unsettled rounds of a key were resumed** since the world `w₀`. -/
structure Resumed (env : Env) (key : EngineKey) (w₀ w : World) : Prop where
  stuck : ∀ {id : Nat} {b₀ : Bet} {r₀ : Round}, w₀.bets[id]? = some b₀ →
    w₀.rounds[b₀.roundId]? = some r₀ → r₀.stuck key = true →
      ∃ b, w.bets[id]? = some b ∧ Recovered env w id r₀ b₀ b
  /-- Nothing was queued for a bet that was left alone. -/
  quiet : ∀ {id : Nat} {b₀ : Bet} {r₀ : Round} {endpoint : WalletEndpoint},
    w₀.bets[id]? = some b₀ → w₀.rounds[b₀.roundId]? = some r₀ → r₀.stuck key = true →
      b₀.Skipped r₀ → w.HasJob endpoint id → w₀.HasJob endpoint id
  closed : ∀ {id : Nat} {b₀ : Bet} {r₀ : Round}, w₀.bets[id]? = some b₀ →
    w₀.rounds[b₀.roundId]? = some r₀ → r₀.key = key → r₀.settled = true →
      w.bets[id]? = some b₀
  old : ∀ {id : Nat} {b : Bet}, w.bets[id]? = some b → w.RoundOf b.roundId key →
    ∃ b₀, w₀.bets[id]? = some b₀
  rounds : ∀ {id : Nat} {r : Round}, w.rounds[id]? = some r → r.key = key →
    ∃ r₀, w₀.rounds[id]? = some r₀ ∧ r.outcome = r₀.outcome

/-- The call `start` that is looked at has resumed every round it found unsettled. -/
def ResumedAll (P : Policy) (i : Nat) (k : Call) (w : World) : Prop :=
  ∀ w₀ e, P.focus = some (i, w₀) → k = .start e → P.oneEngine → Resumed P.env e.key w₀ w

/-- **One action** of call `i`, a `k`. -/
inductive Move (P : Policy) (i : Nat) (k : Call) (w : World) : World → Prop
  | idle {w' : World} (h : Same w w') : Move P i k w w'
  | phase (e : EngineRef) (polls : Nat) (he : k = .iteration e polls) (hk : w.Keyed e)
      (f : ActiveRound → ActiveRound) (hf : ∀ a, (f a).tracked = a.tracked) :
      Move P i k w (w.updateEngine e (Engine.updateActive f))
  | addSession (s : GameSession) (h : s.serverSeed = ⟨w.serial, w.sessions.length⟩) :
      Move P i k w { w.addSession s with serial := w.serial + 2 }
  | session (id : Nat) (s s' : GameSession) (serial : Nat) (hs : w.sessions[id]? = some s)
      (h : SessionStep w id s s') (hn : w.serial ≤ serial)
      (hr : s'.serverSeed ≠ s.serverSeed → w.serial < serial) :
      Move P i k w { w with sessions := w.sessions.set id s', serial }
  | addRound (r : Round) (h : NewRound P k w r) : Move P i k w (w.addRound r)
  | round (id : Nat) (r r' : Round) (hr : w.rounds[id]? = some r) (hk : w.Reaches k id)
      (h : RoundStep P k w id r r') : Move P i k w { w with rounds := w.rounds.set id r' }
  | addBet (b : Bet) (h : NewBet i k w b) : Move P i k w (w.addBet b)
  | bet (id : Nat) (b b' : Bet) (hb : w.bets[id]? = some b) (hk : w.Reaches k b.roundId)
      (h : BetStep P i k w b b') : Move P i k w { w with bets := w.bets.set id b' }
  | addJob (j : PendingWalletJob) (h : NewJob P i k w j) : Move P i k w (w.addJob j)
  | job (id : Nat) (j j' : PendingWalletJob) (hj : w.jobs[id]? = some j) (h : JobStep P i w j j') :
      Move P i k w { w with jobs := w.jobs.set id j' }
  | addCall (c : WalletCall) (h : NewCall P i w c) (hk : ∀ c' ∈ w.walletCalls, c'.key ≠ c.key) :
      Move P i k w (w.addWalletCall c)
  | hand (s : Sent) (hc : s.caller = i) (h : Handing P i k w s) (hr : Journalled P w s) :
      Move P i k w (w.hand s)
  | activate (e : EngineRef) (polls : Nat) (he : k = .iteration e polls) (active : ActiveRound)
      (hk : w.Keyed e) (hr : ∃ r, w.rounds[active.id]? = some r ∧ r.key = e.key ∧
        r.rngContext = GameEngine.rngContext active) :
      Move P i k w (w.updateEngine e fun engine =>
        { engine with actives := engine.actives ++ [active] })
  | answer (x : Answer) (h : P.agreeing → k.shows = true → x.Agrees) :
      Move P i k w (w.answer i x)
  | begin (e : EngineRef) (he : k = .start e) (hk : w.Keyed e) (h : ResumedAll P i k w)
      (ha : P.oneEngine → w.AllSettled e.key) :
      Move P i k w (w.updateEngine e fun engine => { engine with running := true })

end YantraRgs
