import YantraRgs.Await.Program
import YantraRgs.Db.Schema
import YantraRgs.Db.Table
import YantraRgs.Wallet.CircuitBreaker
import YantraRgs.Wallet.Operator

/-! # The world of the server

Everything that the calls of the server share: the database, the memory of the engines, the wallet
requests on their way to the operators, what the operators booked and answered, and what was
emitted to players and answered to callers.

* **`Engine`**, **`ActiveRound`** — the memory of one engine. An `ActiveRound` is an object that a
  call may hold on to, so every one that was ever made is kept.
* **`Sent`**, **`Reply`** — a request handed to the wallet adapter, and an operator's answer to it.
* **`Emission`**, **`Answer`** — what sockets and callers are told.
* **`Choice`** — what the outside decides at an action.
* **`Action`** — a program of the server. -/

namespace YantraRgs

/-- What an engine is keyed by. -/
structure EngineKey where
  operatorId : OperatorId
  gameCode : GameCode
  currency : Currency
  deriving DecidableEq

/-- A reference to an engine: its key, and its place among all engines that were ever made. -/
structure EngineRef where
  key : EngineKey
  index : Nat
  deriving DecidableEq

/-- The configuration of an engine, apart from its key. -/
structure EngineConfig where
  minBetMicro : Int
  maxBetMicro : Int
  commissionMicro : Int
  bettingWindowMs : Millis
  rollingWindowMs : Millis
  cooldownMs : Millis
  configVersion : Nat
  deriving DecidableEq

/-- The phase of the round in an engine's memory. -/
inductive EnginePhase
  | pending
  | bettingOpen
  | rolling
  | result
  | settled
  deriving DecidableEq

/-- The round in an engine's memory. -/
structure ActiveRound where
  id : Nat
  nonce : Nat
  serverSeed : Seed
  serverSeedHash : SeedHash
  clientSeed : ClientSeed
  phase : EnginePhase
  phaseStartedAt : Millis
  phaseDurationMs : Millis
  outcome : Option GameOutcome
  crashAtMs : Option Millis
  deriving DecidableEq

/-- The memory of one engine. -/
structure Engine where
  key : EngineKey
  cfg : EngineConfig
  gameConfig : GameMathConfig
  /-- Every round object the engine made; the last one is the active one. -/
  actives : List ActiveRound
  running : Bool
  /-- Whether the engine's process is up. -/
  alive : Bool
  breaker : Breaker
  deriving DecidableEq

/-- The active round. -/
def Engine.active (engine : Engine) : Option ActiveRound := engine.actives.getLast?

/-- Change the active round. -/
def Engine.updateActive (f : ActiveRound → ActiveRound) (engine : Engine) : Engine :=
  { engine with actives := engine.actives.modify (engine.actives.length - 1) f }

/-- A request handed to the wallet adapter. -/
structure Sent where
  request : WalletRequest
  attempt : Nat
  /-- The journal row that was written for it. -/
  row : Option Nat
  /-- The call that handed it over. -/
  caller : Nat
  deriving DecidableEq

/-- An operator's answer to a request. -/
structure Reply where
  /-- The request answered, by its place on the wire. -/
  sent : Nat
  status : RsStatus
  balanceMicro : Option Int
  message : Option String
  deriving DecidableEq

/-- Where an event is emitted to. -/
inductive Room
  | game (key : EngineKey)
  | session (sessionId : Nat)
  deriving DecidableEq

/-- A player's line in a pool update. -/
structure PoolPlayer where
  betId : Nat
  playerRef : String
  amountMicro : Int
  cashoutMultiplier : Option Rat
  winMicro : Option Int
  deriving DecidableEq

/-- The payload of an event. -/
inductive Emission
  | roundState (roundId nonce roundNumber : Nat) (phase : EnginePhase) (phaseDurationMs : Millis)
      (serverSeedHash : Option SeedHash) (clientSeed : Option ClientSeed)
      (crashAtMs : Option Millis)
  | roundResult (roundId nonce roundNumber : Nat) (outcome : GameOutcome)
      (crashAtMs : Option Millis)
  | multiplierTick (roundId : Nat) (multiplier : Rat) (elapsedMs : Millis)
  | poolUpdate (roundId acceptedCount cashedOutCount : Nat) (totalStakeMicro totalWinMicro : Int)
      (players : List PoolPlayer)
  | betPlaced (roundId betId : Nat) (playerRef : String) (selection : BetSelection)
      (amountMicro : Int)
  | betRejected (reason : String) (remainingMicro : Option Int)
  | balanceUpdate (playerRef : PlayerRef) (balanceMicro : Option Int) (currency : Currency)
  | cashout (accepted : Bool) (roundId betId : Nat) (slotId : Option Nat) (playerRef : String)
      (mode : CashoutMode) (cashoutMultiplier : Rat) (payoutMicro : Int) (elapsedMs : Millis)
  | cashoutRejected (betId : Nat) (slotId : Option Nat) (reason : String)
  deriving DecidableEq

/-- What a proof request answers. -/
structure RoundProof where
  roundId : Nat
  state : RoundState
  nonce : Nat
  rngVersion : Nat
  buildHash : Option Nat
  clientSeed : ClientSeed
  serverSeedHash : SeedHash
  serverSeed : Option Seed
  outcome : Option GameOutcome
  deriving DecidableEq

/-- The signed replay bundle of a round. Its bets and calls are the rows they are copied from. -/
structure ReplayBundle where
  roundId : Nat
  operatorId : OperatorId
  sessionId : Nat
  gameCode : GameCode
  currency : Currency
  rngVersion : Nat
  buildHash : Option Nat
  nonce : Nat
  state : RoundState
  config : Option OperatorGameConfig
  serverSeed : Option Seed
  serverSeedHash : SeedHash
  clientSeed : ClientSeed
  revealAllowed : Bool
  outcome : Option GameOutcome
  /-- The outcome recomputed from the seeds, and whether it matches. -/
  recomputedOutcome : Option (GameOutcome × Bool)
  startedAt : Millis
  rolledAt : Option Millis
  settledAt : Option Millis
  voidedAt : Option Millis
  totalBetsMicro : Int
  totalPayoutsMicro : Int
  bets : List (Nat × Bet)
  walletCallChain : List (Nat × WalletCall)
  prevRowHash : Option RowHash
  rowHash : Option RowHash
  deriving DecidableEq

/-- Which transaction of a bet a dispute was looked up by. -/
inductive TransactionRole
  | bet
  | win
  | rollback
  deriving DecidableEq

/-- The signed evidence bundle of a disputed transaction. Rows stand for the fields copied from
them, apart from the round, whose seed is masked. -/
structure DisputePack where
  generatedAt : Millis
  transactionUuid : Uuid
  resolvedRole : TransactionRole
  betId : Nat
  bet : Bet
  pendingState : Option PendingRoundBet
  round : RoundProof
  gameConfig : Option OperatorGameConfig
  provablyFairCheck : Option Bool
  walletCallChain : List (Nat × WalletCall)
  deriving DecidableEq

/-- What a call of the server answers its caller. -/
inductive Answer
  | betPlaced (betId : Nat)
  | cashedOut (betId : Nat) (cashoutMultiplier : Rat) (payoutMicro : Int) (pending : Bool)
  | refused (reason : String)
  | sessionCreated (sessionId : Nat) (expiresAt : Millis) (serverSeedHash : SeedHash)
  | sessionTerminated (ok : Bool)
  | seedRotated (revealedServerSeed : Seed) (newServerSeedHash : SeedHash)
  | proof (proof : RoundProof)
  | replay (bundle : ReplayBundle)
  | disputePack (pack : DisputePack)
  | httpError (code : Nat) (error : String)
  deriving DecidableEq

/-- What the outside decides at an action. -/
inductive Choice
  /-- Nothing special. -/
  | ok
  /-- The action fails, inside a `try` of its own. -/
  | fail
  /-- The action throws. -/
  | throw
  /-- Which of several rows a query answers with. -/
  | pick (id : Nat)
  /-- The order of the rows a query answers with. -/
  | order (ids : List Nat)
  /-- The wallet answers, with the reply of the given number. -/
  | reply (n : Nat)
  /-- The wallet call times out. -/
  | timeout
  /-- The wallet call ends in an error: a broken connection, a `5xx` answer, an unreadable one. -/
  | error (message : String)
  deriving DecidableEq

/-- The **world** of the server. -/
structure World where
  now : Millis
  /-- How many identifiers and seeds were generated. -/
  serial : Nat
  operators : List OperatorRow
  credentials : List OperatorCredential
  gameConfigs : List OperatorGameConfig
  sessions : List GameSession
  rounds : List Round
  bets : List Bet
  pendingRoundBets : List PendingRoundBet
  walletCalls : List WalletCall
  jobs : List PendingWalletJob
  engines : List Engine
  /-- Every request that was handed to the wallet adapter. -/
  wire : List Sent
  /-- The requests of which a copy may still reach the operator. -/
  inflight : List Nat
  replies : List Reply
  /-- What the operators booked. -/
  book : Ledger
  emitted : List (Room × Emission)
  /-- What was answered, with the number of the call. -/
  answers : List (Nat × Answer)

/-- A program of the server. -/
abbrev Action := Await.Prog World Choice

namespace World

/-- A server that was never used, with the operators it serves. -/
def initial (operators : List OperatorRow) (credentials : List OperatorCredential)
    (gameConfigs : List OperatorGameConfig) : World :=
  { now := 0, serial := 0, operators, credentials, gameConfigs, sessions := [], rounds := [],
    bets := [], pendingRoundBets := [], walletCalls := [], jobs := [], engines := [], wire := [],
    inflight := [], replies := [], book := [], emitted := [], answers := [] }

/-! ## Writes -/

variable (w : World)

/-- Insert a session. -/
def addSession (s : GameSession) : World := { w with sessions := w.sessions ++ [s] }

/-- Change a session. -/
def updateSession (id : Nat) (f : GameSession → GameSession) : World :=
  { w with sessions := w.sessions.modify id f }

/-- Insert a round. -/
def addRound (r : Round) : World := { w with rounds := w.rounds ++ [r] }

/-- Change a round. -/
def updateRound (id : Nat) (f : Round → Round) : World :=
  { w with rounds := w.rounds.modify id f }

/-- Insert a bet. -/
def addBet (b : Bet) : World := { w with bets := w.bets ++ [b] }

/-- Change a bet. -/
def updateBet (id : Nat) (f : Bet → Bet) : World := { w with bets := w.bets.modify id f }

/-- Insert an entry of the pending register. -/
def addPendingRoundBet (b : PendingRoundBet) : World :=
  { w with pendingRoundBets := w.pendingRoundBets ++ [b] }

/-- Change the held entries of a bet. -/
def updateHeld (betId : Nat) (f : PendingRoundBet → PendingRoundBet) : World :=
  { w with pendingRoundBets := w.pendingRoundBets.map fun b =>
      if b.betId = betId ∧ b.state = .held then f b else b }

/-- Insert a journal row. -/
def addWalletCall (c : WalletCall) : World := { w with walletCalls := w.walletCalls ++ [c] }

/-- Change a journal row. -/
def updateWalletCall (id : Nat) (f : WalletCall → WalletCall) : World :=
  { w with walletCalls := w.walletCalls.modify id f }

/-- Queue a wallet call. -/
def addJob (j : PendingWalletJob) : World := { w with jobs := w.jobs ++ [j] }

/-- Change a queued wallet call. -/
def updateJob (id : Nat) (f : PendingWalletJob → PendingWalletJob) : World :=
  { w with jobs := w.jobs.modify id f }

/-- Change the memory of an engine. -/
def updateEngine (e : EngineRef) (f : Engine → Engine) : World :=
  { w with engines := w.engines.modify e.index f }

/-- Hand a request to the wallet adapter. -/
def hand (s : Sent) : World :=
  { w with wire := w.wire ++ [s], inflight := w.inflight ++ [w.wire.length] }

/-- Emit an event. -/
def emit (room : Room) (x : Emission) : World := { w with emitted := w.emitted ++ [(room, x)] }

/-- Answer a caller. -/
def answer (i : Nat) (x : Answer) : World := { w with answers := w.answers ++ [(i, x)] }

/-- The memory of an engine. -/
def engine? (e : EngineRef) : Option Engine := w.engines[e.index]?

/-- The active round of an engine. -/
def active? (e : EngineRef) : Option ActiveRound := (w.engine? e).bind Engine.active

end World

namespace Action

open Await

/-- `Date.now()`. -/
def now : Action Millis := Prog.query World.now

/-- `newUuid()`. -/
def newUuid (use : UuidUse) : Action Uuid :=
  Prog.request fun i w => (⟨use, i, w.serial⟩, { w with serial := w.serial + 1 })

/-- Emit an event. -/
def emit (room : Room) (x : Emission) : Action Unit := Prog.modify fun w => w.emit room x

/-- Answer the caller. -/
def answer (x : Answer) : Action Unit := Prog.request fun i w => ((), w.answer i x)

/-- Read the memory of an engine; an engine that was never made answers nothing. -/
def engine (e : EngineRef) : Action (Option Engine) := Prog.query fun w => w.engine? e

/-- The rows of an unordered query: the outside arranges them. -/
def findMany {α : Type} (table : World → List α) (p : World → α → Bool) :
    Action (List (Nat × α)) :=
  Prog.lift fun _ c w =>
    match c with
    | .order ids =>
        if ids.isPerm (Table.ids (p w) (table w)) then some (Table.arrange ids (table w), w)
        else none
    | _ => none

/-- The first rows an unordered query hands out: the outside picks and arranges at most `n`. -/
def findSome {α : Type} (n : Nat) (table : World → List α) (p : World → α → Bool) :
    Action (List (Nat × α)) :=
  Prog.lift fun _ c w =>
    match c with
    | .order ids =>
        let all := Table.ids (p w) (table w)
        if ids.Nodup ∧ ids ⊆ all ∧ ids.length = min n all.length then
          some (Table.arrange ids (table w), w)
        else none
    | _ => none

/-- One row that satisfies `p`, whichever the outside picks; none when there is none. -/
def findFirst {α : Type} (table : World → List α) (p : α → Bool) : Action (Option (Nat × α)) :=
  Prog.lift fun _ c w =>
    match c with
    | .pick id =>
        match (table w)[id]? with
        | some r => if p r then some (some (id, r), w) else none
        | none => none
    | _ => if (table w).any p then none else some (none, w)

/-- One row that satisfies `p`, read together with what it is linked to. -/
def findFirstWith {α β : Type} (table : World → List α) (p : α → Bool)
    (linked : World → Nat → α → β) : Action (Option (Nat × α × β)) :=
  Prog.lift fun _ c w =>
    match c with
    | .pick id =>
        match (table w)[id]? with
        | some r => if p r then some (some (id, r, linked w id r), w) else none
        | none => none
    | _ => if (table w).any p then none else some (none, w)

/-- The rows that satisfy `p`, in order of creation. -/
def findInOrder {α : Type} (table : World → List α) (p : α → Bool) : Action (List (Nat × α)) :=
  Prog.query fun w => Table.select p (table w)

/-- The row with the given identifier. -/
def findUnique {α : Type} (table : World → List α) (id : Nat) : Action (Option α) :=
  Prog.query fun w => (table w)[id]?

/-- `wait(ms)`: until the time has passed, or the engine was told to stop. -/
def wait (e : EngineRef) (ms : Millis) : Action Unit := do
  if ms = 0 then pure ()
  else
    let start ← now
    Prog.block fun w =>
      decide (start + ms ≤ w.now) || (w.engine? e).any fun engine => !engine.running

end Action

end YantraRgs
