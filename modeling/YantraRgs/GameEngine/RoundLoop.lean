import YantraRgs.GameEngine.Recovery

/-! # The round loop of an engine

An engine resumes what was left unsettled and then runs rounds, one after the other: it creates a
round and opens betting, rolls, reveals the outcome, and settles. A round of a live game keeps its
outcome from the moment it starts rolling and lets players cash out while it is in flight.

* **`createRound`** — a round under the next nonce of the engine's session.
* **`rollAndReveal`**, **`rollLiveCrashAndReveal`** — a roll without and with a flight.
* **`start`**, **`iteration`** — the two calls that make up the life of an engine. -/

namespace YantraRgs

open Await

/-- What an engine tells a newly joined socket about the live round. -/
structure RoundSnapshot where
  roundId : Nat
  nonce : Nat
  roundNumber : Nat
  phase : EnginePhase
  phaseDurationMs : Millis
  phaseRemainingMs : Millis
  serverSeedHash : SeedHash
  clientSeed : ClientSeed
  deriving DecidableEq

/-- **The snapshot of the live round.** -/
def Engine.currentRoundSnapshot (engine : Engine) (now : Millis) : Option RoundSnapshot :=
  engine.active.map fun active =>
    { roundId := active.id
      nonce := active.nonce
      roundNumber := active.nonce + 1
      phase := active.phase
      phaseDurationMs := active.phaseDurationMs
      phaseRemainingMs := active.phaseDurationMs - (now - active.phaseStartedAt)
      serverSeedHash := active.serverSeedHash
      clientSeed := active.clientSeed }

namespace GameEngine

variable (env : Env) (e : EngineRef)

/-! ## Creating a round -/

/-- The player reference under which an engine keeps its session. -/
def playerRef : PlayerRef := .engine e.key.gameCode e.key.currency

/-- A new session of the engine. -/
def newSession (id serial : Nat) (now : Millis) : GameSession where
  operatorId := e.key.operatorId
  playerRef := playerRef e
  gameCode := e.key.gameCode
  currency := e.key.currency
  jurisdiction := "INTL"
  mode := .real
  rgLimits := .none
  serverSeed := ⟨serial, id⟩
  serverSeedHash := ⟨⟨serial, id⟩⟩
  clientSeed := serial + 1
  nonce := 0
  createdAt := now
  expiresAt := now + 365 * 24 * 3600 * 1000
  terminatedAt := none
  terminationReason := none

/-- The live session of the engine, or a new one under a new seed pair. -/
def getOrCreateEngineSession : Action (Nat × GameSession) := do
  let existing ← Action.findFirst World.sessions fun s =>
    s.operatorId = e.key.operatorId ∧ s.playerRef = playerRef e ∧ s.terminatedAt = none
  let now ← Action.now
  match existing.filter fun s => now < s.2.expiresAt with
  | some session => pure session
  | none =>
      Prog.request fun _ w =>
        let session := newSession e w.sessions.length w.serial w.now
        ((w.sessions.length, session), { w.addSession session with serial := w.serial + 2 })

/-- A round as it is created. -/
def newRound (plugin : GamePlugin) (session : Nat × GameSession) (configVersion : Nat)
    (gameConfig : Option GameMathConfig) (now : Millis) : Round where
  operatorId := e.key.operatorId
  sessionId := session.1
  gameCode := e.key.gameCode
  currency := e.key.currency
  nonce := session.2.nonce
  state := .bettingOpen
  outcome := none
  gameConfigVersion := configVersion
  serverSeed := session.2.serverSeed
  serverSeedHash := session.2.serverSeedHash
  clientSeed := session.2.clientSeed
  totalBetsMicro := 0
  totalPayoutsMicro := 0
  startedAt := now
  rolledAt := none
  settledAt := none
  voidedAt := none
  settled := false
  rngVersion := plugin.rngVersion
  buildHash := env.currentBuildHash
  prevRowHash := none
  rowHash := none
  createdUnder := gameConfig
  drawnUnder := none

/-- Chain the row of a round. -/
def chainRound (id : Nat) (round : Round) : Action Unit := do
  let prevRowHash ← Prog.query fun w =>
    (w.rounds.filter fun r => r.operatorId = e.key.operatorId ∧ r.rowHash.isSome).getLast?.bind
      Round.rowHash
  let rowHash := env.hashRound prevRowHash id round
  Prog.modify fun w => w.updateRound id fun r => { r with prevRowHash, rowHash := some rowHash }

/-- **Create a round** under the session's next nonce, and count the nonce up. -/
def createRound (plugin : GamePlugin) : Action (Nat × Round) := do
  let session ← getOrCreateEngineSession e
  let (id, round) ← Prog.request fun _ w =>
    let engine := w.engine? e
    let configVersion := (engine.map fun engine => engine.cfg.configVersion).getD 0
    let round := newRound env e plugin session configVersion (engine.map Engine.gameConfig) w.now
    ((w.rounds.length, round), w.addRound round)
  let _ ← (chainRound env e id round).catching (· = .fail)
  Prog.modify fun w => w.updateSession session.1 fun s => { s with nonce := s.nonce + 1 }
  pure (id, round)

/-! ## The phases of a round -/

/-- Change the active round. -/
def setActive (f : Millis → ActiveRound → ActiveRound) : Action Unit :=
  Prog.modify fun w => w.updateEngine e (Engine.updateActive (f w.now))

/-- **Open betting** in a new round. -/
def openBetting (plugin : GamePlugin) : Action Unit := do
  let (id, round) ← createRound env e plugin
  let windowMs ← Prog.request fun _ w =>
    let windowMs := ((w.engine? e).map fun engine => engine.cfg.bettingWindowMs).getD 0
    let active : ActiveRound :=
      { id, nonce := round.nonce, serverSeed := round.serverSeed
        serverSeedHash := round.serverSeedHash, clientSeed := round.clientSeed
        phase := .bettingOpen, phaseStartedAt := w.now, phaseDurationMs := windowMs
        outcome := none, crashAtMs := none }
    (windowMs, w.updateEngine e fun engine => { engine with actives := engine.actives ++ [active] })
  emit e (.roundState id round.nonce (round.nonce + 1) .bettingOpen windowMs
    (some round.serverSeedHash) (some round.clientSeed) none)
  Action.wait e windowMs

/-- What the outcome of a round object is derived from. -/
def rngContext (active : ActiveRound) : RngContext :=
  ⟨active.serverSeed, active.clientSeed, active.nonce⟩

/-- Roll a round without a flight: the outcome is drawn and stored once rolling is over. -/
def rollAndShow (plugin : GamePlugin) (active : ActiveRound) : Action Unit := do
  let windowMs ← Prog.request fun _ w =>
    let windowMs := ((w.engine? e).map fun engine => engine.cfg.rollingWindowMs).getD 0
    (windowMs, w.updateEngine e (Engine.updateActive fun a =>
      { a with phase := .rolling, phaseStartedAt := w.now, phaseDurationMs := windowMs }))
  Prog.modify fun w => w.updateRound active.id fun r => { r with state := .rolling }
  emit e (.roundState active.id active.nonce (active.nonce + 1) .rolling windowMs none none none)
  Action.wait e windowMs
  let engine ← Action.engine e
  match engine with
  | none => pure ()
  | some engine =>
      let outcome := plugin.computeOutcome (rngContext active) engine.gameConfig
      Prog.modify fun w => w.updateRound active.id fun r =>
        { r with
          state := .result
          outcome := some outcome
          rolledAt := some w.now
          drawnUnder := some engine.gameConfig }
      setActive e fun now a => { a with phase := .result, phaseStartedAt := now }
      emit e (.roundResult active.id active.nonce (active.nonce + 1) outcome none)

/-- The flight of a live round, for at most `polls` polls of the loop. -/
def fly (live : LiveCrashSupport) (crashAtMs : Millis) : Nat → Millis → Action Unit
  | 0, _ => Prog.hang
  | polls + 1, lastTickAt => do
      let now ← Action.now
      let engine ← Action.engine e
      match engine, engine.bind Engine.active with
      | some engine, some active =>
          if !engine.running ∨ active.phase ≠ .rolling then pure ()
          else
            let elapsedMs := now - active.phaseStartedAt
            if crashAtMs ≤ elapsedMs then pure ()
            else
              let multiplier := live.multiplierAtElapsedMs elapsedMs engine.gameConfig
              let tickDue := 100 ≤ elapsedMs - lastTickAt
              if tickDue then emit e (.multiplierTick active.id multiplier elapsedMs) else pure ()
              processAutoCashouts env e live multiplier
              Action.wait e 50
              fly live crashAtMs polls (if tickDue then elapsedMs else lastTickAt)
      | _, _ => pure ()

/-- Start the flight of a live round: the outcome is drawn, and the engine's memory takes it on. It
answers nothing when the game draws an outcome that is no crash, where the source throws. The
configuration goes with the outcome so that it can be noted on the round. -/
def takeOff (plugin : GamePlugin) (live : LiveCrashSupport) (active : ActiveRound) :
    Action (Option (GameOutcome × Millis × GameMathConfig)) :=
  Prog.request fun _ w =>
    match w.engine? e with
    | none => (none, w)
    | some engine =>
        let outcome := plugin.computeOutcome (rngContext active) engine.gameConfig
        match outcome.crashMultiplier? with
        | none => (none, w)
        | some crashMultiplier =>
            let crashAtMs := live.elapsedMsForMultiplier crashMultiplier engine.gameConfig
            (some (outcome, crashAtMs, engine.gameConfig), w.updateEngine e (Engine.updateActive fun a =>
              { a with
                phase := .rolling
                phaseStartedAt := w.now
                phaseDurationMs := crashAtMs
                outcome := some outcome
                crashAtMs := some crashAtMs }))

/-- Roll a live round; whether it came to its end. -/
def rollLiveCrashAndReveal (plugin : GamePlugin) (live : LiveCrashSupport) (polls : Nat)
    (active : ActiveRound) : Action Bool := do
  let flight ← takeOff e plugin live active
  match flight with
  | none => pure false
  | some (outcome, crashAtMs, gameConfig) =>
      Prog.modify fun w => w.updateRound active.id fun r =>
        { r with state := .rolling, outcome := some outcome, drawnUnder := some gameConfig }
      emit e (.roundState active.id active.nonce (active.nonce + 1) .rolling crashAtMs none none
        (some crashAtMs))
      fly env e live crashAtMs polls 0
      setActive e fun now a => { a with phase := .result, phaseStartedAt := now }
      Prog.modify fun w => w.updateRound active.id fun r =>
        { r with state := .result, rolledAt := some w.now }
      emit e (.roundResult active.id active.nonce (active.nonce + 1) outcome (some crashAtMs))
      pure true

/-- **Roll the active round and reveal its outcome**; whether it came to its end. -/
def rollAndReveal (plugin : GamePlugin) (polls : Nat) : Action Bool := do
  let engine ← Action.engine e
  match engine.bind Engine.active with
  | none => pure true
  | some active =>
      match plugin.liveCrash with
      | some live => rollLiveCrashAndReveal env e plugin live polls active
      | none => do
          rollAndShow e plugin active
          pure true

/-! ## The life of an engine -/

/-- **One turn of the round loop.** -/
def iteration (polls : Nat) : Action Unit :=
  match env.getPlugin e.key.gameCode with
  | none => pure ()
  | some plugin => do
      openBetting env e plugin
      let rolled ← rollAndReveal env e plugin polls
      if rolled then
        settle env e plugin
        let cooldownMs ← Prog.query fun w =>
          ((w.engine? e).map fun engine => engine.cfg.cooldownMs).getD 0
        Action.wait e cooldownMs
      else Action.wait e 1000

/-- **Start the engine**: resume what was left unsettled, then let the loop run. -/
def start : Action Unit :=
  match env.getPlugin e.key.gameCode with
  | none => pure ()
  | some plugin => do
      let engine ← Action.engine e
      if engine.any Engine.running then pure ()
      else
        resumeUnsettledRounds e plugin
        Prog.modify fun w => w.updateEngine e fun engine => { engine with running := true }

end GameEngine

end YantraRgs
