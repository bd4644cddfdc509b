import YantraRgs.Await.Pool
import YantraRgs.Server.Env
import YantraRgs.Server.World

/-! # The engine registry

The registry keeps one engine per key. `ensure` looks the key up, asks the kill switch, reads the
configuration, checks the build and makes the wallet client, and only then stores the engine it made
and starts it. `stopAll` stops the engines that run and forgets them all.

* **`LiveEngine`** — an engine as far as the registry goes: started, running, told to stop, stopped.
* **`ensure`**, **`forSession`**, **`startAllEnabled`**, **`stopAll`** — the calls.
* **`registry`** — any number of them, served at the same time. -/

namespace YantraRgs.EngineRegistry

open Await

/-- How far an engine is. -/
inductive Status
  /-- `start` was called and resumes the unsettled rounds. -/
  | resuming
  /-- Resuming threw. -/
  | failed
  /-- The loop runs. -/
  | running
  /-- The engine was told to stop, and its loop comes to its end. -/
  | stopping
  /-- The loop has ended. -/
  | stopped
  deriving DecidableEq

/-- An engine that was made. -/
structure LiveEngine where
  key : EngineKey
  cfg : EngineConfig
  gameConfig : GameMathConfig
  status : Status
  /-- Whether its loop has a round that is not settled yet. -/
  openRound : Bool
  /-- The call that started it. -/
  starter : Nat
  deriving DecidableEq

/-- Whether an engine was started and has not stopped. -/
def LiveEngine.live (engine : LiveEngine) : Bool :=
  engine.status = .resuming ∨ engine.status = .running ∨ engine.status = .stopping

/-- An operator's configuration of a game, as the registry reads it. -/
structure GameConfigRow where
  key : EngineKey
  enabled : Bool
  micaCompliant : Bool
  /-- Absent when the game's schema refuses the stored configuration. -/
  config : Option GameMathConfig
  cfg : EngineConfig
  deriving DecidableEq

/-- An operator, as the registry reads it. -/
structure OperatorRow where
  operatorId : OperatorId
  active : Bool
  testMode : Bool
  deriving DecidableEq

/-- The registry and what it reads. -/
structure World where
  killSwitch : Bool
  configs : List GameConfigRow
  operators : List OperatorRow
  /-- Every engine that was made. -/
  made : List LiveEngine
  /-- The registry's map, from keys to engines. -/
  engines : List (EngineKey × Nat)

/-- What the outside decides at an action. -/
inductive Choice
  | ok
  /-- The action throws, or a check says no. -/
  | fail
  deriving DecidableEq

/-- A program of the registry. -/
abbrev Action := Prog World Choice

namespace World

/-- `this.engines.get(key)`. -/
def get (w : World) (key : EngineKey) : Option Nat :=
  (w.engines.find? fun x => x.1 = key).map Prod.snd

/-- Make an engine, store it under its key and call its `start`. -/
def addEngine (w : World) (key : EngineKey) (cfg : EngineConfig) (gameConfig : GameMathConfig)
    (starter : Nat) : World :=
  { w with
    made := w.made ++ [⟨key, cfg, gameConfig, .resuming, false, starter⟩]
    engines := (key, w.made.length) :: w.engines.filter fun x => x.1 ≠ key }

/-- Change an engine. -/
def updateEngine (w : World) (n : Nat) (f : LiveEngine → LiveEngine) : World :=
  { w with made := w.made.modify n f }

/-- Tell the engines of the map to stop; one that does not run is left alone. -/
def stopEngines (w : World) : World :=
  { w with made := w.made.zipIdx.map fun x =>
      if w.engines.any (fun y => y.2 = x.2) ∧ x.1.status = .running then
        { x.1 with status := .stopping }
      else x.1 }

end World

/-- Await something that may throw or say no; then the call ends with nothing. -/
def check : Action Bool := Prog.lift fun _ c w => some (c ≠ .fail, w)

/-- `engine.start()` of the engine that was just stored: its unsettled rounds are resumed, and then
its loop runs. -/
def finishStart (n : Nat) : Action (Option Nat) := do
  let resumed ← check
  if resumed then
    Prog.modify fun w => w.updateEngine n fun engine => { engine with status := .running }
    pure (some n)
  else
    Prog.modify fun w => w.updateEngine n fun engine => { engine with status := .failed }
    pure none

/-- Store a new engine and start it. -/
def launch (key : EngineKey) (cfg : EngineConfig) (gameConfig : GameMathConfig) :
    Action (Option Nat) := do
  let n ← Prog.request fun i w => (w.made.length, w.addEngine key cfg gameConfig i)
  finishStart n

/-- The build check of an operator that does not test. -/
def attest (key : EngineKey) : Action Bool := do
  let operatorRow ← Prog.query fun w => w.operators.find? fun r => r.operatorId = key.operatorId
  if operatorRow.any fun r => !r.testMode then check else pure true

/-- **The engine of a key**, made and started when there is none. -/
def ensure (env : Env) (key : EngineKey) : Action (Option Nat) := do
  let existing ← Prog.query fun w => w.get key
  match existing with
  | some n => pure (some n)
  | none =>
      let engaged ← Prog.query World.killSwitch
      if engaged then pure none
      else
        match env.getPlugin key.gameCode with
        | none => pure none
        | some _ => do
            let row ← Prog.query fun w => w.configs.find? fun r => r.key = key
            match row.filter fun r => r.enabled ∧ r.micaCompliant with
            | none => pure none
            | some row =>
                match row.config with
                | none => pure none
                | some gameConfig => do
                    let attested ← attest key
                    if !attested then pure none
                    else
                      let adapter ← check
                      if !adapter then pure none
                      else launch key row.cfg gameConfig

/-- **The engine of a session**, started on demand. -/
def forSession (env : Env) (key : EngineKey) : Action (Option Nat) := do
  let existing ← Prog.query fun w => w.get key
  match existing with
  | some n => pure (some n)
  | none => ensure env key

/-- Start the engines of all enabled configurations of active operators. -/
def startAllEnabled (env : Env) : Action Unit := do
  let configs ← Prog.query fun w => w.configs.filter fun r =>
    r.enabled ∧ w.operators.any fun o => o.operatorId = r.key.operatorId ∧ o.active
  Prog.each (fun (r : GameConfigRow) =>
    if r.micaCompliant then do
      let _ ← ensure env r.key
      pure ()
    else pure ()) configs

/-- **Stop every engine** and forget them all. -/
def stopAll : Action Unit := do
  let stopping ← Prog.request fun _ w =>
    (w.engines.map Prod.snd, w.stopEngines)
  Prog.block fun w => stopping.all fun n => (w.made[n]?).all fun engine => engine.status ≠ .stopping
  Prog.modify fun w => { w with engines := [] }

/-- What can be called. -/
inductive Call
  | ensure (key : EngineKey)
  | forSession (key : EngineKey)
  | startAllEnabled
  | stopAll
  deriving DecidableEq

/-- What happens from outside. -/
inductive Outside
  /-- The loop of an engine begins a round. -/
  | beginRound (n : Nat)
  /-- The loop of an engine settles its round. -/
  | settleRound (n : Nat)
  /-- The loop of an engine that was told to stop ends. -/
  | endLoop (n : Nat)
  /-- The kill switch, the configurations or the operators are changed. -/
  | configure (killSwitch : Bool) (configs : List GameConfigRow) (operators : List OperatorRow)
  deriving DecidableEq

/-- What happens to the registry from outside. -/
def World.outside (w : World) : Outside → Option World
  | .beginRound n =>
      if (w.made[n]?).any fun engine => engine.status = .running then
        some (w.updateEngine n fun engine => { engine with openRound := true })
      else none
  | .settleRound n =>
      if (w.made[n]?).any LiveEngine.openRound then
        some (w.updateEngine n fun engine => { engine with openRound := false })
      else none
  | .endLoop n =>
      if (w.made[n]?).any fun engine => engine.status = .stopping then
        some (w.updateEngine n fun engine =>
          { engine with status := .stopped, openRound := false })
      else none
  | .configure killSwitch configs operators => some { w with killSwitch, configs, operators }

/-- A state of the registry. -/
abbrev State := Pool World Choice Call

/-- An event. -/
abbrev Happening := Event Choice Call Outside

/-- **The registry**, serving any number of calls at the same time. -/
def registry (env : Env) : System World Choice Call Outside where
  code
    | .ensure key => do
        let _ ← ensure env key
        pure ()
    | .forSession key => do
        let _ ← forSession env key
        pure ()
    | .startAllEnabled => startAllEnabled env
    | .stopAll => stopAll
  admits _ _ := true
  env x w := w.outside x
  dies _ _ := false

/-- A registry that was never used. -/
def initial (configs : List GameConfigRow) (operators : List OperatorRow) : State :=
  ⟨⟨false, configs, operators, [], []⟩, []⟩

end YantraRgs.EngineRegistry
