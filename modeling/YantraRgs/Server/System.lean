import YantraRgs.Await.Pool
import YantraRgs.GameEngine.RoundLoop
import YantraRgs.Services.PendingJobRunner
import YantraRgs.Services.ProofService
import YantraRgs.Services.SessionService

/-! # The server as a system of calls

Everything the server may be doing at once, and everything that may happen to it from outside.

* **`Call`** — what can be called: the life of the engines, the sockets, the job runner, and the
  endpoints that show or touch seeds.
* **`Outside`** — time, the network and the operators, processes that come and go, and changes of
  the configuration of an engine and of the one that is stored.
* **`server`** — the system; a call is a program of `Call.code`. -/

namespace YantraRgs

open Await

/-- What can be called. -/
inductive Call
  | start (e : EngineRef)
  | iteration (e : EngineRef) (polls : Nat)
  | placeBet (e : EngineRef) (params : PlaceBetParams)
  | cashOut (e : EngineRef) (params : CashOutParams)
  | tick
  | createSession (input : CreateSessionInput)
  | terminateSession (sessionId : Nat) (reason : String) (operatorId : Option OperatorId)
  | rotateSeed (sessionId : Nat) (clientSeed : Option ClientSeed) (operatorId : Option OperatorId)
  | roundProof (roundId : Nat) (operatorId : Option OperatorId)
  | roundReplay (roundId : Nat) (operatorId : OperatorId)
  | disputePack (operatorId : OperatorId) (transactionUuid : Uuid)

/-- The engine that a call runs in. -/
def Call.engine? : Call → Option EngineRef
  | .start e | .iteration e _ | .placeBet e _ | .cashOut e _ => some e
  | _ => none

/-- Whether a call drives the rounds of its engine. -/
def Call.drives : Call → Option EngineRef
  | .start e | .iteration e _ => some e
  | _ => none

/-- Whether a call shows what a round's outcome is recomputed to. -/
def Call.shows : Call → Bool
  | .roundReplay _ _ | .disputePack _ _ => true
  | _ => false

/-- What can happen from outside. -/
inductive Outside
  /-- Time passes. -/
  | elapse (ms : Millis)
  /-- A copy of a request reaches the operator, which decides what to do about it. -/
  | deliver (sent : Nat) (verdict : Verdict) (message : Option String)
  /-- No copy of a request will reach the operator any more. -/
  | drop (sent : Nat)
  /-- An engine is made. -/
  | boot (key : EngineKey) (cfg : EngineConfig) (gameConfig : GameMathConfig)
  /-- An engine is told to stop. -/
  | stop (e : EngineRef)
  /-- The process of an engine ends. -/
  | die (e : EngineRef)
  /-- The configuration of an engine is changed. -/
  | configure (e : EngineRef) (cfg : EngineConfig) (gameConfig : GameMathConfig)
  /-- A stored configuration is changed: the endpoint of the operator's administrators leaves the
  engines alone, the one of the platform goes on to change the engine's. -/
  | patch (id : Nat) (patch : GameConfigPatch)

namespace World

/-- Note an answer of the operator to the request at place `sent` of the wire. -/
def noteReply (w : World) (sent : Nat) (v : Verdict) (message : Option String) : World :=
  { w with replies := w.replies ++ [⟨sent, v.status, v.balanceMicro, message⟩] }

/-- A copy of a request reaches the operator. -/
def deliver (w : World) (sent : Nat) (v : Verdict) (message : Option String) : Option World :=
  if sent ∈ w.inflight then
    (w.wire[sent]?).bind fun s =>
      (w.book.process s.request v).map fun book => { w.noteReply sent v message with book }
  else none

/-- What happens to the world from outside. -/
def outside (w : World) : Outside → Option World
  | .elapse ms => some { w with now := w.now + ms }
  | .deliver sent v message => w.deliver sent v message
  | .drop sent => some { w with inflight := w.inflight.filter (· ≠ sent) }
  | .boot key cfg gameConfig =>
      some { w with engines := w.engines ++ [⟨key, cfg, gameConfig, [], false, true, .fresh⟩] }
  | .stop e => some (w.updateEngine e fun engine => { engine with running := false })
  | .die e =>
      some (w.updateEngine e fun engine => { engine with running := false, alive := false })
  | .configure e cfg gameConfig =>
      some (w.updateEngine e fun engine => { engine with cfg, gameConfig })
  | .patch id patch => some { w with gameConfigs := w.gameConfigs.modify id (·.patch patch) }

/-- Whether an engine is up. -/
def up (w : World) (e : EngineRef) : Bool :=
  (w.engine? e).any fun engine => engine.key = e.key ∧ engine.alive

end World

/-- The program of a call. -/
def Call.code (env : Env) : Call → Action Unit
  | .start e => GameEngine.start env e
  | .iteration e polls => GameEngine.iteration env e polls
  | .placeBet e params => GameEngine.placeBet env e params >>= Action.answer
  | .cashOut e params => GameEngine.cashOut env e params >>= Action.answer
  | .tick => PendingJobRunner.tick env
  | .createSession input => SessionService.create input >>= Action.answer
  | .terminateSession sessionId reason operatorId =>
      SessionService.terminate sessionId reason operatorId >>= Action.answer
  | .rotateSeed sessionId clientSeed operatorId =>
      SessionService.rotateSeedRoute sessionId clientSeed operatorId >>= Action.answer
  | .roundProof roundId operatorId => ProofService.forRound roundId operatorId >>= Action.answer
  | .roundReplay roundId operatorId => YantraRgs.roundReplay env roundId operatorId >>= Action.answer
  | .disputePack operatorId transactionUuid =>
      buildDisputePack env operatorId transactionUuid >>= Action.answer

/-- A state of the server. -/
abbrev State := Pool World Choice Call

/-- An event of the server. -/
abbrev Happening := Event Choice Call Outside

/-- Whether a call of some kind is under way. -/
def busy (p : State) (kind : Call → Bool) : Bool :=
  p.tasks.any fun t => !t.prog.ended && kind t.call

/-- Whether a call may start: an engine serves calls while it is up, it is started once, and its
loop turns while it is running, one turn at a time. -/
def Call.admitted (k : Call) (p : State) : Bool :=
  match k with
  | .start e => p.world.up e && p.tasks.all fun t => t.call.drives ≠ some e
  | .iteration e _ =>
      p.world.up e && ((p.world.engine? e).any Engine.running) &&
        !busy p fun l => l.drives = some e
  | k => k.engine?.all p.world.up

/-- **The server.** -/
def server (env : Env) : System World Choice Call Outside where
  code := Call.code env
  admits := Call.admitted
  env := fun x w => w.outside x
  dies := fun x k =>
    match x with
    | .die e => k.engine? = some e
    | _ => false

/-- The server before anything happened. -/
def State.initial (operators : List OperatorRow) (credentials : List OperatorCredential)
    (gameConfigs : List OperatorGameConfig) : State :=
  ⟨World.initial operators credentials gameConfigs, []⟩

end YantraRgs
