import YantraRgs.Server.World

/-! # Sessions and their seeds

Creating and terminating sessions, and rotating the seed pair of a session, which reveals the old
server seed. -/

namespace YantraRgs

open Await

/-- What an operator asks when it creates a session. -/
structure CreateSessionInput where
  operatorId : OperatorId
  playerRef : PlayerRef
  gameCode : GameCode
  currency : Currency
  jurisdiction : String
  mode : SessionMode
  clientSeed : Option ClientSeed
  rgLimits : RGLimits
  ttlSeconds : Option Int

/-- The lifetime of a session in seconds, within its bounds. -/
def normaliseSessionTtlSeconds (ttlSeconds : Option Int) : Int :=
  match ttlSeconds with
  | none => 4 * 60 * 60
  | some ttl => min (8 * 60 * 60) (max (5 * 60) ttl)

namespace SessionService

/-- A session as it is created, under a new seed pair. -/
def newSession (input : CreateSessionInput) (id serial : Nat) (now : Millis) : GameSession where
  operatorId := input.operatorId
  playerRef := input.playerRef
  gameCode := input.gameCode
  currency := input.currency
  jurisdiction := input.jurisdiction
  mode := input.mode
  rgLimits := input.rgLimits
  serverSeed := ⟨serial, id⟩
  serverSeedHash := ⟨⟨serial, id⟩⟩
  clientSeed := input.clientSeed.getD (serial + 1)
  nonce := 0
  createdAt := now
  expiresAt := now + (normaliseSessionTtlSeconds input.ttlSeconds).toNat * 1000
  terminatedAt := none
  terminationReason := none

/-- **Create a session.** -/
def create (input : CreateSessionInput) : Action Answer :=
  Prog.request fun _ w =>
    let session := newSession input w.sessions.length w.serial w.now
    (.sessionCreated w.sessions.length session.expiresAt session.serverSeedHash,
      { w.addSession session with serial := w.serial + 2 })

/-- **Terminate a session.** -/
def terminate (sessionId : Nat) (reason : String) (operatorId : Option OperatorId) :
    Action Answer := do
  let session ← Action.findUnique World.sessions sessionId
  match session.filter fun s => operatorId.all (· = s.operatorId) with
  | none => pure (.httpError 404 "session_not_found")
  | some session =>
      if session.terminatedAt.isSome then pure (.sessionTerminated true)
      else do
        Prog.modify fun w => w.updateSession sessionId fun s =>
          { s with
            terminatedAt := some w.now
            terminationReason := some (String.ofList (reason.toList.take 64)) }
        pure (.sessionTerminated true)

/-- Replace the seed pair of a session and start its nonce anew. -/
def reseed (id serial : Nat) (newClientSeed : ClientSeed) (s : GameSession) : GameSession :=
  { s with
    serverSeed := ⟨serial, id⟩
    serverSeedHash := ⟨⟨serial, id⟩⟩
    clientSeed := newClientSeed
    nonce := 0 }

/-- **Rotate the seed pair of a session** and reveal the old server seed. -/
def rotateSeed (sessionId : Nat) (newClientSeed : Option ClientSeed) : Action Answer := do
  let session ← Action.findUnique World.sessions sessionId
  match session with
  | none => pure (.httpError 404 "session_not_found")
  | some s =>
      let newHash ← Prog.request fun _ w =>
        ((⟨⟨w.serial, sessionId⟩⟩ : SeedHash), { w.updateSession sessionId
          (reseed sessionId w.serial (newClientSeed.getD s.clientSeed)) with serial := w.serial + 2 })
      pure (.seedRotated s.serverSeed newHash)

/-- The rotate-seed endpoint: only an operator's own session that was not terminated. -/
def rotateSeedRoute (sessionId : Nat) (newClientSeed : Option ClientSeed)
    (operatorId : Option OperatorId) : Action Answer := do
  let existing ← Action.findUnique World.sessions sessionId
  match existing.filter fun s => operatorId.all (· = s.operatorId) with
  | none => pure (.httpError 404 "session_not_found")
  | some s =>
      if s.terminatedAt.isSome then pure (.httpError 409 "session_terminated")
      else rotateSeed sessionId newClientSeed

end SessionService

end YantraRgs
