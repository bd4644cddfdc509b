import YantraRgs.Await.Pool
import YantraRgs.Wallet.Types

/-! # The idempotency middleware of inbound requests

A request is keyed by operator, request uuid and endpoint. The middleware looks the key up and
replays a stored response that has not expired; otherwise it lets the handler run, and stores the
response once it was sent.

* **`InboundIdempotency`** — a stored response.
* **`idempotency`** — what becomes of one request. What the handler answers is up to the outside.
* **`inbound`** — any number of requests, served at the same time. -/

namespace YantraRgs.Idempotency

open Await

/-- What a response is stored under. -/
structure Key where
  operatorId : OperatorId
  requestUuid : String
  endpoint : String
  deriving DecidableEq

/-- A response body that was handed to `res.json`. -/
abbrev Body := String

/-- A stored response. -/
structure InboundIdempotency where
  key : Key
  httpStatus : Nat
  responseBody : Body
  expiresAt : Millis
  deriving DecidableEq

/-- What happened to a request. -/
inductive Note
  /-- The lookup found no row. -/
  | missed
  /-- The lookup threw. -/
  | lookupFailed
  /-- The row that was found has expired. -/
  | expired
  /-- The route handler was let run. -/
  | started
  /-- The handler answered; there is no body when it never called `res.json`. -/
  | handled (httpStatus : Nat) (body : Option Body)
  /-- The client was sent a response. -/
  | answered (httpStatus : Nat) (body : Option Body)
  /-- The response was stored. -/
  | stored
  deriving DecidableEq

/-- What happened to which request; the key is absent when the middleware lets a request through
unkeyed. -/
structure Entry where
  caller : Nat
  key : Option Key
  note : Note
  deriving DecidableEq

/-- The table of stored responses, the clock, and everything that happened. -/
structure World where
  now : Millis
  records : List InboundIdempotency
  log : List Entry

/-- An inbound request, behind the body parser and the operator's authentication. -/
structure Request where
  operatorId : Option OperatorId
  requestUuid : Option String
  endpointTag : String

/-- What the outside decides at an action. -/
inductive Choice
  | ok
  /-- The database fails. -/
  | fail
  /-- The handler answers. -/
  | handled (httpStatus : Nat) (body : Option Body)
  deriving DecidableEq

/-- The only thing that happens from outside: time passes. -/
inductive Outside
  | elapse (ms : Millis)

namespace World

/-- Note what happened to a request. -/
def note (w : World) (caller : Nat) (key : Option Key) (note : Note) : World :=
  { w with log := w.log ++ [⟨caller, key, note⟩] }

/-- The row stored under a key. -/
def findUnique (w : World) (key : Key) : Option InboundIdempotency :=
  w.records.find? fun r => r.key = key

/-- Store a response, in place of the one that is there. -/
def upsert (w : World) (r : InboundIdempotency) : World :=
  { w with records := r :: w.records.filter fun r' => r'.key ≠ r.key }

end World

/-- How long a response is kept. -/
def idempotencyTtlMs : Millis := 24 * 3600 * 1000

/-- A program of the middleware. -/
abbrev Action := Prog World Choice

/-- Look a key up; a failure is logged and passed over. -/
def lookup (key : Key) : Action (Option InboundIdempotency) :=
  Prog.lift fun i c w =>
    if c = .fail then some (none, w.note i key .lookupFailed)
    else
      match w.findUnique key with
      | some row => some (some row, w)
      | none => some (none, w.note i key .missed)

/-- Whether a row that was found still counts. -/
def fresh (row : InboundIdempotency) : Action Bool :=
  Prog.request fun i w =>
    if w.now < row.expiresAt then (true, w) else (false, w.note i row.key .expired)

/-- Send a response. -/
def respond (key : Option Key) (httpStatus : Nat) (body : Option Body) : Action Unit :=
  Prog.request fun i w => ((), w.note i key (.answered httpStatus body))

/-- Let the route handler run. -/
def runHandler (key : Option Key) : Action (Nat × Option Body) := do
  Prog.request fun i w => ((), w.note i key .started)
  Prog.lift fun i c w =>
    match c with
    | .handled httpStatus body => some ((httpStatus, body), w.note i key (.handled httpStatus body))
    | _ => none

/-- Store a response that was sent; a failure is logged and passed over. -/
def persist (key : Key) (httpStatus : Nat) (body : Body) : Action Unit := do
  let finishedAt ← Prog.query World.now
  Prog.lift fun i c w =>
    if c = .fail then some ((), w)
    else some ((), (w.upsert ⟨key, httpStatus, body, finishedAt + idempotencyTtlMs⟩).note i key
      .stored)

/-- Let the handler run, send its response, and then store it. -/
def handle (key : Key) : Action Unit := do
  let (httpStatus, body) ← runHandler key
  respond key httpStatus body
  if 500 ≤ httpStatus then pure ()
  else
    match body with
    | none => pure ()
    | some body => persist key httpStatus body

/-- **One request.** An absent or empty uuid lets it through unkeyed. -/
def idempotency (req : Request) : Action Unit :=
  match req.operatorId, req.requestUuid.filter (· ≠ "") with
  | some operatorId, some requestUuid => do
      let key : Key := ⟨operatorId, requestUuid, req.endpointTag⟩
      let existing ← lookup key
      match existing with
      | some row =>
          let isFresh ← fresh row
          if isFresh then respond key row.httpStatus row.responseBody else handle key
      | none => handle key
  | _, _ => do
      let (httpStatus, body) ← runHandler none
      respond none httpStatus body

/-- A state of the server, as far as inbound requests go. -/
abbrev State := Pool World Choice Request

/-- An event. -/
abbrev Happening := Event Choice Request Outside

/-- **Any number of requests, at any time.** -/
def inbound : System World Choice Request Outside where
  code := idempotency
  admits _ _ := true
  env
    | .elapse ms, w => some { w with now := w.now + ms }
  dies _ _ := false

/-- Nothing was requested yet. -/
def initial (now : Millis) : State := ⟨⟨now, [], []⟩, []⟩

end YantraRgs.Idempotency
