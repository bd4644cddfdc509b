import Mathlib.Algebra.Group.Nat.Defs
import YantraRgs.Await.Pool
import YantraRgs.Db.Jsonb
import YantraRgs.Db.Table

/-! # Outbound webhooks

An event is fanned out to the subscriptions of its operator: each gets a delivery, signed under the
secret that the subscription has then. A runner polls for deliveries that are due, claims each one,
posts it, and notes what came of it. A delivery that failed too often is set aside until somebody
replays it. The secret of a subscription may be rotated at any time; requests name the version of the
secret that the subscription has when they are sent.

* **`Subscription`**, **`Delivery`**, **`World`** — the tables; a row that was deleted is none.
* **`dispatchEvent`**, **`tick`**, **`deliver`**, **`replay`** — the dispatcher.
* **`rotateSecret`** and the other routes that change subscriptions.
* **`webhookServer`** — all of it as a system. -/

namespace YantraRgs.Webhooks

open Await

/-! ## The tables -/

/-- The kinds of events. -/
inductive WebhookEventType
  | roundSettled
  | roundVoided
  | sessionTerminated
  | sessionRgLimitTripped
  | reconciliationDiscrepancy
  | credentialRotated
  | credentialRevoked
  | webhookTest
  deriving DecidableEq

/-- The name of a kind of event. -/
def WebhookEventType.text : WebhookEventType → String
  | .roundSettled => "round.settled"
  | .roundVoided => "round.voided"
  | .sessionTerminated => "session.terminated"
  | .sessionRgLimitTripped => "session.rg_limit_tripped"
  | .reconciliationDiscrepancy => "reconciliation.discrepancy"
  | .credentialRotated => "credential.rotated"
  | .credentialRevoked => "credential.revoked"
  | .webhookTest => "webhook.test"

/-- A subscription. -/
structure Subscription where
  operatorId : String
  url : String
  eventTypes : List WebhookEventType
  enabled : Bool
  secret : String
  secretVersion : String
  failureCount : Nat
  lastSuccessAt : Option Millis
  lastFailureAt : Option Millis
  /-- How often the secret was rotated, which no column says. -/
  rotations : Nat
  deriving DecidableEq

/-- What has become of a delivery. -/
inductive DeliveryState
  | pending
  | inFlight
  | succeeded
  | failedRetry
  | deadLettered
  deriving DecidableEq

/-- A delivery: an event on its way to one subscription. -/
structure Delivery where
  subscriptionId : Nat
  operatorId : String
  eventId : String
  eventType : WebhookEventType
  payload : Value
  signature : String
  attempt : Nat
  nextAttemptAt : Option Millis
  state : DeliveryState
  httpStatus : Option Nat
  completedAt : Option Millis
  deadLetteredAt : Option Millis
  /-- How often the secret had been rotated when it was read for the signature; no column says. -/
  signedAfter : Nat

/-- A request that was sent. -/
structure WebhookRequest where
  subscriptionId : Nat
  url : String
  signature : String
  signatureVersion : String
  eventId : String
  eventType : String
  timestamp : Nat
  body : Text
  /-- How often the secret had been rotated when it was read for the signature. -/
  signedAfter : Nat
  /-- How often it had been rotated when its version was read for the request. -/
  readAfter : Nat
  deriving DecidableEq

/-- A secret as it was handed to the operator. -/
structure PublishedSecret where
  subscriptionId : Nat
  secretVersion : String
  secret : String
  /-- How often the secret had been rotated when the version was read that this one follows. -/
  readAfter : Nat
  /-- How often it had been rotated when it was replaced. -/
  writtenAfter : Nat
  deriving DecidableEq

/-- The world of webhooks. -/
structure World where
  now : Millis
  subscriptions : List (Option Subscription)
  deliveries : List (Option Delivery)
  /-- The secrets that were handed out, in order. -/
  published : List PublishedSecret
  /-- The requests that were sent, in order. -/
  sent : List WebhookRequest
  /-- The deliveries that the runner found due. -/
  handed : List Nat
  /-- Which calls claimed which deliveries. -/
  claims : List (Nat × Nat)

/-- The rows that a query hands out, in an order that the outside chooses. -/
def findMany {α : Type} (p : α → Bool) (order : List Nat) (t : List (Option α)) :
    Option (List (Nat × α)) :=
  if order.Perm (Table.ids (·.any p) t) then
    some ((Table.arrange order t).filterMap fun x => x.2.map fun r => (x.1, r))
  else none

namespace World

variable (w : World)

/-- The subscription with an identifier. -/
def subscription (id : Nat) : Option Subscription := (w.subscriptions[id]?).join

/-- The delivery with an identifier. -/
def delivery (id : Nat) : Option Delivery := (w.deliveries[id]?).join

/-- Change a subscription. -/
def setSubscription (id : Nat) (sub : Subscription) : World :=
  { w with subscriptions := w.subscriptions.set id (some sub) }

/-- Change a delivery. -/
def setDelivery (id : Nat) (d : Delivery) : World :=
  { w with deliveries := w.deliveries.set id (some d) }

/-- Call `i` claims a delivery. -/
def claimed (i id : Nat) (d : Delivery) : World :=
  { w.setDelivery id { d with state := .inFlight } with claims := w.claims ++ [(i, id)] }

end World

/-! ## Programs -/

/-- What came of a request. -/
inductive HttpAnswer
  | status (httpStatus : Nat)
  | networkError
  deriving DecidableEq

/-- What the outside chooses for one action. -/
structure Choice where
  /-- A text that is drawn: an event's identifier, or a secret. -/
  drawn : String
  /-- The database refuses. -/
  fails : Bool
  /-- The order in which a query hands out its rows. -/
  order : List Nat
  /-- What a receiver answers. -/
  answer : HttpAnswer
  deriving DecidableEq

/-- A piece of a call. -/
abbrev Action := Prog World Choice

/-! ## Dispatching an event -/

/-- An event. -/
structure DispatchEventInput where
  operatorId : String
  eventType : WebhookEventType
  data : Value
  /-- The payload of an event is JSON. -/
  json : data.isJson = true
  dataVersion : Option Int
  eventId : Option String
  occurredAt : Option Millis

/-- What an event is sent as. -/
def DispatchEventInput.envelope (input : DispatchEventInput) (eventId : String) (now : Millis) :
    Value :=
  .object [
    ("eventId", .string eventId),
    ("eventType", .string input.eventType.text),
    ("occurredAt", .string (String.ofList (toISOString (input.occurredAt.getD now)))),
    ("operatorId", .string input.operatorId),
    ("dataVersion", .number (.ofInt (input.dataVersion.getD 1))),
    ("data", input.data)]

/-- Whether a subscription is interested in an event. -/
def Subscription.interested (input : DispatchEventInput) (sub : Subscription) : Bool :=
  sub.eventTypes = [] ∨ input.eventType ∈ sub.eventTypes

section Dispatcher

variable (hmac : String → Text → String) (members : MemberOrder)

/-- The delivery of an event to a subscription, as it comes back from the database. -/
def newDelivery (input : DispatchEventInput) (eventId : String) (envelope : Value)
    (sub : Nat × Subscription) (now : Millis) : Delivery where
  subscriptionId := sub.1
  operatorId := input.operatorId
  eventId := eventId
  eventType := input.eventType
  payload := jsonb members envelope
  signature := hmac sub.2.secret (canonicalJson envelope)
  attempt := 1
  nextAttemptAt := some now
  state := .pending
  httpStatus := none
  completedAt := none
  deadLetteredAt := none
  signedAfter := sub.2.rotations

/-- Queue an event for one subscription. What fails is logged; a subscription that is gone takes no
delivery. -/
def queueDelivery (input : DispatchEventInput) (eventId : String) (envelope : Value)
    (sub : Nat × Subscription) : Action Unit :=
  Prog.lift fun _ c w =>
    if c.fails || (w.subscription sub.1).isNone then some ((), w)
    else some ((), { w with
      deliveries := w.deliveries ++ [some (newDelivery hmac members input eventId envelope sub w.now)] })

/-- **Dispatch an event**: a delivery for every enabled subscription of the operator that is
interested in it. -/
def dispatchEvent (input : DispatchEventInput) : Action Unit := do
  let found ← Prog.lift fun _ c w =>
    let eventId := input.eventId.getD c.drawn
    (findMany (fun s => s.operatorId = input.operatorId ∧ s.enabled) c.order w.subscriptions).map
      fun subscriptions => ((eventId, input.envelope eventId w.now, subscriptions), w)
  Prog.each (queueDelivery hmac members input found.1 found.2.1)
    (found.2.2.filter fun sub => sub.2.interested input)

end Dispatcher

/-! ## The runner -/

def MAX_ATTEMPTS : Nat := 8
def BACKOFF_BASE_MS : Millis := 30000
def BACKOFF_CAP_MS : Millis := 60 * 60000

/-- How long a delivery waits after a failed attempt. -/
def backoffFor (attempt : Nat) : Millis := min (BACKOFF_BASE_MS * 2 ^ (attempt - 1)) BACKOFF_CAP_MS

/-- Whether a state is one that the runner takes up. -/
def DeliveryState.queued (state : DeliveryState) : Bool := state ∈ [.pending, .failedRetry]

/-- Whether a delivery is due. -/
def Delivery.due (now : Millis) (d : Delivery) : Bool :=
  d.state.queued && d.nextAttemptAt.any (· ≤ now)

/-- **One poll**: the deliveries that are due, the longest overdue first, at most fifty. -/
def tick : Action Unit :=
  Prog.lift fun _ c w =>
    (findMany (Delivery.due w.now) c.order w.deliveries).bind fun batch =>
      if batch.Pairwise fun a b => a.2.nextAttemptAt.getD 0 ≤ b.2.nextAttemptAt.getD 0 then
        some ((), { w with handed := w.handed ++ (batch.take 50).map Prod.fst })
      else none

/-- Claim a delivery. -/
def claim (deliveryId : Nat) : Action Bool :=
  Prog.request fun i w =>
    match w.delivery deliveryId with
    | none => (false, w)
    | some d =>
        if d.state.queued then (true, w.claimed i deliveryId d) else (false, w)

/-- Read a delivery with its subscription. -/
def findDelivery (deliveryId : Nat) : Action (Option (Delivery × Subscription)) :=
  Prog.query fun w => (w.delivery deliveryId).bind fun d =>
    (w.subscription d.subscriptionId).map fun sub => (d, sub)

/-- The request for a delivery. -/
def Delivery.request (d : Delivery) (sub : Subscription) (now : Millis) : WebhookRequest where
  subscriptionId := d.subscriptionId
  url := sub.url
  signature := d.signature
  signatureVersion := sub.secretVersion
  eventId := d.eventId
  eventType := d.eventType.text
  timestamp := now / 1000
  body := canonicalJson d.payload
  signedAfter := d.signedAfter
  readAfter := sub.rotations

/-- Post a delivery. -/
def post (d : Delivery) (sub : Subscription) : Action HttpAnswer :=
  Prog.lift fun _ c w => some (c.answer, { w with sent := w.sent ++ [d.request sub w.now] })

/-- Whether a request succeeded. -/
def HttpAnswer.succeeded : HttpAnswer → Bool
  | .status httpStatus => decide (200 ≤ httpStatus ∧ httpStatus < 300)
  | .networkError => false

/-- The status of an answer. -/
def HttpAnswer.httpStatus : HttpAnswer → Option Nat
  | .status httpStatus => some httpStatus
  | .networkError => none

/-- A delivery after an attempt; `attempt` is the attempt as it was read. -/
def Delivery.attempted (row : Delivery) (attempt : Nat) (answer : HttpAnswer) (now : Millis) :
    Delivery :=
  if answer.succeeded then
    { row with state := .succeeded, httpStatus := answer.httpStatus, completedAt := some now }
  else
    let exceeded := MAX_ATTEMPTS ≤ attempt
    { row with
      state := if exceeded then .deadLettered else .failedRetry
      httpStatus := answer.httpStatus
      attempt := attempt + 1
      nextAttemptAt := if exceeded then none else some (now + backoffFor attempt)
      deadLetteredAt := if exceeded then some now else row.deadLetteredAt }

/-- A subscription after an attempt. -/
def Subscription.attempted (sub : Subscription) (answer : HttpAnswer) (now : Millis) :
    Subscription :=
  if answer.succeeded then { sub with failureCount := 0, lastSuccessAt := some now }
  else { sub with failureCount := sub.failureCount + 1, lastFailureAt := some now }

/-- The world once it is noted what came of an attempt: one transaction, which a missing row
undoes. -/
def World.recorded (w : World) (deliveryId : Nat) (d : Delivery) (answer : HttpAnswer) : World :=
  match w.delivery deliveryId, w.subscription d.subscriptionId with
  | some row, some sub =>
      (w.setDelivery deliveryId (row.attempted d.attempt answer w.now)).setSubscription
        d.subscriptionId (sub.attempted answer w.now)
  | _, _ => w

/-- Note what came of an attempt. -/
def recordAttempt (deliveryId : Nat) (d : Delivery) (answer : HttpAnswer) : Action Unit :=
  Prog.modify fun w => w.recorded deliveryId d answer

/-- What is left of an attempt once the delivery is claimed. -/
def attempt (deliveryId : Nat) : Action Unit := do
  let delivery ← findDelivery deliveryId
  match delivery with
  | none => pure ()
  | some (delivery, sub) => do
      let answer ← post delivery sub
      recordAttempt deliveryId delivery answer

/-- **One attempt to deliver.** -/
def deliver (deliveryId : Nat) : Action Unit := do
  let claimed ← claim deliveryId
  if !claimed then pure () else attempt deliveryId

/-- A delivery that was replayed. -/
def Delivery.replayed (d : Delivery) (now : Millis) : Delivery :=
  { d with
    state := .failedRetry
    attempt := 1
    nextAttemptAt := some now
    deadLetteredAt := none
    completedAt := none }

/-- **Put a delivery that was set aside back into the queue.** -/
def replay (deliveryId : Nat) : Action Unit := do
  let d ← Prog.query fun w => w.delivery deliveryId
  if d.any fun d => d.state = .deadLettered then
    Prog.modify fun w =>
      match w.delivery deliveryId with
      | none => w
      | some d => w.setDelivery deliveryId (d.replayed w.now)
  else pure ()

/-! ## The routes -/

/-- The version that follows a version: the next number, if it is one. -/
def nextVersion (currentVersion : String) : String :=
  match currentVersion.toList with
  | 'v' :: n =>
      if n ≠ [] ∧ n.all Char.isDigit then "v" ++ toString (Nat.ofDigitChars 10 n 0 + 1) else "v2"
  | _ => "v2"

/-- The world with a new subscription, whose secret is handed out. -/
def World.subscribed (w : World) (operatorId url : String) (eventTypes : List WebhookEventType)
    (secret : String) : World :=
  { w with
    subscriptions := w.subscriptions ++
      [some ⟨operatorId, url, eventTypes, true, secret, "v1", 0, none, none, 0⟩]
    published := w.published ++ [⟨w.subscriptions.length, "v1", secret, 0, 0⟩] }

/-- Subscribe. -/
def subscribe (operatorId url : String) (eventTypes : List WebhookEventType) : Action Unit :=
  Prog.lift fun _ c w => some ((), w.subscribed operatorId url eventTypes c.drawn)

/-- What a change of a subscription may name. -/
structure WebhookPatch where
  url : Option String
  eventTypes : Option (List WebhookEventType)
  enabled : Option Bool

/-- Find a subscription of an operator, and change what is there then. -/
def withSubscription (operatorId : String) (id : Nat)
    (change : Subscription → Choice → World → World) : Action Unit := do
  let existing ← Prog.query fun w => w.subscription id
  match existing with
  | none => pure ()
  | some existing =>
      if existing.operatorId ≠ operatorId then pure ()
      else Prog.lift fun _ c w => some ((), change existing c w)

/-- Change a subscription. -/
def patchSubscription (operatorId : String) (id : Nat) (patch : WebhookPatch) : Action Unit :=
  withSubscription operatorId id fun _ _ w =>
    match w.subscription id with
    | none => w
    | some sub => w.setSubscription id { sub with
        url := patch.url.getD sub.url
        eventTypes := patch.eventTypes.getD sub.eventTypes
        enabled := patch.enabled.getD sub.enabled }

/-- Delete a subscription, and its deliveries with it. -/
def deleteSubscription (operatorId : String) (id : Nat) : Action Unit :=
  withSubscription operatorId id fun _ _ w => { w with
    subscriptions := w.subscriptions.set id none
    deliveries := w.deliveries.map fun d => d.filter fun d => d.subscriptionId ≠ id }

/-- The world once the secret of a subscription was rotated, and the new one is handed out. -/
def World.rotated (w : World) (id : Nat) (existing sub : Subscription) (secret : String) : World :=
  let secretVersion := nextVersion existing.secretVersion
  { w.setSubscription id { sub with secret, secretVersion, rotations := sub.rotations + 1 } with
    published := w.published ++ [⟨id, secretVersion, secret, existing.rotations, sub.rotations⟩] }

/-- **Rotate the secret of a subscription.** The version follows the one that was read. Its column
takes sixteen characters, so its number is below every number that is not exact. -/
def rotateSecret (operatorId : String) (id : Nat) : Action Unit :=
  withSubscription operatorId id fun existing c w =>
    match w.subscription id with
    | none => w
    | some sub =>
        if (nextVersion existing.secretVersion).length ≤ 16 then w.rotated id existing sub c.drawn
        else w

/-- Replay a delivery of an operator. -/
def replayDelivery (operatorId : String) (id : Nat) : Action Unit := do
  let delivery ← Prog.query fun w => w.delivery id
  if delivery.any fun d => d.operatorId = operatorId then replay id else pure ()

/-! ## The system -/

/-- What can be called. -/
inductive Call
  | dispatchEvent (input : DispatchEventInput)
  | tick
  | deliver (deliveryId : Nat)
  | replay (operatorId : String) (deliveryId : Nat)
  | subscribe (operatorId url : String) (eventTypes : List WebhookEventType)
  | patch (operatorId : String) (id : Nat) (patch : WebhookPatch)
  | delete (operatorId : String) (id : Nat)
  | rotateSecret (operatorId : String) (id : Nat)

/-- The program of a call. -/
def Call.code (hmac : String → Text → String) (members : MemberOrder) : Call → Action Unit
  | .dispatchEvent input => Webhooks.dispatchEvent hmac members input
  | .tick => Webhooks.tick
  | .deliver deliveryId => Webhooks.deliver deliveryId
  | .replay operatorId deliveryId => replayDelivery operatorId deliveryId
  | .subscribe operatorId url eventTypes => Webhooks.subscribe operatorId url eventTypes
  | .patch operatorId id change => patchSubscription operatorId id change
  | .delete operatorId id => deleteSubscription operatorId id
  | .rotateSecret operatorId id => Webhooks.rotateSecret operatorId id

/-- What happens outside. -/
inductive Outside
  /-- Time passes. -/
  | elapse (ms : Millis)
  /-- The process stops, and starts again. -/
  | restart
  deriving DecidableEq

/-- **The server, as far as webhooks go.** A delivery is attempted when a poll found it due. -/
def webhookServer (hmac : String → Text → String) (members : MemberOrder) :
    System World Choice Call Outside where
  code := Call.code hmac members
  admits k p := match k with
    | .deliver deliveryId => deliveryId ∈ p.world.handed
    | _ => true
  env x w := match x with
    | .elapse ms => some { w with now := w.now + ms }
    | .restart => some w
  dies x _ := x = .restart

/-- A state of the server. -/
abbrev State := Pool World Choice Call

/-- An event of the server. -/
abbrev Happening := Event Choice Call Outside

/-- A server without subscriptions. -/
def initial (now : Millis) : State := ⟨⟨now, [], [], [], [], [], []⟩, []⟩

end YantraRgs.Webhooks
