import YantraRgs.Await.Pool
import YantraRgs.Services.CanonicalJson
import YantraRgs.Text.Iso
import YantraRgs.Wallet.Types

/-! # The global kill switch

The switch is one row of the database. The process keeps what it read of it for five seconds, and
forgets that when it engages or disengages the switch itself.

* **`snapshot`** — what the process knows of the switch, from its cache or from the row.
* **`isEngaged`**, **`engage`**, **`disengage`** — the three uses of it.
* **`killSwitchServer`** — all of it as a system. -/

namespace YantraRgs.GlobalKillSwitch

open Await

def CACHE_TTL_MS : Millis := 5000

/-- The row of the switch. -/
structure Row where
  engaged : Bool
  reason : Option Text
  engagedAt : Option Millis
  engagedBy : Option Text
  disengagedAt : Option Millis
  disengagedBy : Option Text
  deriving DecidableEq

/-- What is known of the switch. -/
structure SnapshotState where
  engaged : Bool
  reason : Option Text
  engagedAt : Option Text
  engagedBy : Option Text
  disengagedAt : Option Text
  disengagedBy : Option Text
  deriving DecidableEq

/-- What a row says; without one the switch is not engaged. -/
def stateOf : Option Row → SnapshotState
  | some row =>
      { engaged := row.engaged
        reason := row.reason
        engagedAt := row.engagedAt.map toISOString
        engagedBy := row.engagedBy
        disengagedAt := row.disengagedAt.map toISOString
        disengagedBy := row.disengagedBy }
  | none => ⟨false, none, none, none, none, none⟩

/-- What is kept of the switch, and until when. -/
structure Cached where
  value : SnapshotState
  expiresAt : Millis
  deriving DecidableEq

/-- The row and the cache, with what is needed to say what they are for. -/
structure World where
  now : Millis
  row : Option Row
  cached : Option Cached
  /-- An engagement has come to its end, and no disengagement was called for since. -/
  engagedFor : Bool
  /-- The questions that were asked meanwhile and have yet to read the row. -/
  waiting : List Nat
  /-- The answers to questions, each with whether it was asked meanwhile. -/
  answers : List (Bool × Bool)
  deriving DecidableEq

namespace World

variable (w : World)

/-- The row says that the switch is engaged. -/
def engaged : Bool := (stateOf w.row).engaged

/-- What the cache has to say at the present time. -/
def hit : Option SnapshotState :=
  (w.cached.filter fun cached => w.now < cached.expiresAt).map Cached.value

/-- Keep what was read of the switch. -/
def store (value : SnapshotState) : World :=
  { w with cached := some ⟨value, w.now + CACHE_TTL_MS⟩ }

/-- Forget what was read of the switch. -/
def forget : World := { w with cached := none }

end World

/-- A piece of a call. -/
abbrev Action := Prog World Unit

/-- **What is known of the switch**, looked up right after `prepare`; also whether the switch was
engaged for good then. A question waits from then on until it has read the row. -/
def snapshot (prepare : World → World) (question : Bool) : Action (Bool × SnapshotState) := do
  let (asked, hit) ← Prog.request fun i w =>
    let w := prepare w
    ((w.engagedFor, w.hit),
      if question ∧ w.engagedFor ∧ w.hit = none then { w with waiting := i :: w.waiting } else w)
  match hit with
  | some value => pure (asked, value)
  | none => do
      let row ← Prog.request fun i w => (w.row, { w with waiting := w.waiting.filter (· ≠ i) })
      Prog.modify fun w => w.store (stateOf row)
      pure (asked, stateOf row)

/-- **Whether the switch is engaged.** -/
def isEngaged : Action Unit := do
  let (asked, value) ← snapshot id true
  Prog.modify fun w => { w with answers := w.answers ++ [(asked, value.engaged)] }

/-- **Engage the switch.** The time is that of the call. -/
def engage (reason actorEmail : Text) : Action Unit := do
  let now ← Prog.query World.now
  Prog.modify fun w =>
    let row := w.row.getD ⟨false, none, none, none, none, none⟩
    { w with row := some { row with
      engaged := true
      reason := some (reason.take 256)
      engagedAt := some now
      engagedBy := some (actorEmail.take 254) } }
  let _ ← snapshot World.forget false
  Prog.modify fun w => { w with engagedFor := true }

/-- **Disengage the switch.** The time is that of the call; a row that is made for it has none. -/
def disengage (actorEmail : Text) : Action Unit := do
  let now ← Prog.request fun _ w => (w.now, { w with engagedFor := false })
  Prog.modify fun w =>
    match w.row with
    | some row =>
        { w with row := some { row with
          engaged := false
          disengagedAt := some now
          disengagedBy := some (actorEmail.take 254) } }
    | none => { w with row := some ⟨false, none, none, none, none, none⟩ }
  let _ ← snapshot World.forget false
  pure ()

/-! ## The system -/

/-- What can be called. -/
inductive Call
  | isEngaged
  | snapshot
  | engage (reason actorEmail : Text)
  | disengage (actorEmail : Text)
  deriving DecidableEq

/-- The program of a call. -/
def Call.code : Call → Action Unit
  | .isEngaged => GlobalKillSwitch.isEngaged
  | .snapshot => do
      let _ ← GlobalKillSwitch.snapshot id false
      pure ()
  | .engage reason actorEmail => GlobalKillSwitch.engage reason actorEmail
  | .disengage actorEmail => GlobalKillSwitch.disengage actorEmail

/-- **The process, as far as the switch goes**; outside time passes. -/
def killSwitchServer : System World Unit Call Millis where
  code := Call.code
  admits _ _ := true
  env ms w := some { w with now := w.now + ms }
  dies _ _ := false

/-- A state of the process. -/
abbrev State := Pool World Unit Call

/-- An event of the process. -/
abbrev Happening := Event Unit Call Millis

/-- A process that has read nothing of the row yet. -/
def initial (now : Millis) (row : Option Row) : State :=
  ⟨⟨now, row, none, false, [], []⟩, []⟩

end YantraRgs.GlobalKillSwitch
