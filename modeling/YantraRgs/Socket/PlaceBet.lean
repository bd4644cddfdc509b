import Mathlib.Algebra.Order.Floor.Defs
import Mathlib.Data.Rat.Floor
import YantraRgs.Socket.Presence
import YantraRgs.Text.Integer

/-! # The handler of bets

A player's bet comes in over its socket as any JSON value. The handler reads an envelope out of it, lets
the game read the selection, and hands both to the engine, whose answer goes back to the player.

* **`amountMicro`** — how an amount is read; **`safeParse`** — how an envelope is.
* **`placeBetHandler`** — what the handler does.

Whatever `BigInt` throws while an amount is read comes out of the handler. -/

namespace YantraRgs.Socket

/-- A number; JSON texts bring no others. -/
inductive Number
  | finite (value : Rat)
  | infinite (negative : Bool)
  deriving DecidableEq

/-- What a player sends. -/
inductive Payload
  | null
  | boolean (b : Bool)
  | number (x : Number)
  | string (s : List Char)
  | array (vs : List Payload)
  | object (es : List (String × Payload))

/-- What is under a key of an object. -/
def Payload.property (name : String) : Payload → Option Payload
  | .object es => es.lookup name
  | _ => none

/-! ## Envelopes -/

/-- The nearest integer; halves are rounded up. -/
def round (x : Rat) : Int := ⌊x + 1 / 2⌋

/-- The text of an infinite number. -/
def infinityText (negative : Bool) : List Char :=
  if negative then "-Infinity".toList else "Infinity".toList

/-- **How an amount is read**: there is none where it is neither a text nor a number, and an error where
it converts to no integer. -/
def amountMicro : Option Payload → Except (List Char) (Option Int)
  | some (.string s) =>
      match BigInt.ofText s with
      | some n => .ok (some n)
      | none => .error ("Cannot convert ".toList ++ s ++ " to a BigInt".toList)
  | some (.number (.finite x)) => .ok (some (round x))
  | some (.number (.infinite negative)) =>
      .error ("The number ".toList ++ infinityText negative ++
        " cannot be converted to a BigInt because it is not an integer".toList)
  | _ => .ok none

/-- How a flag that may be missing is read. -/
def optionalBoolean : Option Payload → Option (Option Bool)
  | none => some none
  | some (.boolean b) => some (some b)
  | some _ => none

/-- An envelope; the selection is whatever stands there. -/
structure PlaceBetEnvelope where
  amountMicro : Int
  selection : Option Payload
  autoplay : Option Bool
  turbo : Option Bool

/-- **How an envelope is read**, amount first. -/
def safeParse (payload : Payload) : Except (List Char) (Option PlaceBetEnvelope) :=
  match payload with
  | .object es => do
      let amount ← amountMicro (es.lookup "amountMicro")
      pure do
        let amountMicro ← amount
        let autoplay ← optionalBoolean (es.lookup "autoplay")
        let turbo ← optionalBoolean (es.lookup "turbo")
        pure ⟨amountMicro, es.lookup "selection", autoplay, turbo⟩
  | _ => pure none

/-! ## The handler -/

/-- What is handed to the engine; selections are the game's. -/
structure PlaceBetCall (Selection : Type) where
  sessionId : String
  playerRef : String
  operatorId : String
  currency : String
  amountMicro : Int
  selection : Selection
  autoplay : Option Bool
  turbo : Option Bool

/-- What the player is told. -/
inductive Acknowledgement (Result : Type)
  | refused (reason : String)
  | answered (result : Result)
  deriving DecidableEq

/-- **What the handler does**: what it hands to the engine, what it tells the player, and what it throws. -/
structure Handled (Selection Result : Type) where
  placed : List (PlaceBetCall Selection)
  acks : List (Acknowledgement Result)
  thrown : Option (List Char)

/-- The game and the engine behind a socket. -/
structure Game (Selection Result : Type) where
  selectionSchema : Option Payload → Option Selection
  placeBet : PlaceBetCall Selection → Result

variable {Selection Result : Type}

/-- **The handler of a bet**; the player may ask for no acknowledgement. -/
def placeBetHandler (game : Game Selection Result) (data : SocketData) (ack : Bool)
    (payload : Payload) : Handled Selection Result :=
  let tell (answer : Acknowledgement Result) := if ack then [answer] else []
  match safeParse payload with
  | .error e => ⟨[], [], some e⟩
  | .ok none => ⟨[], tell (.refused "invalid_envelope"), none⟩
  | .ok (some envelope) =>
      match game.selectionSchema envelope.selection with
      | none => ⟨[], tell (.refused "invalid_selection"), none⟩
      | some selection =>
          let call :=
            { sessionId := data.sessionId
              playerRef := data.playerRef
              operatorId := data.operatorId
              currency := data.currency
              amountMicro := envelope.amountMicro
              selection
              autoplay := envelope.autoplay
              turbo := envelope.turbo }
          ⟨[call], tell (.answered (game.placeBet call)), none⟩

end YantraRgs.Socket
