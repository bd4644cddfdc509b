import YantraRgs.Await.Pool
import Mathlib.Data.List.AList
import Mathlib.Data.PNat.Basic

/-! # Sockets and who is present

A socket joins the room of its game and waits for the engine of its session. When there is one, its
session is counted as present in the room, and a listener takes it out again when the socket leaves.
A session may have several sockets, so for each session the number of its sockets is kept.

* **`incrementPresence`**, **`decrementPresence`** — the two changes of the counts, and
  `count_incrementPresence`, `count_decrementPresence` what they do to each number.
* **`length_connectedSessions`** — a room's count is that of the sessions with a number.
* **`World.connect`**, **`World.resume`**, **`World.disconnect`** — the handlers of a socket.
* **`socketLayer`** — all of it as a system. -/

namespace YantraRgs.Socket

open Await

/-! ## The counts -/

/-- For each session of a room, how many sockets it has there. -/
abbrev Sessions := AList fun _ : String => ℕ+

/-- The sessions of each room. -/
abbrev Presence := AList fun _ : String => Sessions

/-- The sessions that are counted in a room. -/
def connectedSessions (presenceByRoom : Presence) (room : String) : List String :=
  ((presenceByRoom.lookup room).map AList.keys).getD []

/-- **The number of players in a room.** -/
def connectedPlayerCount (presenceByRoom : Presence) (room : String) : Nat :=
  ((presenceByRoom.lookup room).map fun sessions => sessions.keys.length).getD 0

/-- A socket of a session more; also the room's count. -/
def incrementPresence (presenceByRoom : Presence) (room sessionId : String) : Presence × Nat :=
  let sessions := (presenceByRoom.lookup room).getD ∅
  let sessions := sessions.insert sessionId (((sessions.lookup sessionId).map PNat.val).getD 0).succPNat
  (presenceByRoom.insert room sessions, sessions.keys.length)

/-- A socket of a session less; also the room's count. -/
def decrementPresence (presenceByRoom : Presence) (room sessionId : String) : Presence × Nat :=
  match presenceByRoom.lookup room with
  | none => (presenceByRoom, 0)
  | some sessions =>
      let next := ((sessions.lookup sessionId).map PNat.val).getD 0 - 1
      if h : 0 < next then
        let sessions := sessions.insert sessionId (next.toPNat h)
        (presenceByRoom.insert room sessions, sessions.keys.length)
      else
        let sessions := sessions.erase sessionId
        if sessions.keys.length = 0 then (presenceByRoom.erase room, 0)
        else (presenceByRoom.insert room sessions, sessions.keys.length)

/-- The number of a session in a room. -/
def count (presenceByRoom : Presence) (room sessionId : String) : Nat :=
  ((presenceByRoom.lookup room).bind fun sessions =>
    (sessions.lookup sessionId).map PNat.val).getD 0

section

variable {p : Presence} {room sessionId r s : String}

theorem count_of_lookup {sessions : Sessions} (h : p.lookup room = some sessions) (s : String) :
    count p room s = ((sessions.lookup s).map PNat.val).getD 0 := by
  rw [count, h]
  rfl

theorem count_eq_zero (h : p.lookup room = none) (s : String) : count p room s = 0 := by
  rw [count, h]
  rfl

/-- The counts of a room whose sessions were replaced. -/
theorem count_insert (sessions : Sessions) :
    count (p.insert room sessions) r s =
      if r = room then ((sessions.lookup s).map PNat.val).getD 0 else count p r s := by
  by_cases hr : r = room
  · subst hr
    rw [if_pos rfl, count_of_lookup (AList.lookup_insert p)]
  · rw [if_neg hr, count, AList.lookup_insert_ne hr]
    rfl

theorem count_erase : count (p.erase room) r s = if r = room then 0 else count p r s := by
  by_cases hr : r = room
  · subst hr
    rw [if_pos rfl, count_eq_zero (AList.lookup_erase r p)]
  · rw [if_neg hr, count, AList.lookup_erase_ne hr]
    rfl

/-- **Counting a socket in** adds one to its session in its room and changes nothing else. -/
theorem count_incrementPresence (p : Presence) (room sessionId r s : String) :
    count (incrementPresence p room sessionId).1 r s =
      count p r s + if r = room ∧ s = sessionId then 1 else 0 := by
  have hroom : ∀ s, (((p.lookup room).getD ∅).lookup s |>.map PNat.val).getD 0 = count p room s := by
    intro s
    cases h : p.lookup room with
    | none => rw [count_eq_zero h]; rfl
    | some sessions => rw [count_of_lookup h]; rfl
  rw [incrementPresence, count_insert]
  by_cases hr : r = room
  · subst hr
    by_cases hs : s = sessionId
    · subst hs
      rw [if_pos rfl, if_pos ⟨rfl, rfl⟩, AList.lookup_insert, hroom]
      rfl
    · rw [if_pos rfl, if_neg fun h => hs h.2, AList.lookup_insert_ne hs, hroom, Nat.add_zero]
  · rw [if_neg hr, if_neg fun h => hr h.1, Nat.add_zero]

/-- **Counting a socket out** takes one from its session in its room and changes nothing else. -/
theorem count_decrementPresence (p : Presence) (room sessionId r s : String) :
    count (decrementPresence p room sessionId).1 r s =
      count p r s - if r = room ∧ s = sessionId then 1 else 0 := by
  unfold decrementPresence
  cases hroom : p.lookup room with
  | none =>
      dsimp only
      split
      · rename_i h
        rw [h.1, count_eq_zero hroom]
      · rfl
  | some sessions =>
      dsimp only
      rw [← count_of_lookup hroom sessionId]
      by_cases hother : r = room ∧ s = sessionId
      · obtain ⟨rfl, rfl⟩ := hother
        rw [if_pos (show r = r ∧ s = s from ⟨rfl, rfl⟩)]
        by_cases hnext : 0 < count p r s - 1
        · rw [dif_pos hnext, count_insert, if_pos rfl, AList.lookup_insert]
          rfl
        · rw [dif_neg hnext]
          split
          · dsimp only
            rw [count_erase, if_pos rfl]
            omega
          · rw [count_insert, if_pos rfl, AList.lookup_erase]
            simp only [Option.map_none, Option.getD_none]
            omega
      · rw [if_neg hother, Nat.sub_zero]
        by_cases hr : r = room
        · subst hr
          have hs : s ≠ sessionId := fun hs => hother ⟨rfl, hs⟩
          split
          · rw [count_insert, if_pos rfl, AList.lookup_insert_ne hs, count_of_lookup hroom]
          · split
            · -- nobody is left in the room, so the session had no socket there
              rename_i hempty
              have hnot : s ∉ sessions.erase sessionId := by
                rw [AList.mem_keys, List.length_eq_zero_iff.mp hempty]
                exact List.not_mem_nil
              dsimp only
              rw [count_erase, if_pos rfl, count_of_lookup hroom, ← AList.lookup_erase_ne hs,
                AList.lookup_eq_none.mpr hnot]
              rfl
            · rw [count_insert, if_pos rfl, AList.lookup_erase_ne hs, count_of_lookup hroom]
        · split
          · rw [count_insert, if_neg hr]
          · split
            · dsimp only
              rw [count_erase, if_neg hr]
            · rw [count_insert, if_neg hr]

/-- A session is counted in a room exactly when its number is not zero. -/
theorem mem_connectedSessions : s ∈ connectedSessions p room ↔ 0 < count p room s := by
  unfold connectedSessions
  cases h : p.lookup room with
  | none =>
      rw [count_eq_zero h]
      exact ⟨fun hmem => absurd hmem List.not_mem_nil, fun hlt => absurd hlt (Nat.lt_irrefl 0)⟩
  | some sessions =>
      rw [count_of_lookup h]
      change s ∈ sessions.keys ↔ _
      rw [← AList.mem_keys, ← AList.lookup_isSome]
      cases hs : sessions.lookup s with
      | none => simp
      | some n => simp

/-- No session is counted twice. -/
theorem nodup_connectedSessions (p : Presence) (room : String) : (connectedSessions p room).Nodup := by
  unfold connectedSessions
  cases p.lookup room with
  | none => exact List.nodup_nil
  | some sessions => exact sessions.keys_nodup

/-- **A room's count** is the number of its sessions. -/
theorem length_connectedSessions (p : Presence) (room : String) :
    (connectedSessions p room).length = connectedPlayerCount p room := by
  unfold connectedSessions connectedPlayerCount
  cases p.lookup room <;> rfl

end

/-! ## Sockets -/

/-- What the session of a socket says. -/
structure SocketData where
  sessionId : String
  operatorId : String
  playerRef : String
  currency : String
  gameCode : String

/-- The room of a game. -/
def gameRoom (operatorId gameCode currency : String) : String :=
  "operator:" ++ operatorId ++ ":" ++ gameCode ++ ":" ++ currency

/-- The room that a socket joins. -/
def SocketData.room (data : SocketData) : String :=
  gameRoom data.operatorId data.gameCode data.currency

/-- How far a socket's handlers have come. -/
inductive Handler
  /-- The connection handler waits for the engine. -/
  | pending
  /-- It has counted the socket in, and a listener waits for the socket to leave. -/
  | listening
  /-- Nothing waits. -/
  | ended
  deriving DecidableEq

/-- A socket. -/
structure GameSocket where
  data : SocketData
  connected : Bool
  handler : Handler

/-- What comes of asking for the engine of a session. -/
inductive ForSession
  | engine
  | noEngine
  /-- The request fails, and the connection handler with it. -/
  | rejected
  deriving DecidableEq

/-- The sockets, the counts, and the updates that were sent to rooms. -/
structure World where
  sockets : List GameSocket
  presenceByRoom : Presence
  updates : List (String × Nat)

namespace World

variable (w : World)

/-- Tell a room how many players it has. -/
def emitPresence (room : String) : World :=
  { w with updates := w.updates ++ [(room, connectedPlayerCount w.presenceByRoom room)] }

/-- **A socket connects**, and its handler asks for the engine. -/
def connect (data : SocketData) : World :=
  { w with sockets := w.sockets ++ [⟨data, true, .pending⟩] }

/-- **The connection handler goes on**, whether the socket is still there or not. -/
def resume (i : Nat) (answer : ForSession) : Option World :=
  match w.sockets[i]? with
  | some ⟨data, connected, .pending⟩ =>
      match answer with
      | .rejected => some { w with sockets := w.sockets.set i ⟨data, connected, .ended⟩ }
      | .noEngine => some { w with sockets := w.sockets.set i ⟨data, false, .ended⟩ }
      | .engine =>
          some ({ w with
            sockets := w.sockets.set i ⟨data, connected, .listening⟩
            presenceByRoom := (incrementPresence w.presenceByRoom data.room data.sessionId).1 }
            |>.emitPresence data.room)
  | _ => none

/-- **A socket leaves**: its listener counts it out, if there is one yet. -/
def disconnect (i : Nat) : Option World :=
  match w.sockets[i]? with
  | some ⟨data, true, .listening⟩ =>
      some ({ w with
        sockets := w.sockets.set i ⟨data, false, .ended⟩
        presenceByRoom := (decrementPresence w.presenceByRoom data.room data.sessionId).1 }
        |>.emitPresence data.room)
  | some ⟨data, true, handler⟩ => some { w with sockets := w.sockets.set i ⟨data, false, handler⟩ }
  | _ => none

end World

/-- What happens to sockets. -/
inductive Happening
  | connect (data : SocketData)
  | resume (i : Nat) (answer : ForSession)
  | disconnect (i : Nat)

/-- What happens to the world. -/
def World.step (w : World) : Happening → Option World
  | .connect data => some (w.connect data)
  | .resume i answer => w.resume i answer
  | .disconnect i => w.disconnect i

/-- **The socket layer**: nothing but events of sockets. -/
def socketLayer : System World Unit Empty Happening where
  code := nofun
  admits _ _ := false
  env x w := w.step x
  dies _ _ := false

/-- A socket layer without sockets. -/
def initial : Pool World Unit Empty := ⟨⟨[], ∅, []⟩, []⟩

end YantraRgs.Socket
