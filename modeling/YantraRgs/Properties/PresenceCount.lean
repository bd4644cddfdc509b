import YantraRgs.Socket.Presence
import Mathlib.Data.List.Dedup

/-! # The number of players in a room

The connection handler counts a socket in after it has waited for the engine, and only then registers
the listener that counts it out. A socket that leaves in between is counted in and never out.

* **`Present`** — a room's count is the number of its sessions that have a socket there.
* **`Punctual`** — the condition on one step.
* **`present_of_punctual`** — along runs whose steps meet it, every room's count is right. -/

namespace YantraRgs.Socket

open Await

variable {w w' : World} {room sessionId : String}

/-- A socket that is there and was admitted to a room. -/
def GameSocket.admitted (room : String) (x : GameSocket) : Bool :=
  x.connected ∧ x.handler = .listening ∧ x.data.room = room

/-- The sessions that have a socket in a room. -/
def World.sessionsIn (w : World) (room : String) : List String :=
  ((w.sockets.filter (GameSocket.admitted room)).map fun x => x.data.sessionId).dedup

/-- **A room's count** is the number of sessions that have a socket there. -/
def Present (w : World) : Prop :=
  ∀ room, connectedPlayerCount w.presenceByRoom room = (w.sessionsIn room).length

/-- **The condition on one step**: a connection handler that got an engine goes on while its socket is
still there. -/
def Punctual (p : Pool World Unit Empty) (e : Event Unit Empty Happening) (_ : Pool World Unit Empty) :
    Prop :=
  match e with
  | .env (.resume i .engine) => p.world.sockets[i]?.all GameSocket.connected = true
  | _ => True

instance (p : Pool World Unit Empty) (e : Event Unit Empty Happening) (q : Pool World Unit Empty) :
    Decidable (Punctual p e q) := by
  unfold Punctual
  split <;> infer_instance

/-! ## What the counts count -/

/-- A socket of a session whose listener waits in a room. -/
def GameSocket.counted (room sessionId : String) (x : GameSocket) : Bool :=
  x.handler = .listening ∧ x.data.room = room ∧ x.data.sessionId = sessionId

/-- **The counts are those of the listeners.** -/
def Counted (w : World) : Prop :=
  ∀ room sessionId, count w.presenceByRoom room sessionId =
    w.sockets.countP (GameSocket.counted room sessionId)

/-- A list in which one element was replaced. -/
theorem countP_set {α : Type} {l : List α} {i : Nat} {a : α} (h : l[i]? = some a) (p : α → Bool)
    (x : α) : (l.set i x).countP p + (if p a then 1 else 0) =
      l.countP p + if p x then 1 else 0 := by
  obtain ⟨hi, rfl⟩ := List.getElem?_eq_some_iff.mp h
  have hsplit : l = l.take i ++ l[i] :: l.drop (i + 1) := by
    rw [List.getElem_cons_drop, List.take_append_drop]
  conv_rhs => rw [hsplit]
  rw [List.set_eq_take_append_cons_drop, if_pos hi, List.countP_append, List.countP_append,
    List.countP_cons, List.countP_cons]
  omega

theorem counted_listening (data : SocketData) (connected : Bool) :
    GameSocket.counted room sessionId ⟨data, connected, .listening⟩ = true ↔
      room = data.room ∧ sessionId = data.sessionId := by
  rw [GameSocket.counted, decide_eq_true_iff]
  exact ⟨fun ⟨_, h⟩ => ⟨h.1.symm, h.2.symm⟩, fun h => ⟨rfl, h.1.symm, h.2.symm⟩⟩

theorem counted_quiet {x : GameSocket} (h : x.handler ≠ .listening) :
    GameSocket.counted room sessionId x = false := by
  rw [GameSocket.counted, decide_eq_false_iff_not]
  exact fun hx => h hx.1

/-- Replacing a socket without a listener by another one changes no count. -/
theorem Counted.quiet (h : Counted w) {i : Nat} {x y : GameSocket} (hi : w.sockets[i]? = some x)
    (hx : x.handler ≠ .listening) (hy : y.handler ≠ .listening) :
    Counted { w with sockets := w.sockets.set i y } := by
  intro room sessionId
  have hset := countP_set hi (GameSocket.counted room sessionId) y
  rw [counted_quiet hx, counted_quiet hy] at hset
  rw [h room sessionId]
  exact hset.symm

/-- Every event keeps the counts in line with the listeners. -/
theorem Counted.step {e : Happening} (h : Counted w) (hs : w.step e = some w') : Counted w' := by
  cases e with
  | connect data =>
      obtain rfl := Option.some.inj hs
      intro room sessionId
      rw [World.connect, List.countP_append, List.countP_singleton, counted_quiet (by simp)]
      exact h room sessionId
  | resume i answer =>
      simp only [World.step, World.resume] at hs
      split at hs
      · rename_i data connected hi
        cases answer with
        | rejected =>
            obtain rfl := Option.some.inj hs
            exact h.quiet hi (by simp) (by simp)
        | noEngine =>
            obtain rfl := Option.some.inj hs
            exact h.quiet hi (by simp) (by simp)
        | engine =>
            obtain rfl := Option.some.inj hs
            intro room sessionId
            have hset := countP_set hi (GameSocket.counted room sessionId) ⟨data, connected, .listening⟩
            rw [counted_quiet (x := ⟨data, connected, .pending⟩) (by simp)] at hset
            simp only [counted_listening] at hset
            rw [World.emitPresence, count_incrementPresence, h room sessionId]
            exact hset.symm
      · cases hs
  | disconnect i =>
      simp only [World.step, World.disconnect] at hs
      split at hs
      · rename_i data hi
        obtain rfl := Option.some.inj hs
        intro room sessionId
        have hset := countP_set hi (GameSocket.counted room sessionId) ⟨data, false, .ended⟩
        rw [counted_quiet (x := ⟨data, false, .ended⟩) (by simp)] at hset
        simp only [counted_listening, Bool.false_eq_true, if_false, Nat.add_zero] at hset
        rw [World.emitPresence, count_decrementPresence, h room sessionId]
        exact Nat.sub_eq_of_eq_add hset.symm
      · rename_i data handler hhandler hi
        obtain rfl := Option.some.inj hs
        exact h.quiet hi hhandler hhandler
      · cases hs

/-! ## Runs -/

/-- The socket layer has no calls, so an event of a run is one of sockets, or it changes nothing. -/
theorem step_world {p q : Pool World Unit Empty} {e : Event Unit Empty Happening} (hp : p.tasks = [])
    (hs : socketLayer.step p e = some q) :
    q.tasks = [] ∧ ((∃ x, e = .env x ∧ p.world.step x = some q.world) ∨ q.world = p.world) := by
  cases e with
  | call k => exact k.elim
  | run i c =>
      rw [System.step, System.runTask, hp] at hs
      cases hs
  | kill i =>
      obtain rfl := Option.some.inj hs
      exact ⟨by rw [hp, List.modify_nil], .inr rfl⟩
  | env x =>
      obtain ⟨w, hw, rfl⟩ := Option.map_eq_some_iff.mp hs
      exact ⟨by rw [hp]; rfl, .inl ⟨x, rfl, hw⟩⟩

/-- A socket whose listener waits is still there. -/
def Attended (w : World) : Prop := ∀ x ∈ w.sockets, x.handler = .listening → x.connected = true

/-- Replacing a socket by one that has no listener, or is still there. -/
theorem Attended.set (h : Attended w) {i : Nat} {y : GameSocket}
    (hy : y.handler = .listening → y.connected = true) {p : Presence} {u : List (String × Nat)} :
    Attended ⟨w.sockets.set i y, p, u⟩ := by
  intro x hx
  rcases List.mem_or_eq_of_mem_set hx with hx | rfl
  · exact h x hx
  · exact hy

theorem Attended.step {e : Happening} (h : Attended w) (hs : w.step e = some w')
    (hpunctual : ∀ i, e = .resume i .engine → w.sockets[i]?.all GameSocket.connected = true) :
    Attended w' := by
  cases e with
  | connect data =>
      obtain rfl := Option.some.inj hs
      intro x hx hlistening
      rcases List.mem_append.mp hx with hx | hx
      · exact h x hx hlistening
      · rw [List.mem_singleton.mp hx]
  | resume i answer =>
      simp only [World.step, World.resume] at hs
      split at hs
      · rename_i data connected hi
        cases answer with
        | rejected =>
            obtain rfl := Option.some.inj hs
            exact h.set fun hl => by cases hl
        | noEngine =>
            obtain rfl := Option.some.inj hs
            exact h.set fun hl => by cases hl
        | engine =>
            obtain rfl := Option.some.inj hs
            have hconnected := hpunctual i rfl
            rw [hi] at hconnected
            exact h.set (y := ⟨data, connected, .listening⟩) fun _ => hconnected
      · cases hs
  | disconnect i =>
      simp only [World.step, World.disconnect] at hs
      split at hs
      · obtain rfl := Option.some.inj hs
        exact h.set fun hl => by cases hl
      · rename_i hhandler hi
        obtain rfl := Option.some.inj hs
        exact h.set fun hl => absurd hl hhandler
      · cases hs

/-- Along a run the counts are those of the listeners, and no listener waits for a socket that has
left. -/
theorem counted_of_run {q : Pool World Unit Empty} (hrun : socketLayer.Run Punctual initial q) :
    Counted q.world ∧ Attended q.world := by
  have hinv := hrun.invariant
    (I := fun r => r.tasks = [] ∧ Counted r.world ∧ Attended r.world)
    ⟨rfl, fun _ _ => rfl, fun x hx => by cases hx⟩ fun p e r hs hpunctual hp => ?_
  · exact hinv.2
  · obtain ⟨htasks, hworld⟩ := step_world hp.1 hs
    refine ⟨htasks, ?_⟩
    rcases hworld with ⟨x, rfl, hx⟩ | heq
    · exact ⟨hp.2.1.step hx, hp.2.2.step hx fun i hi => by subst hi; exact hpunctual⟩
    · rw [heq]
      exact hp.2

/-- **Where only sockets that are still there are counted in**, every room's count is right. -/
theorem present_of_punctual {q : Pool World Unit Empty}
    (hrun : socketLayer.Run Punctual initial q) : Present q.world := by
  obtain ⟨hcounted, hattended⟩ := counted_of_run hrun
  intro room
  rw [← length_connectedSessions]
  refine List.Perm.length_eq ((List.perm_ext_iff_of_nodup (nodup_connectedSessions _ _)
    (List.nodup_dedup _)).mpr fun sessionId => ?_)
  rw [mem_connectedSessions, hcounted, List.countP_pos_iff, List.mem_dedup, List.mem_map]
  constructor
  · rintro ⟨x, hx, hc⟩
    rw [GameSocket.counted, decide_eq_true_iff] at hc
    obtain ⟨hlistening, hroom, hsession⟩ := hc
    refine ⟨x, List.mem_filter.mpr ⟨hx, ?_⟩, hsession⟩
    rw [GameSocket.admitted, decide_eq_true_iff]
    exact ⟨hattended x hx hlistening, hlistening, hroom⟩
  · rintro ⟨x, hx, hsession⟩
    obtain ⟨hx, hadmitted⟩ := List.mem_filter.mp hx
    rw [GameSocket.admitted, decide_eq_true_iff] at hadmitted
    obtain ⟨-, hlistening, hroom⟩ := hadmitted
    exact ⟨x, hx, by rw [GameSocket.counted, decide_eq_true_iff]; exact ⟨hlistening, hroom, hsession⟩⟩

/-! ## A socket that leaves early -/

namespace Sample

def data : SocketData := ⟨"session", "operator", "player", "LKR", "dice"⟩

/-- A socket connects and leaves before its engine is there. -/
def leaving : List (Event Unit Empty Happening) :=
  [.env (.connect data), .env (.disconnect 0), .env (.resume 0 .engine)]

/-- A socket connects and stays. -/
def staying : List (Event Unit Empty Happening) :=
  [.env (.connect data), .env (.resume 0 .engine)]

end Sample

/-- The count of a run in which one socket stays. -/
theorem present_of_punctual_one : ∃ q : Pool World Unit Empty,
    socketLayer.Run Punctual initial q ∧ Present q.world ∧
      connectedPlayerCount q.world.presenceByRoom Sample.data.room = 1 := by
  have hexec : (socketLayer.exec Punctual initial Sample.staying).map
      (fun q => connectedPlayerCount q.world.presenceByRoom Sample.data.room) = some 1 := by
    decide +kernel
  obtain ⟨q, hrun, hq⟩ := System.Run.of_exec_map hexec
  exact ⟨q, hrun, present_of_punctual hrun, hq⟩

/-- **A player who is not there**: the socket has left, and its session stays counted. -/
theorem leaving_early : ¬ ∀ q : Pool World Unit Empty, socketLayer.Run Anything initial q →
    (∀ x ∈ q.world.sockets, x.handler ≠ .pending) → Present q.world := by
  intro h
  have hexec : (socketLayer.exec Anything initial Sample.leaving).map (fun q =>
      (connectedPlayerCount q.world.presenceByRoom Sample.data.room,
        (q.world.sessionsIn Sample.data.room).length,
        q.world.sockets.all fun x => x.handler ≠ .pending)) = some (1, 0, true) := by
    decide +kernel
  obtain ⟨q, hrun, hq⟩ := System.Run.of_exec_map hexec
  simp only [Prod.mk.injEq, List.all_eq_true, decide_eq_true_eq] at hq
  have hpresent := h q hrun hq.2.2 Sample.data.room
  rw [hq.1, hq.2.1] at hpresent
  cases hpresent

end YantraRgs.Socket
