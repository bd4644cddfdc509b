import YantraRgs.Conduct.Server

/-! # Runs of the server from its first state

* **`History`** — the states that a server reaches in runs whose every step meets a condition.
* **`OneEngine`** — the condition that no two engines of one key are under way together.
* **`Sample`** — a small server with two games, whose runs can be computed. -/

namespace YantraRgs

open Await

/-- **The states that a server reaches** from its first state when every step meets `A`. -/
inductive History (env : Env) (A : State → Happening → State → Prop) (p : State) : Prop
  | mk (operators : List OperatorRow) (credentials : List OperatorCredential)
      (gameConfigs : List OperatorGameConfig)
      (h : (server env).Run A (State.initial operators credentials gameConfigs) p)

/-- Every step is fine. -/
def Anything (_ : State) (_ : Happening) (_ : State) : Prop := True

instance (p : State) (x : Happening) (q : State) : Decidable (Anything p x q) := .isTrue trivial

/-- The call that an event makes. -/
def called? : Happening → Option Call
  | .call k => some k
  | _ => none

/-- The engine that an event starts. -/
def started? : Happening → Option EngineRef
  | .call (.start e) => some e
  | _ => none

/-- The call that an event is an action of. -/
def ran? : Happening → Option Nat
  | .run i _ => some i
  | _ => none

/-- The engine whose loop begins a turn. -/
def turned? : Happening → Option EngineRef
  | .call (.iteration e _) => some e
  | _ => none

/-- **No two engines of one key together**: a call starts only when every call under way in an
engine of the same key is in the same engine. -/
def OneEngine (p : State) (x : Happening) : Prop :=
  ∀ k ∈ called? x, ∀ t ∈ p.tasks, t.live → ∀ e ∈ k.engine?, ∀ e' ∈ t.call.engine?,
    e.key = e'.key → e = e'

instance (t : Task World Choice Call) : Decidable t.live :=
  inferInstanceAs (Decidable (t.prog.ended = false))

instance (p : State) (x : Happening) : Decidable (OneEngine p x) :=
  inferInstanceAs (Decidable (∀ k ∈ called? x, ∀ t ∈ p.tasks, t.live → ∀ e ∈ k.engine?,
    ∀ e' ∈ t.call.engine?, e.key = e'.key → e = e'))

variable {A : State → Happening → State → Prop} {P : Policy} {p q : State}

/-- **What every step keeps holds in every state reached.** -/
theorem History.invariant {J : State → Prop} (hmeets : Meets P A) (h : History P.env A p)
    (h₀ : ∀ operators credentials gameConfigs, J (State.initial operators credentials gameConfigs))
    (hstep : ∀ p x q, (server P.env).step p x = some q → A p x q → Sound P p.world → Orderly p →
      Stepped P p x q → J p → J q) : Sound P p.world ∧ J p := by
  obtain ⟨operators, credentials, gameConfigs, hr⟩ := h
  obtain ⟨hready, hJ⟩ := run_invariant (Ready.initial hmeets operators credentials gameConfigs) hr
    (h₀ operators credentials gameConfigs) hstep
  exact ⟨hready.ok.inv, hJ⟩

namespace Sample

/-- What the dice game draws: the side with the greater weight. -/
def drawDice : GameMathConfig → GameOutcome
  | .dice lowWeight highWeight =>
      if lowWeight < highWeight then .dice [5, 6] 11 .high else .dice [1, 2] 3 .low
  | _ => .dice [1, 2] 3 .low

/-- A dice game: the low side wins twice the stake, less the commission. -/
def dice : GamePlugin where
  rngVersion := 1
  computeOutcome _ config := drawDice config
  verifyOutcome _ config o := o = drawDice config
  settleBet r :=
    if r.selection = .dice .low then ⟨true, 2 * r.amountMicro - r.commissionMicro⟩ else ⟨false, 0⟩
  liveCrash := none

/-- The flight of a crash game: the multiplier grows by one each second. -/
def flight : LiveCrashSupport where
  multiplierAtElapsedMs ms _ := 1 + (ms : Rat) / 1000
  elapsedMsForMultiplier m _ := ((m - 1) * 1000).floor.toNat
  slotId
    | .liveCrash slot _ => some slot
    | _ => none
  autoCashoutMultiplier
    | .liveCrash _ target => target
    | _ => none
  settleCashout r := ⟨true, (r.amountMicro * r.cashoutMultiplier).floor⟩

/-- A live game that crashes at the given multiplier. -/
def crash (crashMultiplier : Rat) : GamePlugin where
  rngVersion := 1
  computeOutcome _ _ := .crash crashMultiplier 0
  verifyOutcome _ _ o := o = .crash crashMultiplier 0
  settleBet _ := ⟨false, 0⟩
  liveCrash := some flight

/-- A server with the dice game under code `0` and a live game that crashes at `2` under
code `1`. -/
def site : Env where
  getPlugin
    | 0 => some dice
    | 1 => some (crash 2)
    | _ => none
  hashWalletCall _ n _ := n
  hashRound _ n _ := n
  currentBuildHash := none
  checkJurisdictionRules _ := ⟨true, none, none⟩
  effectiveRGFloor _ floor := floor

/-- The only operator. -/
def operators : List OperatorRow := [⟨some "https://operator.example/wallet"⟩]

/-- Its credential. -/
def credentials : List OperatorCredential := [⟨0, true, 0, 0, none⟩]

/-- The stored configuration of its dice game. -/
def gameConfigs : List OperatorGameConfig := [⟨0, 0, 0, some (.dice 1 1), 1, 0, 1, 100, 0, 0⟩]

/-- Nothing has happened yet. -/
def start : State := State.initial operators credentials gameConfigs

/-- The `n`-th engine, for the given game. -/
def engine (game : GameCode) (n : Nat) : EngineRef := ⟨⟨0, game, 0⟩, n⟩

/-- The engine's configuration. -/
def cfg : EngineConfig := ⟨1, 100, 0, 0, 0, 0, 1⟩

/-- The engine is made and started, and nothing was left unsettled; the start is call `call`. -/
def boot (game : GameCode) (n call : Nat) : List Happening :=
  [.env (.boot ⟨0, game, 0⟩ cfg (.dice 1 1)), .call (.start (engine game n)), .run call .ok,
    .run call (.order []), .run call .ok]

/-- Call `i` runs `n` actions in which nothing special happens. -/
def run (i n : Nat) : List Happening := List.replicate n (.run i .ok)

/-- A round of the dice game without a bet is played to its end. -/
def played : List Happening := boot 0 0 0 ++ .call (.iteration (engine 0 0) 0) :: run 1 26

/-- The bet of ten that ann places in session 1, as call 3. -/
def bet (game : GameCode) (selection : BetSelection) : Call :=
  .placeBet (engine game 0) ⟨1, .named "ann", 0, 0, 10, selection, none, none⟩

/-- A turn of the loop (call 1) has opened betting, ann has a session under the given limits
(call 2), and her bet was accepted (call 3) after `checks` actions. -/
def opened (game : GameCode) (selection : BetSelection) (limits : RGLimits) (checks : Nat) :
    List Happening :=
  boot game 0 0 ++ .call (.iteration (engine game 0) 1) :: run 1 8 ++
    .call (.createSession ⟨0, .named "ann", game, 0, "INTL", .real, none, limits, none⟩) ::
    run 2 2 ++ .call (bet game selection) :: run 3 checks ++
    .env (.deliver 0 ⟨true, .ok, some 90⟩ none) :: .run 3 (.reply 0) :: run 3 12

/-- The dice bet wins, and the operator does not answer to its credit; the turn goes on for `n`
actions. -/
def unanswered (n : Nat) : List Happening :=
  opened 0 (.dice .low) .none 13 ++ run 1 21 ++ .run 1 .timeout :: run 1 n

/-- The bet of the live game is cashed out (call 4) at the multiplier of one and a half, and the
operator does not answer to the credit; the call goes on for `n` actions. -/
def cashing (n : Nat) : List Happening :=
  opened 1 (.liveCrash 0 none) .none 12 ++ run 1 8 ++ .env (.elapse 500) ::
    .call (.cashOut (engine 1 0) ⟨1, 0, 0, 0, none, .manual, none⟩) :: run 4 11 ++
    .run 4 .timeout :: run 4 n

/-- The engine stops and is made again; its start is call `i` and resumes round 0, which has one bet
to take up. -/
def restarted (game : GameCode) (i : Nat) : List Happening :=
  [.env (.die (engine game 0)), .env (.boot ⟨0, game, 0⟩ cfg (.dice 1 1)),
    .call (.start (engine game 1)), .run i .ok, .run i (.order [0]), .run i (.order [0])]

/-- The operator does not answer to ann's dice bet (call 3), which is rejected; its rollback is
queued. -/
def uncertain : List Happening :=
  boot 0 0 0 ++ .call (.iteration (engine 0 0) 1) :: run 1 8 ++
    .call (.createSession ⟨0, .named "ann", 0, 0, "INTL", .real, none, .none, none⟩) ::
    run 2 2 ++ .call (bet 0 (.dice .low)) :: run 3 13 ++ .run 3 .timeout :: run 3 8

/-- The job runner (call `i`) hands over the only job. -/
def attempt (i : Nat) : List Happening := .call .tick :: .run i (.order [0]) :: run i 8

/-- The operator does not answer the job runner (call `i`), and the job is due again. -/
def dueAgain (i : Nat) : List Happening := .run i .timeout :: run i 5 ++ [.env (.elapse 2000)]

/-- Whether the sample server gets through the events, every step meeting `A`, and then `f`
holds. -/
def shows (A : State → Happening → State → Prop) [∀ p x q, Decidable (A p x q)]
    (xs : List Happening) (f : State → Bool) : Bool :=
  ((server site).exec A start xs).any f

/-- A computed step from a state that was reached. -/
theorem step_of_shows [∀ p x q, Decidable (A p x q)] {xs : List Happening} {x : Happening}
    {f : State → State → Bool}
    (h : shows A xs (fun p => ((server site).step p x).any (f p)) = true) :
    ∃ p q, (server site).Run A start p ∧ (server site).step p x = some q ∧ f p q = true := by
  obtain ⟨p, hp, hf⟩ := (Option.any_eq_true ..).mp h
  obtain ⟨q, hq, hf⟩ := (Option.any_eq_true ..).mp hf
  exact ⟨p, q, .of_exec hp, hq, hf⟩

/-- A computed run leads to a state that was reached. -/
theorem history_of_shows [∀ p x q, Decidable (A p x q)] {xs : List Happening} {f : State → Bool}
    (h : shows A xs f = true) : ∃ p, History site A p ∧ f p = true := by
  obtain ⟨p, hp, hf⟩ := (Option.any_eq_true ..).mp h
  exact ⟨p, ⟨operators, credentials, gameConfigs, .of_exec hp⟩, hf⟩

end Sample

end YantraRgs
