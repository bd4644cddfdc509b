import YantraRgs.Games.LempiCrash

/-! # The bets of a live flight

A live round of Lempi Crash, as its bets see it. The loop polls the flight until its time is over, or
the engine is told to stop; every poll cashes out the bets whose target the multiplier has reached,
and each of these cash-outs looks at the clock itself. What is still accepted afterwards is settled.
The configuration and the commission are those under which the bets were placed.

* **`cashOutBet`**, **`processAutoCashouts`** — a cash-out, and the poll that asks for it.
* **`fly`** — the flight.
* **`settle`** — what becomes of the bets that are left. -/

namespace YantraRgs.LempiCrash

open Crash

/-- The state of a bet of a round in flight. -/
inductive LiveStatus
  | accepted
  | settled
  | failed
  deriving DecidableEq

/-- What a cash-out notes on its bet. -/
structure Cashout where
  cashoutMultiplier : ℚ
  cashoutElapsedMs : ℕ
  cashoutPayoutMicro : ℤ

/-- A bet of a round in flight. -/
structure LiveBet where
  selection : LempiCrashSelection
  amountMicro : ℤ
  commissionMicro : ℤ
  status : LiveStatus
  cashout : Option Cashout
  won : Option Bool
  wonAmountMicro : Option ℤ
  /-- The amount of the credit that is queued for the bet. -/
  queuedMicro : Option ℤ

/-- A bet as it goes into the flight. -/
def LiveBet.placed (selection : LempiCrashSelection) (amountMicro commissionMicro : ℤ) : LiveBet :=
  ⟨selection, amountMicro, commissionMicro, .accepted, none, none, none, none⟩

/-- Whether a bet won and what it pays: what was credited, or is queued to be. -/
def LiveBet.result (bet : LiveBet) : Bool × ℤ :=
  match bet.queuedMicro with
  | some payoutMicro => (true, payoutMicro)
  | none => (bet.won.getD false, bet.wonAmountMicro.getD 0)

/-- A round in flight. -/
structure Flight where
  config : LempiCrashConfig
  outcome : OutcomeData

/-- The length of the flight. -/
noncomputable def Flight.crashAtMs (f : Flight) : ℕ :=
  elapsedMsForMultiplier f.outcome.crashMultiplier f.config

/-- One poll of the loop. -/
structure Poll where
  /-- The time in flight when the loop looks. -/
  elapsedMs : ℕ
  /-- The time in flight when the cash-out of the `i`-th bet looks. -/
  readAt : ℕ → ℕ
  /-- Whether the operator answers the credit of the `i`-th bet. -/
  credited : ℕ → Bool
  /-- The clock does not run backwards. -/
  le_readAt : ∀ i, elapsedMs ≤ readAt i

variable (f : Flight)

/-- **Cash a bet out**, at the given time in flight. -/
noncomputable def cashOutBet (elapsedMs : ℕ) (credited : Bool) (forcedMultiplier : Option ℚ)
    (bet : LiveBet) : LiveBet :=
  if bet.cashout.isSome ∨ bet.status ≠ .accepted then bet
  -- too late
  else if f.crashAtMs ≤ elapsedMs ∨ f.outcome.crashMultiplier ≤ 1 then bet
  else
    let currentMultiplier := multiplierAtElapsedMs elapsedMs f.config
    let cashoutMultiplier := min (min (forcedMultiplier.getD currentMultiplier) currentMultiplier)
      f.outcome.crashMultiplier
    let settled := settleLempiCrashCashout bet.selection bet.amountMicro cashoutMultiplier
      bet.commissionMicro
    if !settled.won then bet
    else
      { bet with
        status := if credited then .settled else .failed
        cashout := some ⟨cashoutMultiplier, elapsedMs, settled.payoutMicro⟩
        won := some true
        wonAmountMicro := some settled.payoutMicro
        queuedMicro := if credited then none else some settled.payoutMicro }

/-- What a poll does about the `i`-th bet. -/
noncomputable def pollBet (p : Poll) (i : ℕ) (bet : LiveBet) : LiveBet :=
  if bet.status ≠ .accepted ∨ bet.cashout.isSome then bet
  else
    match bet.selection.autoCashoutMultiplier with
    | none => bet
    | some target =>
        if multiplierAtElapsedMs p.elapsedMs f.config < target then bet
        else cashOutBet f (p.readAt i) (p.credited i) (some target) bet

/-- **The poll of the flight**, over its bets. -/
noncomputable def processAutoCashouts (p : Poll) (bets : List LiveBet) : List LiveBet :=
  bets.mapIdx (pollBet f p)

/-- **The flight**: the loop polls until the time is over, or the polls are when the engine is told to
stop. -/
noncomputable def fly : List Poll → List LiveBet → List LiveBet
  | [], bets => bets
  | p :: polls, bets =>
      if f.crashAtMs ≤ p.elapsedMs then bets else fly polls (processAutoCashouts f p bets)

/-- Settle a bet that was not cashed out; `credited` is whether the operator answers its credit. -/
def settleBet (outcome : OutcomeData) (commissionMicro : ℤ) (credited : Bool) (bet : LiveBet) :
    LiveBet :=
  if bet.status ≠ .accepted then bet
  else
    let result := settleLempiCrashBet bet.selection bet.amountMicro outcome commissionMicro
    if !result.won then
      { bet with status := .settled, won := some false, wonAmountMicro := some 0 }
    else if credited then
      { bet with status := .settled, won := some true, wonAmountMicro := some result.payoutMicro }
    else { bet with status := .failed, queuedMicro := some result.payoutMicro }

/-- **Settle what is left** once the flight is over. -/
def settle (outcome : OutcomeData) (commissionMicro : ℤ) (credited : ℕ → Bool)
    (bets : List LiveBet) : List LiveBet :=
  bets.mapIdx fun i => settleBet outcome commissionMicro (credited i)

/-- **A live round**, from the accepted stakes to the settled bets. -/
noncomputable def playLive (polls : List Poll) (credited : ℕ → Bool) (commissionMicro : ℤ)
    (stakes : List (LempiCrashSelection × ℤ)) : List LiveBet :=
  settle f.outcome commissionMicro credited
    (fly f polls (stakes.map fun stake => .placed stake.1 stake.2 commissionMicro))

end YantraRgs.LempiCrash
