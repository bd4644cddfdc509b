import YantraRgs.Await.RelyGuarantee
import YantraRgs.Conduct.Later

/-! # The rules under which the calls of the server run together

* **`Permit`** — the conditions of a policy on single actions.
* **`Sound`** — the invariant of the tables.
* **`Rely`** — what a call may rely on while others act: that the world gets later, that nobody
  touches what the call owns (its pending bet, its requests, the jobs it holds), and what the loop
  and the start of an engine may rely on when engines of one key do not run together. -/

namespace YantraRgs

open Await

/-- Whether a round in this state still takes or keeps bets. -/
def RoundState.takesBets : RoundState → Bool
  | .bettingOpen | .rolling => true
  | _ => false

/-- Every live game draws crashes, and nothing else. -/
def Env.DrawsCrashes (env : Env) : Prop :=
  ∀ game, ∀ plugin ∈ env.getPlugin game, plugin.liveCrash.isSome = true → ∀ ctx config,
    (plugin.computeOutcome ctx config).crashMultiplier?.isSome = true

/-- The stored configuration draws from a round's seeds what its outcome was drawn as. -/
def Redraws (env : Env) (r : Round) (stored : Option GameMathConfig) : Prop :=
  ∃ config ∈ stored, ∀ plugin ∈ env.getPlugin r.gameCode, ∀ drawn ∈ r.drawnUnder,
    plugin.computeOutcome r.rngContext config = plugin.computeOutcome r.rngContext drawn

/-- What a replay or a dispute pack is asked to show, a settled round with an outcome, is redrawn
by the configuration that is stored for it. -/
def World.Redrawn (env : Env) (w : World) (k : Call) : Prop :=
  match k with
  | .roundReplay roundId operatorId => ∀ r ∈ w.rounds[roundId]?, r.operatorId = operatorId →
      r.state = .settled → r.outcome.isSome = true → Redraws env r (w.storedConfig r.key)
  | .disputePack operatorId transactionUuid => ∀ b ∈ w.bets, b.operatorId = operatorId →
      b.hasTransaction transactionUuid = true → ∀ r ∈ w.rounds[b.roundId]?,
        r.state = .settled → r.outcome.isSome = true →
          Redraws env r (w.storedConfig ⟨operatorId, r.gameCode, b.currency⟩)
  | _ => True

/-- A bet that a start takes up: it is accepted, or failed with no cash-out noted on it. -/
def Bet.unresolved (b : Bet) : Bool :=
  b.status = .accepted ∨ (b.status = .failed ∧ b.cashoutPayoutMicro = none)

/-- **The engine that a call acts in holds what it is to pay under**: the configuration under which
the rounds of the bets were created, and, where it settles them, the commission noted on them. -/
def World.Priced (w : World) (k : Call) : Prop :=
  match k with
  | .start e => ∀ engine ∈ w.engine? e, ∀ b ∈ w.bets, b.unresolved = true →
      ∀ r ∈ w.rounds[b.roundId]?, r.stuck e.key = true →
        r.createdUnder = some engine.gameConfig ∧ b.commissionMicro = engine.cfg.commissionMicro
  | .iteration e _ => ∀ engine ∈ w.engine? e, ∀ b ∈ w.bets, b.status.taken = true →
      (w.activeIds e).getLast? = some b.roundId → ∀ r ∈ w.rounds[b.roundId]?,
        r.createdUnder = some engine.gameConfig ∧
          (r.state.takesBets = false → b.commissionMicro = engine.cfg.commissionMicro)
  | .cashOut e p => ∀ engine ∈ w.engine? e, ∀ b ∈ w.bets[p.betId]?, b.status.taken = true →
      ∀ r ∈ w.rounds[b.roundId]?, r.createdUnder = some engine.gameConfig
  | _ => True

/-- **The conditions of a policy on one action** of a `k`. -/
structure Permit (P : Policy) (k : Call) (w w' : World) : Prop where
  accepted : P.inTime → ∀ {id : Nat} {b b' : Bet}, w.bets[id]? = some b → w'.bets[id]? = some b' →
    b'.status = .accepted → b.status = .accepted ∨
      ∃ r, w.rounds[b.roundId]? = some r ∧ r.state.takesBets = true
  voided : P.inTime → ∀ {id : Nat} {r r' : Round}, w.rounds[id]? = some r →
    w'.rounds[id]? = some r' → r'.state = .voided → r.state = .voided ∨ w.NoneAccepted id
  locked : P.freeLocks → ∀ {id : Nat} {j j' : PendingWalletJob}, w.jobs[id]? = some j →
    w'.jobs[id]? = some j' → j'.lockedUntil ≠ j.lockedUntil → j'.lockedUntil.isSome = true →
      j.lockedUntil = none ∧ (j.attempts = 0 →
        ∀ s ∈ w.wire, s.request.requestUuid ≠ j.payload.requestUuid)
  journalled : P.freeLocks → ∀ {s : Sent}, w'.wire = w.wire ++ [s] → s.row = none →
    ∃ c ∈ w.walletCalls, c.requestUuid = s.request.requestUuid ∧ c.attempt = s.attempt
  redrawn : P.agreeing → w.Redrawn P.env k
  priced : P.priced → w.Priced k

/-- A policy without these conditions permits every action. -/
theorem Permit.of_free {P : Policy} {k : Call} {w w' : World} (hT : ¬ P.inTime)
    (hL : ¬ P.freeLocks) (hA : ¬ P.agreeing) (hC : ¬ P.priced) : Permit P k w w' where
  accepted h := absurd h hT
  voided h := absurd h hT
  locked h := absurd h hL
  journalled h := absurd h hL
  redrawn h := absurd h hA
  priced h := absurd h hC

/-- The lock of a job that nobody holds is in step with the journal, unless the engine's own first
attempt has taken the number that the job's first attempt would take. -/
def World.Countable (w : World) (j : PendingWalletJob) : Prop :=
  w.Tallied j j.attempts ∨
    (j.attempts = 0 ∧ ∃ s ∈ w.wire, s.request.requestUuid = j.payload.requestUuid)

/-- The bet behind a queued job. -/
def World.Backs (w : World) (j : PendingWalletJob) (b : Bet) : Prop :=
  (∃ id, j.betId = some id ∧ w.bets[id]? = some b) ∧
    j.payload.referenceTransactionUuid = some b.betTransactionUuid ∧
    ((j.endpoint = .rollback ∧ b.status ≠ .pending) ∨
      (j.endpoint = .win ∧ b.status.taken = true ∧ j.payload.transactionUuid.use = .credit))

/-- The outcome of a round, where it is stored, is what the game draws from the round's seeds under
the configuration noted with it. -/
def Round.Fair (env : Env) (r : Round) : Prop :=
  ∀ outcome ∈ r.outcome, ∃ plugin config, env.getPlugin r.gameCode = some plugin ∧
    r.drawnUnder = some config ∧ outcome = plugin.computeOutcome r.rngContext config

/-- **The invariant of the tables.** -/
structure Sound (P : Policy) (w : World) : Prop where
  seedBound : ∀ {id : Nat} {s : GameSession}, w.sessions[id]? = some s →
    s.serverSeed.serial < w.serial
  seedOwner : ∀ {id : Nat} {s : GameSession}, w.sessions[id]? = some s →
    s.serverSeed.session = id
  roundSeed : ∀ {r : Round}, r ∈ w.rounds → r.serverSeed.serial < w.serial
  roundOwner : ∀ {r : Round}, r ∈ w.rounds → r.serverSeed.session = r.sessionId
  roundEngine : ∀ {r : Round}, r ∈ w.rounds → ∃ s, w.sessions[r.sessionId]? = some s ∧
    s.operatorId = r.operatorId ∧ s.playerRef = .engine r.gameCode r.currency
  fair : ∀ {r : Round}, r ∈ w.rounds → r.Fair P.env
  activeKey : ∀ {e : EngineRef} {id : Nat}, w.Keyed e → id ∈ w.activeIds e → w.RoundOf id e.key
  activeContext : ∀ {engine : Engine}, engine ∈ w.engines → ∀ a ∈ engine.actives,
    ∃ r, w.rounds[a.id]? = some r ∧ r.rngContext = GameEngine.rngContext a
  betSession : ∀ {b : Bet}, b ∈ w.bets → ∃ s, w.sessions[b.sessionId]? = some s
  betRound : ∀ {b : Bet}, b ∈ w.bets → ∃ r, w.rounds[b.roundId]? = some r
  betOwner : ∀ {id id' : Nat} {b b' : Bet}, w.bets[id]? = some b → w.bets[id']? = some b' →
    b.betTransactionUuid.owner = b'.betTransactionUuid.owner → id = id'
  betUse : ∀ {b : Bet}, b ∈ w.bets → b.betTransactionUuid.use = .stake
  betWin : ∀ {b : Bet}, b ∈ w.bets → ∀ u, b.winTransactionUuid = some u → u.use = .credit
  betOpen : ∀ {b : Bet}, b ∈ w.bets → b.status = .pending ∨ b.status = .accepted →
    b.winTransactionUuid = none ∧ b.cashoutPayoutMicro = none
  jobSole : ∀ {id id' : Nat} {j j' : PendingWalletJob}, w.jobs[id]? = some j →
    w.jobs[id']? = some j' → j.payload.requestUuid = j'.payload.requestUuid → id = id'
  jobBet : ∀ {j : PendingWalletJob}, j ∈ w.jobs → ∃ b, w.Backs j b
  locks : P.freeLocks → ∀ {j : PendingWalletJob}, j ∈ w.jobs → j.lockedUntil = none →
    w.Countable j
  known : ∀ {q : Uuid}, w.RequestKnown q → q.serial < w.serial

/-- Nothing was sent or journalled under a request. -/
structure Untouched (q : Uuid) (w w' : World) : Prop where
  wire : ∀ s ∈ w'.wire, s.request.requestUuid = q → s ∈ w.wire
  calls : ∀ c ∈ w'.walletCalls, c.requestUuid = q → ∃ c₀ ∈ w.walletCalls, c₀.key = c.key

/-- What the loop of an engine may rely on. -/
structure LoopRely (P : Policy) (e : EngineRef) (w w' : World) : Prop where
  rounds : ∀ {id : Nat} {r' : Round}, w'.rounds[id]? = some r' → r'.key = e.key →
    ∃ r, w.rounds[id]? = some r ∧ r'.state = r.state ∧ r'.outcome = r.outcome ∧
      r'.settled = r.settled
  accepted : P.inTime → ∀ {id : Nat} {b' : Bet}, w'.bets[id]? = some b' → b'.status = .accepted →
    ∀ r, w.rounds[b'.roundId]? = some r → r.key = e.key → r.state.takesBets = false →
      ∃ b, w.bets[id]? = some b ∧ b.status = .accepted
  active : w.Keyed e → w'.activeIds e = w.activeIds e
  seeded : ∀ {id : Nat} {r' : Round}, w'.rounds[id]? = some r' → ∀ s,
    w.sessions[r'.serverSeed.session]? = some s →
      s.identity = (e.key.operatorId, .engine e.key.gameCode e.key.currency) →
        ∃ r, w.rounds[id]? = some r

/-- An engine that has not made a round active yet. -/
def World.Unused (w : World) (e : EngineRef) : Prop := w.Keyed e ∧ w.activeIds e = []

/-- What the start of an engine may rely on: nobody else touches the rounds of its key. -/
structure ResumeRely (e : EngineRef) (w w' : World) : Prop where
  unused : w'.Unused e
  rounds : ∀ {id : Nat} {r' : Round}, w'.rounds[id]? = some r' → r'.key = e.key →
    w.rounds[id]? = some r'
  bets : ∀ {id : Nat} {b' : Bet}, w'.bets[id]? = some b' → w'.RoundOf b'.roundId e.key →
    w.bets[id]? = some b'
  handed : ∀ {id : Nat} {b : Bet} {u : Uuid}, w.bets[id]? = some b → w.RoundOf b.roundId e.key →
    w'.HandedOut b.betTransactionUuid u → w.HandedOut b.betTransactionUuid u
  jobs : ∀ {id : Nat} {b : Bet} {endpoint : WalletEndpoint}, w.bets[id]? = some b →
    w.RoundOf b.roundId e.key → w'.HasJob endpoint id → w.HasJob endpoint id

/-- Every outcome that is stored stays as it is, and no outcome is stored once a round is over. -/
def World.KeepsOutcomes (w w' : World) : Prop :=
  ∀ (id : Nat) (r : Round), w.rounds[id]? = some r → r.outcome.isSome = true ∨ r.settled = true →
    ∃ r', w'.rounds[id]? = some r' ∧ r'.outcome = r.outcome

/-- The rounds that a call holds in the memory of its engine. -/
def World.Holds (w : World) (k : Call) (id : Nat) : Prop :=
  match k with
  | .iteration e _ | .cashOut e _ => w.Keyed e ∧ id ∈ w.activeIds e
  | _ => False

/-- The bets of rounds that a call holds are not voided by others. -/
def World.KeepsBets (w : World) (k : Call) (w' : World) : Prop :=
  ∀ (id : Nat) (b b' : Bet), w.bets[id]? = some b → w.Holds k b.roundId → b.status ≠ .voided →
    w'.bets[id]? = some b' → b'.status ≠ .voided

/-- **What call `i`, a `k`, may rely on.** -/
structure Rely (P : Policy) (i : Nat) (k : Call) (w w' : World) : Prop where
  later : Later w w'
  outcomes : P.oneEngine → w.KeepsOutcomes w'
  stakes : ∀ {id : Nat} {b' : Bet}, w'.bets[id]? = some b' → b'.betTransactionUuid.owner = i →
    ∃ b, w.bets[id]? = some b
  pending : ∀ {id : Nat} {b : Bet}, w.bets[id]? = some b → b.betTransactionUuid.owner = i →
    b.status = .pending → w'.bets[id]? = some b
  requests : ∀ {q : Uuid}, q.owner = i → (∀ j ∈ w.jobs, j.payload.requestUuid ≠ q) →
    Untouched q w w' ∧ ∀ j ∈ w'.jobs, j.payload.requestUuid ≠ q
  locks : P.freeLocks → ∀ {id : Nat} {j : PendingWalletJob}, w.jobs[id]? = some j →
    j.lockedUntil.map JobLock.holder = some i →
      w'.jobs[id]? = some j ∧ Untouched j.payload.requestUuid w w'
  loop : P.oneEngine → ∀ e polls, k = .iteration e polls → LoopRely P e w w'
  resume : P.oneEngine → ∀ e, k = .start e → w.Unused e → ResumeRely e w w'
  configs : P.agreeing → k.shows = true → w'.storedConfigs = w.storedConfigs
  held : P.oneEngine → w.KeepsBets k w'

/-- Which calls may be under way together: at most one engine of a key, and in an engine at most
one call that drives its rounds. -/
def Compat (P : Policy) (k l : Call) : Prop :=
  P.oneEngine → ∀ e e', k.engine? = some e → l.engine? = some e' → e.key = e'.key →
    e = e' ∧ ¬ (k.drives.isSome = true ∧ l.drives.isSome = true)

/-! ## Relies compose -/

theorem Untouched.refl (q : Uuid) (w : World) : Untouched q w w :=
  ⟨fun _ hs _ => hs, fun c hc _ => ⟨c, hc, rfl⟩⟩

theorem Untouched.trans {q : Uuid} {a b c : World} (h : Untouched q a b) (h' : Untouched q b c) :
    Untouched q a c where
  wire s hs hq := h.wire s (h'.wire s hs hq) hq
  calls x hx hq := by
    obtain ⟨y, hy, hk⟩ := h'.calls x hx hq
    have hyq : y.requestUuid = q := (congrArg (fun t => t.2.2.1) hk).trans hq
    obtain ⟨z, hz, hk'⟩ := h.calls y hy hyq
    exact ⟨z, hz, hk'.trans hk⟩

theorem LoopRely.refl (P : Policy) (e : EngineRef) (w : World) : LoopRely P e w w :=
  ⟨fun hr _ => ⟨_, hr, rfl, rfl, rfl⟩, fun _ _ _ hb ha _ _ _ _ => ⟨_, hb, ha⟩, fun _ => rfl,
    fun hr _ _ _ => ⟨_, hr⟩⟩

theorem LoopRely.trans {P : Policy} {e : EngineRef} {a b c : World} (hab : Later a b)
    (hbc : Later b c) (h : LoopRely P e a b) (h' : LoopRely P e b c) : LoopRely P e a c where
  rounds hr hk := by
    obtain ⟨r', hr', hs', ho', ht'⟩ := h'.rounds hr hk
    have hk' : r'.key = e.key := by
      obtain ⟨r'', hr'', hl⟩ := hbc.round hr'
      rw [hr] at hr''
      obtain rfl := Option.some.inj hr''
      exact hl.key.symm.trans hk
    obtain ⟨r, hr, hs, ho, ht⟩ := h.rounds hr' hk'
    exact ⟨r, hr, hs'.trans hs, ho'.trans ho, ht'.trans ht⟩
  accepted hP id x hx hacc r hr hk ht := by
    obtain ⟨r', hr', hl⟩ := hab.round hr
    have hk' : r'.key = e.key := hl.key.trans hk
    have ht' : r'.state.takesBets = false := by
      obtain ⟨r₀, hr₀, hs, -, -⟩ := h.rounds hr' hk'
      rw [hr] at hr₀
      obtain rfl := Option.some.inj hr₀
      rw [hs]
      exact ht
    obtain ⟨y, hy, hyacc⟩ := h'.accepted hP hx hacc r' hr' hk' ht'
    have hround : y.roundId = x.roundId := by
      obtain ⟨x', hx', hl⟩ := hbc.bet hy
      rw [hx] at hx'
      obtain rfl := Option.some.inj hx'
      exact hl.roundId.symm
    exact h.accepted hP hy hyacc r (hround ▸ hr) hk ht
  active he := (h'.active (hab.keyed he)).trans (h.active he)
  seeded {id r'} hr s hs hid := by
    obtain ⟨s', hs', hid'⟩ := hab.session hs
    obtain ⟨r, hr₁⟩ := h'.seeded hr s' hs' (hid'.trans hid)
    obtain ⟨r'', hr'', hl⟩ := hbc.round hr₁
    rw [hr] at hr''
    obtain rfl := Option.some.inj hr''
    have hseed : r'.serverSeed = r.serverSeed := congrArg (fun t => t.2.2.1) hl.identity
    exact h.seeded hr₁ s (hseed ▸ hs) hid

theorem ResumeRely.refl {e : EngineRef} {w : World} (h : w.Unused e) : ResumeRely e w w :=
  ⟨h, fun hr _ => hr, fun hb _ => hb, fun _ _ hu => hu, fun _ _ hj => hj⟩

theorem ResumeRely.trans {e : EngineRef} {a b c : World} (hab : Later a b)
    (h : ResumeRely e a b) (h' : ResumeRely e b c) : ResumeRely e a c where
  unused := h'.unused
  rounds hr hk := h.rounds (h'.rounds hr hk) hk
  bets {id x} hx hk := by
    have hx' : b.bets[id]? = some x := h'.bets hx hk
    obtain ⟨r, hr, hkey⟩ := hk
    exact h.bets hx' ⟨r, h'.rounds hr hkey, hkey⟩
  handed {id x u} hx hk hu := by
    obtain ⟨x', hx', hl⟩ := hab.bet hx
    have hu' : b.HandedOut x'.betTransactionUuid u :=
      h'.handed hx' (by rw [hl.roundId]; exact hab.roundOf hk)
        (by rw [hl.betTransactionUuid]; exact hu)
    exact h.handed hx hk (hl.betTransactionUuid ▸ hu')
  jobs {id x endpoint} hx hk hj := by
    obtain ⟨x', hx', hl⟩ := hab.bet hx
    exact h.jobs hx hk (h'.jobs hx' (by rw [hl.roundId]; exact hab.roundOf hk) hj)

theorem World.KeepsOutcomes.of_eq {w w' : World} (h : w'.rounds = w.rounds) : w.KeepsOutcomes w' :=
  fun _ r hr _ => ⟨r, h.symm ▸ hr, rfl⟩

theorem World.KeepsOutcomes.trans {a b c : World} (hab : Later a b) (h : a.KeepsOutcomes b)
    (h' : b.KeepsOutcomes c) : a.KeepsOutcomes c := by
  intro id r hr hfix
  obtain ⟨r', hr', ho'⟩ := h id r hr hfix
  obtain ⟨r₀, hr₀, hl⟩ := hab.round hr
  obtain rfl := Option.some.inj (hr'.symm.trans hr₀)
  obtain ⟨r'', hr'', ho''⟩ := h' id r' hr' (hfix.imp hl.outcome hl.settled)
  exact ⟨r'', hr'', ho''.trans ho'⟩

/-- A stored outcome stays. -/
theorem World.KeepsOutcomes.drawn {w w' : World} (h : w.KeepsOutcomes w') {id : Nat} {r : Round}
    {outcome : GameOutcome} (hr : w.rounds[id]? = some r) (ho : r.outcome = some outcome) :
    ∃ r', w'.rounds[id]? = some r' ∧ r'.outcome = some outcome := by
  obtain ⟨r', hr', ho'⟩ := h id r hr (.inl (by rw [ho]; rfl))
  exact ⟨r', hr', ho'.trans ho⟩

/-- What a call holds it keeps. -/
theorem World.Holds.later {w w' : World} {k : Call} {id : Nat} (h : w.Holds k id)
    (hl : Later w w') : w'.Holds k id := by
  cases k with
  | iteration e polls => exact ⟨hl.keyed h.1, hl.activeIds h.2⟩
  | cashOut e p => exact ⟨hl.keyed h.1, hl.activeIds h.2⟩
  | _ => exact h

theorem World.KeepsBets.of_eq {w w' : World} {k : Call} (h : w'.bets = w.bets) :
    w.KeepsBets k w' := by
  intro id b b' hb _ hv hb'
  rw [h, hb] at hb'
  exact Option.some.inj hb' ▸ hv

theorem World.KeepsBets.trans {k : Call} {a b c : World} (hab : Later a b)
    (h : a.KeepsBets k b) (h' : b.KeepsBets k c) : a.KeepsBets k c := by
  intro id x x'' hx hh hv hx''
  obtain ⟨x', hx', hl⟩ := hab.bet hx
  exact h' id x' x'' hx' (by rw [hl.roundId]; exact hh.later hab) (h id x x' hx hh hv hx') hx''

theorem Rely.refl (P : Policy) (i : Nat) (k : Call) (w : World) : Rely P i k w w where
  later := .refl w
  outcomes _ := .of_eq rfl
  stakes hb _ := ⟨_, hb⟩
  pending hb _ _ := hb
  requests _ hj := ⟨.refl _ w, hj⟩
  locks _ _ _ hj _ := ⟨hj, .refl _ w⟩
  loop _ e _ _ := .refl P e w
  resume _ _ _ h := .refl h
  configs _ _ := rfl
  held _ := .of_eq rfl

theorem Rely.trans {P : Policy} {i : Nat} {k : Call} {a b c : World} (h : Rely P i k a b)
    (h' : Rely P i k b c) : Rely P i k a c where
  later := h.later.trans h'.later
  outcomes hP := (h.outcomes hP).trans h.later (h'.outcomes hP)
  stakes hx ho := by
    obtain ⟨y, hy⟩ := h'.stakes hx ho
    obtain ⟨x', hx', hl⟩ := h'.later.bet hy
    rw [hx] at hx'
    obtain rfl := Option.some.inj hx'
    exact h.stakes hy (hl.betTransactionUuid ▸ ho)
  pending hx ho hp := h'.pending (h.pending hx ho hp) ho hp
  requests ho hj := by
    obtain ⟨hu, hj'⟩ := h.requests ho hj
    obtain ⟨hu', hj''⟩ := h'.requests ho hj'
    exact ⟨hu.trans hu', hj''⟩
  locks hP _ _ hj hh := by
    obtain ⟨hj', hu⟩ := h.locks hP hj hh
    obtain ⟨hj'', hu'⟩ := h'.locks hP hj' hh
    exact ⟨hj'', hu.trans hu'⟩
  loop hP e polls he := (h.loop hP e polls he).trans h.later h'.later (h'.loop hP e polls he)
  resume hP e he hun := by
    have hr := h.resume hP e he hun
    exact hr.trans h.later (h'.resume hP e he hr.unused)
  configs hP hk := (h'.configs hP hk).trans (h.configs hP hk)
  held hP := (h.held hP).trans h.later (h'.held hP)

end YantraRgs
