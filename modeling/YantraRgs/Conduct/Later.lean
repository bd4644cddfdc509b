import YantraRgs.Conduct.Move

/-! # What every step of the server preserves

Rows are never removed, their identities never change, and some of their fields only move one way.

* **`Later`** — a world that may come after another one.
* **`Move.later`**, **`outside_later`** — every action and every outside event leads to a later
  world. -/

namespace YantraRgs

open Await

/-- The columns of a bet that never change. -/
def Bet.identity (b : Bet) : OperatorId × Nat × Nat × Uuid :=
  (b.operatorId, b.sessionId, b.roundId, b.betTransactionUuid)

/-- The terms on which a bet was placed. -/
def Bet.terms (b : Bet) : PlayerRef × Currency × BetSelection × Int × Int × Millis :=
  (b.playerRef, b.currency, b.selection, b.amountMicro, b.commissionMicro, b.placedAt)

/-- The columns of a round that never change. -/
def Round.identity (r : Round) : EngineKey × Nat × Seed × ClientSeed × Nat :=
  (r.key, r.sessionId, r.serverSeed, r.clientSeed, r.nonce)

/-- The columns of a job that never change. -/
def PendingWalletJob.identity (j : PendingWalletJob) :
    OperatorId × WalletEndpoint × Option Nat × JobPayload :=
  (j.operatorId, j.endpoint, j.betId, j.payload)

/-- The columns of a session that never change. -/
def GameSession.identity (s : GameSession) : OperatorId × PlayerRef := (s.operatorId, s.playerRef)

/-- What a bet may become. -/
structure Bet.Later (b b' : Bet) : Prop where
  identity : b'.identity = b.identity
  terms : b'.terms = b.terms
  pending : b'.status = .pending → b.status = .pending
  accepted : b'.status = .accepted → b.status = .pending ∨ b.status = .accepted
  rejected : b.status = .rejected → b'.status = .rejected
  taken : b.status.taken = true → b'.status.taken = true

/-- What a round may become. -/
structure Round.Later (r r' : Round) : Prop where
  identity : r'.identity = r.identity
  created : r'.createdUnder = r.createdUnder
  settled : r.settled = true → r'.settled = true
  outcome : r.outcome.isSome = true → r'.outcome.isSome = true

/-- What a job may become. -/
structure PendingWalletJob.Later (j j' : PendingWalletJob) : Prop where
  identity : j'.identity = j.identity
  completed : j.completedAt.isSome = true → j'.completedAt.isSome = true

/-- **A later world.** -/
structure Later (w w' : World) : Prop where
  serial : w.serial ≤ w'.serial
  session : ∀ {id : Nat} {s : GameSession}, w.sessions[id]? = some s →
    ∃ s', w'.sessions[id]? = some s' ∧ s'.identity = s.identity
  seeds : ∀ {id : Nat} {s' : GameSession}, w'.sessions[id]? = some s' →
    (∃ s, w.sessions[id]? = some s ∧ s.serverSeed = s'.serverSeed ∧ s.nonce ≤ s'.nonce) ∨
      w.serial ≤ s'.serverSeed.serial
  round : ∀ {id : Nat} {r : Round}, w.rounds[id]? = some r →
    ∃ r', w'.rounds[id]? = some r' ∧ r.Later r'
  bet : ∀ {id : Nat} {b : Bet}, w.bets[id]? = some b → ∃ b', w'.bets[id]? = some b' ∧ b.Later b'
  job : ∀ {id : Nat} {j : PendingWalletJob}, w.jobs[id]? = some j →
    ∃ j', w'.jobs[id]? = some j' ∧ j.Later j'
  calls : ∀ {n : Nat} {c : WalletCall}, w.walletCalls[n]? = some c →
    ∃ c', w'.walletCalls[n]? = some c' ∧ c'.key = c.key
  wire : ∀ {n : Nat} {s : Sent}, w.wire[n]? = some s → w'.wire[n]? = some s
  replies : ∀ {r : Reply}, r ∈ w.replies → r ∈ w'.replies
  keyed : ∀ {e : EngineRef}, w.Keyed e → w'.Keyed e
  activeIds : ∀ {e : EngineRef} {id : Nat}, id ∈ w.activeIds e → id ∈ w'.activeIds e

/-! ## Later rows -/

namespace Bet

theorem Later.refl (b : Bet) : b.Later b := ⟨rfl, rfl, id, .inr, id, id⟩

theorem Later.roundId {b b' : Bet} (h : b.Later b') : b'.roundId = b.roundId :=
  congrArg (fun t => t.2.2.1) h.identity

theorem Later.sessionId {b b' : Bet} (h : b.Later b') : b'.sessionId = b.sessionId :=
  congrArg (fun t => t.2.1) h.identity

theorem Later.betTransactionUuid {b b' : Bet} (h : b.Later b') :
    b'.betTransactionUuid = b.betTransactionUuid :=
  congrArg (fun t => t.2.2.2) h.identity

theorem Later.trans {a b c : Bet} (h : a.Later b) (h' : b.Later c) : a.Later c where
  identity := h'.identity.trans h.identity
  terms := h'.terms.trans h.terms
  pending hc := h.pending (h'.pending hc)
  accepted hc := by
    rcases h'.accepted hc with hb | hb
    · exact .inl (h.pending hb)
    · exact h.accepted hb
  rejected ha := h'.rejected (h.rejected ha)
  taken ha := h'.taken (h.taken ha)

end Bet

namespace Round

theorem Later.refl (r : Round) : r.Later r := ⟨rfl, rfl, id, id⟩

theorem Later.trans {a b c : Round} (h : a.Later b) (h' : b.Later c) : a.Later c :=
  ⟨h'.identity.trans h.identity, h'.created.trans h.created,
    fun ha => h'.settled (h.settled ha), fun ha => h'.outcome (h.outcome ha)⟩

theorem Later.key {r r' : Round} (h : r.Later r') : r'.key = r.key := congrArg Prod.fst h.identity

theorem Later.sessionId {r r' : Round} (h : r.Later r') : r'.sessionId = r.sessionId :=
  congrArg (fun t => t.2.1) h.identity

theorem Later.serverSeed {r r' : Round} (h : r.Later r') : r'.serverSeed = r.serverSeed :=
  congrArg (fun t => t.2.2.1) h.identity

/-- A round keeps what its outcome is derived from. -/
theorem Later.rngContext {r r' : Round} (h : r.Later r') : r'.rngContext = r.rngContext :=
  congrArg (fun t => (⟨t.2.2.1, t.2.2.2.1, t.2.2.2.2⟩ : RngContext)) h.identity

end Round

namespace PendingWalletJob

theorem Later.refl (j : PendingWalletJob) : j.Later j := ⟨rfl, id⟩

theorem Later.trans {a b c : PendingWalletJob} (h : a.Later b) (h' : b.Later c) : a.Later c :=
  ⟨h'.identity.trans h.identity, fun ha => h'.completed (h.completed ha)⟩

theorem Later.payload {j j' : PendingWalletJob} (h : j.Later j') : j'.payload = j.payload :=
  congrArg (fun x => x.2.2.2) h.identity

/-- The request of a job never changes. -/
theorem Later.request {j j' : PendingWalletJob} (h : j.Later j') : j'.request = j.request := by
  have hop : j'.operatorId = j.operatorId := congrArg (fun x => x.1) h.identity
  have hend : j'.endpoint = j.endpoint := congrArg (fun x => x.2.1) h.identity
  simp only [PendingWalletJob.request, hop, hend, h.payload]

end PendingWalletJob

/-- How a bet steps is a way it may become later. -/
theorem BetStep.later {P : Policy} {i : Nat} {k : Call} {w : World} {b b' : Bet}
    (h : BetStep P i k w b b') :
    b.Later b' := by
  have htaken : ∀ {s : BetStatus}, s.taken = true → s ≠ .pending ∧ s ≠ .rejected := by
    intro s hs
    cases s <;> simp [BetStatus.taken] at hs ⊢
  cases h with
  | accept hi hb =>
      exact ⟨rfl, rfl, by simp, by simp [hb], by simp [hb], by simp [hb, BetStatus.taken]⟩
  | reject hi hb => exact ⟨rfl, rfl, by simp, by simp, by simp, by simp [hb, BetStatus.taken]⟩
  | lose now hk hb hv =>
      exact ⟨rfl, rfl, by simp [Bet.lose], by simp [Bet.lose], fun hr => absurd hr (htaken hb).2,
        by simp [Bet.lose, BetStatus.taken]⟩
  | win payout u now hb hv hu =>
      exact ⟨rfl, rfl, by simp [Bet.win], by simp [Bet.win], fun hr => absurd hr (htaken hb).2,
        by simp [Bet.win, BetStatus.taken]⟩
  | fail u hb hv ho hu =>
      exact ⟨rfl, rfl, by simp [Bet.fail], by simp [Bet.fail], fun hr => absurd hr (htaken hb).2,
        by simp [Bet.fail, BetStatus.taken]⟩
  | cashOut mode m ms payout u status now hb hv hs hu =>
      refine ⟨rfl, rfl, ?_, ?_, fun hr => absurd hr (htaken hb).2, ?_⟩ <;>
        rcases hs with rfl | rfl <;> simp [Bet.cashOut, BetStatus.taken]
  | void hb hr hk =>
      exact ⟨rfl, rfl, by simp [Bet.void], by simp [Bet.void], fun hr => absurd hr (htaken hb).2,
        by simp [Bet.void, BetStatus.taken]⟩

/-- A session keeps its identity. -/
theorem SessionStep.identity {w : World} {id : Nat} {s s' : GameSession} (h : SessionStep w id s s') :
    s'.identity = s.identity := by
  cases h <;> rfl

/-- A roll takes no outcome away. -/
theorem Draws.isSome {P : Policy} {r : Round} {outcome : Option GameOutcome}
    {drawnUnder : Option GameMathConfig} (h : Draws P r outcome drawnUnder)
    (ho : r.outcome.isSome = true) : outcome.isSome = true := by
  cases h with
  | keep => exact ho
  | draw => rfl

/-- How a round steps is a way it may become later. -/
theorem RoundStep.later {P : Policy} {k : Call} {w : World} {id : Nat} {r r' : Round}
    (h : RoundStep P k w id r r') : r.Later r' := by
  cases h with
  | note => exact ⟨rfl, rfl, fun h => h, fun h => h⟩
  | roll outcome drawnUnder hk hs ho => exact ⟨rfl, rfl, fun h => h, ho.isSome⟩
  | result outcome drawnUnder at' hk ho => exact ⟨rfl, rfl, fun h => h, ho.isSome⟩
  | settle total now hk hn => exact ⟨rfl, rfl, fun _ => rfl, fun h => h⟩
  | void now hk => exact ⟨rfl, rfl, fun _ => rfl, fun h => h⟩

/-- How a job steps is a way it may become later. -/
theorem JobStep.later {P : Policy} {i : Nat} {w : World} {j j' : PendingWalletJob}
    (h : JobStep P i w j j') : j.Later j' := by
  cases h with
  | lock => exact ⟨rfl, fun h => h⟩
  | complete => exact ⟨rfl, fun _ => rfl⟩
  | putOff => exact ⟨rfl, fun h => h⟩

/-! ## Later worlds -/

namespace Later

variable {w w' w'' : World}

theorem refl (w : World) : Later w w where
  serial := Nat.le_refl _
  session h := ⟨_, h, rfl⟩
  seeds h := .inl ⟨_, h, rfl, Nat.le_refl _⟩
  round h := ⟨_, h, .refl _⟩
  bet h := ⟨_, h, .refl _⟩
  job h := ⟨_, h, .refl _⟩
  calls h := ⟨_, h, rfl⟩
  wire h := h
  replies h := h
  keyed h := h
  activeIds h := h

theorem trans (h : Later w w') (h' : Later w' w'') : Later w w'' where
  serial := Nat.le_trans h.serial h'.serial
  session hs := by
    obtain ⟨s', hs', he⟩ := h.session hs
    obtain ⟨s'', hs'', he'⟩ := h'.session hs'
    exact ⟨s'', hs'', he'.trans he⟩
  seeds hs := by
    rcases h'.seeds hs with ⟨s', hs', he, hle⟩ | hn
    · rcases h.seeds hs' with ⟨s, hs, he', hle'⟩ | hn
      · exact .inl ⟨s, hs, he'.trans he, Nat.le_trans hle' hle⟩
      · exact .inr (he ▸ hn)
    · exact .inr (Nat.le_trans h.serial hn)
  round hr := by
    obtain ⟨r', hr', he⟩ := h.round hr
    obtain ⟨r'', hr'', he'⟩ := h'.round hr'
    exact ⟨r'', hr'', he.trans he'⟩
  bet hb := by
    obtain ⟨b', hb', he⟩ := h.bet hb
    obtain ⟨b'', hb'', he'⟩ := h'.bet hb'
    exact ⟨b'', hb'', he.trans he'⟩
  job hj := by
    obtain ⟨j', hj', he⟩ := h.job hj
    obtain ⟨j'', hj'', he'⟩ := h'.job hj'
    exact ⟨j'', hj'', he.trans he'⟩
  calls hc := by
    obtain ⟨c', hc', he⟩ := h.calls hc
    obtain ⟨c'', hc'', he'⟩ := h'.calls hc'
    exact ⟨c'', hc'', he'.trans he⟩
  wire hs := h'.wire (h.wire hs)
  replies hr := h'.replies (h.replies hr)
  keyed he := h'.keyed (h.keyed he)
  activeIds hi := h'.activeIds (h.activeIds hi)

/-- A round keeps its key. -/
theorem roundOf (h : Later w w') {id : Nat} {key : EngineKey} (hr : w.RoundOf id key) :
    w'.RoundOf id key := by
  obtain ⟨r, hr, hk⟩ := hr
  obtain ⟨r', hr', he⟩ := h.round hr
  exact ⟨r', hr', he.key.trans hk⟩

/-- What a call reaches, it still reaches. -/
theorem reaches (h : Later w w') {k : Call} {id : Nat} (hr : w.Reaches k id) :
    w'.Reaches k id := by
  cases k <;> first | exact h.roundOf hr | exact ⟨h.keyed hr.1, h.activeIds hr.2⟩ | exact hr

/-- A stored outcome stays stored. -/
theorem outcomeKnown (h : Later w w') {id : Nat} (hr : w.OutcomeKnown id) : w'.OutcomeKnown id := by
  obtain ⟨r, hr, ho⟩ := hr
  obtain ⟨r', hr', he⟩ := h.round hr
  exact ⟨r', hr', he.outcome ho⟩

/-- A settled round stays settled. -/
theorem roundSettled (h : Later w w') {id : Nat} (hr : w.RoundSettled id) : w'.RoundSettled id := by
  obtain ⟨r, hr, ho⟩ := hr
  obtain ⟨r', hr', he⟩ := h.round hr
  exact ⟨r', hr', he.settled ho⟩

/-- A request on the wire stays there. -/
theorem mem_wire (h : Later w w') {s : Sent} (hs : s ∈ w.wire) : s ∈ w'.wire := by
  obtain ⟨n, hn⟩ := List.mem_iff_getElem?.mp hs
  exact List.mem_iff_getElem?.mpr ⟨n, h.wire hn⟩

/-- A job stays in the queue. -/
theorem mem_jobs (h : Later w w') {j : PendingWalletJob} (hj : j ∈ w.jobs) :
    ∃ j' ∈ w'.jobs, j.Later j' := by
  obtain ⟨n, hn⟩ := List.mem_iff_getElem?.mp hj
  obtain ⟨j', hj', he⟩ := h.job hn
  exact ⟨j', List.mem_of_getElem? hj', he⟩

/-- A bet stays in the table. -/
theorem mem_bets (h : Later w w') {b : Bet} (hb : b ∈ w.bets) : ∃ b' ∈ w'.bets, b.Later b' := by
  obtain ⟨n, hn⟩ := List.mem_iff_getElem?.mp hb
  obtain ⟨b', hb', he⟩ := h.bet hn
  exact ⟨b', List.mem_of_getElem? hb', he⟩

/-- A queued call stays queued, open or completed. -/
theorem hasJob (h : Later w w') {endpoint : WalletEndpoint} {id : Nat}
    (hj : w.HasJob endpoint id) : w'.HasJob endpoint id := by
  obtain ⟨j, hj, he, hb⟩ := hj
  obtain ⟨j', hj', hl⟩ := h.mem_jobs hj
  refine ⟨j', hj', ?_, ?_⟩
  · rw [← he]
    exact congrArg (fun x => x.2.1) hl.identity
  · rw [← hb]
    exact congrArg (fun x => x.2.2.1) hl.identity

/-- A win that is queued with its payout stays so. -/
theorem credited (h : Later w w') {betId : Nat} {b : Bet} {payoutMicro : Int}
    (hj : w.Credited betId b payoutMicro) : w'.Credited betId b payoutMicro := by
  obtain ⟨j, hj, he, hb, hu, ha⟩ := hj
  obtain ⟨j', hj', hl⟩ := h.mem_jobs hj
  refine ⟨j', hj', ?_, ?_, ?_, ?_⟩
  · exact (congrArg (fun x => x.2.1) hl.identity).trans he
  · exact (congrArg (fun x => x.2.2.1) hl.identity).trans hb
  · rw [hl.payload, hu]
  · rw [hl.payload, ha]

/-- A win that was handed out stays handed out. -/
theorem handedOut (h : Later w w') {stake credit : Uuid} (hu : w.HandedOut stake credit) :
    w'.HandedOut stake credit := by
  rcases hu with ⟨s, hs, hrest⟩ | ⟨j, hj, he, hr, ht⟩
  · exact .inl ⟨s, h.mem_wire hs, hrest⟩
  · obtain ⟨j', hj', hl⟩ := h.mem_jobs hj
    refine .inr ⟨j', hj', ?_, ?_, ?_⟩
    · exact (congrArg (fun x => x.2.1) hl.identity).trans he
    · rw [hl.payload, hr]
    · rw [hl.payload, ht]

/-- An answered job stays answered. -/
theorem answered (h : Later w w') {j j' : PendingWalletJob} (hj : j.Later j')
    (ha : w.Answered j) : w'.Answered j' := by
  obtain ⟨r, hr, s, hs, hq, he⟩ := ha
  exact ⟨r, h.replies hr, s, h.wire hs, hj.request.trans hq, he⟩

end Later

/-! ## Every step leads to a later world -/

/-- What is tracked of an engine decides its key and its active rounds. -/
theorem tracked_engine {w w' : World}
    (h : w'.engines.map Engine.tracked = w.engines.map Engine.tracked) (e : EngineRef) :
    (w'.engine? e).map Engine.tracked = (w.engine? e).map Engine.tracked := by
  simp only [World.engine?, ← List.getElem?_map, h]

theorem activeIds_of_tracked {w w' : World} {e : EngineRef}
    (h : (w'.engine? e).map Engine.tracked = (w.engine? e).map Engine.tracked) :
    w'.activeIds e = w.activeIds e := by
  have := congrArg (fun x => (x.map fun t => t.2.1.map Prod.fst).getD []) h
  simpa [World.activeIds, Option.map_map, Function.comp_def, Engine.tracked,
    ActiveRound.tracked] using this

theorem keyed_of_tracked {w w' : World} {e : EngineRef}
    (h : (w'.engine? e).map Engine.tracked = (w.engine? e).map Engine.tracked) (hk : w.Keyed e) :
    w'.Keyed e := by
  obtain ⟨engine, he, hkey⟩ := hk
  rw [he] at h
  obtain ⟨engine', he', ht⟩ := Option.map_eq_some_iff.mp h
  exact ⟨engine', he', (congrArg Prod.fst ht).trans hkey⟩

theorem Alike.refl (w : World) : Alike w w where
  now := rfl
  serial := Nat.le_refl _
  sessions := rfl
  rounds := rfl
  bets := rfl
  jobs := rfl
  wire := rfl
  inflight := rfl
  replies := rfl
  book := rfl
  calls := rfl
  engines := rfl
  configs := rfl
  answers := rfl

/-- Changing the active round keeps what is tracked of an engine. -/
theorem Engine.tracked_updateActive {f : ActiveRound → ActiveRound}
    (hf : ∀ a, (f a).tracked = a.tracked) (engine : Engine) :
    (engine.updateActive f).tracked = engine.tracked := by
  have hids := Table.map_modify_of_eq hf engine.actives (engine.actives.length - 1)
  simp only [Engine.tracked, Engine.updateActive, hids]

/-- A change of the active round that keeps its identifier and its seeds. -/
theorem Alike.updateActive {f : ActiveRound → ActiveRound} (hf : ∀ a, (f a).tracked = a.tracked)
    (w : World) (e : EngineRef) : Alike w (w.updateEngine e (Engine.updateActive f)) :=
  { Alike.refl w with
    engines := Table.map_modify_of_eq (Engine.tracked_updateActive hf) _ _ }

/-- Leaving the tracked part alone leads to a later world. -/
theorem Alike.later {w w' : World} (h : Alike w w') : Later w w' where
  serial := h.serial
  session hs := ⟨_, by rw [h.sessions]; exact hs, rfl⟩
  seeds hs := .inl ⟨_, by rw [← h.sessions]; exact hs, rfl, Nat.le_refl _⟩
  round hr := ⟨_, by rw [h.rounds]; exact hr, .refl _⟩
  bet hb := ⟨_, by rw [h.bets]; exact hb, .refl _⟩
  job hj := ⟨_, by rw [h.jobs]; exact hj, .refl _⟩
  calls {n c} hc := by
    have := congrArg (fun l => l[n]?) h.calls
    simp only [List.getElem?_map, hc, Option.map_some] at this
    obtain ⟨c', hc', hk⟩ := Option.map_eq_some_iff.mp this
    exact ⟨c', hc', hk⟩
  wire hs := by rw [h.wire]; exact hs
  replies hr := by rw [h.replies]; exact hr
  keyed he := keyed_of_tracked (tracked_engine h.engines _) he
  activeIds hi := by rw [activeIds_of_tracked (tracked_engine h.engines _)]; exact hi

/-- The memory of an engine after some engine's memory was changed. -/
theorem engine?_updateEngine (w : World) (e' e : EngineRef) (f : Engine → Engine) :
    (w.updateEngine e' f).engine? e =
      (w.engine? e).map fun engine => if e'.index = e.index then f engine else engine := by
  simp only [World.engine?, World.updateEngine, List.getElem?_modify]
  cases w.engines[e.index]? <;> simp

/-- The active rounds of an engine are those in its memory. -/
theorem mem_activeIds {w : World} {e : EngineRef} {id : Nat} :
    id ∈ w.activeIds e ↔
      ∃ engine, w.engine? e = some engine ∧ id ∈ engine.actives.map ActiveRound.id := by
  cases h : w.engine? e <;> simp [World.activeIds, h]

/-- A change of an engine's memory that keeps the keys changes no reference's key. -/
theorem keyed_updateEngine {w : World} {e' e : EngineRef} {f : Engine → Engine}
    (hkey : ∀ engine, (f engine).key = engine.key) :
    (w.updateEngine e' f).Keyed e ↔ w.Keyed e := by
  have hite : ∀ engine, (if e'.index = e.index then f engine else engine).key = engine.key := by
    intro engine
    split
    · exact hkey engine
    · rfl
  simp only [World.Keyed, engine?_updateEngine, Option.map_eq_some_iff]
  constructor
  · rintro ⟨_, ⟨engine, he, rfl⟩, hk⟩
    exact ⟨engine, he, (hite engine).symm.trans hk⟩
  · rintro ⟨engine, he, hk⟩
    exact ⟨_, ⟨engine, he, rfl⟩, (hite engine).trans hk⟩

/-- Changing the memory of an engine leads to a later world when its key and its active rounds
stay. -/
theorem updateEngine_later (w : World) (e : EngineRef) (f : Engine → Engine)
    (hkey : ∀ engine, (f engine).key = engine.key)
    (hids : ∀ engine id, id ∈ engine.actives.map ActiveRound.id →
      id ∈ (f engine).actives.map ActiveRound.id) : Later w (w.updateEngine e f) where
  serial := Nat.le_refl _
  session h := ⟨_, h, rfl⟩
  seeds h := .inl ⟨_, h, rfl, Nat.le_refl _⟩
  round h := ⟨_, h, .refl _⟩
  bet h := ⟨_, h, .refl _⟩
  job h := ⟨_, h, .refl _⟩
  calls h := ⟨_, h, rfl⟩
  wire h := h
  replies h := h
  keyed h := (keyed_updateEngine hkey).mpr h
  activeIds {e' id} h := by
    obtain ⟨engine, he, hid⟩ := mem_activeIds.mp h
    refine mem_activeIds.mpr ⟨if e.index = e'.index then f engine else engine, ?_, ?_⟩
    · rw [engine?_updateEngine, he]
      rfl
    · split
      · exact hids engine id hid
      · exact hid

/-- **Every action leads to a later world.** -/
theorem Move.later {P : Policy} {i : Nat} {k : Call} {w w' : World} (h : Move P i k w w') :
    Later w w' := by
  cases h with
  | idle h => exact h.later
  | phase e polls he hk f hf => exact (Alike.updateActive hf w e).later
  | addSession s h =>
      refine { Later.refl w with
        serial := Nat.le_add_right _ _
        session := fun hs => ⟨_, Table.getElem?_concat_of_some hs, rfl⟩
        seeds := fun hs => ?_ }
      rcases Table.getElem?_concat_cases hs with hs | ⟨-, rfl⟩
      · exact .inl ⟨_, hs, rfl, Nat.le_refl _⟩
      · exact .inr (by rw [h])
  | session id s s' serial hs h hn hr =>
      refine { Later.refl w with
        serial := hn
        session := fun ht => ?_
        seeds := fun ht => ?_ }
      · exact Table.exists_set_of_some (R := fun a b => b.identity = a.identity) hs ht h.identity rfl
      · rcases Table.getElem?_set_cases ht with ⟨rfl, rfl, -⟩ | ⟨-, ht⟩
        · cases h with
          | terminate => exact .inl ⟨s, hs, rfl, Nat.le_refl _⟩
          | countUp => exact .inl ⟨s, hs, rfl, Nat.le_succ _⟩
          | reseed => exact .inr (Nat.le_refl _)
        · exact .inl ⟨_, ht, rfl, Nat.le_refl _⟩
  | addRound r h =>
      exact { Later.refl w with
        round := fun hr => ⟨_, Table.getElem?_concat_of_some hr, .refl _⟩ }
  | round id r r' hr hk h =>
      exact { Later.refl w with
        round := fun ht => Table.exists_set_of_some hr ht h.later (.refl _) }
  | addBet b h =>
      exact { Later.refl w with
        bet := fun hb => ⟨_, Table.getElem?_concat_of_some hb, .refl _⟩ }
  | bet id b b' hb hk h =>
      exact { Later.refl w with
        bet := fun ht => Table.exists_set_of_some hb ht h.later (.refl _) }
  | addJob j h =>
      exact { Later.refl w with
        job := fun hj => ⟨_, Table.getElem?_concat_of_some hj, .refl _⟩ }
  | job id j j' hj h =>
      exact { Later.refl w with
        job := fun ht => Table.exists_set_of_some hj ht h.later (.refl _) }
  | addCall c h hk =>
      exact { Later.refl w with
        calls := fun hc => ⟨_, Table.getElem?_concat_of_some hc, rfl⟩ }
  | hand s hc h hr =>
      exact { Later.refl w with
        wire := fun hs => Table.getElem?_concat_of_some hs }
  | activate e polls he active hk hr =>
      exact updateEngine_later w e _ (fun _ => rfl) fun engine id h => by simp_all
  | answer x h => exact { Later.refl w with }
  | begin e he hk h => exact updateEngine_later w e _ (fun _ => rfl) fun engine id h => h

/-- **Every outside event leads to a later world.** -/
theorem outside_later {w w' : World} {x : Outside} (h : w.outside x = some w') : Later w w' := by
  cases x with
  | elapse ms =>
      obtain rfl : _ = w' := by simpa [World.outside] using h
      exact { Later.refl w with }
  | deliver sent v message =>
      simp only [World.outside, World.deliver] at h
      split at h
      · obtain ⟨s, -, h⟩ := Option.bind_eq_some_iff.mp h
        obtain ⟨book, -, rfl⟩ := Option.map_eq_some_iff.mp h
        exact { Later.refl w with replies := fun hr => by simp [World.noteReply, hr] }
      · cases h
  | drop sent =>
      obtain rfl : _ = w' := by simpa [World.outside] using h
      exact { Later.refl w with }
  | boot key cfg gameConfig =>
      obtain rfl : _ = w' := by simpa [World.outside] using h
      refine { Later.refl w with keyed := fun h => ?_, activeIds := fun h => ?_ }
      · obtain ⟨engine, he, hk⟩ := h
        exact ⟨engine, Table.getElem?_concat_of_some he, hk⟩
      · obtain ⟨engine, he, hid⟩ := mem_activeIds.mp h
        exact mem_activeIds.mpr ⟨engine, Table.getElem?_concat_of_some he, hid⟩
  | stop e =>
      obtain rfl : _ = w' := by simpa [World.outside] using h
      exact updateEngine_later w e _ (fun _ => rfl) fun engine id h => h
  | die e =>
      obtain rfl : _ = w' := by simpa [World.outside] using h
      exact updateEngine_later w e _ (fun _ => rfl) fun engine id h => h
  | configure e cfg gameConfig =>
      obtain rfl : _ = w' := by simpa [World.outside] using h
      exact updateEngine_later w e _ (fun _ => rfl) fun engine id h => h
  | patch id patch =>
      obtain rfl : _ = w' := by simpa [World.outside] using h
      exact { Later.refl w with }

end YantraRgs
