import YantraRgs.Conduct.Idle

/-! # The endpoints keep to the rules

Creating, terminating and reseeding sessions write one session each; proofs, replays and dispute
packs write nothing. -/

namespace YantraRgs

open Await

variable {P : Policy} {i : Nat} {k : Call} {w : World} {env : Env}

/-- Creating a session. -/
theorem create_go {input : CreateSessionInput} :
    Walk P i k (SessionService.create input) (fun _ _ => True) w :=
  Go.request fun _ _ _ _ => ⟨.addSession _ rfl, fun _ => trivial⟩

/-- Terminating a session. -/
theorem terminate_go {sessionId : Nat} {reason : String} {operatorId : Option OperatorId} :
    Walk P i k (SessionService.terminate sessionId reason operatorId) (fun _ _ => True) w := by
  refine Go.bind_iff.mpr ((Walk.of_idle (Idle.findUnique _ _)).mono fun session w _ => ?_)
  split
  · trivial
  split
  · trivial
  · refine Go.bind_iff.mpr (Go.modify fun w₁ _ _ _ => ⟨?_, fun _ => trivial⟩)
    exact updateSession_move _ fun s _ => ⟨.terminate s _ _, rfl⟩

/-- Reseeding a session. -/
theorem rotateSeed_go {sessionId : Nat} {newClientSeed : Option ClientSeed} :
    Walk P i k (SessionService.rotateSeed sessionId newClientSeed) (fun _ _ => True) w := by
  refine Go.bind_iff.mpr ((Walk.of_idle (Idle.findUnique _ _)).mono fun session w _ => ?_)
  cases session with
  | none => trivial
  | some s =>
      refine Go.bind_iff.mpr (Go.request fun w₁ _ _ _ => ⟨?_, fun _ => trivial⟩)
      cases hs : w₁.sessions[sessionId]? with
      | none =>
          refine .idle { Same.refl w₁ with serial := Nat.le_add_right _ _, sessions := ?_ }
          exact Table.modify_eq_self hs
      | some t =>
          simp only [World.updateSession, Table.modify_eq_set hs]
          exact .session sessionId t _ _ hs (.reseed t _) (Nat.le_add_right _ _)
            fun _ => Nat.lt_add_of_pos_right (by decide)

/-- The rotate-seed endpoint. -/
theorem rotateSeedRoute_go {sessionId : Nat} {newClientSeed : Option ClientSeed}
    {operatorId : Option OperatorId} :
    Walk P i k (SessionService.rotateSeedRoute sessionId newClientSeed operatorId)
      (fun _ _ => True) w := by
  refine Go.bind_iff.mpr ((Walk.of_idle (Idle.findUnique _ _)).mono fun existing w _ => ?_)
  split
  · trivial
  split
  · trivial
  · exact rotateSeed_go

/-! ## Endpoints that write nothing -/

namespace Idle

theorem forRound (roundId : Nat) (operatorId : Option OperatorId) :
    Idle (ProofService.forRound roundId operatorId) := by
  refine Prog.Keeps.bind (findUnique _ _) fun round => ?_
  split <;> trivial

theorem findGameConfig (operatorId : OperatorId) (gameCode : GameCode) (currency : Currency) :
    Idle (YantraRgs.findGameConfig operatorId gameCode currency) := Prog.Keeps.query Same.refl _

end Idle

/-! ## Recomputed outcomes -/

/-- Every game accepts the outcome that it draws. -/
def Env.Verifies (env : Env) : Prop :=
  ∀ gameCode, ∀ plugin ∈ env.getPlugin gameCode, ∀ ctx config,
    plugin.verifyOutcome ctx config (plugin.computeOutcome ctx config) = true

/-- The stored configuration of a game is the one that is found for it. -/
theorem World.find_storedConfig (w : World) (operatorId : OperatorId) (gameCode : GameCode)
    (currency : Currency) :
    (w.gameConfigs.find? fun c => c.operatorId = operatorId ∧ c.gameCode = gameCode ∧
      c.currency = currency).bind OperatorGameConfig.config =
        w.storedConfig ⟨operatorId, gameCode, currency⟩ := by
  simp only [storedConfig, storedConfigs]
  induction w.gameConfigs with
  | nil => rfl
  | cons c cs ih =>
      by_cases hc : c.operatorId = operatorId ∧ c.gameCode = gameCode ∧ c.currency = currency
      · obtain ⟨rfl, rfl, rfl⟩ := hc
        simp [OperatorGameConfig.tracked]
      · have hne : (⟨operatorId, gameCode, currency⟩ : EngineKey) ≠
            ⟨c.operatorId, c.gameCode, c.currency⟩ := by
          rintro ⟨⟩
          exact hc ⟨rfl, rfl, rfl⟩
        rw [List.find?_cons_of_neg (by simpa using hc), ih, List.map_cons, List.lookup_cons,
          OperatorGameConfig.tracked, beq_false_of_ne hne]

/-- **A fair outcome is recomputed** where the stored configuration redraws it. -/
theorem recompute_of_redraws {r : Round} {gameConfig : Option OperatorGameConfig}
    (hverify : env.Verifies) (hfair : r.Fair env) (hsettled : r.state = .settled)
    {outcome : GameOutcome} (ho : r.outcome = some outcome)
    (h : Redraws env r (gameConfig.bind OperatorGameConfig.config)) :
    recompute env r gameConfig = some (outcome, true) := by
  obtain ⟨plugin, drawn, hplugin, hdrawn, rfl⟩ := hfair outcome ho
  obtain ⟨config, hconfig, hredraw⟩ := h
  obtain ⟨stored, rfl, hstored⟩ := Option.bind_eq_some_iff.mp hconfig
  have hseed : r.revealed = some r.serverSeed := by simp [Round.revealed, hsettled, RoundState.terminal]
  have hmatch := hverify r.gameCode plugin hplugin r.rngContext config
  rw [hredraw plugin hplugin drawn hdrawn] at hmatch
  simp only [recompute, hseed, ho, hplugin, hstored, Option.bind_eq_bind, Option.bind_some]
  exact congrArg (fun b => some (plugin.computeOutcome r.rngContext drawn, b)) hmatch

/-- What a call that shows a round knows about the row it read and the configuration that is stored
for it under the given key. -/
def Showing (P : Policy) (r : Round) (key : EngineKey) (w : World) : Prop :=
  P.agreeing → r.Fair P.env ∧
    (r.state = .settled → r.outcome.isSome = true → Redraws P.env r (w.storedConfig key))

theorem showing_stable (hk : k.shows = true) {r : Round} {key : EngineKey} :
    Stable P i k (Showing P r key) := by
  intro w w' hr h hP
  rw [World.storedConfig, hr.configs hP hk]
  exact h hP

/-- What is recomputed agrees. -/
theorem Showing.recompute {r : Round} {key : EngineKey} {gameConfig : Option OperatorGameConfig}
    (h : Showing P r key w) (hP : P.agreeing) (hverify : P.env.Verifies)
    (hfound : gameConfig.bind OperatorGameConfig.config = w.storedConfig key)
    (hsettled : r.state = .settled) {outcome : GameOutcome} (ho : r.outcome = some outcome) :
    YantraRgs.recompute P.env r gameConfig = some (outcome, true) :=
  recompute_of_redraws hverify (h hP).1 hsettled ho (hfound ▸ (h hP).2 hsettled (by rw [ho]; rfl))

/-- Looking up the configuration of a round. -/
theorem findGameConfig_go (hk : k.shows = true) {r : Round} {operatorId : OperatorId}
    {gameCode : GameCode} {currency : Currency}
    (h : Showing P r ⟨operatorId, gameCode, currency⟩ w) :
    Walk P i k (findGameConfig operatorId gameCode currency) (fun gameConfig w' =>
      Showing P r ⟨operatorId, gameCode, currency⟩ w' ∧
        (gameConfig.bind OperatorGameConfig.config =
          w'.storedConfig ⟨operatorId, gameCode, currency⟩)) w :=
  Go.query (fun w => .idle (.refl w)) fun w₁ hr _ =>
    ⟨showing_stable hk hr h, w₁.find_storedConfig operatorId gameCode currency⟩

/-- **The replay endpoint.** -/
theorem roundReplay_go (hverify : P.agreeing → P.env.Verifies) {roundId : Nat}
    {operatorId : OperatorId} :
    Walk P i (.roundReplay roundId operatorId) (YantraRgs.roundReplay P.env roundId operatorId)
      (fun x _ => P.agreeing → x.Agrees) w := by
  have hread : Walk P i (.roundReplay roundId operatorId) (Prog.query fun w =>
      (w.rounds[roundId]?, Table.select (fun b => decide (b.roundId = roundId)) w.bets,
        Table.select (fun c => decide (c.roundId = some roundId)) w.walletCalls))
      (fun found w' => ∀ r, (found.1.filter fun r => decide (r.operatorId = operatorId)) = some r →
        Showing P r r.key w') w := by
    intro w₁ hr hs c found w₂ hrun hpermit
    obtain ⟨rfl, rfl⟩ := Prod.mk.inj (Option.some.inj hrun)
    refine ⟨.idle (.refl w₁), fun hs r hrow hP => ?_⟩
    obtain ⟨hrow, hop⟩ := Option.filter_eq_some_iff.mp hrow
    exact ⟨hs.fair (List.mem_of_getElem? hrow),
      hpermit.redrawn hP r hrow (of_decide_eq_true hop)⟩
  refine Go.bind_iff.mpr (hread.mono fun found w hfound => ?_)
  obtain ⟨round, bets, calls⟩ := found
  dsimp only at hfound ⊢
  split
  · exact fun _ => trivial
  · rename_i r hrow
    refine Go.bind_iff.mpr ((findGameConfig_go rfl (hfound r hrow)).mono
      fun gameConfig w ⟨hshow, hconfig⟩ hP => ?_)
    exact fun hsettled outcome ho => hshow.recompute hP (hverify hP) hconfig hsettled ho

/-- **The dispute pack.** -/
theorem buildDisputePack_go (hverify : P.agreeing → P.env.Verifies) {operatorId : OperatorId}
    {transactionUuid : Uuid} :
    Walk P i (.disputePack operatorId transactionUuid)
      (YantraRgs.buildDisputePack P.env operatorId transactionUuid)
      (fun x _ => P.agreeing → x.Agrees) w := by
  have hread : Walk P i (.disputePack operatorId transactionUuid)
      (Action.findFirstWith World.bets
        (fun b => b.operatorId = operatorId ∧ b.hasTransaction transactionUuid)
        fun w betId b => (w.rounds[b.roundId]?, w.pendingRoundBets.find? fun h => h.betId = betId))
      (fun found w' => ∀ betId bet r pendingState, found = some (betId, bet, some r, pendingState) →
        Showing P r ⟨operatorId, r.gameCode, bet.currency⟩ w') w := by
    intro w₁ hr hs c found w₂ hrun hpermit
    dsimp only at hrun
    split at hrun
    · split at hrun
      · rename_i b hb
        split at hrun
        · rename_i hp
          obtain ⟨rfl, rfl⟩ := Prod.mk.inj (Option.some.inj hrun)
          refine ⟨.idle (.refl w₁), fun hs betId bet r pendingState hfound hP => ?_⟩
          obtain ⟨-, rfl, hrow, -⟩ := by
            simpa only [Option.some.injEq, Prod.mk.injEq] using hfound
          obtain ⟨hop, htx⟩ := of_decide_eq_true hp
          exact ⟨hs.fair (List.mem_of_getElem? hrow),
            hpermit.redrawn hP b (List.mem_of_getElem? hb) hop htx r hrow⟩
        · cases hrun
      · cases hrun
    · split at hrun
      · cases hrun
      · obtain ⟨rfl, rfl⟩ := Prod.mk.inj (Option.some.inj hrun)
        exact ⟨.idle (.refl w₁), fun _ _ _ _ _ hfound => nomatch hfound⟩
  refine Go.bind_iff.mpr (hread.mono fun found w hfound => ?_)
  split
  · rename_i betId bet r pendingState
    have hshow := hfound betId bet r pendingState rfl
    refine Walk.idle_bind (Idle.findInOrder _ _) hshow (showing_stable rfl) fun calls w hshow => ?_
    refine Go.bind_iff.mpr ((findGameConfig_go rfl hshow).mono
      fun gameConfig w ⟨hshow, hconfig⟩ => ?_)
    have hmatch : P.agreeing → r.state = .settled → r.outcome.isSome = true →
        (recompute P.env r gameConfig).map Prod.snd = some true := by
      intro hP hsettled ho
      obtain ⟨outcome, ho⟩ := Option.isSome_iff_exists.mp ho
      rw [hshow.recompute hP (hverify hP) hconfig hsettled ho]
      rfl
    exact Walk.idle_bind (R := fun _ => True) Idle.now trivial (fun _ _ _ h => h)
      fun now w _ hP => hmatch hP
  · exact fun _ => trivial

end YantraRgs
