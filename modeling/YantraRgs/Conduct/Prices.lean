import YantraRgs.Conduct.Idle

/-! # What a bet is due

What the game pays a bet depends on the terms of the bet, on the configuration that its round was
created under, and on the outcome of the round. None of these changes once it is stored, and so what
a bet was once due it stays due.

* **`Earns.later`** and its siblings — what a bet is due in a later world.
* **`engine_go`** — reading the engine, and what the policy says about it then. -/

namespace YantraRgs

open Await

variable {P : Policy} {i : Nat} {k : Call} {w w' : World} {env : Env} {b b' : Bet}

/-- A winning settlement is what the game pays. -/
theorem Env.Settles.of_won {r : Round} {b : Bet} {plugin : GamePlugin} {outcome : GameOutcome}
    {config : GameMathConfig} {commissionMicro : Int}
    (hplugin : env.getPlugin r.gameCode = some plugin) (hout : r.outcome = some outcome)
    (hwon : ¬ (!(plugin.settleBet ⟨b.selection, b.amountMicro, outcome, config,
      commissionMicro⟩).won) = true) :
    env.Settles r b config commissionMicro
      (plugin.settleBet ⟨b.selection, b.amountMicro, outcome, config, commissionMicro⟩).payoutMicro := by
  refine ⟨plugin, outcome, hplugin, hout, ?_⟩
  generalize plugin.settleBet _ = result at hwon
  cases result
  simp_all

/-! ## What is due stays due -/

/-- The round of a bet, as far as payouts depend on it, is the same in a later world. -/
theorem Later.round_of_bet (hl : Later w w') (ho : w.KeepsOutcomes w')
    (hround : b'.roundId = b.roundId) {r : Round} (hr : w.rounds[b.roundId]? = some r) :
    ∃ r', w'.rounds[b'.roundId]? = some r' ∧ r'.createdUnder = r.createdUnder ∧
      r'.gameCode = r.gameCode ∧ ∀ outcome, r.outcome = some outcome → r'.outcome = some outcome := by
  obtain ⟨r', hr', hrl⟩ := hl.round hr
  refine ⟨r', by rw [hround, hr'], hrl.created, congrArg EngineKey.gameCode hrl.key,
    fun outcome hout => ?_⟩
  obtain ⟨r'', hr'', hout'⟩ := ho.drawn hr hout
  rw [hr'] at hr''
  exact Option.some.inj hr'' ▸ hout'

/-- What the game reads of a bet are its terms. -/
theorem Bet.priced_of_terms (h : b'.terms = b.terms) : b'.selection = b.selection ∧
    b'.amountMicro = b.amountMicro ∧ b'.commissionMicro = b.commissionMicro := by
  simp only [Bet.terms, Prod.mk.injEq] at h
  exact ⟨h.2.2.1, h.2.2.2.1, h.2.2.2.2.1⟩

namespace World

theorem Earns.later {payoutMicro : Int} (h : w.Earns env b payoutMicro) (hl : Later w w')
    (ho : w.KeepsOutcomes w') (hterms : b'.terms = b.terms) (hround : b'.roundId = b.roundId) :
    w'.Earns env b' payoutMicro := by
  obtain ⟨r, config, hr, hc, plugin, outcome, hplugin, hout, hpays⟩ := h
  obtain ⟨r', hr', hc', hgame, hout'⟩ := hl.round_of_bet ho hround hr
  obtain ⟨hsel, hamount, hcommission⟩ := Bet.priced_of_terms hterms
  refine ⟨r', config, hr', hc'.trans hc, plugin, outcome, hgame ▸ hplugin, hout' outcome hout, ?_⟩
  rw [hsel, hamount, hcommission]
  exact hpays

theorem Loses.later (h : w.Loses env b) (hl : Later w w') (ho : w.KeepsOutcomes w')
    (hterms : b'.terms = b.terms) (hround : b'.roundId = b.roundId) : w'.Loses env b' := by
  obtain ⟨r, config, plugin, outcome, hr, hc, hplugin, hout, hpays⟩ := h
  obtain ⟨r', hr', hc', hgame, hout'⟩ := hl.round_of_bet ho hround hr
  obtain ⟨hsel, hamount, hcommission⟩ := Bet.priced_of_terms hterms
  refine ⟨r', config, plugin, outcome, hr', hc'.trans hc, hgame ▸ hplugin, hout' outcome hout, ?_⟩
  rw [hsel, hamount, hcommission]
  exact hpays

theorem CashesOut.later {elapsedMs : Millis} {multiplier : Rat} {payoutMicro : Int}
    (h : w.CashesOut env b elapsedMs multiplier payoutMicro) (hl : Later w w')
    (ho : w.KeepsOutcomes w') (hterms : b'.terms = b.terms) (hround : b'.roundId = b.roundId) :
    w'.CashesOut env b' elapsedMs multiplier payoutMicro := by
  obtain ⟨r, config, plugin, live, hr, hc, hplugin, hlive, hmultiplier, hpays⟩ := h
  obtain ⟨r', hr', hc', hgame, -⟩ := hl.round_of_bet ho hround hr
  obtain ⟨hsel, hamount, hcommission⟩ := Bet.priced_of_terms hterms
  refine ⟨r', config, plugin, live, hr', hc'.trans hc, hgame ▸ hplugin, hlive, hmultiplier, ?_⟩
  rw [hsel, hamount, hcommission]
  exact hpays

theorem Due.later {payoutMicro : Int} (h : w.Due env b payoutMicro) (hl : Later w w')
    (ho : w.KeepsOutcomes w') (hterms : b'.terms = b.terms) (hround : b'.roundId = b.roundId) :
    w'.Due env b' payoutMicro := by
  rcases h with h | ⟨elapsedMs, multiplier, h⟩
  · exact .inl (h.later hl ho hterms hround)
  · exact .inr ⟨elapsedMs, multiplier, h.later hl ho hterms hround⟩

/-- In one world, what a bet is due depends on its terms and its round. -/
theorem Due.congr {payoutMicro : Int} (h : w.Due env b payoutMicro) (hterms : b'.terms = b.terms)
    (hround : b'.roundId = b.roundId) : w.Due env b' payoutMicro :=
  h.later (.refl w) (.of_eq rfl) hterms hround

end World

/-! ## What a call knows about payouts -/

/-- What a bet earns, as far as the policy tells. -/
def Earned (P : Policy) (bet : Bet) (payoutMicro : Int) (w : World) : Prop :=
  P.oneEngine → P.priced → w.Earns P.env bet payoutMicro

theorem earned_stable {bet : Bet} {payoutMicro : Int} :
    Stable P i k (Earned P bet payoutMicro) := fun _ _ hr h hP hC =>
  (h hP hC).later hr.later (hr.outcomes hP) rfl rfl

/-- That a bet loses, as far as the policy tells. -/
def Lost (P : Policy) (bet : Bet) (w : World) : Prop := P.oneEngine → P.priced → w.Loses P.env bet

theorem lost_stable {bet : Bet} : Stable P i k (Lost P bet) := fun _ _ hr h hP hC =>
  (h hP hC).later hr.later (hr.outcomes hP) rfl rfl

/-- The active round of an engine is the last one it made active. -/
theorem getLast?_activeIds {engine : Engine} {active : ActiveRound} (he : w.engine? e = some engine)
    (ha : engine.active = some active) : (w.activeIds e).getLast? = some active.id := by
  simp only [World.activeIds, he, Option.map_some, Option.getD_some, List.getLast?_map]
  exact congrArg (Option.map ActiveRound.id) ha

/-- **Reading the engine**: it holds what the policy asks of it. -/
theorem engine_go {e : EngineRef} {R : World → Prop} (hR : R w) (hstable : Stable P i k R) :
    Walk P i k (Action.engine e) (fun engine w' => R w' ∧ w'.engine? e = engine ∧ Sound P w' ∧
      (P.priced → w'.Priced k)) w := by
  refine Go.lift fun w₁ hr hs c engine w₂ hrun hpermit => ?_
  obtain ⟨rfl, rfl⟩ := Prod.mk.inj (Option.some.inj hrun)
  exact ⟨.idle (.refl w₁), fun _ => ⟨hstable hr hR, rfl, hs, hpermit.priced⟩⟩

end YantraRgs
