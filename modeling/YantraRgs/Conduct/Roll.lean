import YantraRgs.Conduct.RoundLoop

/-! # Rolling keeps to the rules

Rolling, with or without a flight, ends with the active round out of betting: the call that rolls is
the only one that drives the rounds of its engine, and nothing in it makes another round active.

* **`Rolling`** — what stays true of the round that is rolled.
* **`rollAndReveal_go`**, **`iteration_go`** — a roll, and one turn of the loop. -/

namespace YantraRgs

open Await

variable {P : Policy} {i : Nat} {k : Call} {w w' : World} {env : Env} {e : EngineRef} {polls : Nat}
variable {plugin : GamePlugin} {ctx : RngContext}

/-! ## The round that is rolled -/

/-- What is known about a round that is rolled, before and after its outcome is drawn. -/
def Round.Rolls (drawn : Bool) (r : Round) : Prop :=
  if drawn then r.outcome.isSome = true else r.progress = (none, false)

/-- A round whose outcome is not drawn yet is not settled either. -/
theorem Round.Rolls.unsettled {r : Round} (h : r.Rolls false) : r.settled = false :=
  congrArg Prod.snd (show r.progress = (none, false) from h)

theorem Round.Rolls.congr {drawn : Bool} {r r' : Round} (h : r.Rolls drawn)
    (hp : r'.progress = r.progress) : r'.Rolls drawn := by
  unfold Round.Rolls at h ⊢
  split
  · rw [if_pos (by assumption)] at h
    rw [show r'.outcome = r.outcome from congrArg Prod.fst hp]
    exact h
  · rw [if_neg (by assumption)] at h
    exact hp.trans h

/-- **What stays true of the round that is rolled**: it is of the engine, its outcome is derived from
`ctx`, it is the last one the engine made active, and the other rounds of the engine are settled. -/
structure Rolling (P : Policy) (e : EngineRef) (id : Nat) (ctx : RngContext) (drawn : Bool)
    (w : World) : Prop where
  keyed : w.Keyed e
  row : ∃ r, w.rounds[id]? = some r ∧ r.key = e.key ∧ r.rngContext = ctx ∧
    (P.oneEngine → r.Rolls drawn)
  last : P.oneEngine → (w.activeIds e).getLast? = some id
  others : P.oneEngine → P.closed → w.OthersSettled e.key id

variable {drawn : Bool}

theorem Rolling.round {id : Nat} (h : Rolling P e id ctx drawn w) : w.RoundOf id e.key := by
  obtain ⟨r, hr, hk, -⟩ := h.row
  exact ⟨r, hr, hk⟩

theorem rolling_stable {id : Nat} :
    Stable P i (.iteration e polls) (Rolling P e id ctx drawn) := by
  intro w w' hr h
  obtain ⟨r, hrow, hk, hctx, hout⟩ := h.row
  obtain ⟨r', hrow', hrl⟩ := hr.later.round hrow
  have hk' : r'.key = e.key := hrl.key.trans hk
  refine ⟨hr.later.keyed h.keyed, ⟨r', hrow', hk', hrl.rngContext.trans hctx, fun hP => ?_⟩,
    fun hP => ?_, fun hP hC => (hr.loop hP e polls rfl).othersSettled hr.later (h.others hP hC)⟩
  · exact (hout hP).congr ((hr.loop hP e polls rfl).progress hrow hrow' hk')
  · rw [(hr.loop hP e polls rfl).active h.keyed]
    exact h.last hP

/-- A step of the call itself that leaves the rounds alone. -/
theorem Rolling.next {id : Nat} (h : Rolling P e id ctx drawn w) (hl : Later w w')
    (hs : SameRounds w w') : Rolling P e id ctx drawn w' := by
  obtain ⟨r, hr, hk, hctx, hout⟩ := h.row
  refine ⟨hl.keyed h.keyed, ⟨r, hs.rounds ▸ hr, hk, hctx, hout⟩, fun hP => ?_, fun hP hC => ?_⟩
  · rw [hs.activeIds]
    exact h.last hP
  · exact (h.others hP hC).same hl (congrArg (List.map Round.progress) hs.rounds)

/-- A change of the phase leaves the roll as it is. -/
theorem Rolling.phase {id : Nat} (h : Rolling P e id ctx drawn w) {f : ActiveRound → ActiveRound}
    (hf : ∀ a, (f a).tracked = a.tracked) :
    Rolling P e id ctx drawn (w.updateEngine e (Engine.updateActive f)) :=
  have halike := Alike.updateActive hf w e
  h.next halike.later ⟨halike.rounds, halike.engines, halike.answers⟩

/-- The state of the round is written. -/
theorem updateRolling_go (drawn' : Bool) {id : Nat} {f : World → Round → Round}
    (hf : ∀ {w : World} {r : Round}, r.key = e.key → r.rngContext = ctx →
      (P.oneEngine → r.Rolls drawn) → RoundStep P (.iteration e polls) w id r (f w r))
    (ho : ∀ {v : World} {r : Round}, r.Rolls drawn → (f v r).Rolls drawn')
    (h : Rolling P e id ctx drawn w) :
    Walk P i (.iteration e polls) (Prog.modify fun w => w.updateRound id (f w)) (fun _ w' =>
      Rolling P e id ctx drawn' w' ∧ ∀ r', w'.rounds[id]? = some r' → ∃ v r, r' = f v r) w := by
  refine Go.modify fun w₁ hr _ _ => ?_
  have h₁ := rolling_stable hr h
  have hmove := updateRound_move (P := P) (i := i) (k := .iteration e polls) (w := w₁) id
    (f := f w₁) h₁.round fun r hr => by
      obtain ⟨r', hr', hk, hctx, hout⟩ := h₁.row
      obtain rfl := Option.some.inj (hr'.symm.trans hr)
      exact hf hk hctx hout
  obtain ⟨r, hrow, hk, hctx, hout⟩ := h₁.row
  have hwritten : (w₁.updateRound id (f w₁)).rounds[id]? = some (f w₁ r) := by
    simp only [World.updateRound, Table.modify_eq_set hrow, Table.getElem?_set_self_of_some hrow]
  obtain ⟨r', hr', hrl⟩ := hmove.later.round hrow
  obtain rfl := Option.some.inj (hwritten.symm.trans hr')
  refine ⟨hmove, fun _ => ⟨⟨hmove.later.keyed h₁.keyed, ⟨_, hwritten, hrl.key.trans hk,
    hrl.rngContext.trans hctx, fun hP => ho (hout hP)⟩, h₁.last, fun hP hC n x hx hkey hne => ?_⟩,
    fun r' hr' => ⟨w₁, r, Option.some.inj (hr'.symm.trans hwritten)⟩⟩⟩
  simp only [World.updateRound, Table.modify_eq_set hrow] at hx
  rw [Table.getElem?_set_of_ne hne] at hx
  exact h₁.others hP hC n x hx hkey hne

/-- A round that was written with a state in which it takes no bets is closed. -/
theorem Rolling.rolled {id : Nat} {f : World → Round → Round} (h : Rolling P e id ctx true w)
    (hwritten : ∀ r', w.rounds[id]? = some r' → ∃ v r, r' = f v r)
    (hf : ∀ v r, (f v r).state.takesBets = false) : Rolled P e w := by
  refine ⟨h.keyed, fun hP => ⟨id, h.last hP, ?_⟩⟩
  obtain ⟨r, hr, hk, -, hout⟩ := h.row
  obtain ⟨v, r₀, rfl⟩ := hwritten r hr
  exact ⟨⟨_, hr, hk, hf v r₀⟩, ⟨_, hr, hout hP⟩, h.others hP⟩

/-- What a game draws for the round that is rolled may be stored. -/
theorem draws_of_rolling {r : Round} {config : GameMathConfig}
    (hplugin : P.env.getPlugin e.key.gameCode = some plugin) (hk : r.key = e.key)
    (hctx : r.rngContext = ctx) (hn : P.oneEngine → r.Rolls false) :
    Draws P r (some (plugin.computeOutcome ctx config)) (some config) := by
  subst hctx
  exact .draw plugin config
    ((congrArg (fun key => P.env.getPlugin key.gameCode) hk).trans hplugin) fun hP =>
      Prod.mk.inj (hn hP)

/-- Rolling a round without a flight. -/
theorem rollAndShow_go (hplugin : P.env.getPlugin e.key.gameCode = some plugin)
    {active : ActiveRound} (h : Rolling P e active.id (GameEngine.rngContext active) false w) :
    Walk P i (.iteration e polls) (GameEngine.rollAndShow e plugin active)
      (fun _ w' => Rolled P e w') w := by
  have hwindow : Walk P i (.iteration e polls) (Prog.request fun _ w =>
      let windowMs := ((w.engine? e).map fun engine => engine.cfg.rollingWindowMs).getD 0
      (windowMs, w.updateEngine e (Engine.updateActive fun a =>
        { a with phase := .rolling, phaseStartedAt := w.now, phaseDurationMs := windowMs })))
      (fun _ w' => Rolling P e active.id (GameEngine.rngContext active) false w') w := by
    refine Go.request fun w₁ hr _ _ => ?_
    have h₁ := rolling_stable hr h
    exact ⟨.phase e polls rfl h₁.keyed _ fun _ => by rfl,
      fun _ => h₁.phase fun _ => by rfl⟩
  refine Go.bind_iff.mpr (hwindow.mono fun windowMs w h => ?_)
  refine Go.bind_iff.mpr ((updateRolling_go (f := fun _ r => { r with state := .rolling })
    false (fun _ _ hn => .roll _ _ _ rfl (fun hP => (hn hP).unsettled) .keep) (fun h => h) h).mono
      fun _ w hR => ?_)
  refine Walk.idle_bind (Idle.engineEmit _ _) hR.1 rolling_stable fun _ w h => ?_
  refine Walk.idle_bind (Idle.wait _ _) h rolling_stable fun _ w h => ?_
  have hengine : Walk P i (.iteration e polls) (Action.engine e) (fun engine w' =>
      Rolling P e active.id (GameEngine.rngContext active) false w' ∧ engine.isSome = true) w := by
    refine Go.query (fun w => .idle (.refl w)) fun w₁ hr _ => ?_
    have h₁ := rolling_stable hr h
    obtain ⟨engine, he, -⟩ := h₁.keyed
    exact ⟨h₁, by rw [he]; rfl⟩
  refine Go.bind_iff.mpr (hengine.mono fun engine w ⟨h, hsome⟩ => ?_)
  cases engine with
  | none => cases hsome
  | some engine =>
      refine Go.bind_iff.mpr ((updateRolling_go (f := fun w r => { r with
        state := .result
        outcome := some (plugin.computeOutcome (GameEngine.rngContext active) engine.gameConfig)
        rolledAt := some w.now
        drawnUnder := some engine.gameConfig })
        true (fun hk hctx hn => .result _ _ _ _ rfl
          (draws_of_rolling hplugin hk hctx hn)) (fun _ => rfl) h).mono fun _ w hR => ?_)
      have hrolled := hR.1.rolled hR.2 fun _ _ => rfl
      refine Go.bind_iff.mpr ((updateActive_go (fun _ _ => by rfl) hrolled rolled_stable
        fun h => h.keyed).mono fun _ w h => ?_)
      exact Walk.idle (Idle.engineEmit _ _) h rolled_stable

/-- One poll of a flight, up to its wait. -/
theorem poll_go {live : LiveCrashSupport} {multiplier : Rat} {id : Nat}
    (h : Rolling P e id ctx true w) :
    Walk P i (.iteration e polls) (GameEngine.processAutoCashouts P.env e live multiplier)
      (fun _ w' => Rolling P e id ctx true w') w :=
  (Go.carry (processAutoCashouts_go h.keyed)
    ((Still.processAutoCashouts live multiplier).mono fun h => h.toSameRounds) h
    (fun hr h => rolling_stable hr h) fun hg hs h => h.next hg.later hs).mono fun _ _ h => h.2

/-- The flight of a live round. -/
theorem fly_go {live : LiveCrashSupport} {crashAtMs : Millis} {id : Nat} (n : Nat)
    (lastTickAt : Millis) (h : Rolling P e id ctx true w) :
    Walk P i (.iteration e polls) (GameEngine.fly P.env e live crashAtMs n lastTickAt)
      (fun _ w' => Rolling P e id ctx true w') w := by
  induction n generalizing w lastTickAt with
  | zero => exact Go.hang
  | succ n ih =>
      have hpoll : ∀ {w} (multiplier : Rat) (next : Millis), Rolling P e id ctx true w →
          Walk P i (.iteration e polls) (do
            GameEngine.processAutoCashouts P.env e live multiplier
            Action.wait e 50
            GameEngine.fly P.env e live crashAtMs n next)
            (fun _ w' => Rolling P e id ctx true w') w := by
        intro w multiplier next h
        refine Go.bind_iff.mpr ((poll_go h).mono fun _ w h => ?_)
        exact Walk.idle_bind (Idle.wait _ _) h rolling_stable fun _ w h => ih next h
      refine Walk.idle_bind Idle.now h rolling_stable fun now w h => ?_
      refine Walk.idle_bind (Idle.engine e) h rolling_stable fun engine w h => ?_
      split
      swap
      · exact h
      split
      · exact h
      dsimp only
      split
      · exact h
      split
      · exact Walk.idle_bind (Idle.engineEmit _ _) h rolling_stable fun _ w h => hpoll _ _ h
      · exact hpoll _ _ h

/-- Taking off: the outcome is what the game draws, and the round takes off when that is a crash. -/
theorem takeOff_go {live : LiveCrashSupport} {active : ActiveRound} {id : Nat}
    (hcrash : P.closed → ∀ ctx config,
      (plugin.computeOutcome ctx config).crashMultiplier?.isSome = true)
    (h : Rolling P e id ctx false w) :
    Walk P i (.iteration e polls) (GameEngine.takeOff e plugin live active)
      (fun flight w' => Rolling P e id ctx false w' ∧ (P.closed → flight.isSome = true) ∧
        ∀ outcome crashAtMs gameConfig, flight = some (outcome, crashAtMs, gameConfig) →
          plugin.computeOutcome (GameEngine.rngContext active) gameConfig = outcome) w := by
  refine Go.request fun w₁ hr _ _ => ?_
  have h₁ := rolling_stable hr h
  dsimp only
  split
  · rename_i hnone
    obtain ⟨engine, he, -⟩ := h₁.keyed
    rw [he] at hnone
    cases hnone
  · rename_i engine he
    split
    · rename_i hnone
      refine ⟨.idle (.refl w₁), fun _ => ⟨h₁, fun hC => ?_, fun _ _ _ hf => nomatch hf⟩⟩
      have hsome := hcrash hC (GameEngine.rngContext active) engine.gameConfig
      rw [hnone] at hsome
      cases hsome
    · refine ⟨.phase e polls rfl h₁.keyed _ fun _ => by rfl, fun _ =>
        ⟨h₁.phase fun _ => by rfl, fun _ => rfl,
          fun _ _ _ hf => ?_⟩⟩
      obtain ⟨rfl, -, rfl⟩ := by simpa only [Option.some.injEq, Prod.mk.injEq] using hf
      rfl

/-- How a roll ends: the round comes to its end, unless its game throws. -/
structure Landed (P : Policy) (e : EngineRef) (rolled : Bool) (w : World) : Prop where
  keyed : w.Keyed e
  ended : P.closed → rolled = true
  rolled : rolled = true → Rolled P e w

theorem Landed.of_rolled (h : Rolled P e w) : Landed P e true w :=
  ⟨h.keyed, fun _ => rfl, fun _ => h⟩

/-- Rolling a live round. -/
theorem rollLiveCrashAndReveal_go (hplugin : P.env.getPlugin e.key.gameCode = some plugin)
    {live : LiveCrashSupport} {n : Nat} {active : ActiveRound}
    (hcrash : P.closed → ∀ ctx config,
      (plugin.computeOutcome ctx config).crashMultiplier?.isSome = true)
    (h : Rolling P e active.id (GameEngine.rngContext active) false w) :
    Walk P i (.iteration e polls) (GameEngine.rollLiveCrashAndReveal P.env e plugin live n active)
      (fun rolled w' => Landed P e rolled w') w := by
  refine Go.bind_iff.mpr ((takeOff_go hcrash h).mono fun flight w ⟨h, hflies, hdrawn⟩ => ?_)
  split
  · exact ⟨h.keyed, fun hC => (nomatch hflies hC), fun hfalse => (nomatch hfalse)⟩
  rename_i gameConfig _
  obtain rfl := hdrawn _ _ gameConfig rfl
  refine Go.bind_iff.mpr ((updateRolling_go (f := fun _ r =>
    { r with state := .rolling, outcome := some _, drawnUnder := some gameConfig })
    true (fun hk hctx hn => .roll _ _ _ rfl (fun hP => (hn hP).unsettled)
      (draws_of_rolling hplugin hk hctx hn))
    (fun _ => rfl) h).mono fun _ w hR => ?_)
  refine Walk.idle_bind (Idle.engineEmit _ _) hR.1 rolling_stable fun _ w h => ?_
  refine Go.bind_iff.mpr ((fly_go n 0 h).mono fun _ w h => ?_)
  refine Go.bind_iff.mpr ((updateActive_go (fun _ _ => by rfl) h rolling_stable
    fun h => h.keyed).mono fun _ w h => ?_)
  refine Go.bind_iff.mpr ((updateRolling_go (f := fun w r =>
    { r with state := .result, rolledAt := some w.now })
    true (fun _ _ _ => .result _ _ _ _ rfl .keep) (fun h => h) h).mono fun _ w hR => ?_)
  refine Walk.idle_bind (Idle.engineEmit _ _) (hR.1.rolled hR.2 fun _ _ => rfl) rolled_stable
    fun _ w h => .of_rolled h

/-- **Rolling the active round.** -/
theorem rollAndReveal_go (hplugin : P.env.getPlugin e.key.gameCode = some plugin) {n : Nat}
    (hcrash : P.closed → P.env.DrawsCrashes) (ho : Opened P e w) :
    Walk P i (.iteration e polls) (GameEngine.rollAndReveal P.env e plugin n)
      (fun rolled w' => Landed P e rolled w') w := by
  have hengine : Walk P i (.iteration e polls) (Action.engine e) (fun engine w' =>
      (engine.bind Engine.active = none → Rolled P e w') ∧
        ∀ active, engine.bind Engine.active = some active →
          Rolling P e active.id (GameEngine.rngContext active) false w') w := by
    refine Go.query (fun w => .idle (.refl w)) fun w₁ hr hs => ?_
    obtain ⟨hk₁, hunrolled⟩ := opened_stable hr ho
    refine ⟨fun hnone => ⟨hk₁, fun hP => ?_⟩, fun active ha => ?_⟩
    · obtain ⟨id, -, hid, -⟩ := hunrolled hP
      obtain ⟨engine, he, -⟩ := hk₁
      rw [he, Option.bind_some, Engine.active, List.getLast?_eq_none_iff] at hnone
      simp [World.activeIds, he, hnone] at hid
    · obtain ⟨engine, he, ha⟩ := Option.bind_eq_some_iff.mp ha
      have hlast := getLast?_activeIds he ha
      obtain ⟨r, hrow, hkey⟩ := hs.activeKey hk₁ (List.mem_of_getLast? hlast)
      obtain ⟨r', hrow', hctx⟩ := hs.activeContext (List.mem_of_getElem? he) active
        (List.mem_of_getLast? ha)
      obtain rfl := Option.some.inj (hrow.symm.trans hrow')
      refine ⟨hk₁, ⟨r, hrow, hkey, hctx, fun hP => ?_⟩, fun _ => hlast, fun hP => ?_⟩ <;>
        obtain ⟨id, r', hid, hrow', -, hp, hothers⟩ := hunrolled hP <;>
        obtain rfl := Option.some.inj (hid.symm.trans hlast)
      · obtain rfl := Option.some.inj (hrow.symm.trans hrow')
        exact hp
      · exact hothers
  refine Go.bind_iff.mpr (hengine.mono fun engine w hR => ?_)
  obtain ⟨hnone, hsome⟩ := hR
  split
  · exact .of_rolled (hnone (by assumption))
  · rename_i active ha
    split
    · rename_i live hlive
      exact rollLiveCrashAndReveal_go hplugin
        (fun hC => hcrash hC _ plugin hplugin (by rw [hlive]; rfl)) (hsome active ha)
    · exact Go.bind_iff.mpr ((rollAndShow_go hplugin (hsome active ha)).mono fun _ _ h =>
        .of_rolled h)

/-- **One turn of the round loop.** -/
theorem iteration_go (hs : Sound P w) (hclear : Clear P e w)
    (hcounted : P.oneEngine → P.countedUp → w.CountedUp e.key)
    (hcrash : P.closed → P.env.DrawsCrashes) :
    Walk P i (.iteration e polls) (GameEngine.iteration P.env e polls) (fun _ w' => Clear P e w')
      w := by
  unfold GameEngine.iteration
  split
  · exact hclear
  rename_i plugin hplugin
  refine Go.bind_iff.mpr ((openBetting_go hs hclear hcounted).mono fun _ w hopened => ?_)
  refine Go.bind_iff.mpr ((rollAndReveal_go hplugin hcrash hopened).mono fun rolled w hlanded => ?_)
  split
  · refine Go.bind_iff.mpr ((settle_go hplugin (hlanded.rolled (by assumption))).mono
      fun _ w hclear => ?_)
    exact Walk.idle (Prog.Keeps.bind (Prog.Keeps.query Same.refl _) fun _ => Idle.wait _ _) hclear
      clear_stable
  · -- the loop goes on although the round is left where it was
    rename_i hfalse
    have hclear : Clear P e w := ⟨hlanded.keyed, fun _ hC => absurd (hlanded.ended hC) hfalse⟩
    exact Walk.idle (Idle.wait _ _) hclear clear_stable

end YantraRgs
