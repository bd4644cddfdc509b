import YantraRgs.Await.Trace
import YantraRgs.Properties.FlightWatch
import YantraRgs.Properties.Runs

/-! # Bets that are lost in a flight

A bet of a live round that was not cashed out is lost when the flight is over. The loop of an engine ends
the flight early when the engine is stopped, and an engine that is started again closes the bets of a
round whose outcome is stored, whether or not its flight has lasted long enough.

* **`LostAfterCrash`** — the property.
* **`UnbrokenFlights`** — the condition on the steps of a run.
* **`lost_after_crash`** — the property along every run that meets the condition. -/

namespace YantraRgs

open Await

/-- A round object in the memory of an engine of a live game is in flight, for the time `crashAtMs`. -/
structure World.Flying (env : Env) (w : World) (e : EngineRef) (n : Nat) (a : ActiveRound)
    (crashAtMs : Millis) : Prop where
  keyed : w.Keyed e
  live : (GameEngine.live? env e).isSome = true
  row : (w.memory e)[n]? = some a
  phase : a.phase = .rolling
  crashAtMs : a.crashAtMs = some crashAtMs

/-- In one of the given states round `id` was in flight, and the flight reached its crash by the time
`t`. -/
def FlownBy (env : Env) (states : List State) (id : Nat) (t : Millis) : Prop :=
  ∃ s ∈ states, ∃ (e : EngineRef) (n : Nat) (a : ActiveRound) (crashAtMs : Millis),
    s.world.Flying env e n a crashAtMs ∧ a.id = id ∧ a.phaseStartedAt + crashAtMs ≤ t

/-- **Every bet of a live round that was closed as lost had no cash-out, and was closed when the flight
of its round had reached the crash**, in a run that went through the states `past` to the state `p`. -/
def LostAfterCrash (env : Env) (past : List State) (p : State) : Prop :=
  ∀ b ∈ p.world.bets, b.won = some false → p.world.live env b.roundId = true →
    b.cashoutPayoutMicro = none ∧ ∃ t ∈ b.settledAt, FlownBy env (p :: past) b.roundId t

/-- Whether a call drives an engine of a live game. -/
def Call.Flies (env : Env) (k : Call) : Prop :=
  ∃ e ∈ k.drives, (GameEngine.live? env e).isSome = true

/-- No cash-out is noted on a bet that a call decides. -/
def KeptUncashed (k : Call) (w w' : World) : Prop :=
  ∀ n < w.bets.length, ∀ b ∈ w.bets[n]?, ∀ b' ∈ w'.bets[n]?, w.Decides k b.roundId →
    b.cashoutPayoutMicro = none → b'.cashoutPayoutMicro = none

/-- **The condition on a step**: a call that drives an engine of a live game finds it running while its
round is in flight, and a start finds no round in flight; and no other call notes a cash-out on a bet of a
round that it decides. -/
structure UnbrokenFlights (env : Env) (p : State) (x : Happening) (q : State) : Prop where
  found : ∀ i < p.tasks.length, ∀ t ∈ p.tasks[i]?, t.live → t.call.Flies env →
    ran? x = some i → p.world.Undisturbed t.call
  uncashed : ∀ i < p.tasks.length, ∀ t ∈ p.tasks[i]?, t.live → t.call.Flies env →
    ran? x ≠ some i → KeptUncashed t.call p.world q.world

/-! ## Steps of other calls -/

section Steps

variable {env : Env} {i : Nat} {k : Call} {w w' : World} {e : EngineRef} {id : Nat}

/-- **What no call does that drives no engine of a live game**: change the memory of one, lose a bet of a
live round, or store its outcome. -/
structure Foreign (env : Env) (w w' : World) : Prop where
  memory : ∀ e, w'.Keyed e → (GameEngine.live? env e).isSome = true → w'.memory e = w.memory e
  lost : ∀ {n : Nat} {b' : Bet}, w'.bets[n]? = some b' → b'.won = some false →
    w'.live env b'.roundId = true → ∃ b, w.bets[n]? = some b ∧ b.StillLost b'
  drawn : ∀ {id : Nat} {r' : Round}, w'.rounds[id]? = some r' → r'.outcome.isSome = true →
    w'.live env id = true → w.OutcomeKnown id

theorem Foreign.refl (w : World) : Foreign env w w :=
  ⟨fun _ _ _ => rfl, fun hb hlost _ => ⟨_, hb, .refl hlost⟩, fun hr ho _ => ⟨_, hr, ho⟩⟩

/-- A round that is there is live or not for good. -/
theorem Later.live (h : Later w w') {r : Round} (hr : w.rounds[id]? = some r)
    (hlive : w'.live env id = true) : w.live env id = true := by
  obtain ⟨r', hr', hl⟩ := h.round hr
  have hgame : r'.gameCode = r.gameCode := congrArg EngineKey.gameCode hl.key
  rw [World.live, hr', Option.any_some, hgame] at hlive
  rw [World.live, hr, Option.any_some, hlive]

/-- A round object in the memory of an engine is one of its rounds. -/
theorem World.mem_memory {n : Nat} {a : ActiveRound} (h : (w.memory e)[n]? = some a) :
    ∃ engine, w.engine? e = some engine ∧ a ∈ engine.actives := by
  cases hengine : w.engine? e with
  | none => simp [World.memory, hengine] at h
  | some engine =>
      rw [World.memory, hengine] at h
      exact ⟨engine, rfl, List.mem_of_getElem? h⟩

/-- An engine that holds a round was there before it was known under its key. -/
theorem Later.keyed_of_memory (h : Later w w') {n : Nat} {a : ActiveRound}
    (ha : (w.memory e)[n]? = some a) (he : w'.Keyed e) : w.Keyed e := by
  obtain ⟨engine, hengine, -⟩ := World.mem_memory ha
  have hkeyed : w.Keyed ⟨engine.key, e.index⟩ := ⟨engine, hengine, rfl⟩
  rwa [← (h.keyed hkeyed).eq_of he rfl]

/-- A call that drives an engine and reaches a live round drives an engine of a live game. -/
theorem World.Reaches.flies (h : w.Reaches k id) (hk : k.drives.isSome = true)
    (hlive : w.live env id = true) : k.Flies env := by
  have hround : ∀ e, w.RoundOf id e.key → (GameEngine.live? env e).isSome = true := by
    rintro e ⟨r, hr, hkey⟩
    have hgame : r.gameCode = e.key.gameCode := congrArg EngineKey.gameCode hkey
    rwa [World.live, hr, Option.any_some, hgame] at hlive
  cases k with
  | start e => exact ⟨e, rfl, hround e h⟩
  | iteration e polls => exact ⟨e, rfl, hround e h⟩
  | _ => cases hk

theorem Move.foreign (h : Move (.free env) i k w w') (hk : ¬ k.Flies env) : Foreign env w w' where
  memory e he hlive := by
    refine h.memory_eq fun e' polls hcall hkeyed hidx => hk ⟨e', by rw [hcall]; rfl, ?_⟩
    rw [(h.later.keyed hkeyed).eq_of he hidx]
    exact hlive
  lost {n b'} hb hlost hlive := by
    rcases h.bet_origin hb with ⟨b, hb₀, rfl | ⟨hstep, hreach⟩⟩ | ⟨-, hnew⟩
    · exact ⟨_, hb₀, .refl hlost⟩
    · refine ⟨b, hb₀, ?_⟩
      have hround : b'.roundId = b.roundId := hstep.later.roundId
      cases hstep with
      | lose now hdrives =>
          obtain ⟨r, hr⟩ : ∃ r, w.rounds[b.roundId]? = some r := by
            cases k with
            | start e | iteration e polls =>
                obtain ⟨r, hr, -⟩ := hreach
                exact ⟨r, hr⟩
            | _ => cases hdrives
          exact absurd (hreach.flies hdrives (h.later.live hr (hround ▸ hlive))) hk
      | win | cashOut => cases hlost
      | _ => exact ⟨hlost, rfl, rfl, rfl⟩
    · rw [hnew.undecided] at hlost
      cases hlost
  drawn {id r'} hr ho hlive := by
    rcases h.round_origin hr with ⟨r, hr₀, rfl | ⟨hstep, hreach⟩⟩ | ⟨-, hnew⟩
    · exact ⟨_, hr₀, ho⟩
    · have hflies : k.drives.isSome = true → False := fun hdrives =>
        hk (hreach.flies hdrives (h.later.live hr₀ hlive))
      cases hstep with
      | roll _ _ hdrives => exact absurd hdrives fun hd => hflies hd
      | result _ _ _ hdrives => exact absurd hdrives fun hd => hflies hd
      | _ => exact ⟨r, hr₀, ho⟩
    · rw [hnew.outcome] at ho
      cases ho

theorem outside_foreign {x : Outside} (h : w.outside x = some w') : Foreign env w w' where
  memory e _ _ := outside_memory h e
  lost hb hlost _ := ⟨_, (outside_outer h).bets ▸ hb, .refl hlost⟩
  drawn hr ho _ := ⟨_, (outside_outer h).rounds ▸ hr, ho⟩

end Steps

/-! ## Runs -/

section Runs

variable {env : Env} {p q : State} {x : Happening} {past : List State} {e : EngineRef} {id : Nat}

theorem FlownBy.mono {states states' : List State} {t t' : Millis} (h : FlownBy env states id t)
    (hs : ∀ s ∈ states, s ∈ states') (ht : t ≤ t') : FlownBy env states' id t' := by
  obtain ⟨s, hmem, e, n, a, c, hflying, hid, hle⟩ := h
  exact ⟨s, hs s hmem, e, n, a, c, hflying, hid, Nat.le_trans hle ht⟩

/-- **The invariant behind the property**: what was in flight still is, unless it reached its crash;
what is in flight no more reached it; an outcome is stored of a round that was in flight; and every call
that drives an engine of a live game may go on. -/
structure Watching (env : Env) (past : List State) (p : State) : Prop where
  driven : Driven p
  watched : Watched (flightRules env) (Call.Flies env) p
  aloft : ∀ s ∈ p :: past, ∀ (e : EngineRef) (n : Nat) (a : ActiveRound) (c : Millis),
    s.world.Flying env e n a c → p.world.Keyed e ∧
      ((p.world.memory e)[n]? = some a ∨ a.phaseStartedAt + c ≤ p.world.now)
  down : ∀ (e : EngineRef) (n : Nat) (a : ActiveRound), p.world.Keyed e →
    (GameEngine.live? env e).isSome = true → (p.world.memory e)[n]? = some a →
      a.crashAtMs.isSome = true → a.phase ≠ .rolling → FlownBy env (p :: past) a.id p.world.now
  drawn : ∀ id, p.world.live env id = true → p.world.OutcomeKnown id →
    ∃ s ∈ p :: past, ∃ (e : EngineRef) (n : Nat) (a : ActiveRound) (c : Millis),
      s.world.Flying env e n a c ∧ a.id = id
  lost : LostAfterCrash env past p

theorem Watching.initial (operators : List OperatorRow) (credentials : List OperatorCredential)
    (gameConfigs : List OperatorGameConfig) :
    Watching env [] (State.initial operators credentials gameConfigs) where
  driven := .initial operators credentials gameConfigs
  watched _ _ ht := nomatch ht
  aloft s hs e n a c hflying := by
    obtain rfl := List.mem_singleton.mp hs
    cases hflying.row
  down _ _ _ _ _ hrow := nomatch hrow
  drawn _ _ hknown := by
    obtain ⟨r, hr, -⟩ := hknown
    cases hr
  lost _ hb := nomatch hb

/-- **What a step does**: what its call guarantees, when that drives an engine of a live game, and nothing
of the kind otherwise. -/
def Acts (env : Env) (p q : State) : Prop :=
  Foreign env p.world q.world ∨ ∃ (i : Nat) (t : Task World Choice Call) (e : EngineRef),
    p.tasks[i]? = some t ∧ t.live ∧ t.call.drives = some e ∧
      (GameEngine.live? env e).isSome = true ∧ p.world.Undisturbed t.call ∧
        FlightGuar t.call p.world q.world ∧
          ∀ e', e' ≠ e → q.world.Keyed e' → q.world.memory e' = p.world.memory e'

/-- What a call that drives an engine of a live game does is permitted. -/
theorem Stepped.flightPermit (h : Stepped (.free env) p x q) (hA : UnbrokenFlights env p x q) {i : Nat}
    {c : Choice} {t : Task World Choice Call} (hx : x = .run i c) (ht : p.tasks[i]? = some t)
    (hl : t.live) (hk : t.call.Flies env) :
    (flightRules env i t.call).permit p.world q.world := by
  refine ⟨?_, hA.found i (List.getElem?_eq_some_iff.mp ht).1 t ht hl hk (by rw [hx]; rfl)⟩
  cases h with
  | move j c' t' hx' ht' hl' hp' hmove =>
      obtain ⟨rfl, rfl⟩ := Event.run.inj (hx'.symm.trans hx)
      obtain rfl := Option.some.inj (ht'.symm.trans ht)
      exact hmove
  | outer y hy hout => cases hx.symm.trans hy
  | stay hw => exact .idle (hw ▸ .refl _)

/-- A step of another call leaves room to one that drives an engine of a live game. -/
theorem Watching.rely (h : Watching env past p) (hA : UnbrokenFlights env p x q)
    (hx : Stepped (.free env) p x q) {i : Nat} {t : Task World Choice Call}
    (ht : p.tasks[i]? = some t) (hl : t.live) (hk : t.call.Flies env)
    (hother : ∀ c, x ≠ .run i c) : FlightRely t.call p.world q.world where
  later := hx.paced.later
  now := hx.paced.now
  memory e he := h.driven.memory hx ht hl he hother
  uncashed {n b b'} hb hb' hd hc := by
    have hnot : ran? x ≠ some i := by
      intro hran
      cases x with
      | run j c => exact hother c (congrArg (Event.run · c) (Option.some.inj hran))
      | _ => cases hran
    exact hA.uncashed i (List.getElem?_eq_some_iff.mp ht).1 t ht hl hk hnot n
      (List.getElem?_eq_some_iff.mp hb).1 b hb b' hb' hd hc

theorem Watching.acts (h : Watching env past p) (hs : (server env).step p x = some q)
    (hA : UnbrokenFlights env p x q) (hsound : Sound (.free env) p.world)
    (hx : Stepped (.free env) p x q) : Acts env p q := by
  cases hx with
  | move i c t hrun ht hl hp hmove =>
      by_cases hk : t.call.Flies env
      · obtain ⟨e, he, hlive⟩ := hk
        have hpermit := (Stepped.move i c t hrun ht hl hp hmove).flightPermit hA hrun ht hl ⟨e, he, hlive⟩
        have hguar := h.watched.guar (hrun ▸ hs) ht ⟨e, he, hlive⟩ (.refl _ _) hsound hpermit
        refine .inr ⟨i, t, e, ht, hl, he, hlive, hpermit.2, hguar, fun e' hne he' => ?_⟩
        refine hmove.memory_eq fun e'' polls hcall hkeyed hidx => hne ?_
        have hsame : e'' = e := by
          rw [hcall] at he
          exact Option.some.inj he
        rw [← hsame]
        exact (he'.eq_of (hmove.later.keyed hkeyed) hidx.symm)
      · exact .inl (hmove.foreign hk)
  | outer y hx h => exact .inl (outside_foreign h)
  | stay hw => exact .inl (hw ▸ .refl _)

variable (h : Watching env past p) (hx : Stepped (.free env) p x q) (hacts : Acts env p q)

include h hx hacts

/-- **A flight goes on until its crash.** -/
theorem Watching.aloft_step {s : State} (hs : s ∈ q :: p :: past) {e : EngineRef} {n : Nat}
    {a : ActiveRound} {c : Millis} (hflying : s.world.Flying env e n a c) :
    q.world.Keyed e ∧ ((q.world.memory e)[n]? = some a ∨ a.phaseStartedAt + c ≤ q.world.now) := by
  rcases List.mem_cons.mp hs with rfl | hs
  · exact ⟨hflying.keyed, .inl hflying.row⟩
  obtain ⟨hkeyed, hrow | hcrashed⟩ := h.aloft s hs e n a c hflying
  · have hkeyed' := hx.paced.later.keyed hkeyed
    refine ⟨hkeyed', ?_⟩
    rcases hacts with hforeign | ⟨i, t, e', ht, hl, he', hlive, -, hguar, hmemory⟩
    · exact .inl (by rw [hforeign.memory e hkeyed' hflying.live, hrow])
    · by_cases hee : e = e'
      · subst hee
        rcases hguar.aloft e he' hrow hflying.phase c hflying.crashAtMs with hkept | hcrashed
        · exact .inl hkept
        · exact .inr (Nat.le_trans hcrashed hx.paced.now)
      · exact .inl (by rw [hmemory e hee hkeyed', hrow])
  · exact ⟨hx.paced.later.keyed hkeyed, .inr (Nat.le_trans hcrashed hx.paced.now)⟩

/-- **What is in flight no more reached its crash.** -/
theorem Watching.down_step {e : EngineRef} {n : Nat} {a' : ActiveRound} (hkeyed : q.world.Keyed e)
    (hlive : (GameEngine.live? env e).isSome = true) (hrow' : (q.world.memory e)[n]? = some a')
    (hcrash' : a'.crashAtMs.isSome = true) (hphase' : a'.phase ≠ .rolling) :
    FlownBy env (q :: p :: past) a'.id q.world.now := by
  have hmono : ∀ {id}, FlownBy env (p :: past) id p.world.now →
      FlownBy env (q :: p :: past) id q.world.now := fun hflown =>
    hflown.mono (fun s hs => List.mem_cons_of_mem q hs) hx.paced.now
  -- a round object that was there before was down before
  have hsame : q.world.memory e = p.world.memory e →
      FlownBy env (q :: p :: past) a'.id q.world.now := fun hm =>
    hmono (h.down e n a' (hx.paced.later.keyed_of_memory (hm ▸ hrow') hkeyed) hlive (hm ▸ hrow')
      hcrash' hphase')
  rcases hacts with hforeign | ⟨i, t, e', ht, hl, he', hlive', -, hguar, hmemory⟩
  · exact hsame (hforeign.memory e hkeyed hlive)
  · by_cases hee : e = e'
    · subst hee
      rcases hguar.taken e he' hrow' hcrash' with hroll | ⟨a, hrow, hid, hcrash⟩
      · exact absurd hroll hphase'
      have hkeyed₀ := h.driven.keyed ht hl he'
      rw [hid]
      by_cases hphase : a.phase = .rolling
      · obtain ⟨c, hc⟩ := Option.isSome_iff_exists.mp (hcrash ▸ hcrash')
        rcases hguar.aloft e he' hrow hphase c hc with hkept | hcrashed
        · obtain rfl := Option.some.inj (hrow'.symm.trans hkept)
          exact absurd hphase hphase'
        · exact hmono ⟨p, List.mem_cons_self, e, n, a, c, ⟨hkeyed₀, hlive, hrow, hphase, hc⟩, rfl,
            hcrashed⟩
      · exact hmono (h.down e n a hkeyed₀ hlive hrow (hcrash ▸ hcrash') hphase)
    · exact hsame (hmemory e hee hkeyed)

/-- **An outcome is stored of a round that was in flight.** -/
theorem Watching.drawn_step {id : Nat} (hlive : q.world.live env id = true)
    (hknown : q.world.OutcomeKnown id) : ∃ s ∈ q :: p :: past, ∃ (e : EngineRef) (n : Nat)
      (a : ActiveRound) (c : Millis), s.world.Flying env e n a c ∧ a.id = id := by
  have hold : p.world.OutcomeKnown id → ∃ s ∈ q :: p :: past, ∃ (e : EngineRef) (n : Nat)
      (a : ActiveRound) (c : Millis), s.world.Flying env e n a c ∧ a.id = id := by
    intro hknown
    obtain ⟨r, hr, ho⟩ := hknown
    obtain ⟨s, hs, hflying⟩ := h.drawn id (hx.paced.later.live hr hlive) ⟨r, hr, ho⟩
    exact ⟨s, List.mem_cons_of_mem q hs, hflying⟩
  obtain ⟨r', hr', ho⟩ := hknown
  have hcases := hacts
  rcases hcases with hforeign | ⟨i, t, e, ht, hl, he, hlive', -, hguar, -⟩
  · exact hold (hforeign.drawn hr' ho hlive)
  rcases hguar.drawn hr' ho with hknown | ⟨e', he', a, hactive, hid, hcrash⟩
  · exact hold hknown
  obtain rfl := Option.some.inj (he.symm.trans he')
  have hkeyed := hx.paced.later.keyed (h.driven.keyed ht hl he)
  rw [World.active?_eq, List.getLast?_eq_getElem?] at hactive
  by_cases hphase : a.phase = .rolling
  · obtain ⟨c, hc⟩ := Option.isSome_iff_exists.mp hcrash
    exact ⟨q, List.mem_cons_self, e, _, a, c, ⟨hkeyed, hlive', hactive, hphase, hc⟩, hid⟩
  · obtain ⟨s, hs, e, n, a', c, hflying, hid', -⟩ :=
      h.down_step hx hacts hkeyed hlive' hactive hcrash hphase
    exact ⟨s, hs, e, n, a', c, hflying, hid'.trans hid⟩

/-- **A bet is lost when the flight of its round has reached the crash.** -/
theorem Watching.lost_step (hsound : Sound (.free env) p.world) : LostAfterCrash env (p :: past) q := by
  intro b' hb' hlost hlive
  obtain ⟨n, hn⟩ := List.mem_iff_getElem?.mp hb'
  have hmono : ∀ {id t}, FlownBy env (p :: past) id t → FlownBy env (q :: p :: past) id t :=
    fun hflown => hflown.mono (fun s hs => List.mem_cons_of_mem q hs) (Nat.le_refl _)
  -- a bet that was lost before
  have hold : (∃ b, p.world.bets[n]? = some b ∧ b.StillLost b') → b'.cashoutPayoutMicro = none ∧
      ∃ t ∈ b'.settledAt, FlownBy env (q :: p :: past) b'.roundId t := by
    rintro ⟨b, hb, hstill⟩
    obtain ⟨r, hr⟩ := hsound.betRound (List.mem_of_getElem? hb)
    rw [hstill.roundId] at hlive ⊢
    obtain ⟨hcash, t, ht, hflown⟩ :=
      h.lost b (List.mem_of_getElem? hb) hstill.won (hx.paced.later.live hr hlive)
    exact ⟨hstill.cashout.trans hcash, t, hstill.settledAt ▸ ht, hmono hflown⟩
  rcases hacts with hforeign | ⟨i, t, e, ht, hl, he, hlive', hundisturbed, hguar, -⟩
  · exact hold (hforeign.lost hn hlost hlive)
  rcases hguar.lost hn hlost with hstill | ⟨hcash, hat, hmay⟩
  · exact hold hstill
  refine ⟨hcash, p.world.now, hat, hmono ?_⟩
  have hkeyed := h.driven.keyed ht hl he
  cases hk : t.call with
  | start e' =>
      rw [hk] at hmay hundisturbed
      obtain ⟨⟨r, hr, hkey⟩, hknown⟩ := hmay
      obtain ⟨s, hs, e, n, a, c, hflying, hid⟩ :=
        h.drawn _ (hx.paced.later.live hr hlive) hknown
      refine ⟨s, hs, e, n, a, c, hflying, hid, ?_⟩
      obtain ⟨-, hrow | hcrashed⟩ := h.aloft s hs e n a c hflying
      · -- a start finds no round of its key in flight
        obtain ⟨engine, hengine, hmem⟩ := World.mem_memory hrow
        have hdown := hundisturbed engine (List.mem_of_getElem? hengine) a hmem
          ⟨r, by rw [hid, hr], hkey⟩
        by_contra hearly
        rw [ActiveRound.airborne, decide_eq_false_iff_not] at hdown
        exact hdown ⟨hflying.phase, by simpa [hflying.crashAtMs] using hearly⟩
      · exact hcrashed
  | iteration e' polls =>
      rw [hk] at hmay
      obtain ⟨a, hactive, hid, hphase, hcrash⟩ := hmay
      obtain rfl : e' = e := by
        rw [hk] at he
        exact Option.some.inj he
      rw [World.active?_eq, List.getLast?_eq_getElem?] at hactive
      rw [← hid]
      exact h.down e' _ a hkeyed hlive' hactive hcrash hphase
  | _ =>
      rw [hk] at hmay
      exact hmay.elim

omit h hacts in
/-- **A step keeps the invariant.** -/
theorem Watching.step (h : Watching env past p) (hs : (server env).step p x = some q)
    (hA : UnbrokenFlights env p x q) (hsound : Sound (.free env) p.world)
    (hsound' : Sound (.free env) q.world) : Watching env (p :: past) q := by
  have hacts := h.acts hs hA hsound hx
  refine ⟨h.driven.step hs hx.paced.later, ?_, fun s hs e n a c => h.aloft_step hx hacts hs,
    fun e n a => h.down_step hx hacts, fun id => h.drawn_step hx hacts, h.lost_step hx hacts hsound⟩
  refine h.watched.step hs (fun i k w _ => .refl k w) (fun i k _ _ _ _ hab hbc => hab.trans hbc)
    (fun _ _ _ => ⟨hsound, hsound'⟩) (fun i t ht hl hk hother => h.rely hA hx ht hl hk hother)
    (fun i c t hrun ht hk => ?_) fun k hcall hk => ?_
  · subst hrun
    obtain ⟨k, β, run, next, b, w, hi, -, -⟩ := System.runTask_cases hs
    obtain rfl := Option.some.inj (hi.symm.trans ht)
    exact hx.flightPermit hA rfl ht rfl hk
  · subst hcall
    obtain ⟨e, he, hlive⟩ := hk
    obtain ⟨hadm, -⟩ := System.call_cases hs
    have hkeyed := (Call.admitted.alone hadm he).1
    cases k with
    | start e' => exact start_flown
    | iteration e' polls =>
        obtain rfl : e' = e := Option.some.inj he
        exact iteration_flown hkeyed hlive
    | _ => cases he

end Runs

theorem unbrokenFlights_meets (env : Env) : Meets (.free env) (UnbrokenFlights env) where
  permit _ _ := .of_free id id id id
  engines h := h.elim
  countedUp h := h.elim
  fit _ := ⟨fun h => h.elim, fun h => h.elim⟩
  closed h := h.elim
  crashes h := h.elim
  configs h := h.elim
  verifies h := h.elim
  focus _ _ h := nomatch h

/-- **The losses of live rounds.** In every run of any calls in any order, in which every turn of the loop
of a live game finds its engine running while its round is in flight, every start finds no round in
flight, and nobody else cashes out a bet of a round that such a call decides: a bet of a live round is
lost only without a cash-out, and when the flight of its round had reached the crash. -/
theorem lost_after_crash {env : Env} {operators : List OperatorRow}
    {credentials : List OperatorCredential} {gameConfigs : List OperatorGameConfig}
    {past : List State} {p : State}
    (h : (server env).Trace (UnbrokenFlights env)
      (State.initial operators credentials gameConfigs) past p) :
    LostAfterCrash env past p := by
  have hinv : Ready (unbrokenFlights_meets env) p ∧ Watching env past p := by
    refine h.invariant (I := fun past p => Ready (unbrokenFlights_meets env) p ∧ Watching env past p)
      ⟨.initial _ operators credentials gameConfigs, .initial operators credentials gameConfigs⟩ ?_
    intro past p x q hs hA hp
    obtain ⟨hready, hwatching⟩ := hp
    obtain ⟨hready', hx⟩ := hready.step hs hA
    exact ⟨hready', hwatching.step hx hs hA hready.ok.inv hready'.ok.inv⟩
  exact hinv.2.lost

namespace Sample

/-- The live game waits for bets (call 1), and its engine asks up to `polls` times whether the flight is
over; ann's bet (call 3) was accepted. -/
def boarded (polls : Nat) : List Happening :=
  boot 1 0 0 ++ .call (.iteration (engine 1 0) polls) :: run 1 8 ++
    .call (.createSession ⟨0, .named "ann", 1, 0, "INTL", .real, none, .none, none⟩) :: run 2 2 ++
    .call (bet 1 (.liveCrash 0 none)) :: run 3 12 ++
    .env (.deliver 0 ⟨true, .ok, some 90⟩ none) :: .run 3 (.reply 0) :: run 3 12

/-- The flight is on, and the time of its crash comes. -/
def landed : List Happening := boarded 2 ++ run 1 10 ++ .env (.elapse 1000) :: run 1 13

/-- The flight is on, and the engine is stopped at once. -/
def stopped : List Happening := boarded 2 ++ run 1 9 ++ .env (.stop (engine 1 0)) :: run 1 13

end Sample

section Decidable

set_option synthInstance.maxSize 512

instance decidableFlies (env : Env) (k : Call) : Decidable (k.Flies env) :=
  inferInstanceAs (Decidable (∃ e ∈ k.drives, (GameEngine.live? env e).isSome = true))

instance decidableRoundOf (w : World) (id : Nat) (key : EngineKey) : Decidable (w.RoundOf id key) :=
  inferInstanceAs (Decidable (∃ r ∈ w.rounds[id]?, r.key = key))

instance decidableDecides (w : World) (k : Call) (id : Nat) : Decidable (w.Decides k id) := by
  unfold World.Decides
  cases k <;> infer_instance

instance decidableUndisturbed (w : World) (k : Call) : Decidable (w.Undisturbed k) := by
  unfold World.Undisturbed
  cases k <;> infer_instance

instance decidableKeptUncashed (k : Call) (w w' : World) : Decidable (KeptUncashed k w w') :=
  inferInstanceAs (Decidable (∀ n < w.bets.length, ∀ b ∈ w.bets[n]?, ∀ b' ∈ w'.bets[n]?,
    w.Decides k b.roundId → b.cashoutPayoutMicro = none → b'.cashoutPayoutMicro = none))

instance decidableUnbrokenFlights (env : Env) (p : State) (x : Happening) (q : State) :
    Decidable (UnbrokenFlights env p x q) :=
  decidable_of_iff
    ((∀ i < p.tasks.length, ∀ t ∈ p.tasks[i]?, t.live → t.call.Flies env → ran? x = some i →
        p.world.Undisturbed t.call) ∧
      ∀ i < p.tasks.length, ∀ t ∈ p.tasks[i]?, t.live → t.call.Flies env → ran? x ≠ some i →
        KeptUncashed t.call p.world q.world)
    ⟨fun ⟨h₁, h₂⟩ => ⟨h₁, h₂⟩, fun h => ⟨h.found, h.uncashed⟩⟩

instance decidableFlownBy (env : Env) (states : List State) (id : Nat) (t : Millis) :
    Decidable (FlownBy env states id t) :=
  decidable_of_iff
    (∃ s ∈ states, ∃ i < s.world.engines.length, ∃ engine ∈ s.world.engines[i]?,
      (GameEngine.live? env ⟨engine.key, i⟩).isSome = true ∧ ∃ a ∈ engine.actives,
        a.phase = .rolling ∧ a.id = id ∧ ∃ c ∈ a.crashAtMs, a.phaseStartedAt + c ≤ t)
    (by
      constructor
      · rintro ⟨s, hs, i, -, engine, hengine, hlive, a, ha, hphase, hid, c, hc, hle⟩
        obtain ⟨n, hn⟩ := List.mem_iff_getElem?.mp ha
        have hmemory : s.world.memory ⟨engine.key, i⟩ = engine.actives := by
          rw [World.memory, World.engine?, hengine, Option.map_some, Option.getD_some]
        exact ⟨s, hs, ⟨engine.key, i⟩, n, a, c,
          ⟨⟨engine, hengine, rfl⟩, hlive, by rw [hmemory, hn], hphase, hc⟩, hid, hle⟩
      · rintro ⟨s, hs, e, n, a, c, ⟨⟨engine, hengine, hkey⟩, hlive, hrow, hphase, hc⟩, hid, hle⟩
        obtain ⟨engine', hengine', ha⟩ := World.mem_memory hrow
        obtain rfl := Option.some.inj (hengine.symm.trans hengine')
        refine ⟨s, hs, e.index, (List.getElem?_eq_some_iff.mp hengine).1, engine, hengine, ?_, a, ha,
          hphase, hid, c, hc, hle⟩
        have hsame : (⟨engine.key, e.index⟩ : EngineRef) = e := EngineRef.eq_of hkey rfl
        rwa [hsame])

instance decidableLostAfterCrash (env : Env) (past : List State) (p : State) :
    Decidable (LostAfterCrash env past p) :=
  inferInstanceAs (Decidable (∀ b ∈ p.world.bets, b.won = some false →
    p.world.live env b.roundId = true →
      b.cashoutPayoutMicro = none ∧ ∃ t ∈ b.settledAt, FlownBy env (p :: past) b.roundId t))

end Decidable

/-- A bet that nobody cashed out is lost when its flight has landed. -/
theorem lost_when_landed : ∃ past p,
    (server Sample.site).Trace (UnbrokenFlights Sample.site) Sample.start past p ∧
      (p.world.bets.map fun b => (b.won, b.settledAt)) = [(some false, some 1000)] ∧
        LostAfterCrash Sample.site past p := by
  have h : ((server Sample.site).trail (UnbrokenFlights Sample.site) [] Sample.start Sample.landed).any
      (fun r => (r.2.world.bets.map fun b => (b.won, b.settledAt)) = [(some false, some 1000)]) =
        true := by
    decide +kernel
  obtain ⟨⟨past, p⟩, hrun, hv⟩ := (Option.any_eq_true ..).mp h
  have htrace := System.Trace.of_trail .start hrun
  exact ⟨past, p, htrace, of_decide_eq_true hv, lost_after_crash htrace⟩

/-- **A stop ends a flight**: a bet is lost before the crash. -/
theorem lost_when_stopped : ∃ past p,
    (server Sample.site).Trace Anything Sample.start past p ∧ ¬ LostAfterCrash Sample.site past p := by
  have h : ((server Sample.site).trail Anything [] Sample.start Sample.stopped).any
      (fun r => ¬ LostAfterCrash Sample.site r.1 r.2) = true := by
    decide +kernel
  obtain ⟨⟨past, p⟩, hrun, hv⟩ := (Option.any_eq_true ..).mp h
  exact ⟨past, p, .of_trail .start hrun, of_decide_eq_true hv⟩

end YantraRgs
