import YantraRgs.Conduct.Rules

/-! # Where the rows of a world come from

After an action, every row is an old one, an old one that took one of the steps a row may take, or
the one row that the action created. After an outside event the tables are the old ones. -/

namespace YantraRgs

open Await

variable {P : Policy} {i : Nat} {k : Call} {w w' : World}

namespace Move

/-- Where a session comes from. -/
theorem session_origin (h : Move P i k w w') {id : Nat} {s' : GameSession}
    (hs : w'.sessions[id]? = some s') :
    (∃ s, w.sessions[id]? = some s ∧ (s' = s ∨ (SessionStep w id s s' ∧
      (s'.serverSeed ≠ s.serverSeed → w.serial < w'.serial)))) ∨
      (id = w.sessions.length ∧ s'.serverSeed = ⟨w.serial, id⟩ ∧ w.serial < w'.serial) := by
  cases h with
  | idle h => exact .inl ⟨s', by rw [← h.sessions]; exact hs, .inl rfl⟩
  | addSession s h =>
      rcases Table.getElem?_concat_cases hs with hs | ⟨rfl, rfl⟩
      · exact .inl ⟨s', hs, .inl rfl⟩
      · exact .inr ⟨rfl, h, Nat.lt_add_of_pos_right (by decide)⟩
  | session m s t serial hm h hn hr =>
      rcases Table.getElem?_set_cases hs with ⟨rfl, rfl, -⟩ | ⟨-, hs⟩
      · exact .inl ⟨s, hm, .inr ⟨h, hr⟩⟩
      · exact .inl ⟨s', hs, .inl rfl⟩
  | _ => exact .inl ⟨s', hs, .inl rfl⟩

/-- Where a round comes from. -/
theorem round_origin (h : Move P i k w w') {id : Nat} {r' : Round}
    (hr : w'.rounds[id]? = some r') :
    (∃ r, w.rounds[id]? = some r ∧ (r' = r ∨ (RoundStep P k w id r r' ∧ w.Reaches k id))) ∨
      (id = w.rounds.length ∧ NewRound P k w r') := by
  cases h with
  | idle h => exact .inl ⟨r', by rw [← h.rounds]; exact hr, .inl rfl⟩
  | addRound r h =>
      rcases Table.getElem?_concat_cases hr with hr | ⟨rfl, rfl⟩
      · exact .inl ⟨r', hr, .inl rfl⟩
      · exact .inr ⟨rfl, h⟩
  | round m r t hm hk h =>
      rcases Table.getElem?_set_cases hr with ⟨rfl, rfl, -⟩ | ⟨-, hr⟩
      · exact .inl ⟨r, hm, .inr ⟨h, hk⟩⟩
      · exact .inl ⟨r', hr, .inl rfl⟩
  | _ => exact .inl ⟨r', hr, .inl rfl⟩

/-- A round is an old one that got later, or a new one. -/
theorem round_old_or_new (h : Move P i k w w') {id : Nat} {r' : Round}
    (hr : w'.rounds[id]? = some r') :
    (∃ r, w.rounds[id]? = some r ∧ r.Later r') ∨ (id = w.rounds.length ∧ NewRound P k w r') := by
  rcases h.round_origin hr with ⟨r, hr, rfl | ⟨hs, -⟩⟩ | hnew
  · exact .inl ⟨_, hr, .refl _⟩
  · exact .inl ⟨r, hr, hs.later⟩
  · exact .inr hnew

/-- Where a bet comes from. -/
theorem bet_origin (h : Move P i k w w') {id : Nat} {b' : Bet} (hb : w'.bets[id]? = some b') :
    (∃ b, w.bets[id]? = some b ∧ (b' = b ∨ (BetStep P i k w b b' ∧ w.Reaches k b.roundId))) ∨
      (id = w.bets.length ∧ NewBet i k w b') := by
  cases h with
  | idle h => exact .inl ⟨b', by rw [← h.bets]; exact hb, .inl rfl⟩
  | addBet b h =>
      rcases Table.getElem?_concat_cases hb with hb | ⟨rfl, rfl⟩
      · exact .inl ⟨b', hb, .inl rfl⟩
      · exact .inr ⟨rfl, h⟩
  | bet m b t hm hk h =>
      rcases Table.getElem?_set_cases hb with ⟨rfl, rfl, -⟩ | ⟨-, hb⟩
      · exact .inl ⟨b, hm, .inr ⟨h, hk⟩⟩
      · exact .inl ⟨b', hb, .inl rfl⟩
  | _ => exact .inl ⟨b', hb, .inl rfl⟩

/-- Where a job comes from. -/
theorem job_origin (h : Move P i k w w') {id : Nat} {j' : PendingWalletJob}
    (hj : w'.jobs[id]? = some j') :
    (∃ j, w.jobs[id]? = some j ∧ (j' = j ∨ (JobStep P i w j j'))) ∨
      (id = w.jobs.length ∧ NewJob P i k w j') := by
  cases h with
  | idle h => exact .inl ⟨j', by rw [← h.jobs]; exact hj, .inl rfl⟩
  | addJob j h =>
      rcases Table.getElem?_concat_cases hj with hj | ⟨rfl, rfl⟩
      · exact .inl ⟨j', hj, .inl rfl⟩
      · exact .inr ⟨rfl, h⟩
  | job m j t hm h =>
      rcases Table.getElem?_set_cases hj with ⟨rfl, rfl, -⟩ | ⟨-, hj⟩
      · exact .inl ⟨j, hm, .inr h⟩
      · exact .inl ⟨j', hj, .inl rfl⟩
  | _ => exact .inl ⟨j', hj, .inl rfl⟩

/-- Where a request on the wire comes from. -/
theorem wire_origin (h : Move P i k w w') {s : Sent} (hs : s ∈ w'.wire) :
    s ∈ w.wire ∨ (w' = w.hand s ∧ s.caller = i ∧ Handing P i k w s ∧ Journalled P w s) := by
  cases h with
  | idle h => exact .inl (by rw [← h.wire]; exact hs)
  | hand t hc h hr =>
      rcases List.mem_append.mp hs with hs | hs
      · exact .inl hs
      · obtain rfl := List.mem_singleton.mp hs
        exact .inr ⟨rfl, hc, h, hr⟩
  | _ => exact .inl hs

/-- Where a journal row comes from. -/
theorem call_origin (h : Move P i k w w') {c' : WalletCall} (hc : c' ∈ w'.walletCalls) :
    (∃ c ∈ w.walletCalls, c.key = c'.key) ∨ (NewCall P i w c' ∧ w'.wire = w.wire) := by
  cases h with
  | idle h =>
      obtain ⟨n, hn⟩ := List.mem_iff_getElem?.mp hc
      have := congrArg (fun l => l[n]?) h.calls
      simp only [List.getElem?_map, hn, Option.map_some] at this
      obtain ⟨c, hc, hk⟩ := Option.map_eq_some_iff.mp this.symm
      exact .inl ⟨c, List.mem_of_getElem? hc, hk⟩
  | addCall c h hk =>
      rcases List.mem_append.mp hc with hc | hc
      · exact .inl ⟨c', hc, rfl⟩
      · obtain rfl := List.mem_singleton.mp hc
        exact .inr ⟨h, rfl⟩
  | _ => exact .inl ⟨c', hc, rfl⟩

/-- Which engines are known does not change. -/
theorem keyed_iff (h : Move P i k w w') (e : EngineRef) : w'.Keyed e ↔ w.Keyed e := by
  refine ⟨fun he => ?_, h.later.keyed⟩
  cases h with
  | idle h => exact keyed_of_tracked (tracked_engine h.engines e).symm he
  | phase => exact (keyed_updateEngine fun _ => by rfl).mp he
  | activate => exact (keyed_updateEngine fun _ => by rfl).mp he
  | begin => exact (keyed_updateEngine fun _ => by rfl).mp he
  | _ => exact he

/-- Where an active round comes from. -/
theorem active_origin (h : Move P i k w w') {e : EngineRef} {id : Nat}
    (hid : id ∈ w'.activeIds e) :
    id ∈ w.activeIds e ∨ ∃ e' polls, k = .iteration e' polls ∧ e'.index = e.index ∧
      w.Keyed e' ∧ w.RoundOf id e'.key := by
  cases h with
  | idle h => exact .inl (by rwa [activeIds_of_tracked (tracked_engine h.engines e)] at hid)
  | phase e' polls he hk f hf =>
      have hsame := (Alike.updateActive hf w e').engines
      exact .inl (by rwa [activeIds_of_tracked (tracked_engine hsame e)] at hid)
  | activate e' polls he active hk hr =>
      obtain ⟨engine, hengine, hid⟩ := mem_activeIds.mp hid
      rw [engine?_updateEngine] at hengine
      obtain ⟨engine₀, h₀, rfl⟩ := Option.map_eq_some_iff.mp hengine
      by_cases hidx : e'.index = e.index
      · rw [if_pos hidx, List.map_append, List.mem_append] at hid
        rcases hid with hid | hid
        · exact .inl (mem_activeIds.mpr ⟨engine₀, h₀, hid⟩)
        · obtain rfl := List.mem_singleton.mp hid
          obtain ⟨r, hr, hkey, -⟩ := hr
          exact .inr ⟨e', polls, he, hidx, hk, r, hr, hkey⟩
      · rw [if_neg hidx] at hid
        exact .inl (mem_activeIds.mpr ⟨engine₀, h₀, hid⟩)
  | begin e' he hk h =>
      obtain ⟨engine, hengine, hid⟩ := mem_activeIds.mp hid
      rw [engine?_updateEngine] at hengine
      obtain ⟨engine₀, h₀, rfl⟩ := Option.map_eq_some_iff.mp hengine
      refine .inl (mem_activeIds.mpr ⟨engine₀, h₀, ?_⟩)
      split at hid <;> exact hid
  | _ => exact .inl hid

/-- Where a round in an engine's memory comes from. -/
theorem actives_origin (h : Move P i k w w') {engine' : Engine} {a' : ActiveRound}
    (he : engine' ∈ w'.engines) (ha : a' ∈ engine'.actives) :
    (∃ engine ∈ w.engines, ∃ a ∈ engine.actives, a.tracked = a'.tracked) ∨
      ∃ r, w'.rounds[a'.id]? = some r ∧ r.rngContext = GameEngine.rngContext a' := by
  have hsame : w'.engines.map Engine.tracked = w.engines.map Engine.tracked →
      ∃ engine ∈ w.engines, ∃ a ∈ engine.actives, a.tracked = a'.tracked := by
    intro hengines
    have hmem : engine'.tracked ∈ w'.engines.map Engine.tracked := List.mem_map_of_mem he
    rw [hengines] at hmem
    obtain ⟨engine, he, htracked⟩ := List.mem_map.mp hmem
    have hactive : a'.tracked ∈ engine'.actives.map ActiveRound.tracked := List.mem_map_of_mem ha
    rw [← show engine.actives.map ActiveRound.tracked = engine'.actives.map ActiveRound.tracked
      from congrArg (fun t => t.2.1) htracked] at hactive
    obtain ⟨a, ha, hat⟩ := List.mem_map.mp hactive
    exact ⟨engine, he, a, ha, hat⟩
  cases h with
  | idle h => exact .inl (hsame h.engines)
  | phase e polls hk hkeyed f hf => exact .inl (hsame (Alike.updateActive hf w e).engines)
  | activate e polls hk active hkeyed hr =>
      rcases Table.mem_modify_cases he with he | ⟨engine, hengine, rfl⟩
      · exact .inl ⟨engine', he, a', ha, rfl⟩
      · rcases List.mem_append.mp ha with ha | ha
        · exact .inl ⟨engine, hengine, a', ha, rfl⟩
        · obtain rfl := List.mem_singleton.mp ha
          obtain ⟨r, hr, -, hctx⟩ := hr
          exact .inr ⟨r, hr, hctx⟩
  | begin e he' hk h =>
      rcases Table.mem_modify_cases he with he | ⟨engine, hengine, rfl⟩
      · exact .inl ⟨engine', he, a', ha, rfl⟩
      · exact .inl ⟨engine, hengine, a', ha, rfl⟩
  | _ => exact .inl ⟨engine', he, a', ha, rfl⟩

/-- No call changes a stored configuration. -/
theorem gameConfigs_eq (h : Move P i k w w') : w'.gameConfigs = w.gameConfigs := by
  cases h with
  | idle h => exact h.configs
  | _ => rfl

/-- Where an answer comes from. -/
theorem answer_origin (h : Move P i k w w') {j : Nat} {x : Answer} (hx : (j, x) ∈ w'.answers) :
    (j, x) ∈ w.answers ∨ (j = i ∧ (P.agreeing → k.shows = true → x.Agrees)) := by
  cases h with
  | idle h => exact .inl (h.answers ▸ hx)
  | answer y h =>
      rcases List.mem_append.mp hx with hx | hx
      · exact .inl hx
      · obtain ⟨rfl, rfl⟩ := Prod.mk.inj (List.mem_singleton.mp hx)
        exact .inr ⟨rfl, h⟩
  | _ => exact .inl hx

/-- The active rounds of an engine are left alone by every call but a turn of its own loop. -/
theorem activeIds_eq (h : Move P i k w w') {e : EngineRef}
    (hk : ∀ e' polls, k = .iteration e' polls → w.Keyed e' → e'.index ≠ e.index) :
    w'.activeIds e = w.activeIds e := by
  have hupdate : ∀ (e' : EngineRef) (f : Engine → Engine),
      (e'.index = e.index → ∀ engine, (f engine).actives = engine.actives) →
      (w.updateEngine e' f).activeIds e = w.activeIds e := by
    intro e' f hf
    simp only [World.activeIds, engine?_updateEngine]
    cases w.engine? e with
    | none => rfl
    | some engine =>
        simp only [Option.map_some, Option.getD_some]
        split
        · rw [hf (by assumption)]
        · rfl
  cases h with
  | idle h => exact activeIds_of_tracked (tracked_engine h.engines e)
  | phase e' polls he hkeyed f hf =>
      exact activeIds_of_tracked (tracked_engine (Alike.updateActive hf w e').engines e)
  | activate e' polls he active hkeyed hr =>
      exact hupdate e' _ fun hidx => absurd hidx (hk e' polls he hkeyed)
  | begin e' he hk' h => exact hupdate e' _ fun _ _ => rfl
  | _ => rfl

end Move

/-- The tables that an outside event does not touch. -/
structure Outer (w w' : World) : Prop where
  serial : w'.serial = w.serial
  sessions : w'.sessions = w.sessions
  rounds : w'.rounds = w.rounds
  bets : w'.bets = w.bets
  jobs : w'.jobs = w.jobs
  wire : w'.wire = w.wire
  calls : w'.walletCalls = w.walletCalls
  answers : w'.answers = w.answers
  active : ∀ e, w'.activeIds e = w.activeIds e
  actives : ∀ engine' ∈ w'.engines, ∀ a ∈ engine'.actives, ∃ engine ∈ w.engines, a ∈ engine.actives
  keyed : ∀ e, w'.Keyed e → w.Keyed e ∨ w'.activeIds e = []

/-- **Outside events do not touch the tables.** -/
theorem outside_outer {x : Outside} (h : w.outside x = some w') : Outer w w' := by
  have hupdate : ∀ (e' : EngineRef) (f : Engine → Engine), (∀ engine, (f engine).key = engine.key) →
      (∀ engine, (f engine).actives = engine.actives) → Outer w (w.updateEngine e' f) := by
    intro e' f hkey hact
    refine ⟨rfl, rfl, rfl, rfl, rfl, rfl, rfl, rfl, fun e => ?_, fun engine' he a ha => ?_,
      fun e he => .inl ((keyed_updateEngine hkey).mp he)⟩
    · simp only [World.activeIds, engine?_updateEngine]
      cases w.engine? e with
      | none => rfl
      | some engine =>
          simp only [Option.map_some, Option.getD_some]
          split
          · rw [hact]
          · rfl
    · rcases Table.mem_modify_cases he with he | ⟨engine, hengine, rfl⟩
      · exact ⟨engine', he, ha⟩
      · exact ⟨engine, hengine, hact engine ▸ ha⟩
  have hkept : ∀ v : World, v.engines = w.engines → ∀ engine' ∈ v.engines, ∀ a ∈ engine'.actives,
      ∃ engine ∈ w.engines, a ∈ engine.actives :=
    fun v hv engine' he a ha => ⟨engine', hv ▸ he, ha⟩
  cases x with
  | elapse ms =>
      obtain rfl : _ = w' := by simpa [World.outside] using h
      exact ⟨rfl, rfl, rfl, rfl, rfl, rfl, rfl, rfl, fun _ => rfl, hkept _ rfl, fun _ he => .inl he⟩
  | deliver sent v message =>
      simp only [World.outside, World.deliver] at h
      split at h
      · obtain ⟨s, -, h⟩ := Option.bind_eq_some_iff.mp h
        obtain ⟨book, -, rfl⟩ := Option.map_eq_some_iff.mp h
        exact ⟨rfl, rfl, rfl, rfl, rfl, rfl, rfl, rfl, fun _ => rfl, hkept _ rfl,
          fun _ he => .inl he⟩
      · cases h
  | drop sent =>
      obtain rfl : _ = w' := by simpa [World.outside] using h
      exact ⟨rfl, rfl, rfl, rfl, rfl, rfl, rfl, rfl, fun _ => rfl, hkept _ rfl, fun _ he => .inl he⟩
  | boot key cfg gameConfig =>
      obtain rfl : _ = w' := by simpa [World.outside] using h
      have hact : ∀ e : EngineRef, World.activeIds { w with
          engines := w.engines ++ [⟨key, cfg, gameConfig, [], false, true, .fresh⟩] } e =
          w.activeIds e := by
        intro e
        simp only [World.activeIds, World.engine?, List.getElem?_append]
        split
        · rfl
        · rename_i hlen
          rw [List.getElem?_singleton, List.getElem?_eq_none (by omega)]
          split <;> rfl
      refine ⟨rfl, rfl, rfl, rfl, rfl, rfl, rfl, rfl, hact, fun engine he a ha => ?_,
        fun e he => ?_⟩
      · rcases List.mem_append.mp he with he | he
        · exact ⟨engine, he, ha⟩
        · obtain rfl := List.mem_singleton.mp he
          cases ha
      · obtain ⟨engine, he, hk⟩ := he
        rcases Table.getElem?_concat_cases he with he | ⟨hidx, -⟩
        · exact .inl ⟨engine, he, hk⟩
        · right
          rw [hact, World.activeIds, World.engine?, List.getElem?_eq_none (by omega)]
          rfl
  | stop e =>
      obtain rfl : _ = w' := by simpa [World.outside] using h
      exact hupdate e _ (fun _ => rfl) fun _ => rfl
  | die e =>
      obtain rfl : _ = w' := by simpa [World.outside] using h
      exact hupdate e _ (fun _ => rfl) fun _ => rfl
  | configure e cfg gameConfig =>
      obtain rfl : _ = w' := by simpa [World.outside] using h
      exact hupdate e _ (fun _ => rfl) fun _ => rfl
  | patch id patch =>
      obtain rfl : _ = w' := by simpa [World.outside] using h
      exact ⟨rfl, rfl, rfl, rfl, rfl, rfl, rfl, rfl, fun _ => rfl, hkept _ rfl, fun _ he => .inl he⟩

end YantraRgs
